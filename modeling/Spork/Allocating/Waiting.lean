import Spork.Allocating.Claims
import Spork.Lib.GroupBy

/-! Picks made on devices against a read of the walk (`walk.ts`, `usePicking.ts`), kept
there and sent later (`outbox.ts`), with the claim each works out when it is pressed. -/
namespace Spork
namespace Allocating

/-- A row of the walk. -/
structure PickLine where
  fulfilmentLineId : ℕ
  stockId : Option ℕ
  remaining : ℤ
  picked : ℤ
  covered : ℤ
  available : Option ℤ
  deriving DecidableEq, Repr

/-- A read of the walk: a row for each line it has. -/
structure PickListScreen where
  lines : List PickLine
  ids : (lines.map PickLine.fulfilmentLineId).Nodup

/-- The claim to make before picking from a line. -/
def claimFor (line : PickLine) (quantity : ℤ) : ℤ := max 0 (line.picked+quantity-line.covered)

/-- A pick, as kept. -/
structure HeldPick where
  line : ℕ
  stock : ℕ
  quantity : ℤ
  claim : ℤ
  deriving DecidableEq, Repr

/-- What a line has waiting: units, and units claimed. -/
structure Tally where
  quantity : ℤ
  claim : ℤ
  deriving DecidableEq, Repr

def tally (waiting : List HeldPick) : ℕ → Option Tally :=
  waiting.foldl (fun totals w =>
    let sum := (totals w.line).getD ⟨0,0⟩
    Function.update totals w.line (some ⟨sum.quantity+w.quantity,sum.claim+w.claim⟩)) fun _ => none

def overlayLine (held : Tally) (line : PickLine) : Option PickLine :=
  let remaining := line.remaining-held.quantity
  if remaining ≤ 0 then none
  else some {line with
    picked := line.picked+held.quantity
    covered := line.covered+held.claim
    remaining := remaining
    available := line.available.map fun n => max 0 (n-held.quantity)}

/-- The walk as the picker has left it. -/
def overlay (lines : List PickLine) (waiting : List HeldPick) : List PickLine :=
  if waiting.length = 0 then lines
  else lines.filterMap fun line =>
    match tally waiting line.fulfilmentLineId with
    | none => some line
    | some held => overlayLine held line

/-- The press of Take on the row that is confirmed. -/
def take (confirmed : PickLine) (asked : ℤ) : Except String HeldPick :=
  match confirmed.stockId with
  | none => .error "No stock of this item at this site."
  | some stock =>
    if asked ≤ 0 then .error "Enter a quantity."
    else if asked > confirmed.remaining then
      .error ("The line needs "++toString confirmed.remaining++". Cannot pick "++toString asked++".")
    else .ok ⟨confirmed.fulfilmentLineId,stock,asked,claimFor confirmed asked⟩

/-- A device: its last read, and what it has waiting. -/
structure Device where
  screen : PickListScreen
  waiting : List HeldPick

/-- A pick of a line by the row its screen shows. -/
def press (d : Device) (pick : ℕ × ℤ) : Option Device :=
  ((overlay d.screen.lines d.waiting).find? fun l => l.fulfilmentLineId = pick.1).bind fun row =>
    ((take row pick.2).toOption).map fun w => {d with waiting := d.waiting++[w]}

/-- A device's picks since its read. -/
structure Walked where
  read : PickListScreen
  presses : List (ℕ × ℤ)
  waiting : List HeldPick
  ran : Runs.run press ⟨read,[]⟩ presses = some ⟨read,waiting⟩

/-! ## Sending -/

/-- What the server has of each line, and its cells. -/
structure Server where
  tenantId : ℕ
  lines : ℕ → Option FulfilmentLine
  picked : ℕ → ℤ
  cells : ℕ → Option StockCell

/-- What `/allocations` finds wrong with a pick's claim. -/
def claimProblems (s : Server) (w : HeldPick) : List Problem :=
  if w.claim > 0 then check ⟨s.tenantId,w.line,w.stock,w.claim,false,0⟩ (s.lines w.line) (s.cells w.stock) else []

/-- A kept pick is sent: its claim where it has one, and, refused or not, the pick. -/
def sendPick (s : Server) (w : HeldPick) : Server :=
  {s with
    lines := if w.claim > 0 ∧ (claimProblems s w).filter isHard = [] then
        Function.update s.lines w.line ((s.lines w.line).map fun l => {l with coveredQuantity := l.coveredQuantity+w.claim})
      else s.lines
    picked := Function.update s.picked w.line (s.picked w.line+w.quantity)}

def overCovered : Problem → Bool
  | .overCovers _ _ _ => true
  | _ => false

/-- No claim on a line is refused as over-covering. -/
def NoneOver (s : Server) (sent : List HeldPick) (line : ℕ) : Prop :=
  ∀ before w after, sent = before++w :: after → w.line = line →
    (claimProblems (before.foldl sendPick s) w).any overCovered = false

/-- No claim on a line is refused so, and once all are sent what is picked of it is covered,
and no more is covered than it commits. -/
def LandsClean (s : Server) (sent : List HeldPick) (line : ℕ) : Prop :=
  NoneOver s sent line ∧
  ∀ l ∈ (sent.foldl sendPick s).lines line,
    (sent.foldl sendPick s).picked line ≤ l.coveredQuantity ∧ l.coveredQuantity ≤ l.quantity

/-! ## What a device counts on -/

/-- What picks take of a line. -/
def asked (presses : List (ℕ × ℤ)) (line : ℕ) : ℤ := ((presses.filter fun p => p.1 = line).map Prod.snd).sum

/-- What picks of a line take of the cover a read shows beyond what is picked. -/
def countedOn (read : PickListScreen) (presses : List (ℕ × ℤ)) (line : ℕ) : ℤ :=
  if presses.any (fun p => p.1 = line) then
    ((read.lines.find? fun l => l.fulfilmentLineId = line).map fun row =>
      min (asked presses line) (row.covered-row.picked)).getD 0
  else 0

/-- What is waiting of a line. -/
def waitingOf (waiting : List HeldPick) (line : ℕ) (f : HeldPick → ℤ) : ℤ :=
  ((waiting.filter fun w => w.line = line).map f).sum

@[simp] theorem waitingOf_nil (line : ℕ) (f : HeldPick → ℤ) : waitingOf [] line f = 0 := rfl

@[simp] theorem waitingOf_append (xs ys : List HeldPick) (line : ℕ) (f : HeldPick → ℤ) :
    waitingOf (xs++ys) line f = waitingOf xs line f+waitingOf ys line f := by
  rw [waitingOf,List.filter_append,List.map_append,List.sum_append,waitingOf,waitingOf]

@[simp] theorem waitingOf_cons (w : HeldPick) (ws : List HeldPick) (line : ℕ) (f : HeldPick → ℤ) :
    waitingOf (w :: ws) line f = (if w.line = line then f w else 0)+waitingOf ws line f := by
  by_cases h : w.line = line <;> simp [waitingOf,h]

theorem waitingOf_none {ws : List HeldPick} {line : ℕ} (h : ws.any (fun w => w.line = line) = false) (f : HeldPick → ℤ) :
    waitingOf ws line f = 0 := by
  have hnil : ws.filter (fun w => w.line = line) = [] :=
    List.filter_eq_nil_iff.mpr fun w hw => by simpa using List.any_eq_false.mp h w hw
  rw [waitingOf,hnil]
  rfl

theorem tally_append (xs : List HeldPick) (w : HeldPick) : tally (xs++[w]) =
    Function.update (tally xs) w.line (some ⟨((tally xs w.line).getD ⟨0,0⟩).quantity+w.quantity,
      ((tally xs w.line).getD ⟨0,0⟩).claim+w.claim⟩) := by
  rw [tally,List.foldl_append]
  rfl

/-- A tally is the sums of what is waiting, where there is anything. -/
theorem tally_eq (waiting : List HeldPick) (line : ℕ) : tally waiting line =
    if waiting.any (fun w => w.line = line) then
      some ⟨waitingOf waiting line HeldPick.quantity,waitingOf waiting line HeldPick.claim⟩ else none := by
  induction waiting using List.reverseRecOn with
  | nil => rfl
  | append_singleton xs w ih =>
    rw [tally_append,waitingOf_append,waitingOf_append,List.any_append]
    by_cases hline : w.line = line
    · subst hline
      rw [Function.update_self,ih]
      cases hany : xs.any (fun w' => w'.line = w.line) with
      | true => simp
      | false => simp [waitingOf_none hany]
    · rw [Function.update_of_ne (Ne.symm hline),ih]
      simp [hline]

/-- What a screen shows of a row, with sums waiting of its line. -/
theorem overlayLine_some {held : Tally} {r row : PickLine} (h : overlayLine held r = some row) :
    row.fulfilmentLineId = r.fulfilmentLineId ∧ row.picked = r.picked+held.quantity ∧
      row.covered = r.covered+held.claim := by
  obtain ⟨-,heq⟩ := Option.ite_none_left_eq_some.mp h
  cases heq
  exact ⟨rfl,rfl,rfl⟩

/-- A read has one row of a line. -/
theorem PickListScreen.find_row (screen : PickListScreen) {r : PickLine} (hr : r ∈ screen.lines) :
    screen.lines.find? (fun l => l.fulfilmentLineId = r.fulfilmentLineId) = some r :=
  GroupBy.find_keyed screen.ids hr

/-- The row of a line on the screen is that of the read, less what is waiting of it. -/
theorem find_overlay {screen : PickListScreen} {waiting : List HeldPick} {line : ℕ} {row : PickLine}
    (h : (overlay screen.lines waiting).find? (fun l => l.fulfilmentLineId = line) = some row) :
    row.fulfilmentLineId = line ∧ ∃ r, screen.lines.find? (fun l => l.fulfilmentLineId = line) = some r ∧
      row.picked = r.picked+waitingOf waiting line HeldPick.quantity ∧
        row.covered = r.covered+waitingOf waiting line HeldPick.claim := by
  have hid : row.fulfilmentLineId = line := by simpa using List.find?_some h
  have hmem := List.mem_of_find?_eq_some h
  refine ⟨hid,?_⟩
  rw [overlay] at hmem
  split at hmem
  · rename_i hnone
    rw [List.length_eq_zero_iff.mp hnone]
    exact ⟨row,hid ▸ screen.find_row hmem,by simp,by simp⟩
  · obtain ⟨r,hr,hrow⟩ := List.mem_filterMap.mp hmem
    rw [tally_eq] at hrow
    cases hany : waiting.any (fun w => w.line = r.fulfilmentLineId) with
    | false =>
      rw [hany] at hrow
      cases hrow
      rw [hid] at hany
      exact ⟨row,hid ▸ screen.find_row hr,by simp [waitingOf_none hany],by simp [waitingOf_none hany]⟩
    | true =>
      rw [hany] at hrow
      obtain ⟨hsame,hpicked,hcovered⟩ := overlayLine_some hrow
      obtain rfl : r.fulfilmentLineId = line := hsame.symm.trans hid
      exact ⟨r,screen.find_row hr,hpicked,hcovered⟩

/-! ## What a device claims -/

/-- A pick that is kept, by the row it was pressed on. -/
theorem press_some {d d' : Device} {pick : ℕ × ℤ} (h : press d pick = some d') :
    ∃ r w, d.screen.lines.find? (fun l => l.fulfilmentLineId = pick.1) = some r ∧
      d' = {d with waiting := d.waiting++[w]} ∧ w.line = pick.1 ∧ w.quantity = pick.2 ∧ 0 < pick.2 ∧
        w.claim = max 0 (r.picked+waitingOf d.waiting pick.1 HeldPick.quantity+pick.2-
          (r.covered+waitingOf d.waiting pick.1 HeldPick.claim)) := by
  obtain ⟨row,hrow,h⟩ := Option.bind_eq_some_iff.mp h
  obtain ⟨w,hw,rfl⟩ := Option.map_eq_some_iff.mp h
  obtain ⟨hid,r,hr,hpicked,hcovered⟩ := find_overlay hrow
  refine ⟨r,w,hr,rfl,?_⟩
  unfold take at hw
  split at hw
  · cases hw
  · split at hw
    · cases hw
    · rename_i hpositive
      split at hw
      · cases hw
      · cases hw
        exact ⟨hid,rfl,not_le.mp hpositive,by rw [claimFor,hpicked,hcovered]⟩

theorem asked_append (presses : List (ℕ × ℤ)) (pick : ℕ × ℤ) (line : ℕ) :
    asked (presses++[pick]) line = asked presses line+if pick.1 = line then pick.2 else 0 := by
  by_cases h : pick.1 = line <;> simp [asked,h]

/-- What a device claims of a line is what it picks of it less the cover it counted on. -/
theorem waiting_claims {read : PickListScreen} {presses : List (ℕ × ℤ)} {d : Device} (line : ℕ)
    (h : Runs.run press ⟨read,[]⟩ presses = some d) : d.screen = read ∧
      waitingOf d.waiting line HeldPick.quantity = asked presses line ∧
      waitingOf d.waiting line HeldPick.claim = asked presses line-countedOn read presses line ∧
      ∀ w ∈ d.waiting, 0 ≤ w.claim := by
  induction presses using List.reverseRecOn generalizing d with
  | nil =>
    cases h
    exact ⟨rfl,rfl,rfl,by simp⟩
  | append_singleton presses pick ih =>
    obtain ⟨d₀,hbefore,hlast⟩ := Runs.run_of_snoc h
    obtain ⟨hscreen,hquantity,hclaim,hnonneg⟩ := ih hbefore
    obtain ⟨r,w,hr,rfl,hline,hunits,hpositive,hw⟩ := press_some hlast
    refine ⟨hscreen,?_,?_,fun w' hw' => ?_⟩
    · simp only [waitingOf_append,waitingOf_cons,waitingOf_nil,add_zero,hquantity,asked_append,hline,hunits]
    · simp only [waitingOf_append,waitingOf_cons,waitingOf_nil,add_zero,hclaim,asked_append,hline]
      by_cases hpick : pick.1 = line
      · subst hpick
        rw [hscreen] at hr
        rw [hquantity,hclaim] at hw
        simp only [countedOn,hr,List.any_append,List.any_cons,decide_true,Bool.true_or,Bool.or_true,if_true,
          asked_append,Option.map_some,Option.getD_some] at hw ⊢
        cases hany : presses.any (fun p => p.1 = pick.1) with
        | true =>
          rw [hany,if_pos rfl] at hw
          rw [if_pos rfl]
          omega
        | false =>
          have hnone : asked presses pick.1 = 0 := by
            rw [asked,List.filter_eq_nil_iff.mpr fun p hp => by simpa using List.any_eq_false.mp hany p hp]
            rfl
          rw [hany,if_neg Bool.false_ne_true,hnone] at hw
          rw [if_neg Bool.false_ne_true,hnone]
          omega
      · simp only [countedOn,asked_append,hpick,List.any_append,List.any_cons,List.any_nil,decide_false,Bool.or_false,
          if_false,add_zero]
    · rcases List.mem_append.mp hw' with hw' | hw'
      · exact hnonneg w' hw'
      · rw [List.mem_singleton.mp hw',hw]
        exact le_max_left _ _

/-! ## What the server makes of it -/

/-- Nothing but how much of its line is covered stands against a pick's claim. -/
structure Claimable (s : Server) (l : FulfilmentLine) (w : HeldPick) : Prop where
  tenant : l.tenantId = s.tenantId
  standing : l.fulfilmentCancelled = false
  cell : ∃ c, s.cells w.stock = some c ∧ c.tenantId = s.tenantId ∧ l.itemId = c.itemId ∧ c.holderPackageId = none ∧
    c.holderLocationId.isSome = true

variable {s : Server} {l : FulfilmentLine} {w : HeldPick} {sent : List HeldPick} {line : ℕ}

/-- What is hard about a claim is that it over-covers. -/
theorem Claimable.hard (h : Claimable s l w) (hl : s.lines w.line = some l) : (claimProblems s w).filter isHard =
    if 0 < w.claim ∧ l.quantity-l.coveredQuantity < w.claim then
      [.overCovers l.quantity l.coveredQuantity w.claim] else [] := by
  obtain ⟨c,hc,htenant,hitem,hpackage,hlocation⟩ := h.cell
  by_cases hclaim : 0 < w.claim
  · have hholder : ¬c.holderLocationId = none := by
      cases hloc : c.holderLocationId <;> simp [hloc] at hlocation ⊢
    by_cases havailable : c.availableQuantity < w.claim <;> by_cases hover : l.quantity-l.coveredQuantity < w.claim <;>
      simp [claimProblems,check,hl,hc,hclaim,htenant,h.tenant,h.standing,hitem,hpackage,hholder,havailable,hover,isHard,
        not_le.mpr hclaim]
  · rw [if_neg fun hboth => hclaim hboth.1,claimProblems,if_neg hclaim]
    rfl

theorem any_overCovered (ps : List Problem) : ps.any overCovered = (ps.filter isHard).any overCovered := by
  rw [List.any_filter]
  refine congrArg ps.any ?_
  funext p
  cases p <;> rfl

theorem Claimable.refused_iff (h : Claimable s l w) (hl : s.lines w.line = some l) :
    (claimProblems s w).any overCovered = false ↔ (0 < w.claim → w.claim ≤ l.quantity-l.coveredQuantity) := by
  rw [any_overCovered,h.hard hl]
  by_cases hover : 0 < w.claim ∧ l.quantity-l.coveredQuantity < w.claim
  · rw [if_pos hover]
    exact iff_of_false (by simp [overCovered]) fun hle => absurd (hle hover.1) (not_le.mpr hover.2)
  · rw [if_neg hover]
    exact iff_of_true rfl fun hclaim => not_lt.mp fun hlt => hover ⟨hclaim,hlt⟩

theorem sendPick_other (hline : w.line ≠ line) : (sendPick s w).lines line = s.lines line ∧
    (sendPick s w).picked line = s.picked line := by
  refine ⟨?_,Function.update_of_ne (Ne.symm hline) ..⟩
  rw [sendPick]
  dsimp only
  split
  · rw [Function.update_of_ne (Ne.symm hline)]
  · rfl

/-- A pick whose claim is let through lands whole. -/
theorem Claimable.lands (h : Claimable s l w) (hl : s.lines w.line = some l) (hclaim : 0 ≤ w.claim)
    (hfits : 0 < w.claim → w.claim ≤ l.quantity-l.coveredQuantity) :
    (sendPick s w).lines w.line = some {l with coveredQuantity := l.coveredQuantity+w.claim} ∧
      (sendPick s w).picked w.line = s.picked w.line+w.quantity := by
  refine ⟨?_,Function.update_self ..⟩
  have hclear : (claimProblems s w).filter isHard = [] := by
    rw [h.hard hl,if_neg]
    exact fun hover => absurd (hfits hover.1) (not_le.mpr hover.2)
  rw [sendPick]
  dsimp only
  by_cases hpositive : 0 < w.claim
  · rw [if_pos ⟨hpositive,hclear⟩,Function.update_self,hl]
    rfl
  · have hzero : w.claim = 0 := le_antisymm (not_lt.mp hpositive) hclaim
    rw [if_neg fun hboth => hpositive hboth.1,hl,hzero,add_zero]

theorem foldl_sendPick_cells (sent : List HeldPick) (s : Server) :
    (sent.foldl sendPick s).cells = s.cells ∧ (sent.foldl sendPick s).tenantId = s.tenantId := by
  induction sent generalizing s with
  | nil => exact ⟨rfl,rfl⟩
  | cons w ws ih => exact ih (sendPick s w)

theorem noneOver_append : NoneOver s (sent++[w]) line ↔ NoneOver s sent line ∧
    (w.line = line → (claimProblems (sent.foldl sendPick s) w).any overCovered = false) := by
  constructor
  · intro h
    refine ⟨fun before w' after heq hline => h before w' (after++[w]) (by rw [heq]; simp) hline,
      fun hline => h sent w [] rfl hline⟩
  · rintro ⟨hsent,hlast⟩ before w' after heq hline
    rcases List.eq_nil_or_concat after with rfl | ⟨after',w'',rfl⟩
    · obtain ⟨rfl,hw⟩ := List.append_inj' heq rfl
      cases hw
      exact hlast hline
    · rw [List.concat_eq_append,← List.cons_append,← List.append_assoc] at heq
      obtain ⟨rfl,-⟩ := List.append_inj' heq rfl
      exact hsent before w' after' rfl hline

/-- Claims otherwise in order are let through just when together they fit, and then all lands. -/
theorem noneOver_iff (hl : s.lines line = some l) (hclear : ∀ w ∈ sent, w.line = line → Claimable s l w)
    (hclaim : ∀ w ∈ sent, 0 ≤ w.claim) :
    (NoneOver s sent line ↔ (waitingOf sent line HeldPick.claim = 0 ∨
      l.coveredQuantity+waitingOf sent line HeldPick.claim ≤ l.quantity)) ∧
    (NoneOver s sent line → (sent.foldl sendPick s).lines line =
        some {l with coveredQuantity := l.coveredQuantity+waitingOf sent line HeldPick.claim} ∧
      (sent.foldl sendPick s).picked line = s.picked line+waitingOf sent line HeldPick.quantity) := by
  induction sent using List.reverseRecOn with
  | nil => exact ⟨iff_of_true (by simp [NoneOver]) (by simp),fun _ => ⟨by simp [hl],by simp⟩⟩
  | append_singleton sent w ih =>
    obtain ⟨hiff,hlanded⟩ := ih (fun w' hw' => hclear w' (List.mem_append_left _ hw'))
      (fun w' hw' => hclaim w' (List.mem_append_left _ hw'))
    have hnonneg : 0 ≤ waitingOf sent line HeldPick.claim :=
      List.sum_nonneg fun n hn => by
        obtain ⟨w',hw',rfl⟩ := List.mem_map.mp hn
        exact hclaim w' (List.mem_append_left _ (List.mem_filter.mp hw').1)
    have hw := hclaim w (by simp)
    rw [noneOver_append]
    simp only [waitingOf_append,waitingOf_cons,waitingOf_nil,add_zero,List.foldl_append,List.foldl_cons,List.foldl_nil]
    by_cases hline : w.line = line
    · subst hline
      have hthere : ∀ l', Claimable s l w → l'.tenantId = l.tenantId → l'.fulfilmentCancelled = l.fulfilmentCancelled →
          l'.itemId = l.itemId → Claimable (sent.foldl sendPick s) l' w := by
        intro l' h htenant hstanding hitem
        obtain ⟨hcells,hsame⟩ := foldl_sendPick_cells sent s
        refine ⟨by rw [htenant,hsame,h.tenant],hstanding.trans h.standing,?_⟩
        rw [hcells,hsame,hitem]
        exact h.cell
      have hlast : NoneOver s sent w.line → Claimable (sent.foldl sendPick s)
          {l with coveredQuantity := l.coveredQuantity+waitingOf sent w.line HeldPick.claim} w :=
        fun _ => hthere _ (hclear w (by simp) rfl) rfl rfl rfl
      constructor
      · constructor
        · rintro ⟨hnone,hnow⟩
          have hle := ((hlast hnone).refused_iff (hlanded hnone).1).mp (hnow rfl)
          have hfit := hiff.mp hnone
          simp only [if_true]
          by_cases hpositive : 0 < w.claim
          · right
            have := hle hpositive
            dsimp only at this
            omega
          · have hzero : w.claim = 0 := le_antisymm (not_lt.mp hpositive) hw
            rw [hzero,add_zero]
            exact hfit
        · simp only [if_true]
          intro hfit
          have hnone : NoneOver s sent w.line := hiff.mpr (by omega)
          refine ⟨hnone,fun _ => ((hlast hnone).refused_iff (hlanded hnone).1).mpr fun hpositive => ?_⟩
          dsimp only
          omega
      · rintro ⟨hnone,hnow⟩
        obtain ⟨hlines,hpicked⟩ := hlanded hnone
        obtain ⟨hthen,hthenPicked⟩ := (hlast hnone).lands hlines hw (((hlast hnone).refused_iff hlines).mp (hnow rfl))
        refine ⟨?_,?_⟩
        · rw [hthen,if_pos rfl]
          simp only [add_assoc]
        · rw [hthenPicked,hpicked,if_pos rfl]
          ring
    · obtain ⟨hlines,hpicked⟩ := sendPick_other (s := sent.foldl sendPick s) hline
      simp only [hline,if_false,add_zero,hlines,hpicked,false_implies,and_true]
      exact ⟨hiff,hlanded⟩

theorem waitingOf_perm {xs ys : List HeldPick} (h : xs.Perm ys) (f : HeldPick → ℤ) : waitingOf xs line f = waitingOf ys line f :=
  ((h.filter _).map f).sum_eq

theorem waitingOf_flatMap (ds : List Walked) (f : HeldPick → ℤ) : waitingOf (ds.flatMap Walked.waiting) line f =
    (ds.map fun d => waitingOf d.waiting line f).sum := by
  induction ds with
  | nil => rfl
  | cons d ds ih => rw [List.flatMap_cons,waitingOf_append,ih,List.map_cons,List.sum_cons]

/-- Picks kept on devices land clean, in whatever order they are sent, just when the cover
they counted on is there beyond what is picked, and the rest of them is not covered yet. -/
theorem lands_clean_iff (ds : List Walked) (hl : s.lines line = some l) (hsent : sent.Perm (ds.flatMap Walked.waiting))
    (hclear : ∀ w ∈ sent, w.line = line → Claimable s l w) : LandsClean s sent line ↔
      (ds.map fun d => countedOn d.read d.presses line).sum ≤ l.coveredQuantity-s.picked line ∧
        (ds.map fun d => asked d.presses line).sum-(ds.map fun d => countedOn d.read d.presses line).sum ≤
          l.quantity-l.coveredQuantity := by
  have hquantity : waitingOf sent line HeldPick.quantity = (ds.map fun d => asked d.presses line).sum := by
    rw [waitingOf_perm hsent,waitingOf_flatMap]
    exact congrArg List.sum (List.map_congr_left fun d _ => (waiting_claims line d.ran).2.1)
  have hclaims : waitingOf sent line HeldPick.claim = (ds.map fun d => asked d.presses line).sum-
      (ds.map fun d => countedOn d.read d.presses line).sum := by
    rw [waitingOf_perm hsent,waitingOf_flatMap,eq_sub_iff_add_eq,← List.sum_map_add]
    refine congrArg List.sum (List.map_congr_left fun d _ => ?_)
    rw [(waiting_claims line d.ran).2.2.1,sub_add_cancel]
  have hclaim : ∀ w ∈ sent, 0 ≤ w.claim := by
    intro w hw
    obtain ⟨d,-,hd⟩ := List.mem_flatMap.mp (hsent.mem_iff.mp hw)
    exact (waiting_claims line d.ran).2.2.2 w hd
  obtain ⟨hiff,hlanded⟩ := noneOver_iff hl hclear hclaim
  constructor
  · rintro ⟨hnone,hend⟩
    obtain ⟨hlines,hpicked⟩ := hlanded hnone
    obtain ⟨hcovered,hwithin⟩ := hend _ hlines
    rw [hpicked,hquantity] at hcovered
    dsimp only at hcovered hwithin
    omega
  · rintro ⟨hcounted,hrest⟩
    have hnone : NoneOver s sent line := hiff.mpr (Or.inr (by omega))
    refine ⟨hnone,fun l' hl' => ?_⟩
    obtain ⟨hlines,hpicked⟩ := hlanded hnone
    obtain rfl := Option.some.inj (hlines.symm.trans hl')
    rw [hpicked,hquantity]
    dsimp only
    omega

/-! ## A line of ten, four of it covered -/

def tenOfWhichFour : Server where
  tenantId := 7
  lines := fun line => if line = 1 then some ⟨1,7,100,10,4,false⟩ else none
  picked := fun _ => 0
  cells := fun cell => if cell = 2 then some ⟨2,7,100,some 3,none,50,50⟩ else none

/-- The line as a device reads it. -/
def tenToPick : PickListScreen := ⟨[⟨1,some 2,10,0,4,some 50⟩],by decide⟩

/-- Four, and then two more. -/
def fourAndTwo : Walked := ⟨tenToPick,[(1,4),(1,2)],[⟨1,2,4,0⟩,⟨1,2,2,2⟩],by rfl⟩

def fourOfTen : Walked := ⟨tenToPick,[(1,4)],[⟨1,2,4,0⟩],by rfl⟩

theorem claimable_tenOfWhichFour {w : HeldPick} (h : w.stock = 2) : Claimable tenOfWhichFour ⟨1,7,100,10,4,false⟩ w :=
  ⟨rfl,rfl,⟨2,7,100,some 3,none,50,50⟩,by simp [tenOfWhichFour,h],rfl,rfl,rfl,rfl⟩

theorem lands_clean_fourAndTwo : LandsClean tenOfWhichFour [⟨1,2,2,2⟩,⟨1,2,4,0⟩] 1 :=
  (lands_clean_iff [fourAndTwo] rfl (by decide)
    (fun _ hw _ => claimable_tenOfWhichFour (by simp at hw; rcases hw with rfl | rfl <;> rfl))).mpr (by decide)

/-- Two devices that each count on the four covered pick eight of ten, and claim none. -/
theorem both_count_on_four : [fourOfTen,fourOfTen].flatMap Walked.waiting = [⟨1,2,4,0⟩,⟨1,2,4,0⟩] ∧
    ([fourOfTen,fourOfTen].map fun d => asked d.presses 1).sum ≤ 10-tenOfWhichFour.picked 1 ∧
      ¬LandsClean tenOfWhichFour ([fourOfTen,fourOfTen].flatMap Walked.waiting) 1 := by
  refine ⟨rfl,by decide,fun hclean => ?_⟩
  have hover := (hclean.2 ⟨1,7,100,10,4,false⟩ (by decide)).1
  exact absurd hover (by decide)

end Allocating
end Spork
