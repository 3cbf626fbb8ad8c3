import Spork.Acts.Repacking
import Spork.Outbound.Balance
import Spork.Lib.Fallible

/-! A line's units among cartons: picked into them, moved between them and the bench
(`repacking.rs`), and any of it corrected (`record_correction`), with what
`package_line_content` says each carton holds. -/
namespace Spork
namespace Outbound

open Ledger GroupBy Packages Acts

variable {packages : List ℕ}

/-! ## The acts -/

/-- A pick, as far as its movement goes: the goods keep their lot, status and owner. -/
structure Pick where
  fulfilmentLineId : ℕ
  itemId : ℕ
  lotId : Option ℕ
  statusId : Option ℕ
  ownerId : Option ℕ
  fromLocationId : ℕ
  toPackageId : ℕ
  quantity : ℤ
  clientEventId : ℕ
  occurredAt : ℤ
  deriving DecidableEq, Repr

def pickMovement (who : Caller) (minted : Minted) (body : Pick) : Movement :=
  ⟨minted.id,who.tenantId,body.itemId,body.quantity,none,body.occurredAt,
    ⟨some body.fromLocationId,none,body.lotId,body.statusId,body.ownerId⟩,
    ⟨none,some body.toPackageId,body.lotId,body.statusId,body.ownerId⟩,none⟩

structure RecordCorrectionRequest where
  reversesMovementId : ℕ
  quantity : ℤ
  adjustmentReasonId : ℕ
  clientEventId : ℕ
  deriving DecidableEq, Repr

structure RecordCorrectionResponse where
  movementId : ℕ
  warnings : List String
  deriving DecidableEq, Repr

inductive CorrectionError
  | api (e : ApiError)
  | rejected (problems : List Ledger.Problem)
  deriving DecidableEq, Repr

def revisionClass : String → Option RevisionClass
  | "record_error" => some .recordError
  | "world_event" => some .worldEvent
  | _ => none

/-- Why a correction is refused, or what it is to be. -/
def correctionChecked (s : Store packages) (who : Caller) (body : RecordCorrectionRequest) :
    Except CorrectionError ProposedCorrection :=
  match s.ledger.find? fun m => m.id = body.reversesMovementId ∧ m.tenantId = who.tenantId with
  | none => .error (.api .notFound)
  | some target =>
    let reasonClass := (s.adjustmentReasons.find? fun r => r.id = body.adjustmentReasonId).bind fun r =>
      revisionClass r.class_
    let proposed := proposedCorrection who.tenantId target ⟨body.reversesMovementId,body.quantity,reasonClass⟩
    let problems := check proposed (some target)
    if problems ≠ [] then .error (.rejected problems) else .ok proposed

def recordCorrection (s : Store packages) (who : Caller) (minted : Minted) (body : RecordCorrectionRequest) :
    Except CorrectionError (RecordCorrectionResponse × Store packages) :=
  match correctionChecked s who body with
  | .error e => .error e
  | .ok proposed =>
    match claimAct s body.clientEventId with
    | (.replay,s) =>
      match requireOneMovement s body.clientEventId with
      | .error e => .error (.api e)
      | .ok prior =>
        match rejectQuantityMismatch prior.movement.quantity body.quantity with
        | .error e => .error (.api e)
        | .ok () => .ok (⟨prior.movement.id,[replayWarning]⟩,s)
    | (.fresh,claimed) =>
      -- the table wants a quantity above nought
      if body.quantity ≤ 0 then .error (.api .database)
      else match insertStockMovement claimed ⟨body.clientEventId,correctionRow minted.id proposed,none⟩ with
        | .error e => .error (.api e)
        | .ok posted => .ok (⟨minted.id,[]⟩,posted)

/-! ## Runs -/

inductive CartonAct (packages : List ℕ)
  | pick (minted : Minted) (body : Pick)
  | repack (minted : Minted) (body : RepackRequest)
  | correct (minted : Minted) (body : RecordCorrectionRequest)
  /-- Whatever else leaves the movements and the lines as they are. -/
  | other (left : Store packages)

/-- The bench of a line: where its site packs. -/
def bench (s : Store packages) (line : ℕ) : Option ℕ :=
  (s.lines.find? fun l => l.id = line).bind FulfilmentLine.packLocation

def overHeld : RepackProblem → Bool
  | .overHeld _ => true
  | _ => false

/-- An accepted act, under an id no movement has: a pick from storage, which the bench is
not, or a repack that takes no more than is there, or a correction. -/
def step (who : Caller) (s : Store packages) (a : CartonAct packages) : Option (Store packages) :=
  match a with
  | .pick minted body =>
    if minted.id ∉ s.ledger.map Movement.id ∧ 0 < body.quantity ∧ body.toPackageId ∈ packages ∧
        bench s body.fulfilmentLineId ≠ some body.fromLocationId ∧ body.clientEventId ∉ s.clientEvents then
      (insertStockMovement (claimAct s body.clientEventId).2
        ⟨body.clientEventId,pickMovement who minted body,some body.fulfilmentLineId⟩).toOption
    else none
  | .repack minted body =>
    if minted.id ∉ s.ledger.map Movement.id ∧ (repackProblems s body).any overHeld = false then
      ((repack s who minted body).toOption).map Prod.snd
    else none
  | .correct minted body =>
    if minted.id ∉ s.ledger.map Movement.id then ((recordCorrection s who minted body).toOption).map Prod.snd
    else none
  | .other left => if left.stockMovements = s.stockMovements ∧ left.lines = s.lines then some left else none

/-- What a line's units are in: a carton, or its bench. -/
def atHand (benchLocation : Option ℕ) (c : Cell) : Bool :=
  c.holderPackageId.isSome || (c.holderLocationId.isSome && decide (c.holderLocationId = benchLocation))

/-- A correction takes back from a carton or the bench no more than is there then of the
line's item, lot, status and owner. -/
def HasUnits (s : Store packages) : CartonAct packages → Prop
  | .correct _ body => body.clientEventId ∉ s.clientEvents → ∀ t ∈ s.ledger, t.id = body.reversesMovementId →
    ∀ line, Serves s.stockMovements line t → atHand (bench s line) (t.toSide.cell t.itemId) = true →
      body.quantity ≤ balance s.stockMovements line fun c => c = t.toSide.cell t.itemId
  | _ => True

/-- What cartons together hold of a line's item. -/
def cartonTotal (s : Store packages) (line item : ℕ) : ℤ := content s.stockMovements line fun _ i _ => decide (i = item)

/-- What a carton holds of a line's item. -/
def cartonHolds (s : Store packages) (p line item : ℕ) : ℤ :=
  content s.stockMovements line fun p' i _ => decide (p' = p ∧ i = item)

/-- What has been picked of a line's item out of storage, less its corrections. -/
def netPicked (s : Store packages) (line item : ℕ) : ℤ :=
  lineSum s.stockMovements line fun m =>
    if m.itemId = item ∧ m.fromSide.locationId.isSome = true ∧ m.fromSide.locationId ≠ bench s line then 1 else 0

/-! ## What every act keeps -/

/-- A line's movement goes from one holder to one other, and to no location but the bench. -/
structure Shaped (benchLocation : Option ℕ) (m : Movement) : Prop where
  from_one : m.fromSide.packageId.isSome ≠ m.fromSide.locationId.isSome
  to_one : m.toSide.packageId.isSome ≠ m.toSide.locationId.isSome
  to_bench : ∀ l ∈ m.toSide.locationId, benchLocation = some l

theorem one_of_two {a b : Option ℕ} (h : a.isSome ≠ b.isSome) :
    (∃ x, a = some x ∧ b = none) ∨ ∃ y, a = none ∧ b = some y := by
  cases a <;> cases b <;> simp at h ⊢

structure Sound (who : Caller) (s : Store packages) (b : Register) : Prop where
  traced : Traced s.stockMovements b
  tenant : ∀ m ∈ s.ledger, m.tenantId = who.tenantId
  shaped : ∀ x ∈ s.stockMovements, x.movement.reversesMovementId = none → ∀ line, x.fulfilmentLineId = some line →
    Shaped (bench s line) x.movement
  held : ∀ line c, atHand (bench s line) c = true → 0 ≤ balance s.stockMovements line fun c' => c' = c

variable {who : Caller} {s s' : Store packages} {b : Register} {line item : ℕ}

theorem mem_effectives (h : Traced s.stockMovements b) {x : StockMovement × ℤ} (hx : x ∈ effectives s.stockMovements) :
    x.1 ∈ s.stockMovements ∧ x.1.movement.reversesMovementId = none := by
  rw [h.effectives_eq] at hx
  obtain ⟨y,hy,rfl⟩ := List.mem_map.mp hx
  obtain ⟨hmem,hroot⟩ := List.mem_filter.mp hy
  exact ⟨hmem,Option.isNone_iff_eq_none.mp hroot⟩

theorem Sound.landed (h : Sound who s b) : Landed s.stockMovements who.tenantId where
  tenant x hx := h.tenant _ (List.mem_map_of_mem (mem_effectives h.traced hx).1)
  somewhere x hx hline := by
    obtain ⟨hmem,hroot⟩ := mem_effectives h.traced hx
    obtain ⟨l,hl⟩ := Option.isSome_iff_exists.mp hline
    have hone := (h.shaped x.1 hmem hroot l hl).to_one
    cases hp : x.1.movement.toSide.packageId <;> cases hloc : x.1.movement.toSide.locationId <;> simp [hp,hloc] at hone ⊢

/-- Nothing is clipped. -/
theorem Sound.content_eq (h : Sound who s b) (line : ℕ) (test : ℕ → ℕ → Option ℕ → Bool) :
    content s.stockMovements line test = balance s.stockMovements line (onPackage test) :=
  content_eq_balance h.landed (fun c hc => h.held line c (by rw [atHand,hc]; rfl)) test

/-- What cartons hold together is what was picked less what the bench has. -/
theorem Sound.total_eq (h : Sound who s b) (line item : ℕ) : cartonTotal s line item = netPicked s line item-
    balance s.stockMovements line fun c => decide (c.itemId = item) && (c.holderLocationId.isSome &&
      decide (c.holderLocationId = bench s line)) := by
  rw [cartonTotal,h.content_eq,balance,netPicked,balance,lineSum,lineSum,lineSum,eq_sub_iff_add_eq,← List.sum_map_add]
  refine congrArg List.sum (List.map_congr_left fun x hx => ?_)
  obtain ⟨hmem,hline⟩ := List.mem_filter.mp hx
  obtain ⟨hin,hroot⟩ := mem_effectives h.traced hmem
  obtain ⟨hfrom,hto,hbench⟩ := h.shaped x.1 hin hroot line (of_decide_eq_true hline)
  rw [← mul_add]
  congr 1
  simp only [cellSign,onPackage,Side.cell]
  by_cases hitem : x.1.movement.itemId = item
  · rcases one_of_two hfrom with ⟨p,hfp,hfl⟩ | ⟨l,hfp,hfl⟩
    · rcases one_of_two hto with ⟨q,htp,htl⟩ | ⟨k,htp,htl⟩
      · simp [hfp,hfl,htp,htl,hitem]
      · simp [hfp,hfl,htp,htl,hitem,hbench k htl]
    · rcases one_of_two hto with ⟨q,htp,htl⟩ | ⟨k,htp,htl⟩
      · by_cases hl : some l = bench s line
        · simp [hfp,hfl,htp,htl,hitem,← hl]
        · simp [hfp,hfl,htp,htl,hitem,hl]
      · by_cases hl : l = k
        · simp [hfp,hfl,htp,htl,hitem,hbench k htl,hl]
        · simp [hfp,hfl,htp,htl,hitem,hbench k htl,hl]
  · simp [hitem]

/-- The bound. -/
theorem Sound.total_le (h : Sound who s b) (line item : ℕ) : cartonTotal s line item ≤ netPicked s line item := by
  rw [h.total_eq]
  refine sub_le_self _ (balance_nonneg fun c hc => h.held line c ?_)
  rw [Bool.and_eq_true] at hc
  rw [atHand,hc.2,Bool.or_true]

open Classical in
/-- What a further movement of the register must be for all to stay so: where it serves a
line, one of the line's shape or a correction, that takes no more than is there. -/
theorem Sound.add (h : Sound who s b) {x : StockMovement} (hmovements : s'.stockMovements = s.stockMovements++[x])
    (hlines : s'.lines = s.lines) (hadd : Addable b.toBook x.movement) (htenant : x.movement.tenantId = who.tenantId)
    (hquantity : 0 < x.movement.quantity)
    (hmirrors : ∀ t ∈ s.ledger, x.movement.reversesMovementId = some t.id → Mirrors x.movement t)
    (hshaped : x.movement.reversesMovementId = none → ∀ line, x.fulfilmentLineId = some line →
      Shaped (bench s line) x.movement)
    (henough : ∀ line, Serves (s.stockMovements++[x]) line x.movement →
      atHand (bench s line) (x.movement.fromSide.cell x.movement.itemId) = true →
        x.movement.quantity ≤ balance s.stockMovements line fun c => c = x.movement.fromSide.cell x.movement.itemId) :
    Sound who s' (b.add x.movement hadd) ∧ ∀ line test, balance s'.stockMovements line test =
      balance s.stockMovements line test+if Serves (s.stockMovements++[x]) line x.movement then
        x.movement.quantity*cellSign test x.movement else 0 := by
  have hbench : bench s' = bench s := by
    funext line
    rw [bench,bench,hlines]
  have hledger : b.movements = s.ledger := h.traced.same
  have htraced : Traced (s.stockMovements++[x]) (b.add x.movement hadd) := by
    refine ⟨?_,fun m hm r hr => ?_⟩
    · show b.movements++[x.movement] = ledgerOf (s.stockMovements++[x])
      rw [h.traced.same,ledgerOf,ledgerOf,List.map_append]
      rfl
    · rw [show (b.add x.movement hadd).movements = b.movements++[x.movement] from rfl] at hm hr
      rcases List.mem_append.mp hm with hm | hm
      · rw [corrections_append] at hr
        rcases List.mem_append.mp hr with hr | hr
        · exact h.traced.mirrors m hm r hr
        · split at hr
          · rename_i hrev
            rw [List.mem_singleton.mp hr]
            exact hmirrors m (hledger ▸ hm) hrev
          · cases hr
      · rw [List.mem_singleton.mp hm,hadd.corrections_end] at hr
        cases hr
  have hbalance : ∀ line test, balance s'.stockMovements line test =
      balance s.stockMovements line test+if Serves (s.stockMovements++[x]) line x.movement then
        x.movement.quantity*cellSign test x.movement else 0 := by
    intro line test
    rw [hmovements]
    exact h.traced.lineSum_append htraced fun _ _ => cellSign_mirrors
  refine ⟨⟨hmovements ▸ htraced,fun m hm => ?_,fun y hy hroot line hline => ?_,fun line c hc => ?_⟩,hbalance⟩
  · rw [Store.ledger,hmovements,List.map_append] at hm
    rcases List.mem_append.mp hm with hm | hm
    · exact h.tenant m hm
    · rw [List.mem_singleton.mp hm]
      exact htenant
  · rw [hmovements] at hy
    rw [hbench]
    rcases List.mem_append.mp hy with hy | hy
    · exact h.shaped y hy hroot line hline
    · rw [List.mem_singleton.mp hy] at hroot hline ⊢
      exact hshaped hroot line hline
  · rw [hbench] at hc
    have hbefore := h.held line c hc
    rw [hbalance]
    split
    · rename_i hserves
      rw [cellSign]
      by_cases hfrom : x.movement.fromSide.cell x.movement.itemId = c
      · have hthere := henough line hserves (hfrom ▸ hc)
        rw [hfrom] at hthere
        split_ifs <;> nlinarith
      · simp only [hfrom,decide_false,Bool.false_eq_true,if_false]
        split_ifs <;> nlinarith
    · linarith

/-! ## What a repack finds -/

/-- What a check with nothing hard in it, and nothing over what is there, has seen. -/
structure RepackClear (quantity : ℤ) (line : FulfilmentLine) (fromSide toSide : BenchSide) (held : Acts.Held) : Prop where
  positive : 0 < quantity
  onBench : ∀ side ∈ [fromSide,toSide], ∀ l, side.holder = .location l → line.packLocation = some l
  apart : fromSide.holder ≠ toSide.holder
  some_held : 0 < held.total
  enough : quantity ≤ held.total ∧ (1 < held.kinds → quantity ≤ held.most)

theorem repackCheck_clear {quantity : ℤ} {line : Option FulfilmentLine} {namedFrom namedTo : Bool}
    {fromSide toSide : Option BenchSide} {held : Acts.Held}
    (hhard : (repackCheck quantity line namedFrom fromSide namedTo toSide held).any repackIsHard = false)
    (hover : (repackCheck quantity line namedFrom fromSide namedTo toSide held).any overHeld = false) :
    ∃ l f t, line = some l ∧ fromSide = some f ∧ toSide = some t ∧ namedFrom = true ∧ namedTo = true ∧
      RepackClear quantity l f t held := by
  rw [List.any_eq_false] at hhard hover
  cases line with
  | none => exact absurd rfl (hhard .lineNotFound (by simp [repackCheck]))
  | some l =>
    cases namedFrom with
    | false => exact absurd rfl (hhard .notOneFrom (by simp [repackCheck,sideProblems]))
    | true =>
      cases fromSide with
      | none => exact absurd rfl (hhard .fromNotFound (by simp [repackCheck,sideProblems]))
      | some f =>
        cases namedTo with
        | false => exact absurd rfl (hhard .notOneTo (by simp [repackCheck,sideProblems]))
        | true =>
          cases toSide with
          | none => exact absurd rfl (hhard .toNotFound (by simp [repackCheck,sideProblems]))
          | some t =>
            have hsome : 0 < held.total := by
              by_contra hnone
              exact absurd rfl (hhard .holdsNone (by simp [repackCheck,checkSides,not_lt.mp hnone]))
            have hone : ¬(1 < held.kinds ∧ held.most < quantity) := by
              intro hseveral
              refine absurd rfl (hhard .severalKinds ?_)
              simp [repackCheck,checkSides,not_le.mpr hsome,hseveral]
            refine ⟨l,f,t,rfl,rfl,rfl,rfl,rfl,?_,?_,?_,hsome,?_,?_⟩
            · by_contra hle
              exact absurd rfl (hhard .noQuantity (by simp [repackCheck,not_lt.mp hle]))
            · intro side hside loc hloc
              by_contra hoff
              refine absurd rfl (hhard .notTheBench ?_)
              have hoff' : ¬some loc = l.packLocation := fun heq => hoff heq.symm
              rcases List.mem_pair.mp hside with rfl | rfl <;> simp [repackCheck,checkSides,hloc,hoff']
            · intro hsame
              exact absurd rfl (hhard .sameHolder (by simp [repackCheck,checkSides,hsame]))
            · by_contra hlt
              refine absurd rfl (hover (.overHeld held.total) ?_)
              simp [repackCheck,checkSides,not_le.mpr hsome,hone,not_le.mp hlt]
            · exact fun hkinds => not_lt.mp fun hlt => hone ⟨hkinds,hlt⟩

/-! ## What is there of a line -/

theorem filter_pairs {α β : Type} (xs : List α) (test : α → Bool) (g : α → List β) :
    (xs.filter test).flatMap (fun a => (g a).map fun v => (a,v)) =
      (xs.flatMap fun a => (g a).map fun v => (a,v)).filter fun y => test y.1 := by
  induction xs with
  | nil => rfl
  | cons a xs ih =>
    have heach : ((g a).map fun v => (a,v)).filter (fun y => test y.1) = if test a then (g a).map fun v => (a,v) else [] := by
      rw [List.filter_map]
      cases hg : test a <;> simp [Function.comp_def,hg]
    rw [List.flatMap_cons,List.filter_append,← ih,heach,List.filter_cons]
    split <;> rfl

theorem movedOn_eq (s : Store packages) (line : ℕ) (package location : Option ℕ) (side : Movement → Side) (times : ℤ) :
    movedOn s line package location side times = ((effectives s.stockMovements).filter fun x =>
      decide (x.1.fulfilmentLineId = some line ∧
        (sqlEq (side x.1.movement).packageId package || sqlEq (side x.1.movement).locationId location) = true)).map
          fun x => (⟨x.1.movement.itemId,(side x.1.movement).lotId,(side x.1.movement).statusId,
            (side x.1.movement).ownerId⟩,times*x.2) := by
  have hpairs := filter_pairs s.stockMovements (fun m => decide (m.fulfilmentLineId = some line ∧
    (sqlEq (side m.movement).packageId package || sqlEq (side m.movement).locationId location) = true))
      fun m => ((stockMovementEffective s.ledger).filter fun v =>
        v.movementId = m.movement.id ∧ v.tenantId = m.movement.tenantId).map EffectiveRow.effectiveQuantity
  have heffectives : effectives s.stockMovements = s.stockMovements.flatMap fun m =>
      (((stockMovementEffective s.ledger).filter fun v =>
        v.movementId = m.movement.id ∧ v.tenantId = m.movement.tenantId).map EffectiveRow.effectiveQuantity).map
          fun q => (m,q) := by
    refine List.flatMap_congr fun m _ => ?_
    rw [List.map_map]
    rfl
  rw [heffectives,movedOn,← hpairs,List.map_flatMap]
  refine List.flatMap_congr fun m _ => ?_
  rw [List.map_map,List.map_map]
  rfl

/-- A side is at a holder and of a kind where it is in their cell. -/
theorem side_at {side : Side} {item : ℕ} {package location : Option ℕ} {k : HeldKind}
    (hside : side.packageId.isSome ≠ side.locationId.isSome) (hone : package.isSome ≠ location.isSome) :
    ((sqlEq side.packageId package || sqlEq side.locationId location) = true ∧
      (⟨item,side.lotId,side.statusId,side.ownerId⟩ : HeldKind) = k) ↔
        side.cell item = ⟨location,package,k.itemId,k.lotId,k.statusId,k.ownerId⟩ := by
  obtain ⟨i,lot,status,owner⟩ := k
  rcases one_of_two hside with ⟨p,hp,hl⟩ | ⟨l,hp,hl⟩ <;> rcases one_of_two hone with ⟨q,rfl,rfl⟩ | ⟨q,rfl,rfl⟩ <;>
    simp [sqlEq,Side.cell,hp,hl]

theorem sum_moved (s : Store packages) (line : ℕ) (package location : Option ℕ) (side : Movement → Side) (times : ℤ)
    (k : HeldKind) : (((movedOn s line package location side times).filter fun y => y.1 = k).map Prod.snd).sum =
      ((effectives s.stockMovements).map fun x => if x.1.fulfilmentLineId = some line ∧
        (sqlEq (side x.1.movement).packageId package || sqlEq (side x.1.movement).locationId location) = true ∧
          (⟨x.1.movement.itemId,(side x.1.movement).lotId,(side x.1.movement).statusId,(side x.1.movement).ownerId⟩ :
            HeldKind) = k then times*x.2 else 0).sum := by
  rw [movedOn_eq,List.filter_map,List.filter_filter,List.map_map,sum_filter]
  refine congrArg List.sum (List.map_congr_left fun x _ => ?_)
  simp only [Function.comp_apply,Bool.and_eq_true,decide_eq_true_eq]
  refine if_congr ?_ rfl rfl
  tauto

/-- A kind there is has what the line has in its cell. -/
theorem Sound.kind_held (h : Sound who s b) {body : RepackRequest} {package location : Option ℕ}
    (hone : package.isSome ≠ location.isSome) {k : HeldKind} {n : ℤ} (hk : (k,n) ∈ heldKinds s body package location) :
    n = balance s.stockMovements body.fulfilmentLineId fun c =>
      c = ⟨location,package,k.itemId,k.lotId,k.statusId,k.ownerId⟩ := by
  obtain ⟨g,hg,heq⟩ := List.mem_map.mp (List.mem_filter.mp (Sorted.mem_sortBy.mp hk)).1
  obtain ⟨⟨r,hr,hkey⟩,hrows⟩ := mem_groups hg
  cases heq
  have hlot := (List.mem_filter.mp hr).2
  rw [hrows,List.filter_filter]
  have hall : ∀ y ∈ movedOn s body.fulfilmentLineId package location Movement.toSide 1++
      movedOn s body.fulfilmentLineId package location Movement.fromSide (-1),
      (decide (y.1 = g.1) && decide (body.lotId.isNone = true ∨ sqlEq y.1.lotId body.lotId = true)) = decide (y.1 = g.1) := by
    intro y _
    by_cases hy : y.1 = g.1
    · rw [hy,← hkey,hlot,Bool.and_true]
    · rw [decide_eq_false hy,Bool.false_and]
  rw [List.filter_congr hall,List.filter_append,List.map_append,List.sum_append,sum_moved,sum_moved,← List.sum_map_add,
    balance,lineSum,sum_filter]
  refine congrArg List.sum (List.map_congr_left fun x hx => ?_)
  by_cases hline : x.1.fulfilmentLineId = some body.fulfilmentLineId
  · obtain ⟨hmem,hroot⟩ := mem_effectives h.traced hx
    obtain ⟨hfrom,hto,-⟩ := h.shaped x.1 hmem hroot _ hline
    simp only [hline,true_and,side_at hto hone,side_at hfrom hone,cellSign,decide_eq_true_eq]
    split_ifs <;> ring
  · simp [hline]

/-! ## One act -/

theorem inserted {x : StockMovement} {act : ℕ} (h : insertStockMovement (claimAct s act).2 x = .ok s') :
    s'.stockMovements = s.stockMovements++[x] ∧ s'.lines = s.lines := by
  have hclaim : (claimAct s act).2.stockMovements = s.stockMovements ∧ (claimAct s act).2.lines = s.lines := by
    rw [claimAct]
    split <;> exact ⟨rfl,rfl⟩
  unfold insertStockMovement at h
  split at h
  · cases h
    exact ⟨congrArg (·++[x]) hclaim.1,hclaim.2⟩
  · cases h

/-- A repack answered is a replay, or posts its movement. -/
theorem repack_posts {minted : Minted} {body : RepackRequest} {out : RepackResponse × Store packages}
    (h : repack s who minted body = .ok out) : (repackProblems s body).any repackIsHard = false ∧
      ((body.clientEventId ∈ s.clientEvents ∧ out.2 = s) ∨
        body.clientEventId ∉ s.clientEvents ∧ ∃ kind rest, kindsFor s body = kind :: rest ∧
          out.2.stockMovements = s.stockMovements++[⟨body.clientEventId,repackMovement who minted body kind.1,
            some body.fulfilmentLineId⟩] ∧ out.2.lines = s.lines) := by
  unfold repack at h
  dsimp only at h
  split at h
  · cases h
  · rename_i hhard
    rw [not_not,List.map_eq_nil_iff,List.filter_eq_nil_iff] at hhard
    refine ⟨List.any_eq_false.mpr hhard,?_⟩
    by_cases hclaimed : body.clientEventId ∈ s.clientEvents
    · simp only [claimAct,if_pos hclaimed] at h
      split at h
      · cases h
      · split at h
        · cases h
        · cases h
          exact Or.inl ⟨hclaimed,rfl⟩
    · have hclaim : claimAct s body.clientEventId = (.fresh,(claimAct s body.clientEventId).2) := by
        rw [claimAct,if_neg hclaimed]
      rw [hclaim] at h
      dsimp only at h
      split at h
      · cases h
      · rename_i kind rest hkinds
        split at h
        · cases h
        · rename_i posted hinsert
          cases h
          obtain ⟨hmovements,hlines⟩ := inserted hinsert
          exact Or.inr ⟨hclaimed,kind,rest,hkinds,hmovements,hlines⟩

/-- A correction answered is a replay, or posts the one it proposed. -/
theorem correction_posts {minted : Minted} {body : RecordCorrectionRequest}
    {out : RecordCorrectionResponse × Store packages} (h : recordCorrection s who minted body = .ok out) :
    (body.clientEventId ∈ s.clientEvents ∧ out.2 = s) ∨
      body.clientEventId ∉ s.clientEvents ∧ 0 < body.quantity ∧ ∃ t reason, t ∈ s.ledger ∧
        t.id = body.reversesMovementId ∧ t.tenantId = who.tenantId ∧
        check (proposedCorrection who.tenantId t ⟨body.reversesMovementId,body.quantity,reason⟩) (some t) = [] ∧
        out.2.stockMovements = s.stockMovements++[⟨body.clientEventId,correctionRow minted.id
          (proposedCorrection who.tenantId t ⟨body.reversesMovementId,body.quantity,reason⟩),none⟩] ∧
        out.2.lines = s.lines := by
  unfold recordCorrection at h
  split at h
  · cases h
  · rename_i proposed hchecked
    by_cases hclaimed : body.clientEventId ∈ s.clientEvents
    · simp only [claimAct,if_pos hclaimed] at h
      split at h
      · cases h
      · split at h
        · cases h
        · cases h
          exact Or.inl ⟨hclaimed,rfl⟩
    · have hclaim : claimAct s body.clientEventId = (.fresh,(claimAct s body.clientEventId).2) := by
        rw [claimAct,if_neg hclaimed]
      rw [hclaim] at h
      dsimp only at h
      split at h
      · cases h
      · rename_i hpositive
        split at h
        · cases h
        · rename_i posted hinsert
          cases h
          obtain ⟨hmovements,hlines⟩ := inserted hinsert
          rw [correctionChecked] at hchecked
          split at hchecked
          · cases hchecked
          · rename_i t ht
            dsimp only at hchecked
            split at hchecked
            · cases hchecked
            · rename_i hproblems
              cases hchecked
              have hfound := List.find?_some ht
              rw [decide_eq_true_eq] at hfound
              exact Or.inr ⟨hclaimed,not_le.mp hpositive,t,_,List.mem_of_find?_eq_some ht,hfound.1,hfound.2,
                not_not.mp hproblems,hmovements,hlines⟩

theorem holder_some {package location : Option ℕ} {held : Holder} (h : holder package location = some held) :
    package.isSome ≠ location.isSome ∧ fromIds (some held) = (package,location) ∧
      ∀ l ∈ location, held = .location l := by
  cases package <;> cases location <;> cases h <;> simp [fromIds]

theorem benchSide_holder {held : Holder} {side : BenchSide} (h : benchSide s held = some side) : side.holder = held := by
  cases held with
  | package p =>
    rw [benchSide] at h
    split at h
    · cases h
      rfl
    · cases h
  | location l =>
    obtain ⟨r,-,rfl⟩ := Option.map_eq_some_iff.mp h
    rfl

/-- The movement a repack posts takes no more of the line than is in the cell it leaves,
and is of the shape of the line's. -/
theorem Sound.repack_movement (h : Sound who s b) (minted : Minted) {body : RepackRequest} {kind : HeldKind × ℤ}
    {rest : List (HeldKind × ℤ)} (hhard : (repackProblems s body).any repackIsHard = false)
    (hover : (repackProblems s body).any overHeld = false) (hkinds : kindsFor s body = kind :: rest) :
    0 < body.quantity ∧ Shaped (bench s body.fulfilmentLineId) (repackMovement who minted body kind.1) ∧
      (repackMovement who minted body kind.1).fromSide.packageId = body.fromPackageId ∧
      body.quantity ≤ balance s.stockMovements body.fulfilmentLineId fun c =>
        c = (repackMovement who minted body kind.1).fromSide.cell kind.1.itemId := by
  obtain ⟨l,f,t,hline,hfrom,hto,-,-,hclear⟩ := repackCheck_clear hhard hover
  obtain ⟨fh,hfh,hfrom⟩ := Option.bind_eq_some_iff.mp hfrom
  obtain ⟨th,hth,hto⟩ := Option.bind_eq_some_iff.mp hto
  obtain ⟨hfromOne,hids,-⟩ := holder_some hfh
  obtain ⟨htoOne,-,htoLocation⟩ := holder_some hth
  have hbench : bench s body.fulfilmentLineId = l.packLocation := by rw [bench,hline,Option.bind_some]
  have hfromIds : fromIds (holder body.fromPackageId body.fromLocationId) = (body.fromPackageId,body.fromLocationId) := by
    rw [hfh,hids]
  have hkind : kind ∈ heldKinds s body body.fromPackageId body.fromLocationId := by
    have hmem : kind ∈ kindsFor s body := hkinds ▸ List.mem_cons_self
    rwa [kindsFor,hfromIds] at hmem
  refine ⟨hclear.positive,⟨?_,htoOne,fun loc hloc => ?_⟩,?_,?_⟩
  · simp only [repackMovement,hfromIds]
    exact hfromOne
  · rw [hbench]
    exact hclear.onBench t (by simp) loc ((benchSide_holder hto).trans (htoLocation loc hloc))
  · simp only [repackMovement,hfromIds]
  · have hamount := h.kind_held hfromOne hkind
    simp only [repackMovement,hfromIds,Side.cell]
    rw [← hamount]
    have henough := hclear.enough
    rw [hkinds] at henough
    cases rest with
    | nil => simpa [heldOf] using henough.1
    | cons k' rest => exact henough.2 (by simp [heldOf])

/-- A movement under a new id that corrects nothing can be added. -/
theorem Sound.addable (h : Sound who s b) {m : Movement} (hfresh : m.id ∉ s.ledger.map Movement.id)
    (htarget : ∀ i ∈ m.reversesMovementId, ∃ t ∈ s.ledger, t.id = i ∧ t.tenantId = m.tenantId) : Addable b.toBook m := by
  have hledger : b.movements = s.ledger := h.traced.same
  refine ⟨?_,fun i hi => ?_⟩
  · rw [hledger]
    exact hfresh
  · rw [hledger]
    exact htarget i hi

/-- A movement at the end that corrects nothing serves the line it names. -/
theorem serves_last {ms : List StockMovement} {x : StockMovement} (hids : ((ledgerOf (ms++[x])).map Movement.id).Nodup)
    (hroot : x.movement.reversesMovementId = none) {line : ℕ} :
    Serves (ms++[x]) line x.movement ↔ x.fulfilmentLineId = some line := by
  constructor
  · intro hserves
    obtain ⟨y,hy,heq,hline⟩ := hserves.named hroot
    have hnodup : ((ms++[x]).map fun z => z.movement.id).Nodup := by
      rwa [ledgerOf,List.map_map] at hids
    have hsame : y = x := List.inj_on_of_nodup_map hnodup hy (by simp) (congrArg Movement.id heq)
    exact hsame ▸ hline
  · exact Serves.root (by simp) hroot

theorem Sound.ids_append (h : Sound who s b) {x : StockMovement} (hfresh : x.movement.id ∉ s.ledger.map Movement.id) :
    ((ledgerOf (s.stockMovements++[x])).map Movement.id).Nodup := by
  have hids := b.ids
  rw [h.traced.same] at hids
  rw [ledgerOf,List.map_append,List.map_append]
  refine List.nodup_append.mpr ⟨hids,List.nodup_singleton _,fun i hi j hj heq => hfresh ?_⟩
  rw [List.map_singleton,List.map_singleton,List.mem_singleton] at hj
  rw [← hj,← heq]
  exact hi

/-- A pick keeps all so. -/
theorem Sound.pick (h : Sound who s b) {minted : Minted} {body : Pick}
    (hstep : step who s (.pick minted body) = some s') : ∃ b', Sound who s' b' := by
  obtain ⟨⟨hfresh,hpositive,-,hbench,-⟩,hinsert⟩ := Option.ite_none_right_eq_some.mp hstep
  obtain ⟨hmovements,hlines⟩ := inserted (Fallible.toOption_ok hinsert)
  have hline : ∀ line, some body.fulfilmentLineId = some line → line = body.fulfilmentLineId :=
    fun line heq => (Option.some.inj heq).symm
  have hadded := h.add hmovements hlines (h.addable hfresh (by simp [pickMovement])) rfl hpositive
    (fun t _ hrev => by cases hrev) (fun _ line _ => ⟨by simp [pickMovement],by simp [pickMovement],by simp [pickMovement]⟩)
    (fun line hserves hat => by
      obtain rfl := hline line ((serves_last (h.ids_append hfresh) rfl).mp hserves)
      have hloc : atHand (bench s body.fulfilmentLineId) ((pickMovement who minted body).fromSide.cell
        (pickMovement who minted body).itemId) = false := by simp [atHand,pickMovement,Side.cell,Ne.symm hbench]
      rw [hloc] at hat
      cases hat)
  exact ⟨_,hadded.1⟩

open Classical in
/-- A repack that posts keeps all so, and takes the line's units from the one holder to
the other. -/
theorem Sound.repack (h : Sound who s b) {minted : Minted} {body : RepackRequest} {out : RepackResponse × Store packages}
    (hfresh : minted.id ∉ s.ledger.map Movement.id) (hover : (repackProblems s body).any overHeld = false)
    (hout : Acts.repack s who minted body = .ok out) (hnew : body.clientEventId ∉ s.clientEvents) :
    ∃ b' kind, Sound who out.2 b' ∧ (repackMovement who minted body kind).fromSide.packageId = body.fromPackageId ∧
      ∀ line test, balance out.2.stockMovements line test = balance s.stockMovements line test+
        if line = body.fulfilmentLineId then body.quantity*cellSign test (repackMovement who minted body kind) else 0 := by
  obtain ⟨hhard,⟨hold,-⟩ | ⟨-,kind,rest,hkinds,hmovements,hlines⟩⟩ := repack_posts hout
  · exact absurd hold hnew
  obtain ⟨hpositive,hshaped,hfrom,henough⟩ := h.repack_movement minted hhard hover hkinds
  have hserves : ∀ line, Serves (s.stockMovements++[⟨body.clientEventId,repackMovement who minted body kind.1,
      some body.fulfilmentLineId⟩]) line (repackMovement who minted body kind.1) ↔ line = body.fulfilmentLineId :=
    fun line => (serves_last (h.ids_append hfresh) rfl).trans (by rw [Option.some.injEq,eq_comm])
  obtain ⟨hsound,hbalance⟩ := h.add hmovements hlines (h.addable hfresh (by simp [repackMovement])) rfl hpositive
    (fun t _ hrev => by cases hrev)
    (fun _ line hline => by
      obtain rfl := Option.some.inj hline
      exact hshaped)
    (fun line hline _ => by
      obtain rfl := (hserves line).mp hline
      exact henough)
  refine ⟨_,kind.1,hsound,hfrom,fun line test => ?_⟩
  rw [hbalance]
  simp only [hserves]
  rfl

theorem Sound.correct (h : Sound who s b) {minted : Minted} {body : RecordCorrectionRequest}
    (hstep : step who s (.correct minted body) = some s') (hunits : HasUnits s (.correct minted body)) :
    ∃ b', Sound who s' b' := by
  obtain ⟨hfresh,hrun⟩ := Option.ite_none_right_eq_some.mp hstep
  obtain ⟨out,hout,rfl⟩ := Option.map_eq_some_iff.mp hrun
  rcases correction_posts (Fallible.toOption_ok hout) with ⟨-,hsame⟩ |
    ⟨hnew,hpositive,t,reason,ht,hid,htenant,hcheck,hmovements,hlines⟩
  · exact ⟨b,hsame ▸ h⟩
  generalize hrow : correctionRow minted.id
    (proposedCorrection who.tenantId t ⟨body.reversesMovementId,body.quantity,reason⟩) = r at hmovements
  have hmirrors : Mirrors r t := by
    subst hrow
    exact mirrors_of_check (show check (Movement.asProposed _ reason) (some t) = [] from hcheck)
  have hrev : r.reversesMovementId = some t.id := by
    subst hrow
    exact congrArg some hid.symm
  have hquantity : r.quantity = body.quantity := by rw [← hrow]; rfl
  have htenant' : r.tenantId = who.tenantId := by rw [← hrow]; rfl
  have hnewId : r.id ∉ s.ledger.map Movement.id := by rwa [← hrow]
  have hadd : Addable b.toBook r := h.addable hnewId fun i hi => ⟨t,ht,by
    rw [hrev] at hi
    exact Option.some.inj hi,htenant.trans htenant'.symm⟩
  have hledger : b.movements = s.ledger := h.traced.same
  refine ⟨_,(h.add hmovements hlines hadd htenant' (hquantity ▸ hpositive) ?_ ?_ ?_).1⟩
  · intro t' ht' hrev'
    have hsame : t' = t := b.eq_of_id (hledger ▸ ht') (hledger ▸ ht) (Option.some.inj (hrev'.symm.trans hrev))
    exact hsame ▸ hmirrors
  · intro hroot
    rw [hrev] at hroot
    cases hroot
  · intro line hserves hat
    have hids : ((ledgerOf (s.stockMovements++[⟨body.clientEventId,r,none⟩])).map Movement.id).Nodup :=
      h.ids_append hnewId
    have hbefore : Serves s.stockMovements line t := (h.traced.serves_last_correction hids ht hrev).mp hserves
    have hcell : r.fromSide.cell r.itemId = t.toSide.cell t.itemId := by rw [hmirrors.1,hmirrors.2.2]
    rw [hcell] at hat ⊢
    exact hquantity ▸ hunits hnew t ht hid line hbefore hat

/-! ## Runs of acts -/

theorem Sound.other (h : Sound who s b) (hmovements : s'.stockMovements = s.stockMovements) (hlines : s'.lines = s.lines) :
    Sound who s' b := by
  have hbench : bench s' = bench s := by
    funext line
    rw [bench,bench,hlines]
  refine ⟨hmovements ▸ h.traced,?_,?_,?_⟩
  · rw [Store.ledger,hmovements]
    exact h.tenant
  · rw [hmovements,hbench]
    exact h.shaped
  · rw [hmovements,hbench]
    exact h.held

/-- One act keeps all so. -/
theorem Sound.step (h : Sound who s b) {a : CartonAct packages} (hunits : HasUnits s a)
    (hstep : Outbound.step who s a = some s') : ∃ b', Sound who s' b' := by
  cases a with
  | pick minted body => exact h.pick hstep
  | correct minted body => exact h.correct hstep hunits
  | other left =>
    obtain ⟨⟨hmovements,hlines⟩,hsome⟩ := Option.ite_none_right_eq_some.mp hstep
    cases hsome
    exact ⟨b,h.other hmovements hlines⟩
  | repack minted body =>
    obtain ⟨⟨hfresh,hover⟩,hrun⟩ := Option.ite_none_right_eq_some.mp hstep
    obtain ⟨out,hout,rfl⟩ := Option.map_eq_some_iff.mp hrun
    by_cases hnew : body.clientEventId ∈ s.clientEvents
    · obtain ⟨-,⟨-,hsame⟩ | ⟨hno,-⟩⟩ := repack_posts (Fallible.toOption_ok hout)
      · exact ⟨b,hsame ▸ h⟩
      · exact absurd hnew hno
    · obtain ⟨b',-,hsound,-⟩ := h.repack hfresh hover (Fallible.toOption_ok hout) hnew
      exact ⟨b',hsound⟩

/-- Before any line is picked: what movements there are correct nothing. -/
structure Unpicked (who : Caller) (s : Store packages) : Prop where
  tenant : ∀ x ∈ s.stockMovements, x.movement.tenantId = who.tenantId
  no_line : ∀ x ∈ s.stockMovements, x.fulfilmentLineId = none
  root : ∀ x ∈ s.stockMovements, x.movement.reversesMovementId = none
  ids : (s.ledger.map Movement.id).Nodup

theorem Unpicked.root_ledger (h : Unpicked who s) : ∀ m ∈ s.ledger, m.reversesMovementId = none := by
  intro m hm
  obtain ⟨x,hx,rfl⟩ := List.mem_map.mp hm
  exact h.root x hx

theorem Unpicked.corrections_nil (h : Unpicked who s) (m : Movement) : corrections s.ledger m = [] :=
  List.filter_eq_nil_iff.mpr fun r hr hrev => by
    rw [h.root_ledger r hr] at hrev
    exact absurd hrev (by simp)

def Unpicked.register (h : Unpicked who s) : Register where
  movements := s.ledger
  ids := h.ids
  reverses r hr t ht := by
    rw [h.root_ledger r hr] at ht
    cases ht
  acyclic := acyclic_of_later fun r hr t ht => by
    rw [h.root_ledger r hr] at ht
    cases ht

theorem Unpicked.sound (h : Unpicked who s) : Sound who s h.register where
  traced := ⟨rfl,fun m _ r hr => by
    have hnil : corrections h.register.movements m = [] := h.corrections_nil m
    rw [hnil] at hr
    cases hr⟩
  tenant m hm := by
    obtain ⟨x,hx,rfl⟩ := List.mem_map.mp hm
    exact h.tenant x hx
  shaped x hx _ line hline := by
    rw [h.no_line x hx] at hline
    cases hline
  held line c _ := by
    have hnone : (effectives s.stockMovements).filter (fun x => x.1.fulfilmentLineId = some line) = [] := by
      refine List.filter_eq_nil_iff.mpr fun x hx hline => ?_
      obtain ⟨m,hm,hrow⟩ := List.mem_flatMap.mp hx
      obtain ⟨v,-,rfl⟩ := List.mem_map.mp hrow
      rw [h.no_line m hm] at hline
      exact absurd hline (by simp)
    rw [balance,lineSum,hnone]
    rfl

/-- Where corrections take back no more of a line than is there, what cartons hold of it
together is within what was picked, and a repack takes its units from the one side to the
other. -/
theorem cartons_within {es : List (CartonAct packages)} (hstart : Unpicked who s)
    (hok : Runs.Meets (Outbound.step who) HasUnits s es) (hrun : Runs.run (Outbound.step who) s es = some s') :
    (∀ line item, cartonTotal s' line item ≤ netPicked s' line item) ∧
      ∀ minted body s'', Outbound.step who s' (.repack minted body) = some s'' → body.clientEventId ∉ s'.clientEvents →
        ∃ item, ∀ p line i, cartonHolds s'' p line i = cartonHolds s' p line i+
          (if line = body.fulfilmentLineId ∧ i = item ∧ body.toPackageId = some p then body.quantity else 0)-
            if line = body.fulfilmentLineId ∧ i = item ∧ body.fromPackageId = some p then body.quantity else 0 := by
  have hkept : ∀ (t : Store packages) e t', (∃ b, Sound who t b) → HasUnits t e → Outbound.step who t e = some t' → ∃ b, Sound who t' b :=
    fun t e t' ht hunits hstep => ht.elim fun b hb => hb.step hunits hstep
  obtain ⟨b,hsound⟩ := @Runs.run_keeps _ _ _ _ (fun t => ∃ b, Sound who t b) s s' es ⟨_,hstart.sound⟩ hkept hok hrun
  refine ⟨hsound.total_le,fun minted body s'' hstep hnew => ?_⟩
  obtain ⟨⟨hfresh,hover⟩,hmap⟩ := Option.ite_none_right_eq_some.mp hstep
  obtain ⟨out,hout,rfl⟩ := Option.map_eq_some_iff.mp hmap
  obtain ⟨b',kind,hafter,hfrom,hbalance⟩ := hsound.repack hfresh hover (Fallible.toOption_ok hout) hnew
  refine ⟨kind.itemId,fun p line i => ?_⟩
  rw [cartonHolds,cartonHolds,hafter.content_eq,hsound.content_eq,hbalance]
  have hto : (repackMovement who minted body kind).toSide.packageId = body.toPackageId := rfl
  have hitem : (repackMovement who minted body kind).itemId = kind.itemId := rfl
  by_cases hline : line = body.fulfilmentLineId
  · simp only [cellSign,onPackage,Side.cell,hfrom,hto,hitem,hline,true_and,if_true]
    cases body.toPackageId <;> cases body.fromPackageId <;> simp <;> split_ifs <;> grind
  · simp [hline]

/-! An order of one line with two cartons, of which five units are picked into the first. -/

theorem first_allowed : NewEvent.Allowed [1,2] ⟨⟨20,0⟩,0,1,.created,none,some 11⟩ := by decide

theorem second_allowed : NewEvent.Allowed [1,2] ⟨⟨21,0⟩,0,2,.created,none,some 11⟩ := by decide

def twoCartons : Store [1,2] where
  clientEvents := [20,21]
  packageEvents := [⟨20,(⟨⟨20,0⟩,0,1,.created,none,some 11⟩ : NewEvent).toEvent first_allowed⟩,
    ⟨21,(⟨⟨21,0⟩,0,2,.created,none,some 11⟩ : NewEvent).toEvent second_allowed⟩]
  stockMovements := []
  package := fun _ => ⟨7,some 3,false⟩
  table := fun _ => Row.empty
  stock := []
  adjustmentReasons := [⟨50,"record_error","miskeyed"⟩]
  discrepancies := []
  stockCounts := []
  locations := [⟨11,7⟩,⟨12,7⟩]
  lines := [⟨60,3,false,some 11⟩]
  event_act := by decide
  movement_act := by decide

def fivePicked : CartonAct [1,2] := .pick ⟨1,1⟩ ⟨60,5,none,some 13,some 14,12,1,5,30,1⟩

/-- Units of the line from one carton to the other. -/
def movedOver (id p q : ℕ) (n : ℤ) : RepackRequest := ⟨60,some p,none,some q,none,none,n,30+id,1⟩

def pickTakenBack (n : ℤ) : RecordCorrectionRequest := ⟨1,n,50,40⟩

theorem unpicked_twoCartons : Unpicked ⟨7⟩ twoCartons :=
  ⟨by simp [twoCartons],by simp [twoCartons],by simp [twoCartons],by simp [twoCartons,Store.ledger]⟩

/-- Three of the five over, and the two left taken back. -/
def threeOver : List (CartonAct [1,2]) :=
  [fivePicked,.repack ⟨2,2⟩ (movedOver 2 1 2 3),.correct ⟨3,3⟩ (pickTakenBack 2)]

theorem hasUnits_threeOver : Runs.Meets (step ⟨7⟩) HasUnits twoCartons threeOver := by
  refine ⟨trivial,fun s₁ h₁ => ⟨trivial,fun s₂ h₂ => ⟨fun _ t ht hid line hserves _ => ?_,fun _ _ => trivial⟩⟩⟩
  obtain ⟨s,hrun,hpick⟩ := Runs.run_passes (fun s : Store [1,2] => decide (∀ x ∈ s.stockMovements, x.movement.id = 1 →
    x.fulfilmentLineId = some 60 ∧ x.movement.reversesMovementId = none ∧
      2 ≤ balance s.stockMovements 60 fun c => c = x.movement.toSide.cell x.movement.itemId))
    (show (Runs.run (step ⟨7⟩) twoCartons [fivePicked,.repack ⟨2,2⟩ (movedOver 2 1 2 3)]).any _ = true by decide +kernel)
  have hreached : s = s₂ := by
    rw [Runs.run_cons.mpr ⟨s₁,h₁,Runs.run_cons.mpr ⟨s₂,h₂,rfl⟩⟩] at hrun
    exact (Option.some.inj hrun).symm
  subst hreached
  obtain ⟨x,hx,rfl⟩ := List.mem_map.mp ht
  obtain ⟨hline,hroot,henough⟩ := of_decide_eq_true hpick x hx hid
  obtain ⟨y,hy,heq,hnamed⟩ := hserves.named hroot
  have hsixty := (of_decide_eq_true hpick y hy (heq ▸ hid)).1
  obtain rfl : line = 60 := Option.some.inj (hnamed.symm.trans hsixty)
  exact henough

theorem cartons_within_three : ∃ s', Runs.run (step ⟨7⟩) twoCartons threeOver = some s' ∧
    cartonTotal s' 60 5 = 3 ∧ cartonTotal s' 60 5 ≤ netPicked s' 60 5 := by
  obtain ⟨s',hrun,htotal⟩ := Runs.run_passes (fun s : Store [1,2] => decide (cartonTotal s 60 5 = 3))
    (show (Runs.run (step ⟨7⟩) twoCartons threeOver).any _ = true by decide +kernel)
  exact ⟨s',hrun,of_decide_eq_true htotal,(cartons_within unpicked_twoCartons hasUnits_threeOver hrun).1 60 5⟩

/-- Five picked into the first carton and moved to the second, and the pick taken back: the
second holds five of what is nothing net, and moved back they are not in the first. -/
theorem cartons_over : ∃ s s', Runs.run (step ⟨7⟩) twoCartons
    [fivePicked,.repack ⟨2,2⟩ (movedOver 2 1 2 5),.correct ⟨3,3⟩ (pickTakenBack 5)] = some s ∧
      netPicked s 60 5 < cartonTotal s 60 5 ∧ step ⟨7⟩ s (.repack ⟨4,4⟩ (movedOver 4 2 1 5)) = some s' ∧
        cartonHolds s' 1 60 5 = cartonHolds s 1 60 5 := by
  obtain ⟨s',hrun,hsame⟩ := Runs.run_passes (fun s : Store [1,2] => decide (cartonHolds s 1 60 5 = 0))
    (show (Runs.run (step ⟨7⟩) twoCartons ([fivePicked,.repack ⟨2,2⟩ (movedOver 2 1 2 5),
      .correct ⟨3,3⟩ (pickTakenBack 5)]++[.repack ⟨4,4⟩ (movedOver 4 2 1 5)])).any _ = true by decide +kernel)
  obtain ⟨s,hfirst,hlast⟩ := Runs.run_of_snoc hrun
  obtain ⟨s₀,hagain,hthere⟩ := Runs.run_passes (fun s : Store [1,2] => decide (netPicked s 60 5 < cartonTotal s 60 5 ∧
      cartonHolds s 1 60 5 = 0)) (show (Runs.run (step ⟨7⟩) twoCartons [fivePicked,.repack ⟨2,2⟩ (movedOver 2 1 2 5),
        .correct ⟨3,3⟩ (pickTakenBack 5)]).any _ = true by decide +kernel)
  obtain rfl : s₀ = s := Option.some.inj (hagain.symm.trans hfirst)
  obtain ⟨hover,hnone⟩ := of_decide_eq_true hthere
  exact ⟨s₀,s',hfirst,hover,hlast,(of_decide_eq_true hsame).trans hnone.symm⟩

end Outbound
end Spork
