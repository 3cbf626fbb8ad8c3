import Spork.Ledger.StockFold
import Spork.Lib.Lineage

/-! Recording corrections (`record_correction`): each is checked against the one movement
it names, and what is left of the movements further up follows from all there are. -/
namespace Spork
namespace Ledger

open Forest

/-- Why a correction was not recorded. -/
inductive Refusal
  | notFound
  | rejected (problems : List Problem)
  /-- The database's own constraints on a row. -/
  | constraint
  deriving DecidableEq, Repr

structure CorrectionRequest where
  reversesMovementId : ℕ
  quantity : ℤ
  /-- The class of the reason the request names, where there is such a reason. -/
  reasonClass : Option RevisionClass
  deriving DecidableEq, Repr

/-- The proposal the other way to its target. -/
def proposedCorrection (tenant : ℕ) (target : Movement) (body : CorrectionRequest) : ProposedCorrection :=
  ⟨tenant,target.itemId,body.quantity,target.occurredAt,target.toSide,target.fromSide,
    some body.reversesMovementId,body.reasonClass⟩

/-- The row a proposal becomes. -/
def correctionRow (id : ℕ) (p : ProposedCorrection) : Movement :=
  ⟨id,p.tenantId,p.itemId,p.quantity,none,p.occurredAt,p.fromSide,p.toSide,p.reversesMovementId⟩

/-- The row a request writes, under an id the database gives. A tenant sees its own
movements only. -/
def recordCorrection (ms : List Movement) (tenant id : ℕ) (body : CorrectionRequest) :
    Except Refusal Movement :=
  match ms.find? fun m => m.id = body.reversesMovementId ∧ m.tenantId = tenant with
  | none => .error .notFound
  | some target =>
    let proposed := proposedCorrection tenant target body
    let problems := check proposed (some target)
    if problems ≠ [] then .error (.rejected problems)
    else if body.quantity ≤ 0 ∨ id ∈ ms.map Movement.id then .error .constraint
    else .ok (correctionRow id proposed)

/-! ## The ledger as acts leave it -/

/-- A ledger in which no movement corrects itself. -/
structure Register extends Book where
  acyclic : Acyclic movements

inductive Act
  | move (m : Movement)
  | correct (tenant id : ℕ) (body : CorrectionRequest)

def Register.start : Register := ⟨⟨[],by simp,by simp⟩,acyclic_of_later (by simp)⟩

theorem corrections_append (ms : List Movement) (r m : Movement) : corrections (ms++[r]) m =
    corrections ms m++if r.reversesMovementId = some m.id then [r] else [] := by
  rw [corrections,List.filter_append,corrections]
  congr 1
  by_cases h : r.reversesMovementId = some m.id <;> simp [h]

/-- Nothing corrects a row not there. -/
theorem Book.corrections_fresh (b : Book) {r : Movement} (hfresh : r.id ∉ b.movements.map Movement.id) :
    corrections b.movements r = [] := by
  refine List.filter_eq_nil_iff.mpr fun c hc hrev => hfresh ?_
  obtain ⟨m,hm,hid,-⟩ := b.reverses c hc r.id (by simpa using hrev)
  exact hid ▸ List.mem_map_of_mem hm

/-- A new row, an ordinary movement or one that corrects a movement there is. -/
structure Addable (b : Book) (r : Movement) : Prop where
  fresh : r.id ∉ b.movements.map Movement.id
  target : ∀ t ∈ r.reversesMovementId, ∃ m ∈ b.movements, m.id = t ∧ m.tenantId = r.tenantId

theorem Addable.corrections_end {b : Book} {r : Movement} (h : Addable b r) :
    corrections (b.movements++[r]) r = [] := by
  rw [corrections_append,b.corrections_fresh h.fresh,if_neg]
  · rfl
  · intro hself
    obtain ⟨m,hm,hid,-⟩ := h.target r.id hself
    exact h.fresh (hid ▸ List.mem_map_of_mem hm)

def Register.add (b : Register) (r : Movement) (h : Addable b.toBook r) : Register where
  movements := b.movements++[r]
  ids := by
    rw [List.map_append]
    refine List.nodup_append.mpr ⟨b.ids,List.nodup_singleton _,fun x hx y hy heq => h.fresh ?_⟩
    rw [← List.mem_singleton.mp hy,← heq]
    exact hx
  reverses c hc t ht := by
    rcases List.mem_append.mp hc with hc | hc
    · obtain ⟨m,hm,hid⟩ := b.reverses c hc t ht
      exact ⟨m,List.mem_append_left _ hm,hid⟩
    · obtain rfl := List.mem_singleton.mp hc
      obtain ⟨m,hm,hid⟩ := h.target t ht
      exact ⟨m,List.mem_append_left _ hm,hid⟩
  acyclic := by
    refine b.acyclic.leaf (r := r) (fun m c hc => ?_) h.corrections_end
    rw [corrections_append] at hc
    rcases List.mem_append.mp hc with hold | hnew
    · exact Or.inl hold
    · split at hnew
      · exact Or.inr (List.mem_singleton.mp hnew)
      · cases hnew

/-- A correction let through is of a movement there is. -/
theorem recordCorrection_ok {ms : List Movement} {tenant id : ℕ} {body : CorrectionRequest} {r : Movement}
    (h : recordCorrection ms tenant id body = .ok r) :
    ∃ target ∈ ms, target.id = body.reversesMovementId ∧ target.tenantId = tenant ∧
      check (proposedCorrection tenant target body) (some target) = [] ∧ 0 < body.quantity ∧
      id ∉ ms.map Movement.id ∧ r = correctionRow id (proposedCorrection tenant target body) := by
  unfold recordCorrection at h
  split at h
  · cases h
  · next target htarget =>
    have hfound := List.find?_some htarget
    simp only [decide_eq_true_eq] at hfound
    simp only at h
    split_ifs at h with hproblems hconstraint
    obtain ⟨hpositive,hfresh⟩ := not_or.mp hconstraint
    exact ⟨target,List.mem_of_find?_eq_some htarget,hfound.1,hfound.2,not_not.mp hproblems,
      not_le.mp hpositive,hfresh,(Except.ok.inj h).symm⟩

theorem addable_of_ok {b : Book} {tenant id : ℕ} {body : CorrectionRequest} {r : Movement}
    (h : recordCorrection b.movements tenant id body = .ok r) : Addable b r := by
  obtain ⟨target,hmem,hid,htenant,-,-,hfresh,rfl⟩ := recordCorrection_ok h
  refine ⟨hfresh,fun t ht => ⟨target,hmem,?_,htenant⟩⟩
  rw [hid]
  exact Option.some.inj ht

/-- What an act leaves, when it is accepted. -/
def accept (b : Register) : Act → Option Register
  | .move m =>
    if h : m.reversesMovementId = none ∧ 0 < m.quantity ∧ m.id ∉ b.movements.map Movement.id then
      some (b.add m ⟨h.2.2,by simp [h.1]⟩)
    else none
  | .correct tenant id body =>
    match h : recordCorrection b.movements tenant id body with
    | .error _ => none
    | .ok r => some (b.add r (addable_of_ok h))

/-- The ledger after a run of accepted acts. -/
def run (acts : List Act) : Option Register := acts.foldlM accept .start

/-! ## What is left of each movement -/

noncomputable def Register.left (b : Register) : Movement → ℤ := effective b.acyclic

/-- Nothing taken back more than was moved. -/
def Within (b : Register) : Prop := ∀ m ∈ b.movements, 0 ≤ b.left m ∧ b.left m ≤ m.quantity

/-- What a correction is of. -/
def target (ms : List Movement) (r : Movement) : Option Movement :=
  r.reversesMovementId.bind fun t => ms.find? fun m => m.id = t

/-- Whether a correction takes back no more than is left of its target, of its target's
target's target, and so on up. -/
def HasRoom (b : Register) : Act → Prop
  | .move _ => True
  | .correct _ _ body => ∀ t ∈ b.movements, t.id = body.reversesMovementId →
    ∀ n, n%2 = 0 → ∀ m, up (target b.movements) n t = some m → body.quantity ≤ b.left m

theorem target_eq_some {b : Book} {c m : Movement} :
    target b.movements c = some m ↔ m ∈ b.movements ∧ c.reversesMovementId = some m.id := by
  rw [target,Option.bind_eq_some_iff]
  constructor
  · rintro ⟨t,ht,hfind⟩
    have hid := List.find?_some hfind
    simp only [decide_eq_true_eq] at hid
    exact ⟨List.mem_of_find?_eq_some hfind,hid ▸ ht⟩
  · rintro ⟨hm,hrev⟩
    refine ⟨m.id,hrev,?_⟩
    have hsome : (b.movements.find? fun m' => m'.id = m.id).isSome = true :=
      List.find?_isSome.mpr ⟨m,hm,by simp⟩
    obtain ⟨m',hfind⟩ := Option.isSome_iff_exists.mp hsome
    have hid := List.find?_some hfind
    simp only [decide_eq_true_eq] at hid
    rw [hfind,b.eq_of_id (List.mem_of_find?_eq_some hfind) hm hid]

theorem lineage (b : Book) : Lineage (corrections b.movements) (target b.movements) b.movements where
  nodup _ := (List.Nodup.of_map _ b.ids).filter _
  closed _ _ hc := (List.mem_filter.mp hc).1
  parent_mem _ _ ha := (target_eq_some.mp ha).1
  parent_iff a ha c hc := by
    rw [target_eq_some,corrections,List.mem_filter]
    simp [ha,hc]

/-- An ordinary movement is itself, and nothing to the others. -/
theorem left_add_root (b : Register) {r : Movement} (h : Addable b.toBook r)
    (hroot : r.reversesMovementId = none) :
    (b.add r h).left r = r.quantity ∧ ∀ m ∈ b.movements, (b.add r h).left m = b.left m := by
  have hsame : ∀ m ∈ b.movements, corrections (b.add r h).movements m = corrections b.movements m := by
    intro m _
    rw [show (b.add r h).movements = b.movements++[r] from rfl,corrections_append,hroot]
    simp
  have hend : corrections (b.add r h).movements r = [] := h.corrections_end
  refine ⟨?_,fun m hm => net_same b.acyclic (b.add r h).acyclic (fun a _ => (lineage b.toBook).closed a)
    hsame Movement.quantity hm⟩
  rw [Register.left,effective_eq,hend]
  simp

/-- A correction is itself; what is up its line has lost or won it; the rest is as it was. -/
theorem left_add_correction (b : Register) {r t : Movement} (h : Addable b.toBook r) (ht : t ∈ b.movements)
    (hrev : r.reversesMovementId = some t.id) :
    (b.add r h).left r = r.quantity ∧
    (∀ n m, up (target b.movements) n t = some m →
      (b.add r h).left m = b.left m+alternate n (-r.quantity)) ∧
    ∀ m ∈ b.movements, (∀ n, up (target b.movements) n t ≠ some m) → (b.add r h).left m = b.left m := by
  have hleaf : ∀ m ∈ b.movements, corrections (b.add r h).movements m =
      corrections b.movements m++if m = t then [r] else [] := by
    intro m hm
    rw [show (b.add r h).movements = b.movements++[r] from rfl,corrections_append,hrev]
    congr 1
    by_cases hmt : m = t
    · simp [hmt]
    · have hids : t.id ≠ m.id := fun hid => hmt (b.eq_of_id hm ht hid.symm)
      simp [hmt,hids]
  have hend : corrections (b.add r h).movements r = [] := h.corrections_end
  have hadd {m : Movement} (hm : m ∈ b.movements) : (b.add r h).left m =
      b.left m+net b.acyclic (single t (-r.quantity)) m :=
    net_leaf b.acyclic (b.add r h).acyclic (lineage b.toBook) hleaf hend Movement.quantity hm
  refine ⟨?_,fun n m hup => ?_,fun m hm hapart => ?_⟩
  · rw [Register.left,effective_eq,hend]
    simp
  · rw [hadd (up_mem (lineage b.toBook) ht hup),net_single_up b.acyclic (lineage b.toBook) ht _ hup]
  · rw [hadd hm,net_single_apart b.acyclic (lineage b.toBook) _ hm hapart,add_zero]

/-! ## One act -/

/-- Where nothing is left below nothing, nothing is left above what was moved. -/
theorem within_of_nonneg {b : Register} (h : ∀ m ∈ b.movements, 0 ≤ b.left m) : Within b := by
  refine fun m hm => ⟨h m hm,?_⟩
  have hsum : 0 ≤ ((corrections b.movements m).map b.left).sum := by
    refine List.sum_nonneg fun x hx => ?_
    obtain ⟨r,hr,rfl⟩ := List.mem_map.mp hx
    exact h r ((lineage b.toBook).closed m r hr)
  have heq := effective_eq b.acyclic m
  show effective b.acyclic m ≤ m.quantity
  rw [heq]
  exact sub_le_self _ hsum

theorem within_add_root {b : Register} (hb : Within b) {r : Movement} (h : Addable b.toBook r)
    (hroot : r.reversesMovementId = none) (hpositive : 0 < r.quantity) : Within (b.add r h) := by
  obtain ⟨hself,hothers⟩ := left_add_root b h hroot
  refine within_of_nonneg fun m hm => ?_
  rcases List.mem_append.mp hm with hm | hm
  · rw [hothers m hm]
    exact (hb m hm).1
  · rw [List.mem_singleton.mp hm,hself]
    exact hpositive.le

theorem within_add_correction {b : Register} (hb : Within b) {r t : Movement} (h : Addable b.toBook r)
    (ht : t ∈ b.movements) (hrev : r.reversesMovementId = some t.id) (hpositive : 0 < r.quantity) :
    Within (b.add r h) ↔
      ∀ n, n%2 = 0 → ∀ m, up (target b.movements) n t = some m → r.quantity ≤ b.left m := by
  obtain ⟨hself,hline,hothers⟩ := left_add_correction b h ht hrev
  constructor
  · intro hwithin n hn m hup
    have hmem := up_mem (lineage b.toBook) ht hup
    have hleft := (hwithin m (List.mem_append_left _ hmem)).1
    rw [hline n m hup,alternate,if_pos hn] at hleft
    linarith
  · intro hroom
    refine within_of_nonneg fun m hm => ?_
    rcases List.mem_append.mp hm with hm | hm
    · by_cases hup : ∃ n, up (target b.movements) n t = some m
      · obtain ⟨n,hup⟩ := hup
        have hleft := (hb m hm).1
        rw [hline n m hup,alternate]
        split
        · next hn => linarith [hroom n hn m hup]
        · linarith
      · rw [hothers m hm (not_exists.mp hup)]
        exact (hb m hm).1
    · rw [List.mem_singleton.mp hm,hself]
      exact hpositive.le

/-- What each correction is allowed alone: no more than the row it names moved. -/
def Single (b : Register) : Prop := ∀ m ∈ b.movements, ∀ r ∈ corrections b.movements m,
  Mirrors r m ∧ 0 < r.quantity ∧ r.quantity ≤ m.quantity

theorem le_of_check {p : ProposedCorrection} {m : Movement} (h : check p (some m) = []) :
    p.quantity ≤ m.quantity := by
  simp only [check,List.append_eq_nil_iff] at h
  by_contra hlt
  rw [if_pos (not_le.mp hlt)] at h
  cases h.2

/-- An accepted act is an ordinary movement more, or a correction more of a movement there
is. -/
theorem accept_cases {b b' : Register} {a : Act} (h : accept b a = some b') :
    (∃ m, a = .move m ∧ m.reversesMovementId = none ∧ 0 < m.quantity ∧
      ∃ hadd : Addable b.toBook m, b' = b.add m hadd) ∨
    ∃ tenant id body r t, a = .correct tenant id body ∧ t ∈ b.movements ∧
      t.id = body.reversesMovementId ∧ r.reversesMovementId = some t.id ∧ r.quantity = body.quantity ∧
      Mirrors r t ∧ 0 < r.quantity ∧ r.quantity ≤ t.quantity ∧
      ∃ hadd : Addable b.toBook r, b' = b.add r hadd := by
  cases a with
  | move m =>
    rw [accept] at h
    split at h
    · next hm => exact Or.inl ⟨m,rfl,hm.1,hm.2.1,_,(Option.some.inj h).symm⟩
    · cases h
  | correct tenant id body =>
    rw [accept] at h
    split at h
    · cases h
    · next r hr =>
      obtain ⟨t,ht,hid,-,hcheck,hpositive,-,hrow⟩ := recordCorrection_ok hr
      have hmirrors : Mirrors r t := by
        have hproposed : r.asProposed body.reasonClass = proposedCorrection tenant t body := by
          rw [hrow]
          rfl
        exact mirrors_of_check (hproposed ▸ hcheck)
      have hquantity : r.quantity = body.quantity := by rw [hrow]; rfl
      have hrev : r.reversesMovementId = some t.id := by rw [hrow,hid]; rfl
      have hle : r.quantity ≤ t.quantity := hquantity ▸ le_of_check hcheck
      exact Or.inr ⟨tenant,id,body,r,t,rfl,ht,hid,hrev,hquantity,hmirrors,hquantity ▸ hpositive,hle,
        addable_of_ok hr,(Option.some.inj h).symm⟩

/-- One act keeps all within bounds just when there is room for it. -/
theorem accept_within {b b' : Register} {a : Act} (hb : Within b) (h : accept b a = some b') :
    Within b' ↔ HasRoom b a := by
  rcases accept_cases h with ⟨m,rfl,hroot,hpositive,hadd,rfl⟩ |
    ⟨tenant,id,body,r,t,rfl,ht,hid,hrev,hquantity,-,hpositive,-,hadd,rfl⟩
  · exact iff_of_true (within_add_root hb hadd hroot hpositive) trivial
  · rw [within_add_correction hb hadd ht hrev hpositive,hquantity]
    constructor
    · intro hroom t' ht' hid'
      rw [b.eq_of_id ht' ht (hid'.trans hid.symm)]
      exact hroom
    · intro hroom
      exact hroom t ht hid

theorem accept_single {b b' : Register} {a : Act} (hb : Single b) (h : accept b a = some b') :
    Single b' := by
  have hkeep {r : Movement} (hadd : Addable b.toBook r)
      (hr : ∀ m ∈ b.movements, r.reversesMovementId = some m.id →
        Mirrors r m ∧ 0 < r.quantity ∧ r.quantity ≤ m.quantity) : Single (b.add r hadd) := by
    intro m hm c hc
    rcases List.mem_append.mp hm with hm | hm
    · rw [show (b.add r hadd).movements = b.movements++[r] from rfl,corrections_append] at hc
      rcases List.mem_append.mp hc with hc | hc
      · exact hb m hm c hc
      · split at hc
        · next hrev =>
          rw [List.mem_singleton.mp hc]
          exact hr m hm hrev
        · cases hc
    · rw [List.mem_singleton.mp hm,show corrections (b.add r hadd).movements r = [] from
        hadd.corrections_end] at hc
      cases hc
  rcases accept_cases h with ⟨m,rfl,hroot,hpositive,hadd,rfl⟩ |
    ⟨tenant,id,body,r,t,rfl,ht,hid,hrev,hquantity,hmirrors,hpositive,hle,hadd,rfl⟩
  · refine hkeep hadd fun m' _ hrev => ?_
    rw [hroot] at hrev
    cases hrev
  · refine hkeep hadd fun m hm hrev' => ?_
    have hsame : m = t := b.eq_of_id hm ht (Option.some.inj (hrev'.symm.trans hrev))
    rw [hsame]
    exact ⟨hmirrors,hpositive,hle⟩

/-! ## A run -/

theorem run_append (before after : List Act) :
    run (before++after) = (run before).bind fun b => after.foldlM accept b := by
  rw [run,List.foldlM_append]
  rfl

theorem run_snoc (acts : List Act) (a : Act) : run (acts++[a]) = (run acts).bind fun b => accept b a := by
  rw [run_append]
  congr 1
  funext b
  simp

theorem run_single {acts : List Act} {b : Register} (h : run acts = some b) : Single b := by
  induction acts using List.reverseRecOn generalizing b with
  | nil =>
    obtain rfl := Option.some.inj h
    exact fun m hm => nomatch hm
  | append_singleton acts a ih =>
    rw [run_snoc] at h
    obtain ⟨b₀,h₀,ha⟩ := Option.bind_eq_some_iff.mp h
    exact accept_single (ih h₀) ha

/-- In every run each correction alone takes back no more than the row it names moved; and
what is left of every movement is between nothing and its own quantity all along just when
each correction found room. -/
theorem run_within_iff (acts : List Act) (b : Register) (h : run acts = some b) :
    Single b ∧
    ((∀ before after, acts = before++after → ∀ b₀, run before = some b₀ → Within b₀) ↔
      ∀ before a after, acts = before++a :: after → ∀ b₀, run before = some b₀ → HasRoom b₀ a) := by
  refine ⟨run_single h,fun hall before a after hacts b₀ h₀ => ?_,fun hroom before => ?_⟩
  · rw [hacts,run_append,h₀,Option.bind_some,List.foldlM_cons] at h
    obtain ⟨b₁,hb₁,-⟩ := Option.bind_eq_some_iff.mp h
    have h₁ : run (before++[a]) = some b₁ := by rw [run_snoc,h₀]; exact hb₁
    have hwithin := hall before (a :: after) hacts b₀ h₀
    exact (accept_within hwithin hb₁).mp (hall (before++[a]) after (by simp [hacts]) b₁ h₁)
  · induction before using List.reverseRecOn with
    | nil =>
      intro after _ b₀ h₀
      obtain rfl := Option.some.inj h₀
      exact fun m hm => nomatch hm
    | append_singleton before a ih =>
      intro after hacts b₁ h₁
      rw [run_snoc] at h₁
      obtain ⟨b₀,h₀,ha⟩ := Option.bind_eq_some_iff.mp h₁
      have hbefore : acts = before++a :: after := by simp [hacts]
      exact (accept_within (ih (a :: after) hbefore b₀ h₀) ha).mpr (hroom before a after hbefore b₀ h₀)

/-- A hundred received. -/
def received : Movement := ⟨1,7,5,100,none,0,nowhere,bin,none⟩

/-- So many of them not after all. -/
def takenBack (id : ℕ) (quantity : ℤ) : Act := .correct 7 id ⟨1,quantity,some .recordError⟩

/-- Thirty of a hundred taken back leaves every movement within bounds. -/
theorem run_within_iff_thirty : ∃ b, run [.move received,takenBack 2 30] = some b ∧ Within b := by
  obtain ⟨b,hb⟩ : ∃ b, run [.move received,takenBack 2 30] = some b :=
    Option.isSome_iff_exists.mp rfl
  refine ⟨b,hb,((run_within_iff _ b hb).2.mpr ?_) _ [] (by simp) b hb⟩
  intro before a after hacts b₀ h₀
  match before, hacts with
  | [], hacts =>
    obtain ⟨rfl,-⟩ := List.cons.inj hacts
    exact trivial
  | [first], hacts =>
    obtain rfl := (List.cons.inj hacts).1
    obtain ⟨rfl,-⟩ := List.cons.inj (List.cons.inj hacts).2
    obtain rfl := Option.some.inj h₀
    intro t ht _ n _ m hup
    obtain rfl := List.mem_singleton.mp ht
    cases n with
    | zero =>
      obtain rfl := Option.some.inj hup
      have hleft := effective_eq (Register.start.add received ⟨by decide,by decide⟩).acyclic received
      show 30 ≤ effective _ received
      rw [hleft]
      decide
    | succ n => cases (up_root rfl n).symm.trans hup
  | first :: second :: before, hacts =>
    have hlength := congrArg List.length hacts
    simp at hlength

/-- A hundred taken back twice: each alone is no more than was moved, and a hundred less
than nothing is left. -/
theorem run_overreaches : ∃ b, run [.move received,takenBack 2 100,takenBack 3 100] = some b ∧
    stockMovementEffective b.movements = [⟨1,7,-100⟩] ∧ ¬Within b := by
  obtain ⟨b,hb⟩ : ∃ b, run [.move received,takenBack 2 100,takenBack 3 100] = some b :=
    Option.isSome_iff_exists.mp rfl
  have hmovements : (run [.move received,takenBack 2 100,takenBack 3 100]).map (·.movements) =
      some [received,⟨2,7,5,100,none,0,bin,nowhere,some 1⟩,⟨3,7,5,100,none,0,bin,nowhere,some 1⟩] := rfl
  have hrows : b.movements = [received,⟨2,7,5,100,none,0,bin,nowhere,some 1⟩,
      ⟨3,7,5,100,none,0,bin,nowhere,some 1⟩] := by
    rw [hb] at hmovements
    exact Option.some.inj hmovements
  have hview : stockMovementEffective b.movements = [⟨1,7,-100⟩] := by
    rw [hrows]
    decide
  refine ⟨b,hb,hview,fun hwithin => ?_⟩
  have hroot : received ∈ b.movements.filter isRoot := by
    rw [hrows]
    decide
  have hleft := view_effective b.acyclic hroot
  rw [hview] at hleft
  have heq : -100 = b.left received := congrArg EffectiveRow.effectiveQuantity (Option.some.inj hleft)
  have hge := (hwithin received (List.mem_filter.mp hroot).1).1
  omega

end Ledger
end Spork
