import Spork.Lib.Forest
import Spork.Lib.GroupBy
import Spork.Lib.ShareOut

/-! The stock ledger (`stock_movement`) and the rules a correction has to satisfy
(`correction.rs`). Times are ticks of a clock, quantities are of units. -/
namespace Spork
namespace Ledger

/-- The columns of one side of a movement. -/
structure Side where
  locationId : Option ℕ
  packageId : Option ℕ
  lotId : Option ℕ
  statusId : Option ℕ
  ownerId : Option ℕ
  deriving DecidableEq, Repr

structure Movement where
  id : ℕ
  tenantId : ℕ
  itemId : ℕ
  quantity : ℤ
  catchWeightG : Option ℤ
  occurredAt : ℤ
  fromSide : Side
  toSide : Side
  reversesMovementId : Option ℕ
  deriving DecidableEq, Repr

/-- What a reason says: stock that stopped existing is not stock that never existed. -/
inductive RevisionClass
  | recordError | worldEvent
  deriving DecidableEq, Repr

/-- What is being asked for, before it is a row. -/
structure ProposedCorrection where
  tenantId : ℕ
  itemId : ℕ
  quantity : ℤ
  occurredAt : ℤ
  fromSide : Side
  toSide : Side
  reversesMovementId : Option ℕ
  reasonClass : Option RevisionClass
  deriving DecidableEq, Repr

inductive Problem
  | wrongOccurredAt (stamped target : ℤ)
  | doesNotMirror
  | overreaches (proposed target : ℤ)
  | differentItem
  | differentTenant
  | reasonWithoutTarget
  | worldEventOnACorrection
  | missingReason
  deriving DecidableEq, Repr

/-- Check a proposed correction against the movement it names: every problem, not the
first. -/
def check (proposed : ProposedCorrection) : Option Movement → List Problem
  | none => if proposed.reasonClass = some .recordError then [.reasonWithoutTarget] else []
  | some target =>
    (match proposed.reasonClass with
      | none => [.missingReason]
      | some .worldEvent => [.worldEventOnACorrection]
      | some .recordError => [])++
    (if proposed.tenantId ≠ target.tenantId then [.differentTenant] else [])++
    (if proposed.itemId ≠ target.itemId then [.differentItem] else [])++
    (if proposed.occurredAt ≠ target.occurredAt then
      [.wrongOccurredAt proposed.occurredAt target.occurredAt] else [])++
    (if proposed.fromSide ≠ target.toSide ∨ proposed.toSide ≠ target.fromSide then
      [.doesNotMirror] else [])++
    (if proposed.quantity > target.quantity then
      [.overreaches proposed.quantity target.quantity] else [])

/-- A movement as it was asked for. -/
def Movement.asProposed (m : Movement) (reason : Option RevisionClass) : ProposedCorrection :=
  ⟨m.tenantId,m.itemId,m.quantity,m.occurredAt,m.fromSide,m.toSide,m.reversesMovementId,reason⟩

/-- A correction runs the other way to its target, with the same item. -/
def Mirrors (r target : Movement) : Prop :=
  r.fromSide = target.toSide ∧ r.toSide = target.fromSide ∧ r.itemId = target.itemId

/-- A correction let through mirrors its target. -/
theorem mirrors_of_check {r target : Movement} {reason : Option RevisionClass}
    (h : check (r.asProposed reason) (some target) = []) : Mirrors r target := by
  simp only [check,List.append_eq_nil_iff] at h
  obtain ⟨⟨⟨⟨-,hitem⟩,-⟩,hmirror⟩,-⟩ := h
  have hsides : ¬(r.fromSide ≠ target.toSide ∨ r.toSide ≠ target.fromSide) := by
    intro hne
    simp [Movement.asProposed,hne] at hmirror
  have hsame : ¬r.itemId ≠ target.itemId := by
    intro hne
    simp [Movement.asProposed,hne] at hitem
  exact ⟨not_not.mp fun hne => hsides (Or.inl hne),not_not.mp fun hne => hsides (Or.inr hne),
    not_not.mp hsame⟩

/-- The ledger as the database keeps it: one row an id, and a correction names a movement
there is, of its own tenant. -/
structure Book where
  movements : List Movement
  ids : (movements.map Movement.id).Nodup
  reverses : ∀ r ∈ movements, ∀ t ∈ r.reversesMovementId,
    ∃ m ∈ movements, m.id = t ∧ m.tenantId = r.tenantId

/-- The direct corrections of a movement. -/
def corrections (ms : List Movement) (m : Movement) : List Movement :=
  ms.filter fun r => r.reversesMovementId = some m.id

def isRoot (m : Movement) : Bool := m.reversesMovementId.isNone

/-- No movement corrects itself, directly or by way of others. -/
def Acyclic (ms : List Movement) : Prop := Forest.Grounded (corrections ms)

/-- The value of a movement after its corrections, each after its own. -/
noncomputable def effective {ms : List Movement} (h : Acyclic ms) : Movement → ℤ :=
  Forest.net h Movement.quantity

/-- What is left of a movement is its quantity less what is left of its corrections. -/
theorem effective_eq {ms : List Movement} (h : Acyclic ms) (m : Movement) :
    effective h m = m.quantity-((corrections ms m).map (effective h)).sum :=
  Forest.net_eq h Movement.quantity m

/-- Where a correction's id is later than its target's nothing corrects itself. -/
theorem acyclic_of_later {ms : List Movement} (h : ∀ r ∈ ms, ∀ t ∈ r.reversesMovementId, t < r.id) :
    Acyclic ms := by
  obtain ⟨most,hmost⟩ : ∃ most, ∀ m ∈ ms, m.id ≤ most :=
    ⟨(ms.map Movement.id).sum,fun m hm => List.le_sum_of_mem (List.mem_map_of_mem hm)⟩
  refine Subrelation.wf (fun {r m} hr => ?_) (measure fun m : Movement => most-m.id).wf
  obtain ⟨hmem,hrev⟩ := List.mem_filter.mp hr
  have hlater : m.id < r.id := h r hmem m.id (by simpa using hrev)
  have hle := hmost r hmem
  show most-r.id < most-m.id
  omega

theorem Book.eq_of_id {b : Book} {m m' : Movement} (hm : m ∈ b.movements) (hm' : m' ∈ b.movements)
    (hid : m.id = m'.id) : m = m' := List.inj_on_of_nodup_map b.ids hm hm' hid

/-- Every correction is of one movement. -/
theorem Book.corrections_perm (b : Book) : (b.movements.flatMap (corrections b.movements)).Perm
    (b.movements.filter fun m => !isRoot m) := by
  have hkeys : (b.movements.map fun m => some m.id).Nodup := by
    have hids := b.ids.map (Option.some_injective ℕ)
    rwa [List.map_map] at hids
  have hfibers := ShareOut.fibers_perm hkeys Movement.reversesMovementId
    (fun r hr => by
      obtain ⟨hmem,hnot⟩ := List.mem_filter.mp hr
      cases hrev : r.reversesMovementId with
      | none => simp [isRoot,hrev] at hnot
      | some t =>
        obtain ⟨m,hm,rfl,-⟩ := b.reverses r hmem t hrev
        exact List.mem_map.mpr ⟨m,hm,rfl⟩ :
      ∀ r ∈ b.movements.filter fun m => !isRoot m,
        r.reversesMovementId ∈ b.movements.map fun m => some m.id)
  rw [List.flatMap_map] at hfibers
  have hsame (m : Movement) : (b.movements.filter fun m => !isRoot m).filter
      (fun r => r.reversesMovementId = some m.id) = corrections b.movements m := by
    rw [List.filter_filter,corrections]
    apply List.filter_congr
    intro r _
    cases hrev : r.reversesMovementId <;> simp [isRoot,hrev]
  simp only [hsame] at hfibers
  exact hfibers

end Ledger
end Spork
