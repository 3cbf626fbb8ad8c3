import Spork.Lib.Descent
import Spork.Lib.Fallible
import Spork.Lib.GroupBy
import Spork.Bench.Planned

/-! The board's plan as the server keeps it, and when it holds together
(crates/server/src/pack_plan.rs). -/
namespace Spork
namespace PackPlan

open Bench (Spot)
open Forest (up Line)
open Fallible (refuseIf addNew)

/-- One of an item at a level, as it is. -/
structure PlannedAsIs (ι : Type) where
  item : ι
  /-- `each`, `inner` or `carton`. -/
  level : String
  config : Option ι
  deriving DecidableEq, Repr

structure PlannedLine (ι : Type) where
  line : ι
  quantity : ℤ
  deriving DecidableEq, Repr

/-- A parcel planned and not yet made. -/
structure PlannedParcel (ι : Type) where
  id : ι
  packageType : Option ι
  asIs : Option (PlannedAsIs ι)
  onParcel : Option ι
  onPackage : Option ι
  spot : Option Spot
  placedByHand : Bool
  carrier : Option ι
  lines : List (PlannedLine ι)
  deriving DecidableEq, Repr

variable {ι : Type} [DecidableEq ι]

def insertIds (parcels : List (PlannedParcel ι)) : Except String (List ι) :=
  parcels.foldlM (fun ids p => addNew "a parcel is planned twice" ids p.id) []

/-- The map from a parcel to the planned pallet it is on: the last entry of an id stands. -/
def onOf (parcels : List (PlannedParcel ι)) (id : ι) : Option ι :=
  ((parcels.filterMap fun p => p.onParcel.map fun q => (p.id,q)).reverse.find? fun e => e.1 = id).map Prod.snd

def checkKind (p : PlannedParcel ι) : Except String Unit :=
  match p.packageType,p.asIs with
  | some _,none => .ok ()
  | none,some a => do
    refuseIf (a.level ≠ "each" ∧ a.level ≠ "inner" ∧ a.level ≠ "carton")
      ("a thing as it is is an each, an inner or a carton, not "++a.level)
    refuseIf (a.config.isSome ∧ a.level = "each") "an each has no case to name"
  | _,_ => .error "a planned parcel is a box or a thing as it is"

/-- Up the planned pallets, never back to where it started: so many steps and no more. -/
def climb (on : ι → Option ι) (start : ι) : ℕ → Option ι → Except String Unit
  | _, none => .ok ()
  | 0, some _ => .error "a parcel cannot go on itself"
  | n+1, some next => if next = start then .error "a parcel cannot go on itself" else climb on start n (on next)

def checkLines (lines : List (PlannedLine ι)) : Except String (List ι) :=
  lines.foldlM (fun seen l => do
    refuseIf (l.quantity ≤ 0) "a planned count is more than nought"
    addNew "a line is planned into a parcel once; add the counts" seen l.line) []

def checkParcel (parcels : List (PlannedParcel ι)) (ids : List ι) (p : PlannedParcel ι) : Except String Unit := do
  checkKind p
  refuseIf (p.onParcel.isSome ∧ p.onPackage.isSome) "a parcel goes on one pallet"
  refuseIf (p.onParcel.any fun id => id ∉ ids) "a parcel goes on a pallet the plan does not have"
  refuseIf (p.spot.isSome ∧ p.onParcel.isNone ∧ p.onPackage.isNone) "a spot is on a pallet; this parcel is on none"
  climb (onOf parcels) p.id parcels.length p.onParcel
  let _ ← checkLines p.lines
  return ()

/-- Whether a plan holds together on its own, or why not. -/
def checkPlan (parcels : List (PlannedParcel ι)) : Except String Unit := do
  let ids ← insertIds parcels
  parcels.forM (checkParcel parcels ids)

/-! ## What a plan that holds together is -/

/-- A box, or a thing as it is at one of its levels: an each has no case. -/
def PlannedParcel.OfOneKind (p : PlannedParcel ι) : Prop :=
  (p.packageType.isSome ∧ p.asIs = none) ∨ p.packageType = none ∧ ∃ a, p.asIs = some a ∧
    (a.level = "each" ∧ a.config = none ∨ a.level = "inner" ∨ a.level = "carton")

/-- What a parcel goes on, where that is planned. -/
def above (parcels : List (PlannedParcel ι)) (id : ι) : Option ι :=
  (parcels.find? fun p => p.id = id).bind (·.onParcel)

structure HoldsTogether (parcels : List (PlannedParcel ι)) : Prop where
  distinct : (parcels.map (·.id)).Nodup
  kind : ∀ p ∈ parcels, p.OfOneKind
  one_pallet : ∀ p ∈ parcels, p.onParcel = none ∨ p.onPackage = none
  planned : ∀ p ∈ parcels, ∀ id, p.onParcel = some id → id ∈ parcels.map (·.id)
  /-- Following the planned pallets up from any parcel ends. -/
  ends : ∀ p ∈ parcels, ∃ n, up (above parcels) n p.id = none
  spot : ∀ p ∈ parcels, p.spot.isSome → p.onParcel.isSome ∨ p.onPackage.isSome
  lines : ∀ p ∈ parcels, (p.lines.map (·.line)).Nodup
  counts : ∀ p ∈ parcels, ∀ l ∈ p.lines, 0 < l.quantity

variable {parcels : List (PlannedParcel ι)} {p : PlannedParcel ι} {ids : List ι}

theorem insertIds_ok : insertIds parcels = .ok ids ↔ (parcels.map (·.id)).Nodup ∧ ids = (parcels.map (·.id)).reverse := by
  show parcels.foldlM (fun ids p => do
    (.ok ⟨⟩ : Except String Unit)
    addNew "a parcel is planned twice" ids p.id) [] = .ok ids ↔ _
  rw [Fallible.addEach_ok]
  simp

omit [DecidableEq ι] in
theorem checkKind_ok : checkKind p = .ok () ↔ p.OfOneKind := by
  unfold checkKind PlannedParcel.OfOneKind
  split
  · simp [*]
  · rename_i a htype has
    rw [Fallible.then_ok_iff,htype,has]
    simp only [Fallible.refuseIf_ok,Option.some.injEq,exists_eq_left',Option.isSome_none,Bool.false_eq_true,
      Option.isSome_iff_ne_none]
    grind
  · rename_i hbox hthing
    cases htype : p.packageType <;> cases has : p.asIs <;> simp_all

theorem checkLines_ok {lines : List (PlannedLine ι)} : (∃ seen, checkLines lines = .ok seen) ↔
    (lines.map (·.line)).Nodup ∧ ∀ l ∈ lines, 0 < l.quantity := by
  simp only [checkLines,Fallible.addEach_ok,Fallible.refuseIf_ok,not_le]
  constructor
  · rintro ⟨seen,hpos,hnodup,-⟩
    exact ⟨hnodup,hpos⟩
  · rintro ⟨hnodup,hpos⟩
    exact ⟨_,hpos,hnodup,fun l _ => List.not_mem_nil,rfl⟩

/-! ## The way up -/

variable {on : ι → Option ι} {start : ι} {n : ℕ} {next : Option ι}

/-- What the way up accepts ends. -/
theorem climb_ends (h : climb on start n next = .ok ()) : ∃ xs, Line on next xs := by
  induction n generalizing next with
  | zero =>
    cases next with
    | none => exact ⟨[],.top⟩
    | some a => cases h
  | succ n ih =>
    cases next with
    | none => exact ⟨[],.top⟩
    | some a =>
      rw [climb] at h
      split at h
      · cases h
      · obtain ⟨xs,hxs⟩ := ih h
        exact ⟨xs++[a],hxs.under⟩

/-- A way up that ends in so many steps, the start not on it, is accepted. -/
theorem climb_line {xs : List ι} (h : Line on next xs) (hstart : start ∉ xs) (hle : xs.length ≤ n) :
    climb on start n next = .ok () := by
  induction h generalizing n with
  | top => cases n <;> rfl
  | @under a xs hxs ih =>
    rw [List.length_append,List.length_singleton] at hle
    obtain ⟨n,rfl⟩ := Nat.exists_eq_add_of_le' (show 1 ≤ n by omega)
    rw [climb,if_neg fun heq : a = start => hstart (by simp [heq])]
    exact ih (fun hin => hstart (by simp [hin])) (by omega)

/-- The map has what each parcel is on. -/
theorem onOf_eq_above (hids : (parcels.map (·.id)).Nodup) : onOf parcels = above parcels := by
  funext id
  apply Option.ext
  intro q
  have hkeys : ((parcels.filterMap fun p => p.onParcel.map fun q => (p.id,q)).reverse.map Prod.fst).Nodup := by
    rw [List.map_reverse,List.nodup_reverse,List.map_filterMap]
    refine hids.sublist ?_
    clear hids
    induction parcels with
    | nil => exact List.Sublist.refl []
    | cons p parcels ih => cases hp : p.onParcel <;> simp_all [List.Sublist.cons]
  simp only [onOf,above,Option.map_eq_some_iff,Option.bind_eq_some_iff]
  constructor
  · rintro ⟨e,hfind,rfl⟩
    obtain ⟨p,hp,he⟩ := List.mem_filterMap.mp (List.mem_reverse.mp (List.mem_of_find?_eq_some hfind))
    obtain ⟨q,hq,rfl⟩ := Option.map_eq_some_iff.mp he
    obtain rfl : p.id = id := by simpa using List.find?_some hfind
    exact ⟨p,GroupBy.find_keyed hids hp,hq⟩
  · rintro ⟨p,hfind,hq⟩
    obtain rfl : p.id = id := by simpa using List.find?_some hfind
    have hentry : (p.id,q) ∈ (parcels.filterMap fun p => p.onParcel.map fun q => (p.id,q)).reverse :=
      List.mem_reverse.mpr (List.mem_filterMap.mpr ⟨p,List.mem_of_find?_eq_some hfind,by rw [hq]; rfl⟩)
    exact ⟨(p.id,q),GroupBy.find_keyed hkeys hentry,rfl⟩

theorem checkParcel_ok : checkParcel parcels ids p = .ok () ↔
    p.OfOneKind ∧ (p.onParcel = none ∨ p.onPackage = none) ∧ (∀ id, p.onParcel = some id → id ∈ ids) ∧
      (p.spot.isSome → p.onParcel.isSome ∨ p.onPackage.isSome) ∧
      climb (onOf parcels) p.id parcels.length p.onParcel = .ok () ∧
      (p.lines.map (·.line)).Nodup ∧ ∀ l ∈ p.lines, 0 < l.quantity := by
  have hlines : (checkLines p.lines >>= fun _ => (pure () : Except String Unit)) = .ok () ↔
      ∃ seen, checkLines p.lines = .ok seen := by
    rw [Fallible.bind_ok_iff]
    exact exists_congr fun seen => and_iff_left rfl
  have hpallet : (¬(p.onParcel.isSome = true ∧ p.onPackage.isSome = true)) ↔ p.onParcel = none ∨ p.onPackage = none := by
    cases p.onParcel <;> cases p.onPackage <;> simp
  have hhas : (¬(p.onParcel.any fun id => decide (id ∉ ids)) = true) ↔ ∀ id, p.onParcel = some id → id ∈ ids := by
    cases p.onParcel <;> simp
  have hspot : (¬(p.spot.isSome = true ∧ p.onParcel.isNone = true ∧ p.onPackage.isNone = true)) ↔
      (p.spot.isSome = true → p.onParcel.isSome = true ∨ p.onPackage.isSome = true) := by
    cases p.onParcel <;> cases p.onPackage <;> simp
  rw [checkParcel]
  simp only [Fallible.then_ok_iff,checkKind_ok,Fallible.refuseIf_ok]
  rw [hlines,checkLines_ok,hpallet,hhas,hspot]

/-! ## The way up of a plan that holds together -/

/-- What a parcel is on, where no two share an id. -/
theorem above_eq (hids : (parcels.map (·.id)).Nodup) (hp : p ∈ parcels) : above parcels p.id = p.onParcel := by
  rw [above,GroupBy.find_keyed hids hp,Option.bind_some]

/-- What a parcel is on is there. -/
theorem HoldsTogether.above_mem (h : HoldsTogether parcels) {a b : ι} (hab : above parcels a = some b) :
    b ∈ parcels.map (·.id) := by
  obtain ⟨p,hfind,hb⟩ := Option.bind_eq_some_iff.mp hab
  exact h.planned p (List.mem_of_find?_eq_some hfind) b hb

/-- A way up through the plan's own parcels is no longer than the plan. -/
theorem HoldsTogether.length_le (h : HoldsTogether parcels) {o : Option ι} {xs : List ι} (hline : Line (above parcels) o xs)
    (ho : ∀ a, o = some a → a ∈ parcels.map (·.id)) : xs.length ≤ parcels.length := by
  have hsub : xs ⊆ parcels.map (·.id) := hline.mem (fun a b => h.above_mem) ho
  have hle := (hline.nodup.subperm hsub).length_le
  rwa [List.length_map] at hle

theorem above_eq_some_iff (hids : (parcels.map (·.id)).Nodup) {a b : ι} :
    above parcels a = some b ↔ ∃ p ∈ parcels, p.id = a ∧ p.onParcel = some b := by
  constructor
  · intro h
    obtain ⟨p,hfind,hb⟩ := Option.bind_eq_some_iff.mp h
    exact ⟨p,List.mem_of_find?_eq_some hfind,by simpa using List.find?_some hfind,hb⟩
  · rintro ⟨p,hp,rfl,hb⟩
    rw [above_eq hids hp,hb]

/-- Whether a plan holds together is no matter of its parcels' order. -/
theorem HoldsTogether.perm {parcels' : List (PlannedParcel ι)} (h : HoldsTogether parcels) (hperm : parcels.Perm parcels') :
    HoldsTogether parcels' := by
  have hids := (hperm.map (·.id)).nodup_iff.mp h.distinct
  have habove : above parcels' = above parcels := by
    funext a
    apply Option.ext
    intro b
    rw [above_eq_some_iff hids,above_eq_some_iff h.distinct]
    simp only [hperm.mem_iff]
  exact {
    distinct := hids
    kind := fun p hp => h.kind p (hperm.mem_iff.mpr hp)
    one_pallet := fun p hp => h.one_pallet p (hperm.mem_iff.mpr hp)
    planned := fun p hp id hid => (hperm.map (·.id)).mem_iff.mp (h.planned p (hperm.mem_iff.mpr hp) id hid)
    ends := fun p hp => habove ▸ h.ends p (hperm.mem_iff.mpr hp)
    spot := fun p hp => h.spot p (hperm.mem_iff.mpr hp)
    lines := fun p hp => h.lines p (hperm.mem_iff.mpr hp)
    counts := fun p hp => h.counts p (hperm.mem_iff.mpr hp) }

theorem HoldsTogether.of_ok (h : checkPlan parcels = .ok ()) : HoldsTogether parcels := by
  rw [checkPlan,Fallible.bind_ok_iff] at h
  simp only [insertIds_ok,Fallible.each_ok,checkParcel_ok] at h
  obtain ⟨ids,⟨hids,rfl⟩,hall⟩ := h
  have hplanned : ∀ p ∈ parcels, ∀ id, p.onParcel = some id → id ∈ parcels.map (·.id) := by
    intro p hp id hid
    obtain ⟨-,-,hids,-⟩ := hall p hp
    exact List.mem_reverse.mp (hids id hid)
  have hends : ∀ p ∈ parcels, ∃ n, up (above parcels) n p.id = none := by
    intro p hp
    obtain ⟨-,-,-,-,hclimb,-⟩ := hall p hp
    rw [onOf_eq_above hids,← above_eq hids hp] at hclimb
    obtain ⟨xs,hxs⟩ := climb_ends hclimb
    exact (Forest.exists_line_iff p.id).mp ⟨_,hxs.under⟩
  exact {
    distinct := hids
    kind := fun p hp => (hall p hp).1
    one_pallet := fun p hp => (hall p hp).2.1
    planned := hplanned
    ends := hends
    spot := fun p hp => (hall p hp).2.2.2.1
    lines := fun p hp => (hall p hp).2.2.2.2.2.1
    counts := fun p hp => (hall p hp).2.2.2.2.2.2 }

theorem HoldsTogether.ok (h : HoldsTogether parcels) : checkPlan parcels = .ok () := by
  rw [checkPlan,Fallible.bind_ok_iff]
  simp only [insertIds_ok,Fallible.each_ok,checkParcel_ok]
  refine ⟨_,⟨h.distinct,rfl⟩,fun p hp => ⟨h.kind p hp,h.one_pallet p hp,?_,h.spot p hp,?_,h.lines p hp,h.counts p hp⟩⟩
  · intro id hid
    exact List.mem_reverse.mpr (h.planned p hp id hid)
  · obtain ⟨xs,hxs⟩ := (Forest.exists_line_iff p.id).mpr (h.ends p hp)
    cases hxs with
    | @under _ xs hxs =>
      rw [onOf_eq_above h.distinct,← above_eq h.distinct hp]
      exact climb_line hxs hxs.not_above (h.length_le hxs fun a => h.above_mem)

/-- A plan is accepted exactly when it holds together. -/
theorem checkPlan_ok_iff : checkPlan parcels = .ok () ↔ HoldsTogether parcels := ⟨HoldsTogether.of_ok,HoldsTogether.ok⟩

end PackPlan
end Spork
