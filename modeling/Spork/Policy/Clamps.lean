import Spork.Policy.Resolve
import Spork.Lib.Loop

/-! What clamps a winner's fields (`apply_clamps`). Values are what the bindings state:
numbers, a switch one of 0 and 1. -/
namespace Spork
namespace Policy

/-- Which way a clamped field may not move. -/
inductive Clamp
  | floor | ceiling
  deriving DecidableEq, Repr

/-- The fields that clamp, and which way. -/
def PolicyKind.clampedFields : PolicyKind → List (String × Clamp)
  | .shelfLife => [("min_shelf_life_days",.floor),("min_shelf_life_pct",.floor)]
  | .receiving => [("respond_by_hours",.ceiling),("tolerance_over_pct",.ceiling),
      ("tolerance_under_pct",.ceiling),("require_lot",.floor)]
  | .observationPrecedence => [("prefer_own",.floor),("accept_counterparty",.ceiling)]
  | _ => []

/-- A binding's value of a field. -/
structure Value where
  binding : ℕ
  field : String
  value : ℚ
  deriving DecidableEq, Repr

/-- A field the winner did not get to decide alone. -/
structure Clamped where
  field : String
  direction : Clamp
  winnerSaid : ℚ
  applied : ℚ
  boundBy : ℕ
  deriving DecidableEq, Repr

/-- What a binding states of a field. -/
def stated (values : List Value) (binding : ℕ) (field : String) : Option ℚ :=
  (values.find? fun v => v.binding = binding ∧ v.field = field).map Value.value

/-- Whether a value moves another the way a field may be moved. -/
def Clamp.binds : Clamp → ℚ → ℚ → Bool
  | .floor, v, applied => applied < v
  | .ceiling, v, applied => v < applied

/-- One more value read: what is applied, and whose it is. -/
def clampStep (direction : Clamp) (winner : ℕ) (field : String) (applied : ℚ × ℕ) (v : Value) : ℚ × ℕ :=
  if v.binding = winner ∨ v.field ≠ field then applied
  else if direction.binds v.value applied.1 then (v.value,v.binding) else applied

def clampField (values : List Value) (winner : ℕ) : String × Clamp → Option Clamped
  | (field,direction) => do
    let winnerSaid ← stated values winner field
    let (applied,boundBy) := values.foldl (clampStep direction winner field) (winnerSaid,winner)
    if applied = winnerSaid then none else some ⟨field,direction,winnerSaid,applied,boundBy⟩

def applyClamps (kind : PolicyKind) (winner : ℕ) (values : List Value) : List Clamped :=
  kind.clampedFields.filterMap (clampField values winner)

/-- What is left of a field: what moved it, or what the winner states. -/
def fieldLeft (kind : PolicyKind) (winner : ℕ) (values : List Value) (field : String) : Option ℚ :=
  (((applyClamps kind winner values).find? fun c => c.field = field).map Clamped.applied).or
    (stated values winner field)

/-! ## The bound -/

/-- The strictest of a set of values: its greatest under a floor, its least under a ceiling. -/
def Clamp.Strictest : Clamp → Set ℚ → ℚ → Prop
  | .floor, xs, x => IsGreatest xs x
  | .ceiling, xs, x => IsLeast xs x

/-- The second value is at least as strict as the first. -/
def Clamp.Le : Clamp → ℚ → ℚ → Prop
  | .floor, x, y => x ≤ y
  | .ceiling, x, y => y ≤ x

/-- All that bindings state of a field. -/
def statements (values : List Value) (field : String) : Set ℚ :=
  {x | ∃ v ∈ values, v.field = field ∧ v.value = x}

/-- A binding states a field once at most. -/
def StatedOnce (values : List Value) : Prop := (values.map fun v => (v.binding,v.field)).Nodup

namespace Clamp

variable {direction : Clamp} {x y z : ℚ} {xs ys : Set ℚ}

theorem Le.refl (direction : Clamp) (x : ℚ) : direction.Le x x := by
  cases direction <;> exact le_rfl

theorem Le.trans (hxy : direction.Le x y) (hyz : direction.Le y z) : direction.Le x z := by
  cases direction with
  | floor => exact le_trans hxy hyz
  | ceiling => exact le_trans hyz hxy

theorem Le.antisymm (hxy : direction.Le x y) (hyx : direction.Le y x) : x = y := by
  cases direction with
  | floor => exact le_antisymm hxy hyx
  | ceiling => exact le_antisymm hyx hxy

theorem binds_iff : direction.binds x y = true ↔ ¬direction.Le x y := by
  cases direction <;> simp [binds,Le]

theorem Le.total (direction : Clamp) (x y : ℚ) : direction.Le x y ∨ direction.Le y x := by
  cases direction with
  | floor => exact le_total x y
  | ceiling => exact le_total y x

theorem strictest_iff : direction.Strictest xs x ↔ x ∈ xs ∧ ∀ y ∈ xs, direction.Le y x := by
  cases direction <;> exact Iff.rfl

/-- The strictest of more values is at least as strict. -/
theorem Strictest.mono (hx : direction.Strictest xs x) (hy : direction.Strictest ys y) (hsub : xs ⊆ ys) :
    direction.Le x y :=
  (strictest_iff.mp hy).2 x (hsub (strictest_iff.mp hx).1)

end Clamp

variable {values values' : List Value} {winner : ℕ} {field : String} {direction : Clamp}

theorem stated_eq_some (honce : StatedOnce values) {x : ℚ} :
    stated values winner field = some x ↔ ⟨winner,field,x⟩ ∈ values := by
  rw [stated,Option.map_eq_some_iff]
  constructor
  · rintro ⟨v,hv,rfl⟩
    have hfound := List.find?_some hv
    simp only [decide_eq_true_eq] at hfound
    obtain ⟨rfl,rfl⟩ := hfound
    exact List.mem_of_find?_eq_some hv
  · intro hmem
    have hsome : (values.find? fun v => v.binding = winner ∧ v.field = field).isSome = true :=
      List.find?_isSome.mpr ⟨_,hmem,by simp⟩
    obtain ⟨v,hv⟩ := Option.isSome_iff_exists.mp hsome
    have hfound := List.find?_some hv
    simp only [decide_eq_true_eq] at hfound
    refine ⟨v,hv,?_⟩
    have hsame : v = ⟨winner,field,x⟩ := List.inj_on_of_nodup_map honce
      (List.mem_of_find?_eq_some hv) hmem (Prod.ext hfound.1 hfound.2)
    rw [hsame]

/-- One value read keeps what is applied or makes it stricter, by a value some binding
states. -/
theorem clampStep_spec (applied : ℚ × ℕ) (v : Value) :
    direction.Le applied.1 (clampStep direction winner field applied v).1 ∧
    (v.binding ≠ winner → v.field = field → direction.Le v.value (clampStep direction winner field applied v).1) ∧
    (clampStep direction winner field applied v = applied ∨
      v.field = field ∧ clampStep direction winner field applied v = (v.value,v.binding)) := by
  unfold clampStep
  split
  · next hskip =>
    refine ⟨Clamp.Le.refl _ _,fun hb hf => ?_,Or.inl rfl⟩
    rcases hskip with h | h
    · exact absurd h hb
    · exact absurd hf h
  · next hread =>
    have hfield : v.field = field := by
      by_contra h
      exact hread (Or.inr h)
    split
    · next hbinds =>
      have hnot := Clamp.binds_iff.mp hbinds
      exact ⟨(Clamp.Le.total direction _ _).resolve_right hnot,fun _ _ => Clamp.Le.refl _ _,
        Or.inr ⟨hfield,rfl⟩⟩
    · next hbinds =>
      have hle : direction.Le v.value applied.1 := by
        by_contra h
        exact hbinds (Clamp.binds_iff.mpr h)
      exact ⟨Clamp.Le.refl _ _,fun _ _ => hle,Or.inl rfl⟩

/-- The values read, what is applied is the strictest any binding states. -/
theorem clamp_strictest (honce : StatedOnce values) {said : ℚ} (hsaid : stated values winner field = some said) :
    direction.Strictest (statements values field)
      (values.foldl (clampStep direction winner field) (said,winner)).1 := by
  have hmem := (stated_eq_some honce).mp hsaid
  let bound := fun (v : Value) (applied : ℚ × ℕ) =>
    v.binding ≠ winner → v.field = field → direction.Le v.value applied.1
  have hturn : ∀ applied : ℚ × ℕ, ∀ v ∈ values, applied.1 ∈ statements values field →
      (clampStep direction winner field applied v).1 ∈ statements values field ∧
      direction.Le applied.1 (clampStep direction winner field applied v).1 ∧
      bound v (clampStep direction winner field applied v) := by
    intro applied v hv hinv
    obtain ⟨hnext,hdone,hwhich⟩ : _ ∧ _ ∧ _ := clampStep_spec applied v
    refine ⟨?_,hnext,hdone⟩
    rcases hwhich with h | ⟨hf,h⟩
    · rwa [h]
    · rw [h]
      exact ⟨v,hv,hf,rfl⟩
  obtain ⟨hinv,hnext,hdone⟩ := Loop.foldl_all (fun applied : ℚ × ℕ => applied.1 ∈ statements values field)
    (fun a b => direction.Le a.1 b.1) bound (fun a => Clamp.Le.refl _ _)
    (fun a b c hab hbc => hab.trans hbc) (fun a b v hab hv hb hf => (hv hb hf).trans hab)
    (⟨_,hmem,rfl,rfl⟩ : (said,winner).1 ∈ statements values field) hturn
  refine Clamp.strictest_iff.mpr ⟨hinv,?_⟩
  rintro y ⟨v,hv,hf,rfl⟩
  by_cases hb : v.binding = winner
  · have hsame : v = ⟨winner,field,said⟩ := List.inj_on_of_nodup_map honce hv hmem (Prod.ext hb hf)
    rw [hsame]
    exact hnext
  · exact hdone v hv hb hf

theorem clampField_eq_some {p : String × Clamp} {c : Clamped} (h : clampField values winner p = some c) :
    c.field = p.1 := by
  obtain ⟨said,-,hclamped⟩ := Option.bind_eq_some_iff.mp h
  rw [Option.ite_none_left_eq_some] at hclamped
  rw [← Option.some.inj hclamped.2]

/-- Of the fields' clamps the one found by a field's name is that field's. -/
theorem find_clampField {fields : List (String × Clamp)} (hnames : (fields.map Prod.fst).Nodup)
    (hmem : (field,direction) ∈ fields) :
    (fields.filterMap (clampField values winner)).find? (fun c => c.field = field) =
      clampField values winner (field,direction) := by
  induction fields with
  | nil => cases hmem
  | cons p fields ih =>
    obtain ⟨hp,hrest⟩ := List.nodup_cons.mp hnames
    rcases List.mem_cons.mp hmem with rfl | hmem
    · cases hclamp : clampField values winner (field,direction) with
      | some c =>
        rw [List.filterMap_cons_some hclamp,List.find?_cons_of_pos]
        simp [clampField_eq_some hclamp]
      | none =>
        rw [List.filterMap_cons_none hclamp,List.find?_eq_none]
        rintro c hc hfield
        obtain ⟨p',hp',hclamp'⟩ := List.mem_filterMap.mp hc
        have hname := clampField_eq_some hclamp'
        rw [of_decide_eq_true hfield] at hname
        exact hp (List.mem_map.mpr ⟨p',hp',hname.symm⟩)
    · have hne : p.1 ≠ field := fun h => hp (h ▸ List.mem_map_of_mem (f := Prod.fst) hmem)
      cases hclamp : clampField values winner p with
      | none =>
        rw [List.filterMap_cons_none hclamp]
        exact ih hrest hmem
      | some c =>
        rw [List.filterMap_cons_some hclamp,List.find?_cons_of_neg]
        · exact ih hrest hmem
        · simpa [clampField_eq_some hclamp] using hne

theorem clampedFields_nodup (kind : PolicyKind) : (kind.clampedFields.map Prod.fst).Nodup := by
  cases kind <;> decide

/-- What is left of a clamped field the winner states is the strictest any binding does. -/
theorem fieldLeft_strictest {kind : PolicyKind} (honce : StatedOnce values)
    (hmem : (field,direction) ∈ kind.clampedFields) {said : ℚ}
    (hsaid : stated values winner field = some said) :
    ∃ x, fieldLeft kind winner values field = some x ∧ direction.Strictest (statements values field) x := by
  refine ⟨_,?_,clamp_strictest honce hsaid⟩
  rw [fieldLeft,applyClamps,find_clampField (clampedFields_nodup kind) hmem,clampField,hsaid,
    Option.bind_eq_bind,Option.bind_some]
  show (Option.map Clamped.applied (if _ = said then none else some _)).or (some said) = _
  split
  · next hsame => exact congrArg some hsame.symm
  · rfl

end Policy
end Spork
