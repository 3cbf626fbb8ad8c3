import Mathlib

/-! A length cut into equal slots, and a slot into its own: where each is, that all are within
it, that no two share an inner point, and that together they are all of it. -/
namespace Spork
namespace Slots

variable {α : Type*} [Field α] [LinearOrder α] [IsStrictOrderedRing α]

instance atLeastTwo : Nat.AtLeastTwo 2 := inferInstance

/-- The points of a stretch so long, about its middle. -/
def about (middle width : α) : Set α := {x | |x-middle| ≤ width/2}

/-- Those not at its ends. -/
def inside (middle width : α) : Set α := {x | |x-middle| < width/2}

/-- The middle of a slot, the first being nought. -/
def middle (width : α) (i : ℤ) : α := i*width+width/2

theorem mem_about {x m w : α} : x ∈ about m w ↔ m-w/2 ≤ x ∧ x ≤ m+w/2 := by
  rw [about,Set.mem_ofPred_eq,abs_le]
  constructor <;> rintro ⟨h1,h2⟩ <;> constructor <;> linarith

theorem mem_inside {x m w : α} : x ∈ inside m w ↔ m-w/2 < x ∧ x < m+w/2 := by
  rw [inside,Set.mem_ofPred_eq,abs_lt]
  constructor <;> rintro ⟨h1,h2⟩ <;> constructor <;> linarith

omit [IsStrictOrderedRing α] in
theorem inside_subset_about {m w : α} : inside m w ⊆ about m w := fun _ hx => le_of_lt hx

theorem mem_about_slot {x w : α} {i : ℤ} : x ∈ about (middle w i) w ↔ i*w ≤ x ∧ x ≤ (i+1)*w := by
  rw [mem_about,middle]
  constructor <;> rintro ⟨h1,h2⟩ <;> constructor <;> linarith

theorem mem_inside_slot {x w : α} {i : ℤ} : x ∈ inside (middle w i) w ↔ i*w < x ∧ x < (i+1)*w := by
  rw [mem_inside,middle]
  constructor <;> rintro ⟨h1,h2⟩ <;> constructor <;> linarith

/-- Each slot is within the length. -/
theorem slot_within {n i : ℤ} {w x : α} (hw : 0 < w) (h0 : 0 ≤ i) (hn : i < n)
    (hx : x ∈ about (middle w i) w) : 0 ≤ x ∧ x ≤ n*w := by
  rw [mem_about_slot] at hx
  have hlow : (0 : α) ≤ i := by
    exact_mod_cast h0
  have hhigh : (i : α)+1 ≤ n := by
    exact_mod_cast hn
  exact ⟨(mul_nonneg hlow hw.le).trans hx.1,hx.2.trans (mul_le_mul_of_nonneg_right hhigh hw.le)⟩

/-- An inner point is in one slot only. -/
theorem slot_unique {i j : ℤ} {w x : α} (hw : 0 < w) (hi : x ∈ inside (middle w i) w)
    (hj : x ∈ inside (middle w j) w) : i = j := by
  rw [mem_inside_slot] at hi hj
  have hle : ∀ {i j : ℤ}, i*w < x → x < (j+1)*w → i ≤ j := by
    intro i j hi hj
    have hlt : (i : α) < (j+1 : ℤ) := by
      push_cast
      exact lt_of_mul_lt_mul_right (hi.trans hj) hw.le
    exact Int.lt_add_one_iff.mp (Int.cast_lt.mp hlt)
  exact le_antisymm (hle hi.1 hj.2) (hle hj.1 hi.2)

/-- Every point of the length is in a slot. -/
theorem exists_slot {n : ℤ} {w x : α} (hn : 0 < n) (h0 : 0 ≤ x) (h1 : x ≤ n*w) :
    ∃ i, 0 ≤ i ∧ i < n ∧ x ∈ about (middle w i) w := by
  induction n using Int.induction_on with
  | zero => cases hn
  | pred k _ => omega
  | succ k ih =>
    by_cases hx : x ≤ k*w ∧ 0 < k
    · obtain ⟨i,hi,hk,hin⟩ := ih (by exact_mod_cast hx.2) (by exact_mod_cast hx.1)
      exact ⟨i,hi,by omega,hin⟩
    · refine ⟨k,by omega,by omega,?_⟩
      rw [mem_about_slot]
      refine ⟨?_,by exact_mod_cast h1⟩
      by_contra hlt
      rw [Int.cast_natCast,not_le] at hlt
      by_cases hk : k = 0
      · subst hk
        rw [Nat.cast_zero,zero_mul] at hlt
        exact absurd h0 (not_le.mpr hlt)
      · exact hx ⟨hlt.le,Nat.pos_of_ne_zero hk⟩

/-! ## Slots of a slot -/

/-- The middle of a slot of a slot. -/
def middleIn (width part : α) (i j : ℤ) : α := i*width+j*part+part/2

theorem mem_about_middleIn {x w p : α} {i j : ℤ} : x ∈ about (middleIn w p i j) p ↔ x-i*w ∈ about (middle p j) p := by
  rw [mem_about,mem_about,middleIn,middle]
  constructor <;> rintro ⟨h1,h2⟩ <;> constructor <;> linarith

theorem mem_inside_middleIn {x w p : α} {i j : ℤ} : x ∈ inside (middleIn w p i j) p ↔ x-i*w ∈ inside (middle p j) p := by
  rw [mem_inside,mem_inside,middleIn,middle]
  constructor <;> rintro ⟨h1,h2⟩ <;> constructor <;> linarith

/-- A slot's own slots are within it. -/
theorem part_within {k i j : ℤ} {w p x : α} (hp : 0 < p) (hkp : k*p = w) (h0 : 0 ≤ j) (hk : j < k)
    (hx : x ∈ about (middleIn w p i j) p) : x ∈ about (middle w i) w := by
  obtain ⟨hlow,hhigh⟩ := slot_within hp h0 hk (mem_about_middleIn.mp hx)
  rw [mem_about_slot]
  constructor <;> linarith

theorem part_inside {k i j : ℤ} {w p x : α} (hp : 0 < p) (hkp : k*p = w) (h0 : 0 ≤ j) (hk : j < k)
    (hx : x ∈ inside (middleIn w p i j) p) : x ∈ inside (middle w i) w := by
  have hin := mem_inside_slot.mp (mem_inside_middleIn.mp hx)
  have hlow : (0 : α) ≤ j := by
    exact_mod_cast h0
  have hhigh : (j : α)+1 ≤ k := by
    exact_mod_cast hk
  have h1 := mul_nonneg hlow hp.le
  have h2 := mul_le_mul_of_nonneg_right hhigh hp.le
  rw [mem_inside_slot]
  constructor <;> linarith

/-- Every point of the length is in a slot of a slot, whatever number of them each has. -/
theorem exists_part {n k : ℤ} {w p x : α} (hn : 0 < n) (hk : 0 < k) (hkp : k*p = w) (h0 : 0 ≤ x)
    (h1 : x ≤ n*w) : ∃ i j, 0 ≤ i ∧ i < n ∧ 0 ≤ j ∧ j < k ∧ x ∈ about (middleIn w p i j) p := by
  obtain ⟨i,hi,hin,hx⟩ := exists_slot hn h0 h1
  rw [mem_about_slot] at hx
  obtain ⟨j,hj,hjk,hxj⟩ := exists_slot hk (w := p) (x := x-i*w) (by linarith) (by linarith)
  exact ⟨i,j,hi,hin,hj,hjk,mem_about_middleIn.mpr hxj⟩

/-- An inner point is in one slot of one slot only. -/
theorem part_unique {k i j i' j' : ℤ} {w p x : α} (hp : 0 < p) (hkp : k*p = w) (h0 : 0 ≤ j) (hk : j < k)
    (h0' : 0 ≤ j') (hk' : j' < k) (hx : x ∈ inside (middleIn w p i j) p)
    (hx' : x ∈ inside (middleIn w p i' j') p) : i = i' ∧ j = j' := by
  have hkpos : (0 : α) < k := Int.cast_pos.mpr (h0.trans_lt hk)
  have hw : 0 < w := hkp ▸ mul_pos hkpos hp
  have hi : i = i' := slot_unique hw (part_inside hp hkp h0 hk hx) (part_inside hp hkp h0' hk' hx')
  subst hi
  exact ⟨rfl,slot_unique hp (mem_inside_middleIn.mp hx) (mem_inside_middleIn.mp hx')⟩

end Slots
end Spork
