import Mathlib

/-! The newest of some facts, by a key that tells them apart: whatever order they came in
it is the same one. -/
namespace Spork
namespace Newest

variable {α κ : Type*} [LinearOrder κ] (key : α → κ)

/-- The fact with the greatest key. -/
def newest (xs : List α) : Option α := xs.argmax key

/-- The next after a fact, in the order of the key. -/
def lead (xs : List α) (a : α) : Option α := (xs.filter fun b => key a < key b).argmin key

variable {key} {xs ys : List α}

theorem newest_mem {a : α} (h : newest key xs = some a) : a ∈ xs := List.argmax_mem h

theorem newest_isSome_iff : (newest key xs).isSome = true ↔ xs ≠ [] := by
  rw [newest,Option.isSome_iff_ne_none,Ne,List.argmax_eq_none]

theorem newest_isNone_iff : newest key xs = none ↔ xs = [] := List.argmax_eq_none

/-- The order facts came in is nothing to it. -/
theorem newest_perm (hperm : xs.Perm ys) (hkey : (xs.map key).Nodup) : newest key xs = newest key ys := by
  cases hx : newest key xs with
  | none =>
    have hnil : ys = [] := (newest_isNone_iff.mp hx ▸ hperm).nil_eq.symm
    rw [newest_isNone_iff.mpr hnil]
  | some a =>
    cases hy : newest key ys with
    | none => exact absurd (hperm.mem_iff.mp (newest_mem hx)) (by simp [newest_isNone_iff.mp hy])
    | some b =>
      have hb : b ∈ xs := hperm.mem_iff.mpr (newest_mem hy)
      have ha : a ∈ ys := hperm.mem_iff.mp (newest_mem hx)
      have hle : key b ≤ key a := List.le_of_mem_argmax hb hx
      have hge : key a ≤ key b := List.le_of_mem_argmax ha hy
      rw [List.inj_on_of_nodup_map hkey (newest_mem hx) hb (le_antisymm hge hle)]

/-- What is newest is so just when nothing is after it. -/
theorem newest_eq_some_iff {a : α} (hkey : ∀ a ∈ xs, ∀ b ∈ xs, key a = key b → a = b) :
    newest key xs = some a ↔ a ∈ xs ∧ ∀ b ∈ xs, key b ≤ key a := by
  constructor
  · intro h
    exact ⟨newest_mem h,fun b hb => List.le_of_mem_argmax hb h⟩
  · rintro ⟨ha,hall⟩
    have hsome : (newest key xs).isSome = true := newest_isSome_iff.mpr (List.ne_nil_of_mem ha)
    obtain ⟨b,hb⟩ := Option.isSome_iff_exists.mp hsome
    have hle : key a ≤ key b := List.le_of_mem_argmax ha hb
    rw [hb,hkey b (newest_mem hb) a ha (le_antisymm (hall b (newest_mem hb)) hle)]

theorem lead_mem {a b : α} (h : lead key xs a = some b) : b ∈ xs ∧ key a < key b := by
  have hmem := List.mem_filter.mp (List.argmin_mem h)
  exact ⟨hmem.1,by simpa using hmem.2⟩

theorem lead_le {a b c : α} (h : lead key xs a = some b) (hc : c ∈ xs) (hlt : key a < key c) :
    key b ≤ key c :=
  List.le_of_mem_argmin (List.mem_filter.mpr ⟨hc,by simpa using hlt⟩) h

theorem lead_eq_none_iff {a : α} : lead key xs a = none ↔ ∀ b ∈ xs, key b ≤ key a := by
  rw [lead,List.argmin_eq_none,List.filter_eq_nil_iff]
  simp

/-- Facts whose times rise with their keys: one is newest from its own time until the
time of the next. -/
theorem newest_until_iff {τ : Type*} [LinearOrder τ] {time : α → τ}
    (htime : ∀ a b, key a ≤ key b → time a ≤ time b)
    (hkey : ∀ a ∈ xs, ∀ b ∈ xs, key a = key b → a = b) {a : α} (ha : a ∈ xs) (t : τ) :
    newest key (xs.filter fun b => time b ≤ t) = some a ↔
      time a ≤ t ∧ ∀ b ∈ lead key xs a, t < time b := by
  have hkey' : ∀ a ∈ xs.filter fun b => time b ≤ t, ∀ b ∈ xs.filter fun b => time b ≤ t,
      key a = key b → a = b := fun a ha b hb =>
    hkey a (List.mem_filter.mp ha).1 b (List.mem_filter.mp hb).1
  rw [newest_eq_some_iff hkey']
  simp only [List.mem_filter,decide_eq_true_eq,and_imp,ha,true_and]
  refine and_congr_right fun hat => ⟨fun hall b hb => ?_,fun hnext b hb hbt => ?_⟩
  · obtain ⟨hmem,hlt⟩ := lead_mem hb
    by_contra hle
    exact absurd (hall b hmem (not_lt.mp hle)) (not_le.mpr hlt)
  · by_contra hlt
    cases hlead : lead key xs a with
    | none => exact hlt (lead_eq_none_iff.mp hlead b hb)
    | some c =>
      have hc := htime c b (lead_le hlead hb (not_le.mp hlt))
      exact absurd (hnext c hlead) (not_lt.mpr (hc.trans hbt))

end Newest
end Spork
