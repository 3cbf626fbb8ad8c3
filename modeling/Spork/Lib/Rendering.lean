import Mathlib

/-! Texts that tell values apart: a UUID's, and texts joined by a mark none of them has. -/
namespace Spork
namespace Rendering

/-- Which of the 32 hexadecimal digits of a UUID stands where, and the dashes. -/
def layout : List (Option ℕ) :=
  let digits := fun n k => (List.range k).map fun i => some (n-i)
  digits 31 8++none :: digits 23 4++none :: digits 19 4++none :: digits 15 4++none :: digits 11 12

def digit (n : ℕ) : Option ℕ → Char
  | none => '-'
  | some k => Nat.digitChar (n/16^k%16)

def uuidText (n : ℕ) : List Char := layout.map (digit n)

/-- A missing UUID is written as a dash. -/
def optionText : Option ℕ → List Char
  | none => ['-']
  | some n => uuidText n

def joined (mark : Char) : List (List Char) → List Char
  | [] => []
  | [x] => x
  | x :: y :: xs => x++mark :: joined mark (y :: xs)

theorem digitChar_injective : ∀ m < 16, ∀ n < 16, Nat.digitChar m = Nat.digitChar n → m = n := by
  decide

theorem digitChar_plain : ∀ m < 16, Nat.digitChar m ≠ '-' ∧ Nat.digitChar m ≠ '|' := by
  decide

/-- Numbers below a power of 16 with the same digits are the same. -/
theorem eq_of_digits (k m n : ℕ) (hm : m < 16^k) (hn : n < 16^k)
    (h : ∀ i < k, m/16^i%16 = n/16^i%16) : m = n := by
  induction k generalizing m n with
  | zero =>
    rw [pow_zero] at hm hn
    omega
  | succ k ih =>
    have hlow := h 0 (Nat.succ_pos k)
    have hhigh : m/16 = n/16 := by
      refine ih _ _ ?_ ?_ fun i hi => ?_
      · exact Nat.div_lt_of_lt_mul (by rwa [← pow_succ'])
      · exact Nat.div_lt_of_lt_mul (by rwa [← pow_succ'])
      · have hdigit := h (i+1) (by omega)
        rwa [pow_succ',← Nat.div_div_eq_div_mul,← Nat.div_div_eq_div_mul] at hdigit
    rw [pow_zero,Nat.div_one,Nat.div_one] at hlow
    omega

theorem uuidText_injective {m n : ℕ} (hm : m < 2^128) (hn : n < 2^128)
    (h : uuidText m = uuidText n) : m = n := by
  have hplaces : ∀ i < 32, some i ∈ layout := by decide
  refine eq_of_digits 32 m n (by omega) (by omega) fun i hi => ?_
  have hdigit : digit m (some i) = digit n (some i) := List.map_inj_left.mp h _ (hplaces i hi)
  exact digitChar_injective _ (Nat.mod_lt _ (by decide)) _ (Nat.mod_lt _ (by decide)) hdigit

@[simp] theorem uuidText_length (n : ℕ) : (uuidText n).length = 36 := by
  rw [uuidText,List.length_map]
  rfl

theorem uuidText_head (n : ℕ) : ∃ c cs, uuidText n = c :: cs ∧ c ≠ '-' := by
  refine ⟨digit n (some 31),layout.tail.map (digit n),rfl,?_⟩
  exact (digitChar_plain _ (Nat.mod_lt _ (by decide))).1

theorem uuidText_plain (n : ℕ) : '|' ∉ uuidText n := by
  intro h
  obtain ⟨place,-,hplace⟩ := List.mem_map.mp h
  cases place with
  | none =>
    have hdash : ('-' : Char) = '|' := hplace
    exact absurd hdash (by decide)
  | some k => exact (digitChar_plain _ (Nat.mod_lt _ (by decide))).2 hplace

theorem digitChar_colon : ∀ m < 16, Nat.digitChar m ≠ ':' := by decide

theorem uuidText_colon (n : ℕ) : ':' ∉ uuidText n := by
  intro h
  obtain ⟨place,-,hplace⟩ := List.mem_map.mp h
  cases place with
  | none =>
    have hdash : ('-' : Char) = ':' := hplace
    exact absurd hdash (by decide)
  | some k => exact digitChar_colon _ (Nat.mod_lt _ (by decide)) hplace

theorem optionText_plain (o : Option ℕ) : '|' ∉ optionText o := by
  cases o with
  | none => decide
  | some n => exact uuidText_plain n

/-- What follows a UUID's text, or the dash of a missing one, can be told from it. -/
theorem optionText_append {o o' : Option ℕ} {x y : List Char} (ho : ∀ n ∈ o, n < 2^128)
    (ho' : ∀ n ∈ o', n < 2^128) (h : optionText o++x = optionText o'++y) : o = o' ∧ x = y := by
  cases o with
  | none =>
    cases o' with
    | none => exact ⟨rfl,(List.cons.inj h).2⟩
    | some n =>
      obtain ⟨c,cs,htext,hc⟩ := uuidText_head n
      rw [show optionText (some n) = c :: cs from htext] at h
      exact absurd (List.cons.inj h).1.symm hc
  | some m =>
    cases o' with
    | none =>
      obtain ⟨c,cs,htext,hc⟩ := uuidText_head m
      rw [show optionText (some m) = c :: cs from htext] at h
      exact absurd (List.cons.inj h).1 hc
    | some n =>
      obtain ⟨htext,hrest⟩ := List.append_inj h (by simp [optionText])
      exact ⟨congrArg some (uuidText_injective (ho m rfl) (ho' n rfl) htext),hrest⟩

/-- Two texts up to a mark neither has. -/
theorem append_mark_inj {mark : Char} {a b x y : List Char} (ha : mark ∉ a) (hb : mark ∉ b)
    (h : a++mark :: x = b++mark :: y) : a = b ∧ x = y := by
  induction a generalizing b with
  | nil =>
    cases b with
    | nil => exact ⟨rfl,(List.cons.inj h).2⟩
    | cons c b => exact absurd (List.cons.inj h).1 fun hc => hb (hc ▸ List.mem_cons_self)
  | cons c a ih =>
    cases b with
    | nil => exact absurd (List.cons.inj h).1.symm fun hc => ha (hc ▸ List.mem_cons_self)
    | cons d b =>
      obtain ⟨rfl,hrest⟩ := List.cons.inj h
      have hsame := ih (fun hm => ha (List.mem_cons_of_mem c hm))
        (fun hm => hb (List.mem_cons_of_mem c hm)) hrest
      exact ⟨congrArg (c :: ·) hsame.1,hsame.2⟩

/-- Texts without the mark, none of them empty, are told by what joins them. -/
theorem joined_injective {mark : Char} {xs ys : List (List Char)}
    (hxs : ∀ x ∈ xs, x ≠ [] ∧ mark ∉ x) (hys : ∀ y ∈ ys, y ≠ [] ∧ mark ∉ y)
    (h : joined mark xs = joined mark ys) : xs = ys := by
  have hnil (x : List Char) (zs : List (List Char)) (hx : x ≠ []) : joined mark (x :: zs) ≠ [] := by
    cases zs <;> simp [joined,hx]
  have hone (x y z : List Char) (zs : List (List Char)) (hx : mark ∉ x) :
      x ≠ joined mark (y :: z :: zs) := by
    rintro rfl
    exact hx (List.mem_append_right _ List.mem_cons_self)
  induction xs generalizing ys with
  | nil =>
    cases ys with
    | nil => rfl
    | cons y ys => exact absurd h.symm (hnil y ys (hys y List.mem_cons_self).1)
  | cons x xs ih =>
    cases ys with
    | nil => exact absurd h (hnil x xs (hxs x List.mem_cons_self).1)
    | cons y ys =>
      have hx := (hxs x List.mem_cons_self).2
      have hy := (hys y List.mem_cons_self).2
      cases xs with
      | nil =>
        cases ys with
        | nil => exact congrArg (fun z => [z]) h
        | cons y' ys => exact absurd h (hone x y y' ys hx)
      | cons x' xs =>
        cases ys with
        | nil => exact absurd h.symm (hone y x x' xs hy)
        | cons y' ys =>
          obtain ⟨rfl,hrest⟩ := append_mark_inj hx hy h
          rw [ih (fun z hz => hxs z (List.mem_cons_of_mem x hz))
            (fun z hz => hys z (List.mem_cons_of_mem x hz)) hrest]

end Rendering
end Spork
