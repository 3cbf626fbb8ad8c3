import Mathlib

/-! The greatest count that passes a test, looked for by halving: between a count that
passes and one that does not, the count halfway is tried until the two are next to each
other. What is found is the greatest just when each count not over it that halving
towards it tries passes too. -/
namespace Spork
namespace Halving

variable (ok : ℕ → Bool)

/-- The loop, from `lo`, which passes, and `hi`, which does not, at most so many times. -/
def halve : ℕ → ℕ → ℕ → ℕ
  | 0, lo, _ => lo
  | more+1, lo, hi =>
    if 1 < hi-lo then
      let mid := (lo+hi)/2
      if ok mid then halve more mid hi else halve more lo mid
    else lo

/-- The counts not over `g` that halving towards `g` tries. -/
def towards : ℕ → ℕ → ℕ → ℕ → List ℕ
  | 0, _, _, _ => []
  | more+1, lo, hi, g =>
    if 1 < hi-lo then
      let mid := (lo+hi)/2
      if mid ≤ g then mid :: towards more mid hi g else towards more lo mid g
    else []

theorem halve_lt (more : ℕ) {lo hi : ℕ} (h : lo < hi) : halve ok more lo hi < hi := by
  induction more generalizing lo hi with
  | zero => exact h
  | succ more ih =>
    simp only [halve]
    split_ifs with hwide hmid
    · apply ih
      omega
    · have hmid : lo < (lo+hi)/2 := by omega
      apply (ih hmid).trans
      omega
    · exact h

variable {ok}

/-- What is found passes when `lo` does. -/
theorem halve_ok (more : ℕ) {lo : ℕ} (hi : ℕ) (h : ok lo = true) :
    ok (halve ok more lo hi) = true := by
  induction more generalizing lo hi with
  | zero => exact h
  | succ more ih =>
    simp only [halve]
    split_ifs with hwide hmid
    · exact ih hi hmid
    · exact ih _ h
    · exact h

/-- Halving finds the greatest that passes just when it is not led away from it. -/
theorem halve_eq_iff (more : ℕ) {lo hi g : ℕ} (hlo : lo ≤ g) (hhi : g < hi)
    (hafter : ∀ n, g < n → n < hi → ok n = false) (hwidth : hi-lo ≤ more+1) :
    halve ok more lo hi = g ↔ ∀ m ∈ towards more lo hi g, ok m = true := by
  induction more generalizing lo hi with
  | zero =>
    have hsame : lo = g := by omega
    simp [halve,towards,hsame]
  | succ more ih =>
    by_cases hwide : 1 < hi-lo
    · have hmidlo : lo < (lo+hi)/2 := by omega
      have hmidhi : (lo+hi)/2 < hi := by omega
      simp only [halve,towards,hwide,if_true]
      by_cases hmid : (lo+hi)/2 ≤ g
      · rw [if_pos hmid,List.forall_mem_cons]
        cases hok : ok ((lo+hi)/2) with
        | false =>
          -- led below the middle, and so below `g`
          have hbelow := halve_lt ok more hmidlo
          simp only [Bool.false_eq_true,if_false,false_and,iff_false]
          omega
        | true =>
          simp only [if_true,true_and]
          exact ih hmid hhi hafter (by omega)
      · have hfails := hafter _ (not_le.mp hmid) hmidhi
        rw [if_neg hmid,hfails]
        simp only [Bool.false_eq_true,if_false]
        exact ih hlo (not_le.mp hmid) (fun n hn hlt => hafter n hn (hlt.trans hmidhi)) (by omega)
    · have hsame : lo = g := by omega
      simp only [halve,towards,if_neg hwide]
      simp [hsame]

end Halving
end Spork
