import Spork.Lib.Lineage

/-! Forests of a bounded depth, by their parent map: what hanging a node under another
makes of the bound. -/
namespace Spork
namespace Forest

variable {α : Type*} {parent parent' : α → Option α}

/-- No line up has more than so many nodes. -/
def AtMost (parent : α → Option α) (n : ℕ) : Prop := ∀ a, up parent n a = none

/-- Past the end of a line there is nothing. -/
theorem up_past {a : α} {n m : ℕ} (h : up parent n a = none) (hle : n ≤ m) : up parent m a = none := by
  obtain ⟨k,rfl⟩ := Nat.exists_eq_add_of_le hle
  rw [up_add,h]
  rfl

/-- Where lines end nothing is up its own. -/
theorem AtMost.not_own {n : ℕ} (h : AtMost parent n) {a : α} {k : ℕ} (hk : 0 < k) :
    up parent k a ≠ some a := by
  intro hown
  have hround (j : ℕ) : up parent (k*j) a = some a := by
    induction j with
    | zero => rfl
    | succ j ih => rw [Nat.mul_succ,up_add,ih,Option.bind_some,hown]
  have hend := up_past (h a) (Nat.le_mul_of_pos_left n hk)
  rw [hround] at hend
  cases hend

/-- A line up, node by node. -/
theorem up_chain {a b : α} {xs : List α} (h : (a :: xs).IsChain fun c p => parent c = some p)
    (hb : (a :: xs).getLast? = some b) : up parent xs.length a = some b := by
  induction xs generalizing a with
  | nil => exact hb
  | cons x xs ih =>
    obtain ⟨hparent,hrest⟩ := List.isChain_cons_cons.mp h
    rw [List.length_cons,Nat.add_comm,up_add,up,up,Option.bind_some,hparent,Option.bind_some]
    exact ih hrest (List.getLast?_cons_cons ▸ hb)

theorem AtMost.chain_le {n : ℕ} (h : AtMost parent n) {xs : List α}
    (hxs : xs.IsChain fun c p => parent c = some p) : xs.length ≤ n := by
  cases xs with
  | nil => exact Nat.zero_le n
  | cons a xs =>
    by_contra hlong
    have hend := up_chain hxs (List.getLast?_eq_some_getLast (List.cons_ne_nil a xs))
    have hle : n ≤ xs.length := by simpa using hlong
    rw [up_past (h a) hle] at hend
    cases hend

theorem AtMost.not_cyclic {n : ℕ} (h : AtMost parent n) (a : α) :
    ¬Relation.TransGen (fun c p => parent c = some p) a a := by
  have hup {b : α} (hb : Relation.TransGen (fun c p => parent c = some p) a b) :
      ∃ k, 0 < k ∧ up parent k a = some b := by
    induction hb with
    | single hparent => exact ⟨1,one_pos,hparent⟩
    | tail _ hparent ih =>
      obtain ⟨k,-,hk⟩ := ih
      exact ⟨k+1,k.succ_pos,by rw [up,hk,Option.bind_some,hparent]⟩
  intro hcycle
  obtain ⟨k,hpos,hk⟩ := hup hcycle
  exact h.not_own hpos hk

/-- A line is the same under parents that are the same along it. -/
theorem up_congr {a : α} {n : ℕ} (h : ∀ k < n, ∀ b, up parent k a = some b → parent' b = parent b) :
    up parent' n a = up parent n a := by
  induction n with
  | zero => rfl
  | succ n ih =>
    rw [up,up,ih fun k hk => h k (by omega)]
    cases hb : up parent n a with
    | none => rfl
    | some b => exact h n (by omega) b hb

/-- Lines only get shorter when nodes are taken off what they hung under. -/
theorem AtMost.of_fewer {n : ℕ} (h : AtMost parent n) (hfewer : ∀ a, parent' a = parent a ∨ parent' a = none) :
    AtMost parent' n := by
  have hkeep (k : ℕ) (a b : α) (hb : up parent' k a = some b) : up parent k a = some b := by
    induction k generalizing b with
    | zero => exact hb
    | succ k ih =>
      obtain ⟨c,hc,hparent⟩ := Option.bind_eq_some_iff.mp hb
      rcases hfewer c with hsame | hnone
      · rw [up,ih c hc,Option.bind_some,← hsame]
        exact hparent
      · rw [hnone] at hparent
        cases hparent
  intro a
  cases hup : up parent' n a with
  | none => rfl
  | some b =>
    have hnone := h a
    rw [hkeep n a b hup] at hnone
    cases hnone

/-- A node hung under another that isn't on a line up from the node itself: the lines are
no longer than from the other up, and from the node down, together. -/
theorem AtMost.hang [DecidableEq α] {n u d : ℕ} (h : AtMost parent n) {c p : α}
    (hup : up parent u p = none) (hdown : ∀ a, up parent d a ≠ some c) (hfree : ∀ k, up parent k p ≠ some c)
    (hle : u+d ≤ n) : AtMost (Function.update parent c (some p)) n := by
  have hother {b : α} (hb : b ≠ c) : Function.update parent c (some p) b = parent b :=
    Function.update_of_ne hb _ _
  intro a
  by_cases hreach : ∃ k, up parent k a = some c
  · have hfirst := Nat.find_spec hreach
    have hbefore (j : ℕ) (hj : j < Nat.find hreach) (b : α) (hb : up parent j a = some b) : b ≠ c := by
      rintro rfl
      exact Nat.find_min hreach hj hb
    have hlt : Nat.find hreach < d := by
      by_contra hge
      obtain ⟨j,hj⟩ := Nat.exists_eq_add_of_le' (not_lt.mp hge)
      rw [hj,up_add,Option.bind_eq_some_iff] at hfirst
      obtain ⟨b,-,hb⟩ := hfirst
      exact hdown b hb
    -- up to the node as before, on to the other, and up from there as before
    have hnode : up (Function.update parent c (some p)) (Nat.find hreach) a = some c := by
      rw [up_congr fun j hj b hb => hother (hbefore j hj b hb)]
      exact hfirst
    have hhung : up (Function.update parent c (some p)) (Nat.find hreach+1) a = some p := by
      rw [up,hnode,Option.bind_some,Function.update_self]
    have habove : up (Function.update parent c (some p)) u p = none := by
      rw [up_congr fun j _ b hb => hother fun hbc => hfree j (hbc ▸ hb)]
      exact hup
    have hend : up (Function.update parent c (some p)) (Nat.find hreach+1+u) a = none := by
      rw [up_add,hhung,Option.bind_some,habove]
    exact up_past hend (by omega)
  · rw [up_congr fun j _ b hb => hother fun hbc => hreach ⟨j,hbc ▸ hb⟩]
    exact h a

end Forest
end Spork
