import Spork.Lib.Depth

/-! Lines from a root down to a node, by the parent map: a node has one line or none, and
one exactly when the parents above it end. -/
namespace Spork
namespace Forest

variable {α : Type*} {parent : α → Option α}

/-- The nodes from a root down to a node, and none above a root. -/
inductive Line (parent : α → Option α) : Option α → List α → Prop
  | top : Line parent none []
  | under {a : α} {xs : List α} : Line parent (parent a) xs → Line parent (some a) (xs++[a])

theorem Line.unique {o : Option α} {xs ys : List α} (hx : Line parent o xs) (hy : Line parent o ys) :
    xs = ys := by
  induction hx generalizing ys with
  | top =>
    cases hy
    rfl
  | under _ ih =>
    cases hy with
    | under hy => rw [ih hy]

/-- Each node of a line has what is above it for its own. -/
theorem Line.above {o : Option α} {xs : List α} (h : Line parent o xs) {a : α} (ha : a ∈ xs) :
    ∃ ys, Line parent (some a) ys ∧ ys.length ≤ xs.length := by
  induction h with
  | top => cases ha
  | @under b xs hxs ih =>
    rcases List.mem_append.mp ha with hin | hlast
    · obtain ⟨ys,hys,hle⟩ := ih hin
      refine ⟨ys,hys,hle.trans ?_⟩
      simp
    · rw [List.mem_singleton.mp hlast]
      exact ⟨xs++[b],hxs.under,le_rfl⟩

/-- A node is not above itself. -/
theorem Line.not_above {a : α} {xs : List α} (h : Line parent (parent a) xs) : a ∉ xs := by
  intro ha
  obtain ⟨ys,hys,hle⟩ := h.above ha
  have heq := hys.unique h.under
  rw [heq,List.length_append] at hle
  simp at hle

/-- No node is on a line twice. -/
theorem Line.nodup {o : Option α} {xs : List α} (h : Line parent o xs) : xs.Nodup := by
  induction h with
  | top => exact List.nodup_nil
  | under hxs ih =>
    rw [← List.concat_eq_append]
    exact ih.concat hxs.not_above

/-- A line's nodes are its own and what is above some node. -/
theorem Line.mem {P : α → Prop} (hup : ∀ a b, parent a = some b → P b) {o : Option α} {xs : List α}
    (h : Line parent o xs) (ho : ∀ a, o = some a → P a) : ∀ a ∈ xs, P a := by
  induction h with
  | top => simp
  | @under a xs hxs ih =>
    intro b hb
    rcases List.mem_append.mp hb with hin | hlast
    · exact ih (hup a) b hin
    · rw [List.mem_singleton.mp hlast]
      exact ho a rfl

/-- Up as many parents as a line has nodes there is nothing. -/
theorem Line.up_length {a : α} {xs : List α} (h : Line parent (some a) xs) : up parent xs.length a = none := by
  generalize ho : some a = o at h
  induction h generalizing a with
  | top => cases ho
  | @under b xs hxs ih =>
    cases ho
    rw [List.length_append,List.length_singleton,Nat.add_comm,up_add,up,up,Option.bind_some]
    cases hp : parent b with
    | none => rfl
    | some c => exact ih hp.symm

/-- And up fewer there is a node. -/
theorem Line.up_isSome {a : α} {xs : List α} (h : Line parent (some a) xs) {n : ℕ} (hn : n < xs.length) :
    (up parent n a).isSome = true := by
  generalize ho : some a = o at h
  induction h generalizing a n with
  | top => cases ho
  | @under b xs hxs ih =>
    cases ho
    rw [List.length_append,List.length_singleton] at hn
    cases n with
    | zero => rfl
    | succ n =>
      rw [Nat.add_comm,up_add,up,up,Option.bind_some]
      cases hp : parent b with
      | none =>
        rw [hp] at hxs
        cases hxs
        simp at hn
      | some c => exact ih (by omega) hp.symm

/-- A node has a line exactly when the parents above it end. -/
theorem exists_line_iff (a : α) : (∃ xs, Line parent (some a) xs) ↔ ∃ n, up parent n a = none := by
  constructor
  · rintro ⟨xs,h⟩
    exact ⟨xs.length,h.up_length⟩
  · rintro ⟨n,hn⟩
    induction n generalizing a with
    | zero => cases hn
    | succ n ih =>
      rw [Nat.add_comm,up_add,up,up,Option.bind_some] at hn
      cases hp : parent a with
      | none =>
        have htop : Line parent (parent a) [] := hp ▸ Line.top
        exact ⟨[a],htop.under⟩
      | some c =>
        rw [hp] at hn
        obtain ⟨xs,hxs⟩ := ih c hn
        rw [← hp] at hxs
        exact ⟨xs++[a],hxs.under⟩

end Forest
end Spork
