import Mathlib

/-! Steps that may come to nothing, done one after another: a list of them comes to
something when each does. -/
namespace Spork
namespace Fallible

variable {α β σ : Type*}

theorem mapM_some {f : α → Option β} {P : α → β → Prop} {xs : List α}
    (h : ∀ x ∈ xs, ∃ y, f x = some y ∧ P x y) : ∃ ys, xs.mapM f = some ys ∧ List.Forall₂ P xs ys := by
  induction xs with
  | nil => exact ⟨[],rfl,.nil⟩
  | cons x xs ih =>
    obtain ⟨y,hy,hxy⟩ := h x List.mem_cons_self
    obtain ⟨ys,hys,hrest⟩ := ih fun z hz => h z (List.mem_cons_of_mem x hz)
    exact ⟨y :: ys,by simp [List.mapM_cons,hy,hys],.cons hxy hrest⟩

theorem isSome_of_mapM {f : α → Option β} {xs : List α} {ys : List β} (h : xs.mapM f = some ys) :
    ∀ x ∈ xs, (f x).isSome = true := by
  induction xs generalizing ys with
  | nil => exact fun x hx => absurd hx List.not_mem_nil
  | cons x xs ih =>
    rw [List.mapM_cons] at h
    obtain ⟨y,hy,hrest⟩ := Option.bind_eq_some_iff.mp h
    obtain ⟨zs,hzs,-⟩ := Option.bind_eq_some_iff.mp hrest
    intro z hz
    rcases List.mem_cons.mp hz with rfl | hz
    · rw [hy]
      rfl
    · exact ih hzs z hz

/-- A loop comes to something that keeps what each turn keeps. -/
theorem foldlM_some {f : σ → α → Option σ} (inv : σ → Prop) {xs : List α} {s : σ} (hs : inv s)
    (h : ∀ t, inv t → ∀ x ∈ xs, ∃ t', f t x = some t' ∧ inv t') :
    ∃ t, xs.foldlM f s = some t ∧ inv t := by
  induction xs generalizing s with
  | nil => exact ⟨s,rfl,hs⟩
  | cons x xs ih =>
    obtain ⟨t,ht,hinv⟩ := h s hs x List.mem_cons_self
    obtain ⟨t',hrun,hinv'⟩ := ih hinv fun u hu z hz => h u hu z (List.mem_cons_of_mem x hz)
    exact ⟨t',by rw [List.foldlM_cons,ht];exact hrun,hinv'⟩

theorem toOption_ok {ε α : Type} {r : Except ε α} {a : α} (h : r.toOption = some a) : r = .ok a := by
  cases r <;> cases h
  rfl

/-! ## Refusals -/

section Refusals

universe u

variable {ε κ : Type u}

theorem error_ne_ok {τ : Type*} {α : Type*} {e : τ} {a : α} : (Except.error e : Except τ α) ≠ .ok a := by
  intro h
  cases h

theorem bind_ok_iff {τ : Type*} {α β : Type u} {x : Except τ α} {f : α → Except τ β} {b : β} :
    (x >>= f) = .ok b ↔ ∃ a, x = .ok a ∧ f a = .ok b := by
  cases x with
  | error e => simp [bind,Except.bind]
  | ok a => simp [bind,Except.bind]

/-- A check and what follows it. -/
theorem then_ok_iff {τ : Type*} {β : Type u} {x : Except τ PUnit} {y : Except τ β} {b : β} :
    (x >>= fun _ => y) = .ok b ↔ x = .ok ⟨⟩ ∧ y = .ok b := by
  rw [bind_ok_iff]
  constructor
  · rintro ⟨⟨⟩,hx,hy⟩
    exact ⟨hx,hy⟩
  · rintro ⟨hx,hy⟩
    exact ⟨⟨⟩,hx,hy⟩

/-- Results of a list, where each thing's is one thing when it passes a test. -/
theorem mapM_ok_iff {α β : Type u} {f : α → Except ε β} {test : α → Prop} {g : α → β} {xs : List α} {ys : List β}
    (h : ∀ x ∈ xs, ∀ y, f x = .ok y ↔ test x ∧ y = g x) :
    xs.mapM f = .ok ys ↔ (∀ x ∈ xs, test x) ∧ ys = xs.map g := by
  induction xs generalizing ys with
  | nil => simp [pure,Except.pure,eq_comm]
  | cons x xs ih =>
    have hrest (zs : List β) : xs.mapM f = .ok zs ↔ (∀ x ∈ xs, test x) ∧ zs = xs.map g :=
      ih fun y hy => h y (List.mem_cons_of_mem x hy)
    rw [List.mapM_cons,bind_ok_iff,List.forall_mem_cons]
    simp only [bind_ok_iff,h x List.mem_cons_self,hrest,pure,Except.pure,Except.ok.injEq]
    constructor
    · rintro ⟨y,⟨hx,rfl⟩,zs,⟨hxs,rfl⟩,rfl⟩
      exact ⟨⟨hx,hxs⟩,rfl⟩
    · rintro ⟨⟨hx,hxs⟩,rfl⟩
      exact ⟨g x,⟨hx,rfl⟩,xs.map g,⟨hxs,rfl⟩,rfl⟩

/-- Each checked in turn: nothing is refused when nothing is of each. -/
theorem each_ok {check : α → Except ε PUnit} {xs : List α} :
    xs.forM check = .ok ⟨⟩ ↔ ∀ x ∈ xs, check x = .ok ⟨⟩ := by
  induction xs with
  | nil => simp [pure,Except.pure]
  | cons x xs ih =>
    show (check x >>= fun _ => xs.forM check) = .ok ⟨⟩ ↔ _
    rw [then_ok_iff,ih,List.forall_mem_cons]

/-- Refused where something is so. -/
def refuseIf (p : Prop) [Decidable p] (why : ε) : Except ε Unit := if p then .error why else .ok ()

@[simp] theorem refuseIf_ok {p : Prop} [Decidable p] {why : ε} : refuseIf p why = .ok () ↔ ¬p := by
  unfold refuseIf
  split <;> simp [*]

variable [DecidableEq κ]

/-- A set's own insertion, refused when it has the key. -/
def addNew (twice : ε) (seen : List κ) (k : κ) : Except ε (List κ) :=
  if k ∈ seen then .error twice else .ok (k :: seen)

theorem addNew_ok {twice : ε} {seen out : List κ} {k : κ} :
    addNew twice seen k = .ok out ↔ k ∉ seen ∧ out = k :: seen := by
  unfold addNew
  split
  · simp [*]
  · simp [*,eq_comm]

/-- Checked and added in turn: each passes, no two share a key, and no key was there. -/
theorem addEach_ok {check : α → Except ε PUnit} {key : α → κ} {twice : ε} {xs : List α} {seen out : List κ} :
    xs.foldlM (fun seen x => do check x; addNew twice seen (key x)) seen = .ok out ↔
      (∀ x ∈ xs, check x = .ok ⟨⟩) ∧ (xs.map key).Nodup ∧ (∀ x ∈ xs, key x ∉ seen) ∧
        out = (xs.map key).reverse++seen := by
  induction xs generalizing seen with
  | nil => simp [pure,Except.pure,eq_comm]
  | cons x xs ih =>
    rw [List.foldlM_cons,bind_ok_iff]
    simp only [then_ok_iff,addNew_ok,ih,List.forall_mem_cons,List.map_cons,List.nodup_cons,List.reverse_cons,
      List.append_assoc,List.singleton_append]
    constructor
    · rintro ⟨seen',⟨hx,hnew,rfl⟩,hrest,hnodup,hfresh,rfl⟩
      refine ⟨⟨hx,hrest⟩,⟨?_,hnodup⟩,⟨hnew,fun y hy => List.not_mem_of_not_mem_cons (hfresh y hy)⟩,rfl⟩
      intro hin
      obtain ⟨y,hy,hkey⟩ := List.mem_map.mp hin
      exact hfresh y hy (hkey ▸ List.mem_cons_self)
    · rintro ⟨⟨hx,hrest⟩,⟨hnot,hnodup⟩,⟨hnew,hfresh⟩,rfl⟩
      refine ⟨key x :: seen,⟨hx,hnew,rfl⟩,hrest,hnodup,fun y hy => ?_,rfl⟩
      exact List.not_mem_cons_of_ne_of_not_mem (fun hkey => hnot (hkey ▸ List.mem_map_of_mem hy)) (hfresh y hy)

end Refusals

end Fallible
end Spork
