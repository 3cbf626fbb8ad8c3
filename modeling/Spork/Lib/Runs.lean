import Mathlib

/-! Runs of a machine that takes one event at a time and may refuse it, and what every
run whose events meet a condition keeps. -/
namespace Spork
namespace Runs

variable {σ ε : Type*} (step : σ → ε → Option σ)

/-- The state events in turn lead to, where none is refused. -/
def run : σ → List ε → Option σ
  | s, [] => some s
  | s, e :: es => (step s e).bind fun s' => run s' es

/-- Every event of a run meets a condition in the state it comes to. -/
def Meets (ok : σ → ε → Prop) : σ → List ε → Prop
  | _, [] => True
  | s, e :: es => ok s e ∧ ∀ s', step s e = some s' → Meets ok s' es

instance decidableMeets (ok : σ → ε → Prop) [∀ s e, Decidable (ok s e)] :
    ∀ (s : σ) (es : List ε), Decidable (Meets step ok s es)
  | _, [] => .isTrue trivial
  | s, e :: es =>
    match h : step s e with
    | none => decidable_of_iff (ok s e) ⟨fun hok => ⟨hok,fun t ht => by rw [h] at ht; cases ht⟩,And.left⟩
    | some s' =>
      have := decidableMeets ok s' es
      decidable_of_iff (ok s e ∧ Meets step ok s' es)
        ⟨fun hok => ⟨hok.1,fun t ht => by rw [h] at ht; cases ht; exact hok.2⟩,fun hok => ⟨hok.1,hok.2 s' h⟩⟩

/-- Where a run's end passes a test, it has an end. -/
theorem run_passes (test : σ → Bool) {o : Option σ} (h : o.any test = true) : ∃ s, o = some s ∧ test s = true := by
  cases o with
  | none => cases h
  | some s => exact ⟨s,rfl,h⟩

variable {step} {ok : σ → ε → Prop} {inv : σ → Prop} {s s' s'' : σ} {e : ε} {es fs : List ε}

@[simp] theorem run_nil : run step s [] = some s := rfl

theorem run_cons : run step s (e :: es) = some s'' ↔ ∃ s', step s e = some s' ∧ run step s' es = some s'' :=
  Option.bind_eq_some_iff

theorem run_append : run step s (es++fs) = some s'' ↔ ∃ s', run step s es = some s' ∧ run step s' fs = some s'' := by
  induction es generalizing s with
  | nil => simp
  | cons e es ih =>
    rw [List.cons_append,run_cons]
    constructor
    · rintro ⟨s₁,hone,hrest⟩
      obtain ⟨s₂,hall,hlast⟩ := ih.mp hrest
      exact ⟨s₂,run_cons.mpr ⟨s₁,hone,hall⟩,hlast⟩
    · rintro ⟨s₂,hall,hlast⟩
      obtain ⟨s₁,hone,hrest⟩ := run_cons.mp hall
      exact ⟨s₁,hone,ih.mpr ⟨s₂,hrest,hlast⟩⟩

/-- The run that takes one more event. -/
theorem run_snoc (h : run step s es = some s') (he : step s' e = some s'') :
    run step s (es++[e]) = some s'' :=
  run_append.mpr ⟨s',h,run_cons.mpr ⟨s'',he,rfl⟩⟩

/-- The last event of a run, and the run before it. -/
theorem run_of_snoc (h : run step s (es++[e]) = some s'') :
    ∃ s', run step s es = some s' ∧ step s' e = some s'' := by
  obtain ⟨s',hrun,hlast⟩ := run_append.mp h
  obtain ⟨t,ht,hnil⟩ := run_cons.mp hlast
  cases hnil
  exact ⟨s',hrun,ht⟩

theorem Meets.append (h : Meets step ok s (es++fs)) (hrun : run step s es = some s') :
    Meets step ok s es ∧ Meets step ok s' fs := by
  induction es generalizing s with
  | nil =>
    cases hrun
    exact ⟨trivial,h⟩
  | cons e es ih =>
    obtain ⟨s₁,hone,hrest⟩ := run_cons.mp hrun
    obtain ⟨hfirst,hall⟩ := ih (h.2 s₁ hone) hrest
    refine ⟨⟨h.1,fun t ht => ?_⟩,hall⟩
    rw [hone] at ht
    cases ht
    exact hfirst

theorem Meets.imp {ok' : σ → ε → Prop} (h : ∀ s e, ok s e → ok' s e) (hok : Meets step ok s es) : Meets step ok' s es := by
  induction es generalizing s with
  | nil => trivial
  | cons e es ih => exact ⟨h s e hok.1,fun s' hs' => ih (hok.2 s' hs')⟩

/-- What holds at the start and is kept by every event that meets the condition holds in
every state such a run reaches. -/
theorem run_keeps (hs : inv s) (hstep : ∀ t e t', inv t → ok t e → step t e = some t' → inv t')
    (hok : Meets step ok s es) (h : run step s es = some s') : inv s' := by
  induction es generalizing s with
  | nil =>
    cases h
    exact hs
  | cons e es ih =>
    obtain ⟨s₁,hone,hrest⟩ := run_cons.mp h
    exact ih (hstep s e s₁ hs hok.1 hone) (hok.2 s₁ hone) hrest

/-- What every event keeps holds in every state reached. -/
theorem run_inv (hs : inv s) (hstep : ∀ t e t', inv t → step t e = some t' → inv t')
    (h : run step s es = some s') : inv s' := by
  induction es generalizing s with
  | nil =>
    cases h
    exact hs
  | cons e es ih =>
    obtain ⟨s₁,hone,hrest⟩ := run_cons.mp h
    exact ih (hstep s e s₁ hs hone) hrest

/-- Where an event leads from a state with a property to one with it just when it meets a
condition, every state of a run has the property just when every event meets it. -/
theorem meets_iff_always {good : σ → Prop} (hs : inv s) (hgood : good s)
    (hstep : ∀ t e t', inv t → good t → step t e = some t' → inv t' ∧ (good t' ↔ ok t e))
    (h : run step s es = some s') :
    Meets step ok s es ↔ ∀ fs gs t, es = fs++gs → run step s fs = some t → good t := by
  induction es generalizing s with
  | nil =>
    refine ⟨fun _ fs gs t heq hrun => ?_,fun _ => trivial⟩
    obtain ⟨rfl,-⟩ := List.append_eq_nil_iff.mp heq.symm
    cases hrun
    exact hgood
  | cons e es ih =>
    obtain ⟨s₁,hone,hrest⟩ := run_cons.mp h
    obtain ⟨hinv,hiff⟩ := hstep s e s₁ hs hgood hone
    constructor
    · intro hok fs gs t heq hrun
      cases fs with
      | nil =>
        cases hrun
        exact hgood
      | cons f fs =>
        obtain ⟨rfl,hrest'⟩ := List.cons.inj heq
        obtain ⟨s₂,hone',hrun⟩ := run_cons.mp hrun
        obtain rfl : s₁ = s₂ := Option.some.inj (hone.symm.trans hone')
        exact (ih hinv (hiff.mpr hok.1) hrest).mp (hok.2 s₁ hone) fs gs t hrest' hrun
    · intro hall
      have hfirst : good s₁ := hall [e] es s₁ rfl (run_cons.mpr ⟨s₁,hone,rfl⟩)
      refine ⟨hiff.mp hfirst,fun s₂ hone' => ?_⟩
      obtain rfl : s₁ = s₂ := Option.some.inj (hone.symm.trans hone')
      exact (ih hinv hfirst hrest).mpr fun fs gs t heq hrun =>
        hall (e :: fs) gs t (by rw [heq,List.cons_append]) (run_cons.mpr ⟨s₁,hone,hrun⟩)

end Runs
end Spork
