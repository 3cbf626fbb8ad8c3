import Spork.Layout.DeskRun

/-! Undo and redo in the plan editor: as many as a hundred changes, a drag however long being
one, are undone one at a time, and done again. -/
namespace Spork
namespace Layout
namespace Desk

open Edit (Uuid)
open UndoStack (Track)

/-- What is changed at once: one act, or a drag from where it begins. -/
inductive Gesture where
  | act (a : Act)
  | drag (moves : List (Uuid → Option (PlaceBox ℚ)))

def PlanDesk.gesture (lower : String → String) (s : PlanDesk) : Gesture → PlanDesk
  | .act a => s.act lower a
  | .drag moves => moves.foldl (fun s boxes => s.act lower (.drag boxes)) (s.act lower .begin)

/-- An act that is a step to undo. -/
def Steps (s : PlanDesk) : Act → Prop
  | .change .. | .place _ | .add .. | .remove _ | .discard => True
  | .placeBin location .. => ∀ d ∈ s.drafts, d.holds.map Prod.fst ≠ some location
  | .begin | .drag _ | .undo | .redo | .measureInMetres => False

def Gesture.Steps (s : PlanDesk) : Gesture → Prop
  | .act a => Desk.Steps s a
  | .drag _ => True

/-- Each gesture is a step to undo where it is made. -/
def AllStep (lower : String → String) : PlanDesk → List Gesture → Prop
  | _, [] => True
  | s, g :: gs => g.Steps s ∧ AllStep lower (s.gesture lower g) gs

def PlanDesk.gestures (lower : String → String) (s : PlanDesk) (gs : List Gesture) : PlanDesk := gs.foldl (PlanDesk.gesture lower) s

/-- The editor's places as they are, and before and after. -/
def PlanDesk.track (s : PlanDesk) : Track (List Draft) := ⟨s.past,s.drafts,s.future⟩

variable {lower : String → String} {s : PlanDesk}

theorem track_undo (lower : String → String) (s : PlanDesk) : (s.act lower .undo).track = s.track.undo := by
  simp only [PlanDesk.act,Track.undo,PlanDesk.track]
  cases s.past.getLast? <;> rfl

theorem track_redo (lower : String → String) (s : PlanDesk) : (s.act lower .redo).track = s.track.redo := by
  obtain ⟨view,drafts,past,future⟩ := s
  cases future <;> rfl

theorem track_iterate {f : PlanDesk → PlanDesk} {g : Track (List Draft) → Track (List Draft)}
    (h : ∀ s : PlanDesk, (f s).track = g s.track) (n : ℕ) (s : PlanDesk) : (f^[n] s).track = g^[n] s.track := by
  induction n generalizing s with
  | zero => rfl
  | succ n ih => rw [Function.iterate_succ_apply,Function.iterate_succ_apply,ih,h]

theorem track_drag (moves : List (Uuid → Option (PlaceBox ℚ))) (s : PlanDesk) :
    let after := moves.foldl (fun s boxes => s.act lower (.drag boxes)) s
    after.view = s.view ∧ after.past = s.past ∧ after.future = s.future := by
  induction moves generalizing s with
  | nil => exact ⟨rfl,rfl,rfl⟩
  | cons boxes moves ih => exact ih (s.act lower (.drag boxes))

/-- A gesture is one change. -/
theorem track_gesture (lower : String → String) {g : Gesture} (h : g.Steps s) :
    (s.gesture lower g).track = s.track.push 99 (s.gesture lower g).drafts ∧ (s.gesture lower g).view = s.view := by
  cases g with
  | act a =>
    cases a with
    | placeBin location code placeId x y =>
      have hfree : (s.drafts.any fun d => decide (d.holds.map Prod.fst = some location)) = false := by
        rw [List.any_eq_false]
        intro d hd
        rw [decide_eq_true_eq]
        exact h d hd
      simp only [PlanDesk.gesture,PlanDesk.act,hfree]
      exact ⟨rfl,rfl⟩
    | begin => exact h.elim
    | drag => exact h.elim
    | undo => exact h.elim
    | redo => exact h.elim
    | measureInMetres => exact h.elim
    | _ => exact ⟨rfl,rfl⟩
  | drag moves =>
    obtain ⟨hview,hpast,hfuture⟩ := track_drag moves (s.act lower .begin)
    refine ⟨?_,hview⟩
    rw [PlanDesk.track,Track.push,PlanDesk.gesture,hpast,hfuture]
    rfl

/-- What the editor shows after each of some gestures. -/
def showings (lower : String → String) : PlanDesk → List Gesture → List (List Draft)
  | _, [] => []
  | s, g :: gs => (s.gesture lower g).drafts :: showings lower (s.gesture lower g) gs

theorem length_showings (lower : String → String) (s : PlanDesk) (gs : List Gesture) : (showings lower s gs).length = gs.length := by
  induction gs generalizing s with
  | nil => rfl
  | cons g gs ih => exact congrArg Nat.succ (ih (s.gesture lower g))

theorem take_showings (n : ℕ) (s : PlanDesk) (gs : List Gesture) :
    (showings lower s gs).take n = showings lower s (gs.take n) := by
  induction gs generalizing s n with
  | nil => simp [showings]
  | cons g gs ih =>
    cases n with
    | zero => rfl
    | succ n => exact congrArg _ (ih n _)

theorem AllStep.take {gs : List Gesture} (h : AllStep lower s gs) (n : ℕ) : AllStep lower s (gs.take n) := by
  induction gs generalizing s n with
  | nil => simpa using h
  | cons g gs ih =>
    cases n with
    | zero => trivial
    | succ n => exact ⟨h.1,ih h.2 n⟩

/-- Gestures are as many changes. -/
theorem track_gestures {gs : List Gesture} (h : AllStep lower s gs) :
    (s.gestures lower gs).track = UndoStack.pushes 99 s.track (showings lower s gs) ∧ (s.gestures lower gs).view = s.view := by
  induction gs generalizing s with
  | nil => exact ⟨rfl,rfl⟩
  | cons g gs ih =>
    obtain ⟨htrack,hview⟩ := track_gesture lower h.1
    obtain ⟨hrest,hviews⟩ := ih h.2
    refine ⟨?_,hviews.trans hview⟩
    rw [htrack] at hrest
    exact hrest

theorem ext_track {s s' : PlanDesk} (hview : s.view = s'.view) (htrack : s.track = s'.track) : s = s' := by
  obtain ⟨view,drafts,past,future⟩ := s
  obtain ⟨view',drafts',past',future'⟩ := s'
  cases hview
  cases htrack
  rfl

theorem undo_view (n : ℕ) (s : PlanDesk) : ((fun s => s.act lower .undo)^[n] s).view = s.view := by
  induction n generalizing s with
  | zero => rfl
  | succ n ih =>
    rw [Function.iterate_succ_apply,ih]
    simp only [PlanDesk.act]
    cases s.past.getLast? <;> rfl

theorem redo_view (n : ℕ) (s : PlanDesk) : ((fun s => s.act lower .redo)^[n] s).view = s.view := by
  induction n generalizing s with
  | zero => rfl
  | succ n ih =>
    rw [Function.iterate_succ_apply,ih]
    simp only [PlanDesk.act]
    cases s.future <;> rfl

/-- After as many as a hundred gestures, so many undos go back to what the editor showed before
the last so many of them, and so many redos forward to where it was. -/
theorem undo_gestures {gs : List Gesture} (h : AllStep lower s gs) (hfew : gs.length ≤ 100) {k : ℕ} (hk : k ≤ gs.length) :
    ((fun s => s.act lower .undo)^[k] (s.gestures lower gs)).drafts = (s.gestures lower (gs.take (gs.length-k))).drafts ∧
      (fun s => s.act lower .redo)^[k] ((fun s => s.act lower .undo)^[k] (s.gestures lower gs)) = s.gestures lower gs := by
  have hlen := length_showings lower s gs
  obtain ⟨htrack,-⟩ := track_gestures h
  obtain ⟨hback,hforth⟩ := UndoStack.undo_pushes s.track (show (showings lower s gs).length ≤ 99+1 by omega)
    (show k ≤ (showings lower s gs).length by omega)
  constructor
  · have hnow := congrArg Track.now (track_iterate (track_undo lower) k (s.gestures lower gs))
    rw [htrack,hback,take_showings,hlen] at hnow
    rw [(track_gestures (h.take _)).1.symm] at hnow
    exact hnow
  · refine ext_track ?_ ?_
    · rw [redo_view,undo_view]
    · rw [track_iterate (track_redo lower),track_iterate (track_undo lower),htrack]
      exact hforth

/-- A rack renamed, and dragged through two places. -/
def renameAndDrag : List Gesture :=
  [.act (.change [2] (.name "B1")),.drag [fun _ => some ⟨1,0,0,2,1,2,0⟩,fun _ => some ⟨2,0,0,2,1,2,0⟩]]

theorem undo_gestures_renamed :
    let s := load (siteLayout sameVersion none rackFloor)
    ((fun s => s.act id .undo)^[2] (s.gestures id renameAndDrag)).drafts = (s.gestures id (renameAndDrag.take (renameAndDrag.length-2))).drafts ∧
      (fun s => s.act id .redo)^[2] ((fun s => s.act id .undo)^[2] (s.gestures id renameAndDrag)) = s.gestures id renameAndDrag :=
  undo_gestures (show AllStep id _ renameAndDrag from ⟨trivial,trivial,trivial⟩) (by decide) (by decide)

end Desk
end Layout
end Spork
