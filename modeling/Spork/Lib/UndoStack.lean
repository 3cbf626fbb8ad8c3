import Mathlib

/-! What is on screen, with what was there before and after it: changes that can be undone and
done again, of which only the last so many are kept. -/
namespace Spork
namespace UndoStack

variable {α : Type*}

/-- The last so many of a list: `slice(-n)`. -/
def lastOf (n : ℕ) (l : List α) : List α := l.drop (l.length-n)

structure Track (α : Type*) where
  past : List α
  now : α
  future : List α

/-- A change, with what was there before it kept, and with it only so many of those before. -/
def Track.push (room : ℕ) (t : Track α) (next : α) : Track α := ⟨lastOf room t.past++[t.now],next,[]⟩

def Track.undo (t : Track α) : Track α :=
  match t.past.getLast? with
  | none => t
  | some before => ⟨t.past.dropLast,before,t.now :: t.future⟩

def Track.redo (t : Track α) : Track α :=
  match t.future with
  | [] => t
  | after :: future => ⟨t.past++[t.now],after,future⟩

/-- Changes one after another. -/
def pushes (room : ℕ) (t : Track α) (nexts : List α) : Track α := nexts.foldl (Track.push room) t

variable {room : ℕ} {t : Track α}

theorem mem_lastOf {n : ℕ} {l : List α} {a : α} (h : a ∈ lastOf n l) : a ∈ l := List.mem_of_mem_drop h

theorem length_lastOf (n : ℕ) (l : List α) : (lastOf n l).length ≤ n := by
  rw [lastOf,List.length_drop]
  omega

/-- The last so many of a list include what ends it, when that is no more. -/
theorem lastOf_append {n : ℕ} (l l' : List α) (h : l'.length ≤ n) : ∃ k, lastOf n (l++l') = k++l' := by
  refine ⟨l.drop (l.length+l'.length-n),?_⟩
  rw [lastOf,List.length_append,List.drop_append_of_le_length (by omega)]

@[simp] theorem undo_concat (past : List α) (before now : α) (future : List α) :
    Track.undo ⟨past++[before],now,future⟩ = ⟨past,before,now :: future⟩ := by
  simp [Track.undo]

@[simp] theorem redo_cons (past : List α) (now after : α) (future : List α) :
    Track.redo ⟨past,now,after :: future⟩ = ⟨past++[now],after,future⟩ := rfl

/-- Undoing as many changes as a list is long goes back along it. -/
theorem undos (past : List α) {steps rest : List α} {now first : α} (h : steps++[now] = first :: rest) (future : List α) :
    Track.undo^[steps.length] ⟨past++steps,now,future⟩ = ⟨past,first,rest++future⟩ := by
  induction steps using List.reverseRecOn generalizing now rest future with
  | nil =>
    obtain ⟨rfl,rfl⟩ := List.cons.inj h
    simp
  | append_singleton steps before ih =>
    obtain ⟨rest',hrest⟩ : ∃ rest', steps++[before] = first :: rest' := by
      cases steps with
      | nil => exact ⟨[],by rw [(List.cons.inj h).1]; rfl⟩
      | cons step steps => exact ⟨steps++[before],by rw [← (List.cons.inj h).1]; rfl⟩
    rw [hrest,List.cons_append] at h
    obtain ⟨-,rfl⟩ := List.cons.inj h
    rw [List.length_append,List.length_singleton,Function.iterate_succ_apply,← List.append_assoc,undo_concat,ih hrest,
      List.append_assoc]
    rfl

/-- Doing as many again goes forward along it. -/
theorem redos (past : List α) {steps rest : List α} {now first : α} (h : first :: rest = steps++[now]) (future : List α) :
    Track.redo^[rest.length] ⟨past,first,rest++future⟩ = ⟨past++steps,now,future⟩ := by
  induction rest generalizing past steps first with
  | nil =>
    obtain ⟨rfl,hnow⟩ : [] = steps ∧ [first] = [now] := List.append_inj' (h : []++[first] = steps++[now]) rfl
    rw [List.cons.inj hnow |>.1]
    simp
  | cons after rest ih =>
    cases steps with
    | nil => cases h
    | cons step steps =>
      obtain ⟨rfl,hrest⟩ := List.cons.inj h
      rw [List.length_cons,Function.iterate_succ_apply,List.cons_append,redo_cons,ih _ hrest,List.append_assoc]
      rfl

/-- What is on screen after changes. -/
theorem pushes_now (t : Track α) {nexts steps : List α} {now : α} (h : t.now :: nexts = steps++[now]) :
    (pushes room t nexts).now = now := by
  cases nexts using List.reverseRecOn with
  | nil =>
    have hlast := congrArg List.getLast? h
    rw [List.getLast?_concat] at hlast
    exact Option.some.inj hlast
  | append_singleton nexts next =>
    have hlast := congrArg List.getLast? h
    rw [← List.cons_append,List.getLast?_concat,List.getLast?_concat] at hlast
    rw [pushes,List.foldl_append]
    exact Option.some.inj hlast

/-- After changes that there is room for, what was there before each is kept. -/
theorem pushes_eq (t : Track α) {nexts steps : List α} {now : α} (hsome : nexts ≠ []) (hroom : nexts.length ≤ room+1)
    (h : t.now :: nexts = steps++[now]) : ∃ past, pushes room t nexts = ⟨past++steps,now,[]⟩ := by
  induction nexts using List.reverseRecOn generalizing steps now with
  | nil => exact absurd rfl hsome
  | append_singleton nexts next ih =>
    rw [List.length_append,List.length_singleton] at hroom
    rw [← List.cons_append] at h
    obtain ⟨rfl,hnow⟩ := List.append_inj' h rfl
    obtain rfl : next = now := (List.cons.inj hnow).1
    have hlast : pushes room t (nexts++[next]) = (pushes room t nexts).push room next := by
      rw [pushes,List.foldl_append]
      rfl
    rw [hlast]
    by_cases hnil : nexts = []
    · subst hnil
      exact ⟨lastOf room t.past,rfl⟩
    · obtain ⟨steps,before,hsteps⟩ : ∃ steps before, t.now :: nexts = steps++[before] :=
        List.eq_nil_or_concat' _ |>.resolve_left (List.cons_ne_nil _ _)
      have hlen := congrArg List.length hsteps
      rw [List.length_cons,List.length_append,List.length_singleton] at hlen
      obtain ⟨past,hpast⟩ := ih hnil (by omega) hsteps
      obtain ⟨k,hk⟩ := lastOf_append past steps (show steps.length ≤ room by omega)
      refine ⟨k,?_⟩
      rw [hpast,Track.push,hk,hsteps,List.append_assoc]

/-- After changes that there is room for, undoing some of them goes back to what was there when
the rest had been made, and doing them again goes forward to where it was. -/
theorem undo_pushes (t : Track α) {nexts : List α} (hroom : nexts.length ≤ room+1) {k : ℕ} (hk : k ≤ nexts.length) :
    (Track.undo^[k] (pushes room t nexts)).now = (pushes room t (nexts.take (nexts.length-k))).now ∧
      Track.redo^[k] (Track.undo^[k] (pushes room t nexts)) = pushes room t nexts := by
  by_cases hnil : nexts = []
  · subst hnil
    obtain rfl : k = 0 := Nat.le_zero.mp hk
    exact ⟨rfl,rfl⟩
  · obtain ⟨steps,now,hsteps⟩ : ∃ steps now, t.now :: nexts = steps++[now] :=
      List.eq_nil_or_concat' _ |>.resolve_left (List.cons_ne_nil _ _)
    have hlen : nexts.length = steps.length := by
      have := congrArg List.length hsteps
      rw [List.length_cons,List.length_append,List.length_singleton] at this
      omega
    obtain ⟨past,hpast⟩ := pushes_eq t hnil hroom hsteps
    -- those that stay, and those that are undone
    obtain ⟨kept,undone,rfl,hundone⟩ : ∃ kept undone, steps = kept++undone ∧ undone.length = k :=
      ⟨steps.take (steps.length-k),steps.drop (steps.length-k),(List.take_append_drop _ _).symm,
        by rw [List.length_drop]; omega⟩
    obtain ⟨first,rest,hfirst⟩ : ∃ first rest, undone++[now] = first :: rest := by
      cases undone with
      | nil => exact ⟨now,[],rfl⟩
      | cons step undone => exact ⟨step,undone++[now],rfl⟩
    have hback := undos (past++kept) hfirst []
    have hforth := redos (past++kept) hfirst.symm []
    have hrest : rest.length = k := by
      have := congrArg List.length hfirst
      rw [List.length_append,List.length_singleton,List.length_cons] at this
      omega
    rw [hundone,List.append_assoc] at hback
    rw [hrest,List.append_assoc] at hforth
    rw [hpast,hback]
    have hkept : nexts.length-k = kept.length := by
      rw [List.length_append] at hlen
      omega
    have htake : t.now :: nexts.take kept.length = kept++[first] := by
      calc t.now :: nexts.take kept.length = (t.now :: nexts).take (kept.length+1) := rfl
        _ = (kept++first :: rest).take (kept.length+1) := by rw [hsteps,List.append_assoc,hfirst]
        _ = kept++[first] := by simp [List.take_append]
    rw [hkept]
    exact ⟨(pushes_now t htake).symm,hforth⟩

end UndoStack
end Spork
