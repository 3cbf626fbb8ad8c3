import Spork.Outbox.Kept
import Spork.Outbox.Press

/-! Several tabs over one stored list: when an act is sent by one sender at a time, from
where it got to, and no write of a press goes out under two ids. -/
namespace Spork
namespace Outbox

open Bench (Uuid)

variable {ι T P R : Type} [DecidableEq ι]

/-- Another tab is pressing an act, or draining it. -/
def Elsewhere (w : World ι T P R) (i : ι) (key : String) : Prop :=
  ∃ j, j ≠ i ∧ (key ∈ (w.tabs j).pressed ∨ (w.sending j none).any (·.entry.key == key) = true)

/-- The act a drain goes on to send is sent by no other tab, and is kept as the drain
listed it. -/
def Comes (w : World ι T P R) (i : ι) : Prop :=
  match (w.tabs i).draining with
  | some ⟨owner,entry :: _,none⟩ => w.skips i owner entry = false →
    ¬Elsewhere w i entry.key ∧ ∀ x ∈ w.store, x.key = entry.key → x.body = entry.body
  | _ => True

/-- What has to hold of an event for its act to have one sender: an act put is a new one,
and a drain comes to acts that are nobody else's and as it listed them. -/
def Orderly (known : List String) (w : World ι T P R) : Event ι T P R → Prop
  | .put entry => entry.key ∉ firstPut known w.log
  | .now _ _ entry => entry.key ∉ firstPut known w.log
  | .next i => Comes w i
  | _ => True

instance decidableElsewhere [Fintype ι] (w : World ι T P R) (i : ι) (key : String) : Decidable (Elsewhere w i key) :=
  inferInstanceAs (Decidable (∃ j, j ≠ i ∧ (key ∈ (w.tabs j).pressed ∨ (w.sending j none).any (·.entry.key == key) = true)))

instance decidableComes [Fintype ι] [DecidableEq T] (w : World ι T P R) (i : ι) : Decidable (Comes w i) := by
  unfold Comes
  split <;> infer_instance

instance decidableOrderly [Fintype ι] [DecidableEq T] (known : List String) (w : World ι T P R) (e : Event ι T P R) :
    Decidable (Orderly known w e) :=
  match e with
  | .put entry => inferInstanceAs (Decidable (entry.key ∉ firstPut known w.log))
  | .now _ _ entry => inferInstanceAs (Decidable (entry.key ∉ firstPut known w.log))
  | .next i => inferInstanceAs (Decidable (Comes w i))
  | .drop .. | .refuse .. | .works .. | .nowEnds .. | .drain .. | .drainEnds .. | .close .. => .isTrue trivial

variable [Inhabited P] {known : List String} {w w' : World ι T P R} {e : Event ι T P R}

omit [DecidableEq ι] [Inhabited P] in
theorem Orderly.ownKeys [DecidableEq ι] (h : Orderly known w e) : OwnKeys known w e := by
  cases e with
  | put entry => exact Or.inl h
  | now i n entry => exact h
  | _ => trivial

omit [DecidableEq ι] [Inhabited P] in
theorem orderly_works (i : ι) (p : Option ℕ) (body : T) (pos : P) (keep : Bool) :
    Orderly known w (.works i p body pos keep) := trivial

/-- An act has one send, and a press's is among those its tab is pressing. -/
structure Lone (known : List String) (w : World ι T P R) : Prop where
  order : InOrder known w
  owners : OneOwner known w
  one : ∀ i p s j q t, w.sending i p = some s → w.sending j q = some t → s.entry.key = t.entry.key → i = j ∧ p = q
  pressed : ∀ i n s, w.sending i (some n) = some s → s.entry.key ∈ (w.tabs i).pressed

omit [DecidableEq ι] [Inhabited P] in
theorem Lone.sent (h : Lone known w) {i : ι} {p : Option ℕ} {s : Sending T P} (hs : w.sending i p = some s) :
    s.entry.key ∈ firstPut known w.log := h.owners.1 _ (Present.sent i p s hs)

omit [DecidableEq ι] [Inhabited P] in
theorem Lone.stored (h : Lone known w) {x : Held T} (hx : x ∈ w.store) : x.key ∈ firstPut known w.log :=
  h.owners.1 _ (Present.stored hx)

/-- A send that is running after an event was running, or is a new act's press, or is a
drain's of what is kept. -/
theorem turn_runs (hok : Orderly known w e) (h : Turn w e w') {j : ι} {p : Option ℕ} {s' : Sending T P}
    (hs' : w'.sending j p = some s') :
    (∃ s, w.sending j p = some s ∧ s.entry.key = s'.entry.key ∧ (s = s' ∨ ∃ body pos keep, e = .works j p body pos keep)) ∨
    (∃ n, e = .now j n s'.entry ∧ p = some n ∧ s'.pos = default ∧ w.sending j p = none) ∨
    e = .next j ∧ p = none ∧ s'.pos = default ∧ w.store = w'.store ∧ w.sending j p = none ∧ s'.entry.key ∉ (w.tabs j).pressed ∧
      ¬Elsewhere w j s'.entry.key ∧ (∃ x ∈ w.store, x.key = s'.entry.key) ∧
      ∀ x ∈ w.store, x.key = s'.entry.key → x.body = s'.entry.body := by
  have hset : ∀ i (d : Option (Drain T P)), (w.setDrain i d).sending j p = some s' → d.bind (·.current) ≠ some s' →
      ∃ s, w.sending j p = some s ∧ s.entry.key = s'.entry.key ∧
        (s = s' ∨ ∃ body pos keep, e = .works j p body pos keep) := fun i d hs hne => by
    rcases World.setDrain_sending hs with ⟨-,-,hcur⟩ | ⟨-,hs⟩
    · exact absurd hcur hne
    · exact ⟨s',hs,rfl,Or.inl rfl⟩
  cases h with
  | now i n entry hfree =>
    rcases World.sending_now hs' with ⟨rfl,rfl,rfl⟩ | ⟨-,hs⟩
    · exact Or.inr (Or.inl ⟨n,rfl,rfl,rfl,hfree⟩)
    · exact Or.inl ⟨s',hs,rfl,Or.inl rfl⟩
  | nowEnds i n s o hs => exact Or.inl ⟨s',(World.sending_nowEnds hs').2,rfl,Or.inl rfl⟩
  | works i press s body pos keep hs =>
    left
    rcases World.sending_works hs' with ⟨rfl,rfl,rfl⟩ | ⟨-,hs⟩
    · exact ⟨s,hs,rfl,Or.inr ⟨body,pos,keep,rfl⟩⟩
    · exact ⟨s',hs,rfl,Or.inl rfl⟩
  | drains i owner hd' => exact Or.inl (hset i _ (by simpa using hs') (by simp))
  | finishes i owner hd' => exact Or.inl (hset i _ (by simpa [World.drainOver] using hs') (by simp))
  | passes i owner entry rest hd' hskip => exact Or.inl (hset i _ (by simpa using hs') (by simp))
  | starts i owner entry rest hd' hskip =>
    rcases World.setDrain_sending (show (w.setDrain i _).sending j p = some s' by simpa using hs') with
      ⟨rfl,rfl,hcur⟩ | ⟨-,hs⟩
    · cases hcur
      right
      right
      rw [Orderly,Comes,hd'] at hok
      obtain ⟨halone,hsame⟩ := hok hskip
      obtain ⟨⟨-,hpressed⟩,hwaits⟩ : ((entry.owner = owner ∧ entry.refused = none) ∧
          entry.key ∉ (w.tabs j).pressed) ∧ waits w.store entry.key = true := by
        simpa [World.skips] using hskip
      obtain ⟨x,hx,hkey,-⟩ := waits_iff.mp hwaits
      exact ⟨rfl,rfl,rfl,rfl,by simp [World.sending,hd'],hpressed,halone,⟨x,hx,hkey⟩,hsame⟩
    · exact Or.inl ⟨s',hs,rfl,Or.inl rfl⟩
  | drainEnds i owner rest s o hd' =>
    left
    rcases World.drainEnds_cases w i owner rest s.entry.key o with ⟨_,-,hw⟩ | ⟨_,-,-,hw⟩ | ⟨_,-,-,hw⟩ <;>
      rw [hw] at hs'
    · exact hset i _ (by simpa using hs') (by simp)
    · exact hset i _ (by simpa [World.drainOver] using hs') (by simp)
    · exact hset i _ (by simpa using hs') (by simp)
  | close i =>
    left
    by_cases hj : j = i
    · subst hj
      cases p <;> simp [World.sending,World.setTab,World.tell,Tab.empty] at hs'
    · rw [World.tell_sending,World.setTab_sending_ne hj] at hs'
      exact ⟨s',hs',rfl,Or.inl rfl⟩
  | put entry => exact Or.inl ⟨s',by simpa using hs',rfl,Or.inl rfl⟩
  | drop key => exact Or.inl ⟨s',by simpa using hs',rfl,Or.inl rfl⟩
  | refuse key reason => exact Or.inl ⟨s',by simpa using hs',rfl,Or.inl rfl⟩
  | counted i owner => exact Or.inl ⟨s',by simpa using hs',rfl,Or.inl rfl⟩

/-- A press goes on being pressed while its send runs. -/
theorem turn_pressed (hlone : Lone known w) (h : Turn w e w') {i : ι} {n : ℕ} {s' : Sending T P}
    (hs' : w'.sending i (some n) = some s') : s'.entry.key ∈ (w'.tabs i).pressed := by
  have hsame : ∀ (v : World ι T P R), v.sending i (some n) = some s' → w.sending i (some n) = some s' →
      (v.tabs i).pressed = (w.tabs i).pressed → s'.entry.key ∈ (v.tabs i).pressed := fun v _ hs hp =>
    hp ▸ hlone.pressed i n s' hs
  have hdrain : ∀ k d, ((w.setDrain k d).tabs i).pressed = (w.tabs i).pressed := fun k d => by
    by_cases hi : i = k
    · subst hi
      simp
    · simp [Function.update_of_ne hi]
  cases h with
  | now k m entry hfree =>
    rcases World.sending_now hs' with ⟨rfl,hp,rfl⟩ | ⟨-,hs⟩
    · simp [World.now]
    · by_cases hi : i = k
      · subst hi
        simp only [World.now,World.tell_tabs,World.setTab_tabs,Function.update_self]
        exact List.mem_insert_of_mem (hlone.pressed i n s' hs)
      · simpa [World.now,Function.update_of_ne hi] using hlone.pressed i n s' hs
  | nowEnds k m s o hs =>
    obtain ⟨hne,hold⟩ := World.sending_nowEnds hs'
    have hkey : s'.entry.key ∈ (w.tabs i).pressed := hlone.pressed i n s' hold
    have htabs : (w.nowEnds k m s.entry.key o).tabs = Function.update w.tabs k {w.tabs k with
        pressed := (w.tabs k).pressed.filter (· != s.entry.key)
        presses := Function.update (w.tabs k).presses m none} := by
      cases o with
      | landed reply => rfl
      | failed error =>
        dsimp only [World.nowEnds]
        split <;> rfl
    rw [htabs]
    by_cases hi : i = k
    · subst hi
      rw [Function.update_self]
      refine List.mem_filter.mpr ⟨hkey,?_⟩
      have hother : s'.entry.key ≠ s.entry.key := fun heq => by
        obtain ⟨-,hp⟩ := hlone.one i (some n) s' i (some m) s hold hs heq
        exact hne.elim (fun h => h rfl) fun h => h hp
      simpa using hother
    · rwa [Function.update_of_ne hi]
  | works k press s body pos keep hs =>
    have htabs : ((w.works k press ⟨{s.entry with body := body},pos⟩ keep).tabs i).pressed = (w.tabs i).pressed := by
      have hset : ((w.setSending k ⟨{s.entry with body := body},pos⟩ press).tabs i).pressed = (w.tabs i).pressed := by
        cases press with
        | none => exact hdrain k _
        | some m =>
          by_cases hi : i = k
          · subst hi
            simp [World.setSending]
          · simp [World.setSending,Function.update_of_ne hi]
      cases keep <;> exact hset
    rw [htabs]
    rcases World.sending_works hs' with ⟨rfl,rfl,rfl⟩ | ⟨-,hold⟩
    · exact hlone.pressed i n s hs
    · exact hlone.pressed i n s' hold
  | close k =>
    by_cases hi : i = k
    · subst hi
      simp [World.sending,World.setTab,World.tell,Tab.empty] at hs'
    · rw [World.tell_sending,World.setTab_sending_ne hi] at hs'
      simpa [Function.update_of_ne hi] using hlone.pressed i n s' hs'
  | drainEnds k owner rest s o hd =>
    rcases World.drainEnds_cases w k owner rest s.entry.key o with ⟨_,-,hw⟩ | ⟨_,-,-,hw⟩ | ⟨_,-,-,hw⟩ <;>
      rw [hw] at hs' ⊢ <;>
      exact hsame _ hs' (by simpa [World.drainOver,World.setDrain_sending_some] using hs') (hdrain k _)
  | drains k owner hd => exact hsame _ hs' (by simpa [World.setDrain_sending_some] using hs') (hdrain k _)
  | finishes k owner hd =>
    exact hsame _ hs' (by simpa [World.drainOver,World.setDrain_sending_some] using hs') (hdrain k _)
  | passes k owner entry rest hd hskip =>
    exact hsame _ hs' (by simpa [World.setDrain_sending_some] using hs') (hdrain k _)
  | starts k owner entry rest hd hskip =>
    exact hsame _ hs' (by simpa [World.setDrain_sending_some] using hs') (hdrain k _)
  | _ => exact hsame _ hs' (by simpa using hs') rfl

theorem Lone.step (hlone : Lone known w) (hok : Orderly known w e) (h : Turn w e w') : Lone known w' := by
  -- a send that starts is of an act nothing else is sending
  have hnew : ∀ j p (s' : Sending T P), w'.sending j p = some s' → w.sending j p = none →
      ∀ i q t, w.sending i q = some t → t.entry.key ≠ s'.entry.key := fun j p s' hs' hfree i q t ht hkey => by
    rcases turn_runs hok h hs' with ⟨s,hs,-,-⟩ | ⟨n,rfl,-,-,-⟩ | ⟨-,rfl,-,-,-,hpressed,halone,-,-⟩
    · rw [hfree] at hs
      cases hs
    · exact hok (hkey ▸ hlone.sent ht)
    · by_cases hi : i = j
      · subst hi
        cases q with
        | none =>
          rw [hfree] at ht
          cases ht
        | some n => exact hpressed (hkey ▸ hlone.pressed i n t ht)
      · refine halone ⟨i,hi,?_⟩
        cases q with
        | none => exact Or.inr (by rw [ht]; simpa using hkey)
        | some n => exact Or.inl (hkey ▸ hlone.pressed i n t ht)
  refine ⟨hlone.order.step hok.ownKeys h,hlone.owners.step hok.ownKeys h,?_,fun i n s hs => turn_pressed hlone h hs⟩
  intro i p s' j q t' hs' ht' hkey
  have hstarted : ∀ k r (v : Sending T P), w'.sending k r = some v →
      (∃ u, w.sending k r = some u ∧ u.entry.key = v.entry.key) ∨
      w.sending k r = none ∧ ((∃ n, e = .now k n v.entry ∧ r = some n) ∨ e = .next k ∧ r = none) := fun k r v hv => by
    rcases turn_runs hok h hv with hold | ⟨n,he,hr,-,hfree⟩ | ⟨he,hr,-,-,hfree,-⟩
    · obtain ⟨u,hu,hkey,-⟩ := hold
      exact Or.inl ⟨u,hu,hkey⟩
    · exact Or.inr ⟨hfree,Or.inl ⟨n,he,hr⟩⟩
    · exact Or.inr ⟨hfree,Or.inr ⟨he,hr⟩⟩
  rcases hstarted i p s' hs' with ⟨s,hs,hskey⟩ | ⟨hfree,hevent⟩
  · rcases hstarted j q t' ht' with ⟨t,ht,htkey⟩ | ⟨hfree',-⟩
    · exact hlone.one i p s j q t hs ht (by rw [hskey,hkey,htkey])
    · exact absurd (hskey.trans hkey) (hnew j q t' ht' hfree' i p s hs)
  · rcases hstarted j q t' ht' with ⟨t,ht,htkey⟩ | ⟨-,hevent'⟩
    · exact absurd (htkey.trans hkey.symm) (hnew i p s' hs' hfree j q t ht)
    · rcases hevent with ⟨n,rfl,rfl⟩ | ⟨rfl,rfl⟩
      · rcases hevent' with ⟨m,heq,rfl⟩ | ⟨heq,-⟩
        · obtain ⟨rfl,rfl,-⟩ := Event.now.inj heq
          exact ⟨rfl,rfl⟩
        · cases heq
      · rcases hevent' with ⟨m,heq,-⟩ | ⟨heq,rfl⟩
        · cases heq
        · exact ⟨Event.next.inj heq,rfl⟩

omit [DecidableEq ι] [Inhabited P] in
theorem lone_over {kept : List (Held T)} (hkeys : (keys kept).Nodup) :
    Lone (keys kept) (World.over kept : World ι T P R) := by
  refine ⟨inOrder_over hkeys,oneOwner_over hkeys,fun i p s j q t hs => ?_,fun i n s hs => ?_⟩
  · cases p <;> cases hs
  · cases hs

/-- A send starts from its entry as it is kept. -/
theorem starts_from_kept (hlone : Lone known w) (hok : Orderly known w e) (h : Turn w e w') {i : ι} {p : Option ℕ} {s : Sending T P}
    (hs : w'.sending i p = some s) (hfree : w.sending i p = none) :
    ∃ x ∈ w'.store, x.key = s.entry.key ∧ x.body = s.entry.body ∧ s.pos = default := by
  rcases turn_runs hok h hs with ⟨t,ht,-,-⟩ | ⟨n,rfl,-,hpos,-⟩ | ⟨-,-,hpos,hstore,-,-,-,⟨x,hx,hkey⟩,hsame⟩
  · rw [hfree] at ht
    cases ht
  · cases h
    refine ⟨s.entry,?_,rfl,rfl,hpos⟩
    rw [World.now,World.tell_store,World.setTab_store,World.save_store,
      put_new fun hmem => hok (hlone.order.1.subset hmem)]
    simp
  · exact ⟨x,hstore ▸ hx,hkey,hsame x hx hkey,hpos⟩

end Outbox
end Spork
