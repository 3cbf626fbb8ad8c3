import Spork.Outbox.World

/-! What becomes of the acts one outbox keeps (client/domain/outbox.ts): the order of its
list, how an act leaves it, and what a drain sends. -/
namespace Spork
namespace Outbox

variable {ι T P R : Type}

/-- The key an act is put under. -/
def putKey : Happening ι T R → Option String
  | .kept e => some e.key
  | .pressing _ e => some e.key
  | _ => none

def addKey (ks : List String) (key : String) : List String := if key ∈ ks then ks else ks++[key]

def noteKey (ks : List String) (h : Happening ι T R) : List String :=
  match putKey h with
  | some key => addKey ks key
  | none => ks

/-- The keys put, in the order each was first put, after those on file at the start. -/
def firstPut (known : List String) (log : List (Happening ι T R)) : List String := log.foldl noteKey known

/-- How an act leaves: its reply was heard, its refusal was thrown to its press, or it was
dropped. -/
def Leaves (key : String) : Happening ι T R → Prop
  | .heard _ k _ => k = key
  | .threw _ k _ => k = key
  | .dropped k => k = key
  | _ => False

/-- What happened between two moments. -/
def told {P : Type} (w w' : World ι T P R) : List (Happening ι T R) := w'.log.drop w.log.length

theorem told_eq {P : Type} {w w' : World ι T P R} {hs : List (Happening ι T R)} (h : w'.log = w.log++hs) :
    told w w' = hs := by
  rw [told,h,List.drop_left]

theorem firstPut_append (known : List String) (log hs : List (Happening ι T R)) :
    firstPut known (log++hs) = firstPut (firstPut known log) hs := List.foldl_append

/-- What puts nothing adds no key. -/
theorem firstPut_none {known : List String} {hs : List (Happening ι T R)} (h : ∀ x ∈ hs, putKey x = none) :
    firstPut known hs = known := by
  induction hs with
  | nil => rfl
  | cons x xs ih =>
    rw [firstPut,List.foldl_cons,noteKey,h x List.mem_cons_self]
    exact ih fun y hy => h y (List.mem_cons_of_mem x hy)

theorem mem_addKey {ks : List String} {key k : String} : k ∈ addKey ks key ↔ k ∈ ks ∨ k = key := by
  rw [addKey]
  split
  · rename_i h
    exact ⟨Or.inl,fun hk => hk.elim id fun heq => heq ▸ h⟩
  · simp

theorem addKey_nodup {ks : List String} (key : String) (h : ks.Nodup) : (addKey ks key).Nodup := by
  rw [addKey]
  split
  · exact h
  · rename_i hnew
    exact List.nodup_append.mpr ⟨h,List.nodup_singleton key,by
      rintro a ha b hb rfl
      exact hnew (List.mem_singleton.mp hb ▸ ha)⟩

/-- A key put once is a key put. -/
theorem mem_firstPut {known : List String} {log : List (Happening ι T R)} {key : String} (h : key ∈ known) :
    key ∈ firstPut known log := by
  induction log generalizing known with
  | nil => exact h
  | cons x xs ih =>
    refine ih ?_
    rw [noteKey]
    split
    · exact mem_addKey.mpr (Or.inl h)
    · exact h

variable [DecidableEq ι] [Inhabited P] {known : List String} {w w' : World ι T P R} {e : Event ι T P R}

/-- Acts have distinct keys: a press's is new, and an act put again is one that is kept,
of the same owner. -/
def OwnKeys (known : List String) (w : World ι T P R) : Event ι T P R → Prop
  | .put entry => entry.key ∉ firstPut known w.log ∨ ∃ x ∈ w.store, x.key = entry.key ∧ x.owner = entry.owner
  | .now _ _ entry => entry.key ∉ firstPut known w.log
  | _ => True

instance decidableOwnKeys : Decidable (OwnKeys known w e) := by
  cases e <;> unfold OwnKeys <;> infer_instance

/-- The list keeps the order in which its acts were first put. -/
def InOrder (known : List String) (w : World ι T P R) : Prop :=
  (keys w.store).Sublist (firstPut known w.log) ∧ (firstPut known w.log).Nodup

/-- Putting an act, where a key that is not in the list is a new one. -/
theorem put_sublist {ks : List String} {all : List (Held T)} {entry : Held T} (h : (keys all).Sublist ks)
    (hown : entry.key ∉ ks ∨ entry.key ∈ keys all) : (keys (put all entry)).Sublist (addKey ks entry.key) := by
  rw [keys_put,addKey]
  rcases hown with hnew | hkept
  · rw [if_neg fun hmem => hnew (h.subset hmem),if_neg hnew]
    exact h.append (List.Sublist.refl _)
  · rw [if_pos hkept,if_pos (h.subset hkept)]
    exact h

omit [DecidableEq ι] [Inhabited P] in
theorem OwnKeys.kept_or_new {entry : Held T} (h : OwnKeys (P := P) known w (.put entry)) :
    entry.key ∉ firstPut known w.log ∨ entry.key ∈ keys w.store := by
  rcases h with hnew | ⟨x,hx,hkey,-⟩
  · exact Or.inl hnew
  · exact Or.inr (mem_keys.mpr ⟨x,hx,hkey⟩)

omit [DecidableEq ι] [Inhabited P] in
theorem leaves_told {x : Happening ι T R} {key : String} (hlog : w'.log = w.log++[x]) (hx : Leaves key x) :
    ∃ x ∈ told w w', Leaves key x :=
  ⟨x,by rw [told_eq hlog]; exact List.mem_singleton_self x,hx⟩

variable (known) in
/-- What a step writes to the list, and which key it puts: one act put, one dropped, or
every key left where it stands. -/
theorem turn_effect (h : Turn w e w') :
    (∃ entry, (e = .put entry ∨ ∃ i n, e = .now i n entry) ∧ w'.store = put w.store entry ∧
      firstPut known w'.log = addKey (firstPut known w.log) entry.key) ∨
    (∃ key, (∃ x ∈ told w w', Leaves key x) ∧ w'.store = drop w.store key ∧
      firstPut known w'.log = firstPut known w.log) ∨
    keys w'.store = keys w.store ∧ firstPut known w'.log = firstPut known w.log := by
  have hsame : ∀ hs : List (Happening ι T R), (∀ x ∈ hs, putKey x = none) →
      firstPut known (w.log++hs) = firstPut known w.log := fun hs hnone => by
    rw [firstPut_append,firstPut_none hnone]
  have hone : ∀ x : Happening ι T R, putKey x = none → ∀ y ∈ [x], putKey y = none := fun x hx y hy => by
    rw [List.mem_singleton.mp hy,hx]
  cases h with
  | put entry => exact Or.inl ⟨entry,Or.inl rfl,rfl,firstPut_append ..⟩
  | now i n entry hfree => exact Or.inl ⟨entry,Or.inr ⟨i,n,rfl⟩,rfl,firstPut_append ..⟩
  | drop key =>
    exact Or.inr (Or.inl ⟨key,leaves_told (x := .dropped key) rfl rfl,rfl,hsame _ (hone _ rfl)⟩)
  | refuse key reason => exact Or.inr (Or.inr ⟨keys_refuse ..,hsame _ (hone _ rfl)⟩)
  | works i press s body pos keep hs =>
    refine Or.inr (Or.inr ⟨?_,by rw [World.works_log]⟩)
    cases keep with
    | true => simp [World.works,update]
    | false => simp [World.works]
  | nowEnds i n s o hs =>
    rcases World.nowEnds_cases w i n s.entry.key o with ⟨reply,-,hstore,hlog⟩ | ⟨error,-,-,hstore,hlog⟩ |
      ⟨error,-,-,hstore,hlog⟩
    · exact Or.inr (Or.inl ⟨s.entry.key,leaves_told hlog rfl,hstore,by rw [hlog,hsame _ (hone _ rfl)]⟩)
    · exact Or.inr (Or.inr ⟨by rw [hstore],by rw [hlog,hsame _ (hone _ rfl)]⟩)
    · exact Or.inr (Or.inl ⟨s.entry.key,leaves_told hlog rfl,hstore,by rw [hlog,hsame _ (hone _ rfl)]⟩)
  | counted i owner => exact Or.inr (Or.inr ⟨rfl,hsame _ (hone _ rfl)⟩)
  | drains i owner hd => exact Or.inr (Or.inr ⟨rfl,hsame _ (hone _ rfl)⟩)
  | finishes i owner hd => exact Or.inr (Or.inr ⟨rfl,hsame _ (hone _ rfl)⟩)
  | passes i owner entry rest hd hskip => exact Or.inr (Or.inr ⟨rfl,hsame _ (hone _ rfl)⟩)
  | starts i owner entry rest hd hskip => exact Or.inr (Or.inr ⟨rfl,hsame _ (hone _ rfl)⟩)
  | drainEnds i owner rest s o hd =>
    rcases World.drainEnds_cases w i owner rest s.entry.key o with ⟨reply,-,hw⟩ | ⟨error,-,-,hw⟩ | ⟨error,-,-,hw⟩
    · refine Or.inr (Or.inl ⟨s.entry.key,?_⟩)
      rw [hw]
      exact ⟨leaves_told (x := .heard i s.entry.key reply) rfl rfl,rfl,hsame _ (hone _ rfl)⟩
    · rw [hw]
      exact Or.inr (Or.inr ⟨rfl,hsame [.stuck i _,.ended i _ _] (by simp [putKey])⟩)
    · rw [hw]
      exact Or.inr (Or.inr ⟨keys_refuse ..,hsame _ (hone _ rfl)⟩)
  | close i => exact Or.inr (Or.inr ⟨rfl,hsame _ (hone _ rfl)⟩)

theorem InOrder.step (hin : InOrder known w) (hown : OwnKeys known w e) (h : Turn w e w') : InOrder known w' := by
  rcases turn_effect known h with ⟨entry,hput,hstore,hfirst⟩ | ⟨key,-,hstore,hfirst⟩ | ⟨hstore,hfirst⟩
  · have hkey : entry.key ∉ firstPut known w.log ∨ entry.key ∈ keys w.store := by
      rcases hput with rfl | ⟨i,n,rfl⟩
      · exact hown.kept_or_new
      · exact Or.inl hown
    rw [InOrder,hstore,hfirst]
    exact ⟨put_sublist hin.1 hkey,addKey_nodup _ hin.2⟩
  · rw [InOrder,hstore,hfirst,keys_drop]
    exact ⟨List.filter_sublist.trans hin.1,hin.2⟩
  · rw [InOrder,hstore,hfirst]
    exact hin

/-- An act leaves the list only in a way somebody hears of. -/
theorem turn_leaves (h : Turn w e w') {key : String} (hkey : key ∈ keys w.store) (hgone : key ∉ keys w'.store) :
    ∃ x ∈ told w w', Leaves key x := by
  rcases turn_effect [] h with ⟨entry,-,hstore,-⟩ | ⟨k,hleaves,hstore,-⟩ | ⟨hstore,-⟩
  · rw [hstore,keys_put] at hgone
    split at hgone
    · exact absurd hkey hgone
    · exact absurd (List.mem_append_left _ hkey) hgone
  · rw [hstore] at hgone
    rwa [eq_of_dropped hkey hgone]
  · rw [hstore] at hgone
    exact absurd hkey hgone

/-- Every act put is in the list, or left it in a way somebody heard of. -/
def Accounted (known : List String) (w : World ι T P R) : Prop :=
  ∀ key ∈ firstPut known w.log, key ∈ keys w.store ∨ ∃ x ∈ w.log, Leaves key x

theorem turn_log (h : Turn w e w') : ∃ hs, w'.log = w.log++hs := by
  cases h with
  | works i press s body pos keep hs => exact ⟨[],by rw [World.works_log,List.append_nil]⟩
  | nowEnds i n s o hs =>
    rcases World.nowEnds_cases w i n s.entry.key o with ⟨_,_,_,hlog⟩ | ⟨_,_,_,_,hlog⟩ | ⟨_,_,_,_,hlog⟩ <;>
      exact ⟨_,hlog⟩
  | drainEnds i owner rest s o hd =>
    rcases World.drainEnds_cases w i owner rest s.entry.key o with ⟨_,_,hw⟩ | ⟨_,_,_,hw⟩ | ⟨_,_,_,hw⟩ <;>
      exact ⟨_,by rw [hw]; rfl⟩
  | _ => exact ⟨_,rfl⟩

theorem firstPut_grows (h : Turn w e w') {key : String} (hkey : key ∈ firstPut known w.log) :
    key ∈ firstPut known w'.log := by
  obtain ⟨hs,hlog⟩ := turn_log h
  rw [hlog,firstPut_append]
  exact mem_firstPut hkey

theorem Accounted.step (hacc : Accounted known w) (h : Turn w e w') : Accounted known w' := by
  intro key hkey
  obtain ⟨hs,hlog⟩ := turn_log h
  have hbefore : key ∈ firstPut known w.log → key ∈ keys w'.store ∨ ∃ x ∈ w'.log, Leaves key x := fun hold => by
    rcases hacc key hold with hin | ⟨x,hx,hleaves⟩
    · by_cases hgone : key ∈ keys w'.store
      · exact Or.inl hgone
      · obtain ⟨x,hx,hleaves⟩ := turn_leaves h hin hgone
        exact Or.inr ⟨x,List.mem_of_mem_drop hx,hleaves⟩
    · exact Or.inr ⟨x,by rw [hlog]; exact List.mem_append_left hs hx,hleaves⟩
  rcases turn_effect known h with ⟨entry,-,hstore,hfirst⟩ | ⟨k,-,-,hfirst⟩ | ⟨-,hfirst⟩
  · rw [hfirst] at hkey
    rcases mem_addKey.mp hkey with hold | rfl
    · exact hbefore hold
    · left
      rw [hstore,keys_put]
      split
      · rename_i hin
        exact hin
      · simp
  · exact hbefore (hfirst ▸ hkey)
  · exact hbefore (hfirst ▸ hkey)

/-- An entry in the list, ahead of a drain, or being sent. -/
inductive Present (w : World ι T P R) : Held T → Prop
  | stored {entry : Held T} (h : entry ∈ w.store) : Present w entry
  | ahead {entry : Held T} (i : ι) (d : Drain T P) (hd : (w.tabs i).draining = some d) (h : entry ∈ d.rest) :
      Present w entry
  | sent (i : ι) (p : Option ℕ) (s : Sending T P) (hs : w.sending i p = some s) : Present w s.entry

/-- Whoever holds an act holds it as the same owner's. -/
def OneOwner (known : List String) (w : World ι T P R) : Prop :=
  (∀ x, Present w x → x.key ∈ firstPut known w.log) ∧
    ∀ x y, Present w x → Present w y → x.key = y.key → x.owner = y.owner

/-- What is in the list after a step was, but for a refusal, or is put, or is what a send
keeps of its entry. -/
theorem turn_kept (h : Turn w e w') {y : Held T} (hy : y ∈ w'.store) :
    (∃ x ∈ w.store, x.key = y.key ∧ x.owner = y.owner ∧ x.body = y.body) ∨ (e = .put y ∨ ∃ i n, e = .now i n y) ∨
    ∃ i p s body pos, e = .works i p body pos true ∧ w.sending i p = some s ∧ y = {s.entry with body := body} := by
  have hput : ∀ entry, y ∈ put w.store entry → y ∈ w.store ∨ y = entry := fun entry hmem => by
    rw [put] at hmem
    split at hmem
    · rcases mem_replace hmem with ⟨rfl,-⟩ | hold
      · exact Or.inr rfl
      · exact Or.inl hold
    · simpa using hmem
  have hold : y ∈ w.store → ∃ x ∈ w.store, x.key = y.key ∧ x.owner = y.owner ∧ x.body = y.body := fun hmem =>
    ⟨y,hmem,rfl,rfl,rfl⟩
  cases h with
  | put entry =>
    rcases hput entry hy with hmem | rfl
    · exact Or.inl (hold hmem)
    · exact Or.inr (Or.inl (Or.inl rfl))
  | now i n entry hfree =>
    rcases hput entry hy with hmem | rfl
    · exact Or.inl (hold hmem)
    · exact Or.inr (Or.inl (Or.inr ⟨i,n,rfl⟩))
  | drop key => exact Or.inl (hold (List.mem_of_mem_filter hy))
  | refuse key reason => exact Or.inl (mem_refuse hy)
  | works i press s body pos keep hs =>
    cases keep with
    | false => exact Or.inl (hold (by simpa [World.works] using hy))
    | true =>
      rcases mem_replace (show y ∈ replace _ _ from hy) with ⟨rfl,-⟩ | hmem
      · exact Or.inr (Or.inr ⟨i,press,s,body,pos,rfl,hs,rfl⟩)
      · exact Or.inl (hold (by simpa using hmem))
  | nowEnds i n s o hs =>
    left
    rcases World.nowEnds_cases w i n s.entry.key o with ⟨-,-,hstore,-⟩ | ⟨-,-,-,hstore,-⟩ | ⟨-,-,-,hstore,-⟩ <;>
      rw [hstore] at hy
    · exact hold (List.mem_of_mem_filter hy)
    · exact hold hy
    · exact hold (List.mem_of_mem_filter hy)
  | drainEnds i owner rest s o hd =>
    left
    rcases World.drainEnds_cases w i owner rest s.entry.key o with ⟨_,-,hw⟩ | ⟨_,-,-,hw⟩ | ⟨_,-,-,hw⟩ <;>
      rw [hw] at hy
    · exact hold (List.mem_of_mem_filter hy)
    · exact hold hy
    · exact mem_refuse hy
  | _ => exact Or.inl (hold hy)

theorem turn_stored (h : Turn w e w') {y : Held T} (hy : y ∈ w'.store) :
    (∃ x, Present w x ∧ x.key = y.key ∧ x.owner = y.owner) ∨ e = .put y ∨ ∃ i n, e = .now i n y := by
  rcases turn_kept h hy with ⟨x,hx,hkey,howner,-⟩ | hput | ⟨i,p,s,body,pos,-,hs,rfl⟩
  · exact Or.inl ⟨x,Present.stored hx,hkey,howner⟩
  · exact Or.inr hput
  · exact Or.inl ⟨s.entry,Present.sent i p s hs,rfl,rfl⟩

/-- What a drain has ahead after a step it had ahead, or it was in the list. -/
theorem turn_ahead (h : Turn w e w') {j : ι} {d : Drain T P} {y : Held T} (hd : (w'.tabs j).draining = some d)
    (hy : y ∈ d.rest) : Present w y := by
  have hset : ∀ i owner rest current, ((w.setDrain i (some ⟨owner,rest,current⟩)).tabs j).draining = some d →
      (∀ x ∈ rest, Present w x) → Present w y := fun i owner rest current hd' hrest => by
    rw [World.setDrain_draining] at hd'
    split at hd'
    · cases hd'
      exact hrest y hy
    · exact Present.ahead j d hd' hy
  have hrest : ∀ i owner rest current, (w.tabs i).draining = some ⟨owner,rest,current⟩ → ∀ x ∈ rest, Present w x :=
    fun i owner rest current hd' x hx => Present.ahead i _ hd' hx
  have hgone : ∀ i, ((w.setDrain i none).tabs j).draining = some d → Present w y := fun i hd' => by
    rw [World.setDrain_draining] at hd'
    split at hd'
    · cases hd'
    · exact Present.ahead j d hd' hy
  cases h with
  | now i n entry hfree => exact Present.ahead j d (by rwa [World.now_draining] at hd) hy
  | nowEnds i n s o hs => exact Present.ahead j d (by rwa [World.nowEnds_draining] at hd) hy
  | works i press s body pos keep hs =>
    obtain ⟨d',hd',-,hrest'⟩ := World.works_draining hd
    exact Present.ahead j d' hd' (hrest' ▸ hy)
  | drains i owner hd' => exact hset i owner _ _ hd fun x hx => Present.stored hx
  | finishes i owner hd' => exact hgone i hd
  | passes i owner entry rest hd' hskip =>
    exact hset i owner _ _ hd fun x hx => hrest i owner _ _ hd' x (List.mem_cons_of_mem entry hx)
  | starts i owner entry rest hd' hskip =>
    exact hset i owner _ _ hd fun x hx => hrest i owner _ _ hd' x (List.mem_cons_of_mem entry hx)
  | drainEnds i owner rest s o hd' =>
    rcases World.drainEnds_cases w i owner rest s.entry.key o with ⟨_,-,hw⟩ | ⟨_,-,-,hw⟩ | ⟨_,-,-,hw⟩ <;>
      rw [hw] at hd
    · exact hset i owner _ _ hd fun x hx => hrest i owner _ _ hd' x hx
    · exact hgone i hd
    · exact hset i owner _ _ hd fun x hx => hrest i owner _ _ hd' x hx
  | close i =>
    by_cases hj : j = i
    · subst hj
      simp [Tab.empty] at hd
    · exact Present.ahead j d (by simpa [Function.update_of_ne hj] using hd) hy
  | _ => exact Present.ahead j d hd hy

/-- What is being sent after a step was being sent, but for its body, or was ahead of its
drain, or is a press's that starts. -/
theorem turn_sent (h : Turn w e w') {j : ι} {p : Option ℕ} {s' : Sending T P} (hs' : w'.sending j p = some s') :
    (∃ x, Present w x ∧ x.key = s'.entry.key ∧ x.owner = s'.entry.owner) ∨ ∃ i n, e = .now i n s'.entry := by
  have hold : w.sending j p = some s' → ∃ x, Present w x ∧ x.key = s'.entry.key ∧ x.owner = s'.entry.owner :=
    fun hs => ⟨s'.entry,Present.sent j p s' hs,rfl,rfl⟩
  have hset : ∀ i (d : Option (Drain T P)), (w.setDrain i d).sending j p = some s' → d.bind (·.current) ≠ some s' →
      ∃ x, Present w x ∧ x.key = s'.entry.key ∧ x.owner = s'.entry.owner := fun i d hs hne => by
    rcases World.setDrain_sending hs with ⟨-,-,hcur⟩ | ⟨-,hs⟩
    · exact absurd hcur hne
    · exact hold hs
  cases h with
  | now i n entry hfree =>
    rcases World.sending_now hs' with ⟨-,-,rfl⟩ | ⟨-,hs⟩
    · exact Or.inr ⟨i,n,rfl⟩
    · exact Or.inl (hold hs)
  | nowEnds i n s o hs => exact Or.inl (hold (World.sending_nowEnds hs').2)
  | works i press s body pos keep hs =>
    left
    rcases World.sending_works hs' with ⟨-,-,rfl⟩ | ⟨-,hs⟩
    · exact ⟨s.entry,Present.sent i press s hs,rfl,rfl⟩
    · exact hold hs
  | drains i owner hd' => exact Or.inl (hset i _ (by simpa using hs') (by simp))
  | finishes i owner hd' => exact Or.inl (hset i _ (by simpa [World.drainOver] using hs') (by simp))
  | passes i owner entry rest hd' hskip => exact Or.inl (hset i _ (by simpa using hs') (by simp))
  | starts i owner entry rest hd' hskip =>
    left
    rcases World.setDrain_sending (show (w.setDrain i _).sending j p = some s' by simpa using hs') with
      ⟨-,-,hcur⟩ | ⟨-,hs⟩
    · cases hcur
      exact ⟨entry,Present.ahead i _ hd' List.mem_cons_self,rfl,rfl⟩
    · exact hold hs
  | drainEnds i owner rest s o hd' =>
    left
    rcases World.drainEnds_cases w i owner rest s.entry.key o with ⟨_,-,hw⟩ | ⟨_,-,-,hw⟩ | ⟨_,-,-,hw⟩ <;>
      rw [hw] at hs'
    · exact hset i _ (by simpa using hs') (by simp)
    · exact hset i _ (by simpa [World.drainOver] using hs') (by simp)
    · exact hset i _ (by simpa using hs') (by simp)
  | close i =>
    left
    by_cases hj : j = i
    · subst hj
      cases p <;> simp [World.sending,World.setTab,World.tell,Tab.empty] at hs'
    · rw [World.tell_sending,World.setTab_sending_ne hj] at hs'
      exact hold hs'
  | put entry => exact Or.inl (hold (by simpa using hs'))
  | drop key => exact Or.inl (hold (by simpa using hs'))
  | refuse key reason => exact Or.inl (hold (by simpa using hs'))
  | counted i owner => exact Or.inl (hold (by simpa using hs'))

theorem turn_present (h : Turn w e w') {y : Held T} (hy : Present w' y) :
    (∃ x, Present w x ∧ x.key = y.key ∧ x.owner = y.owner) ∨ e = .put y ∨ ∃ i n, e = .now i n y := by
  cases hy with
  | stored hmem => exact turn_stored h hmem
  | ahead i d hd hmem => exact Or.inl ⟨y,turn_ahead h hd hmem,rfl,rfl⟩
  | sent i p s hs =>
    rcases turn_sent h hs with hold | hnow
    · exact Or.inl hold
    · exact Or.inr (Or.inr hnow)

omit [DecidableEq ι] [Inhabited P] in
/-- The act an event puts: a new one, or one of the same owner that is kept. -/
theorem OwnKeys.puts {y : Held T} (hown : OwnKeys known w e) (hput : e = .put y ∨ ∃ i n, e = .now i n y) :
    y.key ∉ firstPut known w.log ∨ ∃ x ∈ w.store, x.key = y.key ∧ x.owner = y.owner := by
  rcases hput with rfl | ⟨i,n,rfl⟩
  · exact hown
  · exact Or.inl hown

theorem OneOwner.step (hone : OneOwner known w) (hown : OwnKeys known w e) (h : Turn w e w') : OneOwner known w' := by
  have hputs : ∀ y, (e = .put y ∨ ∃ i n, e = .now i n y) → y.key ∈ firstPut known w'.log := fun y hput => by
    rcases hput with rfl | ⟨i,n,rfl⟩
    · cases h
      rw [World.tell_log,World.save_log,firstPut_append]
      exact mem_addKey.mpr (Or.inr rfl)
    · cases h
      rw [World.now,World.tell_log,World.setTab_log,World.save_log,firstPut_append]
      exact mem_addKey.mpr (Or.inr rfl)
  -- a new act's key is nobody else's, and one put again has its owner
  have hnew : ∀ x y, Present w x → (e = .put y ∨ ∃ i n, e = .now i n y) → x.key = y.key → x.owner = y.owner :=
    fun x y hx hput hkey => by
      rcases hown.puts hput with hfresh | ⟨z,hz,hzkey,hzowner⟩
      · exact absurd (hkey ▸ hone.1 x hx) hfresh
      · rw [← hzowner]
        exact hone.2 x z hx (Present.stored hz) (hkey.trans hzkey.symm)
  have hsame : ∀ x y, (e = .put x ∨ ∃ i n, e = .now i n x) → (e = .put y ∨ ∃ i n, e = .now i n y) → x = y := by
    rintro x y (rfl | ⟨i,n,rfl⟩) (hy | ⟨j,m,hy⟩) <;> cases hy <;> rfl
  constructor
  · intro y hy
    rcases turn_present h hy with ⟨x,hx,hkey,-⟩ | hput
    · exact hkey ▸ firstPut_grows h (hone.1 x hx)
    · exact hputs y hput
  · intro y z hy hz hkey
    rcases turn_present h hy with ⟨x,hx,hxkey,hxowner⟩ | hput
    · rcases turn_present h hz with ⟨v,hv,hvkey,hvowner⟩ | hput'
      · rw [← hxowner,← hvowner]
        exact hone.2 x v hx hv (by rw [hxkey,hkey,hvkey])
      · rw [← hxowner]
        exact hnew x z hx hput' (hxkey.trans hkey)
    · rcases turn_present h hz with ⟨v,hv,hvkey,hvowner⟩ | hput'
      · rw [← hvowner]
        exact (hnew v y hv hput (by rw [hvkey,hkey])).symm
      · rw [hsame y z hput hput']

/-- What a drain starts to send: its own owner's, kept and not refused, and not a press's. -/
theorem turn_starts (hone : OneOwner known w) (h : Turn w e w') {i : ι} {entry : Held T}
    (hstart : .starts i entry ∈ told w w') : ∃ d, (w.tabs i).draining = some d ∧ entry.owner = d.owner ∧
      entry.key ∉ (w.tabs i).pressed ∧
      ∃ x ∈ w.store, x.key = entry.key ∧ x.owner = d.owner ∧ x.refused = none := by
  have hnone : ∀ hs : List (Happening ι T R), w'.log = w.log++hs → (.starts i entry : Happening ι T R) ∉ hs → False :=
    fun hs hlog hnot => by
      rw [told_eq hlog] at hstart
      exact hnot hstart
  cases h with
  | starts j owner entry' rest hd hskip =>
    rw [told_eq rfl] at hstart
    cases List.mem_singleton.mp hstart
    obtain ⟨⟨⟨howner,-⟩,hpressed⟩,hwaits⟩ : ((entry.owner = owner ∧ entry.refused = none) ∧
        entry.key ∉ (w.tabs i).pressed) ∧ waits w.store entry.key = true := by
      simpa [World.skips] using hskip
    obtain ⟨x,hx,hkey,hrefused⟩ := waits_iff.mp hwaits
    refine ⟨_,hd,howner,hpressed,x,hx,hkey,?_,hrefused⟩
    exact (hone.2 x entry (Present.stored hx) (Present.ahead i _ hd List.mem_cons_self) hkey).trans howner
  | works j press s body pos keep hs =>
    exact (hnone [] (by rw [World.works_log,List.append_nil]) (by simp)).elim
  | nowEnds j n s o hs =>
    rcases World.nowEnds_cases w j n s.entry.key o with ⟨_,_,_,hlog⟩ | ⟨_,_,_,_,hlog⟩ | ⟨_,_,_,_,hlog⟩ <;>
      exact (hnone _ hlog (by simp)).elim
  | drainEnds j owner rest s o hd =>
    rcases World.drainEnds_cases w j owner rest s.entry.key o with ⟨reply,-,hw⟩ | ⟨error,-,-,hw⟩ | ⟨error,-,-,hw⟩
    · exact (hnone [.heard j s.entry.key reply] (by rw [hw]; rfl) (by simp)).elim
    · exact (hnone [.stuck j s.entry.key,.ended j owner (waiting w.store owner)] (by rw [hw]; rfl) (by simp)).elim
    · exact (hnone [.refused j s.entry.key error] (by rw [hw]; rfl) (by simp)).elim
  | _ => exact (hnone _ rfl (by simp)).elim

omit [DecidableEq ι] [Inhabited P] in
/-- Nothing but the list is there when a device is taken up. -/
theorem present_over {kept : List (Held T)} {x : Held T} (h : Present (World.over kept : World ι T P R) x) : x ∈ kept := by
  cases h with
  | stored h => exact h
  | ahead i d hd h => cases hd
  | sent i p s hs => cases p <;> cases hs

omit [DecidableEq ι] [Inhabited P] in
theorem inOrder_over {kept : List (Held T)} (hkeys : (keys kept).Nodup) :
    InOrder (keys kept) (World.over kept : World ι T P R) := ⟨List.Sublist.refl _,hkeys⟩

omit [DecidableEq ι] [Inhabited P] in
theorem oneOwner_over {kept : List (Held T)} (hkeys : (keys kept).Nodup) :
    OneOwner (keys kept) (World.over kept : World ι T P R) := by
  refine ⟨fun x hx => List.mem_map_of_mem (present_over hx),fun x y hx hy hkey => ?_⟩
  rw [List.inj_on_of_nodup_map hkeys (present_over hx) (present_over hy) hkey]

end Outbox
end Spork
