import Spork.Outbox.Box
import Spork.Lib.Runs

/-! Outboxes over one stored list (client/domain/outbox.ts), any number of tabs of them:
their presses and drains, taken apart at each await, and the steps of their sends. -/
namespace Spork
namespace Outbox

/-- A send that has not ended: the entry it was given, as it has changed it, and how far
it is. -/
structure Sending (T P : Type) where
  entry : Held T
  pos : P

/-- A drain under way, between two turns of its loop or in one. -/
structure Drain (T P : Type) where
  owner : String
  /-- What its list held when it was read, from the entry it has not come to. -/
  rest : List (Held T)
  current : Option (Sending T P)

/-- What one outbox has in memory. -/
structure Tab (T P : Type) where
  pressed : List String
  /-- The sends of its presses, told apart by a number. -/
  presses : ℕ → Option (Sending T P)
  /-- `sending`, and the loop it guards. -/
  draining : Option (Drain T P)

def Tab.empty {T P : Type} : Tab T P := ⟨[],fun _ => none,none⟩

/-- A reply that came, or what was thrown. -/
inductive Outcome (R : Type)
  | landed (reply : R)
  | failed (error : Failure)

/-- What an outbox does that somebody sees. -/
inductive Happening (ι T R : Type)
  | kept (entry : Held T)
  | dropped (key : String)
  | refusedBy (key reason : String)
  | pressing (tab : ι) (entry : Held T)
  | drains (tab : ι) (owner : String) (listed : List (Held T))
  | passes (tab : ι) (key : String)
  | starts (tab : ι) (entry : Held T)
  /-- `sent` hears the reply. -/
  | heard (tab : ι) (key : String) (reply : R)
  /-- `now` gives `null`: no answer keeps it. -/
  | held (tab : ι) (key : String)
  | threw (tab : ι) (key : String) (error : Failure)
  /-- A drain's send fails for a while. -/
  | stuck (tab : ι) (key : String)
  | refused (tab : ι) (key : String) (error : Failure)
  /-- A drain called during another gives its count. -/
  | counted (tab : ι) (owner : String) (n : ℕ)
  | ended (tab : ι) (owner : String) (n : ℕ)
  | closed (tab : ι)

structure World (ι T P R : Type) where
  store : List (Held T)
  tabs : ι → Tab T P
  log : List (Happening ι T R)

/-- A call, a step of a send (a press's, by its number, or the drain's), or a send's end. -/
inductive Event (ι T P R : Type)
  | put (entry : Held T)
  | drop (key : String)
  | refuse (key reason : String)
  | now (tab : ι) (n : ℕ) (entry : Held T)
  | works (tab : ι) (press : Option ℕ) (body : T) (pos : P) (keep : Bool)
  | nowEnds (tab : ι) (n : ℕ) (o : Outcome R)
  | drain (tab : ι) (owner : String)
  | next (tab : ι)
  | drainEnds (tab : ι) (o : Outcome R)
  /-- A reload or a tab closed: what was in its memory is gone. -/
  | close (tab : ι)

variable {ι T P R : Type}

/-- The outboxes of a device as they are made, over what it has kept. -/
def World.over (kept : List (Held T)) : World ι T P R := ⟨kept,fun _ => Tab.empty,[]⟩

namespace World

variable (w : World ι T P R)

/-- `save`. -/
def save (all : List (Held T)) : World ι T P R := {w with store := all}

def tell (hs : List (Happening ι T R)) : World ι T P R := {w with log := w.log++hs}

/-- The send of a press, or of a drain. -/
def sending (i : ι) : Option ℕ → Option (Sending T P)
  | some n => (w.tabs i).presses n
  | none => (w.tabs i).draining.bind (·.current)

@[simp] theorem save_store (all : List (Held T)) : (w.save all).store = all := rfl
@[simp] theorem save_log (all : List (Held T)) : (w.save all).log = w.log := rfl
@[simp] theorem save_tabs (all : List (Held T)) : (w.save all).tabs = w.tabs := rfl
@[simp] theorem tell_store (hs : List (Happening ι T R)) : (w.tell hs).store = w.store := rfl
@[simp] theorem tell_log (hs : List (Happening ι T R)) : (w.tell hs).log = w.log++hs := rfl
@[simp] theorem tell_tabs (hs : List (Happening ι T R)) : (w.tell hs).tabs = w.tabs := rfl
@[simp] theorem save_sending (all : List (Held T)) (j : ι) (p : Option ℕ) :
    (w.save all).sending j p = w.sending j p := by cases p <;> rfl
@[simp] theorem tell_sending (hs : List (Happening ι T R)) (j : ι) (p : Option ℕ) :
    (w.tell hs).sending j p = w.sending j p := by cases p <;> rfl

variable [DecidableEq ι]

def setTab (i : ι) (t : Tab T P) : World ι T P R := {w with tabs := Function.update w.tabs i t}

/-- `now`, up to its send. -/
def now [Inhabited P] (i : ι) (n : ℕ) (entry : Held T) : World ι T P R :=
  let t := w.tabs i
  ((w.save (put w.store entry)).setTab i {t with
    pressed := t.pressed.insert entry.key
    presses := Function.update t.presses n (some ⟨entry,default⟩)}).tell [.pressing i entry]

/-- What `now` does once its send has ended. -/
def nowEnds (i : ι) (n : ℕ) (key : String) (o : Outcome R) : World ι T P R :=
  let t := w.tabs i
  let w := w.setTab i {t with
    pressed := t.pressed.filter (· != key)
    presses := Function.update t.presses n none}
  match o with
  | .landed reply => (w.save (drop w.store key)).tell [.heard i key reply]
  | .failed error =>
    if transient error then w.tell [.held i key]
    else (w.save (drop w.store key)).tell [.threw i key error]

def setDrain (i : ι) (d : Option (Drain T P)) : World ι T P R := w.setTab i {w.tabs i with draining := d}

/-- `drain`, up to its loop. -/
def drain (i : ι) (owner : String) : World ι T P R :=
  match (w.tabs i).draining with
  | some _ => w.tell [.counted i owner (waiting w.store owner)]
  | none => (w.setDrain i (some ⟨owner,w.store,none⟩)).tell [.drains i owner w.store]

/-- The drain's loop is over, and it counts what waits. -/
def drainOver (i : ι) (owner : String) (hs : List (Happening ι T R)) : World ι T P R :=
  (w.setDrain i none).tell (hs++[.ended i owner (waiting w.store owner)])

/-- Whether the loop goes on without sending an entry. -/
def skips (i : ι) (owner : String) (entry : Held T) : Bool :=
  (entry.owner != owner || entry.refused.isSome || (w.tabs i).pressed.contains entry.key)
    || !waits w.store entry.key

/-- The next turn of a drain's loop, up to its send. -/
def next [Inhabited P] (i : ι) (owner : String) : List (Held T) → World ι T P R
  | [] => w.drainOver i owner []
  | entry :: rest =>
    if w.skips i owner entry then (w.setDrain i (some ⟨owner,rest,none⟩)).tell [.passes i entry.key]
    else (w.setDrain i (some ⟨owner,rest,some ⟨entry,default⟩⟩)).tell [.starts i entry]

/-- What a drain's loop does once its send has ended. -/
def drainEnds (i : ι) (owner : String) (rest : List (Held T)) (key : String) (o : Outcome R) : World ι T P R :=
  match o with
  | .landed reply =>
    ((w.setDrain i (some ⟨owner,rest,none⟩)).save (Outbox.drop w.store key)).tell [.heard i key reply]
  | .failed error =>
    if transient error then w.drainOver i owner [.stuck i key]
    else ((w.setDrain i (some ⟨owner,rest,none⟩)).save (Outbox.refuse w.store key (said error))).tell
      [.refused i key error]

def setSending (i : ι) (s : Sending T P) : Option ℕ → World ι T P R
  | some n => w.setTab i {w.tabs i with presses := Function.update (w.tabs i).presses n (some s)}
  | none => w.setDrain i ((w.tabs i).draining.map fun d => {d with current := some s})

/-- A send's step: what it makes of its entry, kept in the list or not yet. -/
def works (i : ι) (press : Option ℕ) (s : Sending T P) (keep : Bool) : World ι T P R :=
  let w := w.setSending i s press
  if keep then w.save (update w.store s.entry) else w

end World

variable [DecidableEq ι]

/-- One event. A press's number is one its tab has no send under; what is not under way
can neither step nor end. -/
def step [Inhabited P] (w : World ι T P R) : Event ι T P R → Option (World ι T P R)
  | .put entry => some ((w.save (put w.store entry)).tell [.kept entry])
  | .drop key => some ((w.save (drop w.store key)).tell [.dropped key])
  | .refuse key reason => some ((w.save (refuse w.store key reason)).tell [.refusedBy key reason])
  | .now i n entry => if (w.sending i (some n)).isSome then none else some (w.now i n entry)
  | .works i press body pos keep =>
    (w.sending i press).map fun s => w.works i press ⟨{s.entry with body := body},pos⟩ keep
  | .nowEnds i n o => (w.sending i (some n)).map fun s => w.nowEnds i n s.entry.key o
  | .drain i owner => some (w.drain i owner)
  | .next i =>
    match (w.tabs i).draining with
    | some ⟨owner,rest,none⟩ => some (w.next i owner rest)
    | _ => none
  | .drainEnds i o =>
    match (w.tabs i).draining with
    | some ⟨owner,rest,some s⟩ => some (w.drainEnds i owner rest s.entry.key o)
    | _ => none
  | .close i => some ((w.setTab i Tab.empty).tell [.closed i])

/-- All that an event can do. -/
inductive Turn [Inhabited P] (w : World ι T P R) : Event ι T P R → World ι T P R → Prop
  | put (entry : Held T) : Turn w (.put entry) ((w.save (put w.store entry)).tell [.kept entry])
  | drop (key : String) : Turn w (.drop key) ((w.save (drop w.store key)).tell [.dropped key])
  | refuse (key reason : String) :
      Turn w (.refuse key reason) ((w.save (refuse w.store key reason)).tell [.refusedBy key reason])
  | now (i : ι) (n : ℕ) (entry : Held T) (hfree : w.sending i (some n) = none) :
      Turn w (.now i n entry) (w.now i n entry)
  | works (i : ι) (press : Option ℕ) (s : Sending T P) (body : T) (pos : P) (keep : Bool)
      (hs : w.sending i press = some s) :
      Turn w (.works i press body pos keep) (w.works i press ⟨{s.entry with body := body},pos⟩ keep)
  | nowEnds (i : ι) (n : ℕ) (s : Sending T P) (o : Outcome R) (hs : w.sending i (some n) = some s) :
      Turn w (.nowEnds i n o) (w.nowEnds i n s.entry.key o)
  | counted (i : ι) (owner : String) : Turn w (.drain i owner) (w.tell [.counted i owner (waiting w.store owner)])
  | drains (i : ι) (owner : String) (hd : (w.tabs i).draining = none) :
      Turn w (.drain i owner) ((w.setDrain i (some ⟨owner,w.store,none⟩)).tell [.drains i owner w.store])
  | finishes (i : ι) (owner : String) (hd : (w.tabs i).draining = some ⟨owner,[],none⟩) :
      Turn w (.next i) (w.drainOver i owner [])
  | passes (i : ι) (owner : String) (entry : Held T) (rest : List (Held T))
      (hd : (w.tabs i).draining = some ⟨owner,entry :: rest,none⟩) (hskip : w.skips i owner entry = true) :
      Turn w (.next i) ((w.setDrain i (some ⟨owner,rest,none⟩)).tell [.passes i entry.key])
  | starts (i : ι) (owner : String) (entry : Held T) (rest : List (Held T))
      (hd : (w.tabs i).draining = some ⟨owner,entry :: rest,none⟩) (hskip : w.skips i owner entry = false) :
      Turn w (.next i) ((w.setDrain i (some ⟨owner,rest,some ⟨entry,default⟩⟩)).tell [.starts i entry])
  | drainEnds (i : ι) (owner : String) (rest : List (Held T)) (s : Sending T P) (o : Outcome R)
      (hd : (w.tabs i).draining = some ⟨owner,rest,some s⟩) :
      Turn w (.drainEnds i o) (w.drainEnds i owner rest s.entry.key o)
  | close (i : ι) : Turn w (.close i) ((w.setTab i Tab.empty).tell [.closed i])

theorem step_turn [Inhabited P] {w w' : World ι T P R} {e : Event ι T P R} (h : step w e = some w') : Turn w e w' := by
  cases e with
  | put entry =>
    cases h
    exact Turn.put entry
  | drop key =>
    cases h
    exact Turn.drop key
  | refuse key reason =>
    cases h
    exact Turn.refuse key reason
  | now i n entry =>
    dsimp only [step] at h
    split at h
    · cases h
    · rename_i hfree
      cases h
      exact Turn.now i n entry (by simpa using hfree)
  | works i press body pos keep =>
    obtain ⟨s,hs,rfl⟩ := Option.map_eq_some_iff.mp h
    exact Turn.works i press s body pos keep hs
  | nowEnds i n o =>
    obtain ⟨s,hs,rfl⟩ := Option.map_eq_some_iff.mp h
    exact Turn.nowEnds i n s o hs
  | drain i owner =>
    cases h
    rw [World.drain]
    split
    · exact Turn.counted i owner
    · rename_i hd
      exact Turn.drains i owner hd
  | next i =>
    dsimp only [step] at h
    split at h
    · rename_i owner rest hd
      cases h
      cases rest with
      | nil => exact Turn.finishes i owner hd
      | cons entry rest =>
        rw [World.next]
        split
        · rename_i hskip
          exact Turn.passes i owner entry rest hd hskip
        · rename_i hskip
          exact Turn.starts i owner entry rest hd (by simpa using hskip)
    · cases h
  | drainEnds i o =>
    dsimp only [step] at h
    split at h
    · rename_i hd
      cases h
      exact Turn.drainEnds i _ _ _ o hd
    · cases h
  | close i =>
    cases h
    exact Turn.close i

namespace World

variable (w : World ι T P R)

@[simp] theorem setTab_store (i : ι) (t : Tab T P) : (w.setTab i t).store = w.store := rfl
@[simp] theorem setTab_log (i : ι) (t : Tab T P) : (w.setTab i t).log = w.log := rfl
@[simp] theorem setTab_tabs (i : ι) (t : Tab T P) : (w.setTab i t).tabs = Function.update w.tabs i t := rfl
@[simp] theorem setDrain_store (i : ι) (d : Option (Drain T P)) : (w.setDrain i d).store = w.store := rfl
@[simp] theorem setDrain_log (i : ι) (d : Option (Drain T P)) : (w.setDrain i d).log = w.log := rfl
@[simp] theorem setDrain_tabs (i : ι) (d : Option (Drain T P)) :
    (w.setDrain i d).tabs = Function.update w.tabs i {w.tabs i with draining := d} := rfl
@[simp] theorem setSending_store (i : ι) (s : Sending T P) (press : Option ℕ) :
    (w.setSending i s press).store = w.store := by cases press <;> rfl
@[simp] theorem setSending_log (i : ι) (s : Sending T P) (press : Option ℕ) :
    (w.setSending i s press).log = w.log := by cases press <;> rfl
@[simp] theorem works_log (i : ι) (press : Option ℕ) (s : Sending T P) (keep : Bool) :
    (w.works i press s keep).log = w.log := by cases keep <;> simp [works]


variable {w} {i j : ι} {p : Option ℕ} {s : Sending T P}

/-- Another tab's sends are as they were. -/
theorem setTab_sending_ne {t : Tab T P} (h : j ≠ i) : (w.setTab i t).sending j p = w.sending j p := by
  cases p <;> simp [sending,setTab,Function.update_of_ne h]

theorem setDrain_sending_some {d : Option (Drain T P)} {n : ℕ} :
    (w.setDrain i d).sending j (some n) = w.sending j (some n) := by
  by_cases h : j = i
  · subst h
    simp [sending,setDrain,setTab]
  · exact setTab_sending_ne h

theorem setDrain_sending_none {d : Option (Drain T P)} (h : (w.setDrain i d).sending j none = some s) :
    j = i ∧ d.bind (·.current) = some s ∨ j ≠ i ∧ w.sending j none = some s := by
  by_cases hj : j = i
  · subst hj
    exact Or.inl ⟨rfl,by simpa [sending,setDrain,setTab] using h⟩
  · exact Or.inr ⟨hj,by rwa [setDrain,setTab_sending_ne hj] at h⟩

/-- A send of a drain's that is set is that one; every other send is as it was. -/
theorem setDrain_sending {d : Option (Drain T P)} (h : (w.setDrain i d).sending j p = some s) :
    j = i ∧ p = none ∧ d.bind (·.current) = some s ∨ (j ≠ i ∨ p ≠ none) ∧ w.sending j p = some s := by
  cases p with
  | some n =>
    rw [setDrain_sending_some] at h
    exact Or.inr ⟨Or.inr (by simp),h⟩
  | none =>
    rcases setDrain_sending_none h with ⟨hj,hs⟩ | ⟨hj,hs⟩
    · exact Or.inl ⟨hj,rfl,hs⟩
    · exact Or.inr ⟨Or.inl hj,hs⟩

theorem sending_now [Inhabited P] {n : ℕ} {entry : Held T} (h : (w.now i n entry).sending j p = some s) :
    j = i ∧ p = some n ∧ s = ⟨entry,default⟩ ∨ (j ≠ i ∨ p ≠ some n) ∧ w.sending j p = some s := by
  by_cases hj : j = i
  · subst hj
    cases p with
    | none => exact Or.inr ⟨Or.inr (by simp),by simpa [sending,now,setTab,save,tell] using h⟩
    | some m =>
      by_cases hm : m = n
      · subst hm
        exact Or.inl ⟨rfl,rfl,by simpa [sending,now,setTab,save,tell,eq_comm] using h⟩
      · exact Or.inr ⟨Or.inr (by simpa using hm),by simpa [sending,now,setTab,save,tell,hm] using h⟩
  · rw [now,tell_sending,setTab_sending_ne hj,save_sending] at h
    exact Or.inr ⟨Or.inl hj,h⟩

/-- The send of a press that ends is gone; every other send is as it was. -/
theorem sending_nowEnds {n : ℕ} {key : String} {o : Outcome R}
    (h : (w.nowEnds i n key o).sending j p = some s) : (j ≠ i ∨ p ≠ some n) ∧ w.sending j p = some s := by
  have htab : (w.setTab i {w.tabs i with
      pressed := (w.tabs i).pressed.filter (· != key)
      presses := Function.update (w.tabs i).presses n none}).sending j p = some s := by
    cases o with
    | landed reply => exact h
    | failed error =>
      dsimp only [nowEnds] at h
      split at h <;> exact h
  by_cases hj : j = i
  · subst hj
    cases p with
    | none => exact ⟨Or.inr (by simp),by simpa [sending,setTab] using htab⟩
    | some m =>
      by_cases hm : m = n
      · subst hm
        simp [sending,setTab] at htab
      · exact ⟨Or.inr (by simpa using hm),by simpa [sending,setTab,hm] using htab⟩
  · rw [setTab_sending_ne hj] at htab
    exact ⟨Or.inl hj,htab⟩

/-- A press's end: its act is heard and dropped, or stays for want of an answer, or is
dropped and its refusal thrown. -/
theorem nowEnds_cases (w : World ι T P R) (i : ι) (n : ℕ) (key : String) (o : Outcome R) :
    let w' := w.nowEnds i n key o
    (∃ reply, o = .landed reply ∧ w'.store = Outbox.drop w.store key ∧ w'.log = w.log++[.heard i key reply]) ∨
    (∃ error, o = .failed error ∧ transient error = true ∧ w'.store = w.store ∧ w'.log = w.log++[.held i key]) ∨
    ∃ error, o = .failed error ∧ transient error = false ∧ w'.store = Outbox.drop w.store key ∧
      w'.log = w.log++[.threw i key error] := by
  cases o with
  | landed reply => exact Or.inl ⟨reply,rfl,rfl,rfl⟩
  | failed error =>
    right
    by_cases h : transient error = true
    · exact Or.inl ⟨error,rfl,h,by simp [nowEnds,h],by simp [nowEnds,h]⟩
    · exact Or.inr ⟨error,rfl,by simpa using h,by simp [nowEnds,h],by simp [nowEnds,h]⟩

/-- A drain's send ends: its act is heard and dropped, or the drain stops, or the act is
refused and the drain goes on. -/
theorem drainEnds_cases (w : World ι T P R) (i : ι) (owner : String) (rest : List (Held T)) (key : String)
    (o : Outcome R) :
    let w' := w.drainEnds i owner rest key o
    (∃ reply, o = .landed reply ∧
      w' = ((w.setDrain i (some ⟨owner,rest,none⟩)).save (Outbox.drop w.store key)).tell [.heard i key reply]) ∨
    (∃ error, o = .failed error ∧ transient error = true ∧ w' = w.drainOver i owner [.stuck i key]) ∨
    ∃ error, o = .failed error ∧ transient error = false ∧
      w' = ((w.setDrain i (some ⟨owner,rest,none⟩)).save (Outbox.refuse w.store key (said error))).tell
        [.refused i key error] := by
  cases o with
  | landed reply => exact Or.inl ⟨reply,rfl,rfl⟩
  | failed error =>
    right
    by_cases h : transient error = true
    · exact Or.inl ⟨error,rfl,h,by simp [drainEnds,h]⟩
    · exact Or.inr ⟨error,rfl,by simpa using h,by simp [drainEnds,h]⟩

/-- The send that takes a step is what it makes of itself; every other is as it was. -/
theorem sending_works {press : Option ℕ} {s' : Sending T P} {keep : Bool} (h : (w.works i press s' keep).sending j p = some s) :
    j = i ∧ p = press ∧ s = s' ∨ (j ≠ i ∨ p ≠ press) ∧ w.sending j p = some s := by
  have hset : (w.setSending i s' press).sending j p = some s := by
    cases keep with
    | true => simpa [works] using h
    | false => simpa [works] using h
  cases press with
  | none =>
    rcases setDrain_sending hset with ⟨hj,hp,hs⟩ | hother
    · refine Or.inl ⟨hj,hp,?_⟩
      cases hd : (w.tabs i).draining with
      | none => simp [hd] at hs
      | some d => simpa [hd,eq_comm] using hs
    · exact Or.inr hother
  | some n =>
    by_cases hj : j = i
    · subst hj
      cases p with
      | none => exact Or.inr ⟨Or.inr (by simp),by simpa [sending,setSending,setTab] using hset⟩
      | some m =>
        by_cases hm : m = n
        · subst hm
          exact Or.inl ⟨rfl,rfl,by simpa [sending,setSending,setTab,eq_comm] using hset⟩
        · exact Or.inr ⟨Or.inr (by simpa using hm),by simpa [sending,setSending,setTab,hm] using hset⟩
    · rw [setSending,setTab_sending_ne hj] at hset
      exact Or.inr ⟨Or.inl hj,hset⟩

/-- A tab that keeps its drain, set in a tab's place, leaves every drain. -/
theorem setTab_draining {t : Tab T P} (h : t.draining = (w.tabs i).draining) :
    ((w.setTab i t).tabs j).draining = (w.tabs j).draining := by
  by_cases hj : j = i
  · subst hj
    simpa using h
  · simp [Function.update_of_ne hj]

@[simp] theorem now_draining [Inhabited P] {n : ℕ} {entry : Held T} :
    ((w.now i n entry).tabs j).draining = (w.tabs j).draining := setTab_draining (w := w.save _) rfl

@[simp] theorem nowEnds_draining {n : ℕ} {key : String} {o : Outcome R} :
    ((w.nowEnds i n key o).tabs j).draining = (w.tabs j).draining := by
  have htab : ((w.setTab i {w.tabs i with
      pressed := (w.tabs i).pressed.filter (· != key)
      presses := Function.update (w.tabs i).presses n none}).tabs j).draining = (w.tabs j).draining := setTab_draining rfl
  cases o with
  | landed reply => exact htab
  | failed error =>
    dsimp only [nowEnds]
    split <;> exact htab

theorem setDrain_draining {d : Option (Drain T P)} :
    ((w.setDrain i d).tabs j).draining = if j = i then d else (w.tabs j).draining := by
  split
  · rename_i hj
    subst hj
    simp
  · rename_i hj
    simp [Function.update_of_ne hj]

/-- A step of a send leaves each drain its owner and what it has ahead. -/
theorem works_draining {press : Option ℕ} {s' : Sending T P} {keep : Bool} {d : Drain T P}
    (h : ((w.works i press s' keep).tabs j).draining = some d) :
    ∃ d', (w.tabs j).draining = some d' ∧ d'.owner = d.owner ∧ d'.rest = d.rest := by
  have hset : ((w.setSending i s' press).tabs j).draining = some d := by
    cases keep with
    | true => exact h
    | false => exact h
  cases press with
  | some n =>
    have hsame : ((w.setSending i s' (some n)).tabs j).draining = (w.tabs j).draining := setTab_draining rfl
    exact ⟨d,hsame ▸ hset,rfl,rfl⟩
  | none =>
    rw [setSending,setDrain_draining] at hset
    split at hset
    · rename_i hj
      subst hj
      obtain ⟨d',hd,rfl⟩ := Option.map_eq_some_iff.mp hset
      exact ⟨d',hd,rfl,rfl⟩
    · exact ⟨d,hset,rfl,rfl⟩

end World

end Outbox
end Spork
