import Spork.Outbox.Box

/-! The browser's store under an outbox (client/domain/outbox.ts): one copy in memory,
one in `localStorage`, and which of the two a read gives after which writes failed. -/
namespace Spork
namespace DeviceStore

/-- A `deviceStore`: its variable, and what `localStorage` holds under its name. -/
structure Device (V : Type) where
  memory : Option V
  item : Option V
  deriving DecidableEq, Repr

/-- One call on the store, and whether `localStorage` throws or is missing at it. -/
inductive StoreCall (V : Type) where
  | get (fails : Bool)
  | set (value : V) (fails : Bool)
  deriving DecidableEq, Repr

variable {V T : Type}

/-- A store just made, over what `localStorage` was left with. -/
def deviceStore (item : Option V) : Device V := {memory := none,item := item}

def get (fails : Bool) (d : Device V) : Option V :=
  if fails then d.memory else d.item <|> d.memory

def set (value : V) (fails : Bool) (d : Device V) : Device V :=
  {memory := some value,item := if fails then d.item else some value}

def call (d : Device V) : StoreCall V → Device V
  | .get _ => d
  | .set value fails => set value fails d

/-- The store after calls in turn. -/
def after (d : Device V) (calls : List (StoreCall V)) : Device V := calls.foldl call d

/-- The value of the last set, whether or not `localStorage` took it. -/
def lastSet (calls : List (StoreCall V)) : Option V :=
  calls.reverse.findSome? fun
    | .set value _ => some value
    | .get _ => none

/-- The value of the last set that `localStorage` took. -/
def lastLanded (calls : List (StoreCall V)) : Option V :=
  calls.reverse.findSome? fun
    | .set value false => some value
    | _ => none

/-- Until a reload every get returns the value of the last set. -/
def ReadsBack (item : Option V) (calls : List (StoreCall V)) : Prop :=
  ∀ before fails rest, calls = before++StoreCall.get fails :: rest →
    ∀ v, lastSet before = some v → get fails (after (deviceStore item) before) = some v

/-- No get after a set reads a `localStorage` left behind: it can't be read, holds nothing,
or holds what was set last. -/
def NoneBehind (item : Option V) (calls : List (StoreCall V)) : Prop :=
  ∀ before fails rest, calls = before++StoreCall.get fails :: rest →
    ∀ v, lastSet before = some v →
      fails = true ∨ (lastLanded before <|> item) = none ∨ (lastLanded before <|> item) = some v

@[simp] theorem after_append (d : Device V) (calls more : List (StoreCall V)) :
    after d (calls++more) = after (after d calls) more :=
  List.foldl_append

/-- Memory has what was set last. -/
theorem after_memory (item : Option V) (calls : List (StoreCall V)) :
    (after (deviceStore item) calls).memory = lastSet calls := by
  induction calls using List.reverseRecOn with
  | nil => rfl
  | append_singleton calls c ih =>
    rw [after_append]
    cases c with
    | get fails => simpa [after,call,lastSet] using ih
    | set value fails => simp [after,call,set,lastSet]

/-- `localStorage` has what it took last, or what it was left with. -/
theorem after_item (item : Option V) (calls : List (StoreCall V)) :
    (after (deviceStore item) calls).item = (lastLanded calls <|> item) := by
  induction calls using List.reverseRecOn with
  | nil => rfl
  | append_singleton calls c ih =>
    rw [after_append]
    cases c with
    | get fails => simpa [after,call,lastLanded] using ih
    | set value fails =>
      cases fails with
      | true => simpa [after,call,set,lastLanded] using ih
      | false => simp [after,call,set,lastLanded]

/-- Before the first set `localStorage` is as it was left. -/
theorem after_item_unset (item : Option V) {calls : List (StoreCall V)} (h : lastSet calls = none) :
    (after (deviceStore item) calls).item = item := by
  have hlanded : lastLanded calls = none := by
    refine List.findSome?_eq_none_iff.mpr fun c hc => ?_
    have hc := List.findSome?_eq_none_iff.mp h c hc
    cases c with
    | get fails => rfl
    | set value fails => cases hc
  rw [after_item,hlanded]
  rfl

/-- A read gives memory's value just when `localStorage` can't give another. -/
theorem get_eq_memory_iff {d : Device V} {v : V} {fails : Bool} (h : d.memory = some v) :
    get fails d = some v ↔ fails = true ∨ d.item = none ∨ d.item = some v := by
  cases fails with
  | true => simp [get,h]
  | false =>
    cases hitem : d.item with
    | none => simp [get,h,hitem]
    | some w => simp [get,hitem]

theorem readsBack_iff_noneBehind (item : Option V) (calls : List (StoreCall V)) :
    ReadsBack item calls ↔ NoneBehind item calls := by
  have hread : ∀ before fails v, lastSet before = some v →
      (get fails (after (deviceStore item) before) = some v ↔
        fails = true ∨ (lastLanded before <|> item) = none ∨ (lastLanded before <|> item) = some v) := by
    intro before fails v hset
    rw [get_eq_memory_iff ((after_memory item before).trans hset),after_item]
  constructor
  · intro hback before fails rest hcalls v hset
    exact (hread before fails v hset).mp (hback before fails rest hcalls v hset)
  · intro hnone before fails rest hcalls v hset
    exact (hread before fails v hset).mpr (hnone before fails rest hcalls v hset)

/-! An outbox over it. -/

open Outbox (Held keys)

/-- A stored text, as what `JSON.parse` makes of it: none where that is no array. -/
abbrev Stored (T : Type) := Option (List (Held T))

/-- The calls on an outbox that read or write its store. -/
inductive Act (T : Type) where
  | list
  | put (entry : Held T)
  | update (entry : Held T)
  | drop (key : String)
  | refuse (key reason : String)

/-- Whether `localStorage` fails at an act's read, and at its write. -/
structure Fails where
  read : Bool
  write : Bool
  deriving DecidableEq, Repr

/-- `JSON.parse(this.store.get() ?? "[]")`, where that is an array. -/
def contents (stored : Option (Stored T)) : List (Held T) := (stored.getD (some [])).getD []

def list (fails : Bool) (d : Device (Stored T)) : List (Held T) := contents (get fails d)

/-- What an act saves, of the list it read. -/
def saved (all : List (Held T)) : Act T → Option (List (Held T))
  | .list => none
  | .put entry => some (Outbox.put all entry)
  | .update entry => if all.any (·.key == entry.key) then some (Outbox.update all entry) else none
  | .drop key => if all.any (·.key == key) then some (Outbox.drop all key) else none
  | .refuse key reason => some (Outbox.refuse all key reason)

/-- The calls on the store one act makes. -/
def callsOf (d : Device (Stored T)) (a : Act T) (f : Fails) : List (StoreCall (Stored T)) :=
  .get f.read ::
    match saved (list f.read d) a with
    | none => []
    | some all => [.set (some all) f.write]

/-- The calls on the store acts in turn make. -/
def calls : Device (Stored T) → List (Act T×Fails) → List (StoreCall (Stored T))
  | _, [] => []
  | d, (a,f) :: acts => callsOf d a f++calls (after d (callsOf d a f)) acts

/-- The store after acts in turn. -/
def used (item : Option (Stored T)) (acts : List (Act T×Fails)) : Device (Stored T) :=
  after (deviceStore item) (calls (deviceStore item) acts)

/-- An act that was put is in the list until it is dropped. -/
def StaysUntilDropped (item : Option (Stored T)) (acts : List (Act T×Fails)) : Prop :=
  ∀ before entry f between g rest,
    acts = before++(Act.put entry,f) :: between++(Act.list,g) :: rest →
    (∀ e ∈ between, e.1 ≠ Act.drop entry.key) →
    entry.key ∈ keys (list g.read (used item (before++(Act.put entry,f) :: between)))

/-- A dropped act does not come back. The drop reads what is kept: its own read fails
only where nothing is in `localStorage` alone. -/
def StaysGone (item : Option (Stored T)) (acts : List (Act T×Fails)) : Prop :=
  ∀ before key f between g rest,
    acts = before++(Act.drop key,f) :: between++(Act.list,g) :: rest →
    (f.read = true → lastSet (calls (deviceStore item) before) = none → item = none) →
    (∀ e ∈ between, ∀ entry, e.1 = Act.put entry → entry.key ≠ key) →
    key ∉ keys (list g.read (used item (before++(Act.drop key,f) :: between)))

theorem calls_append (d : Device (Stored T)) (acts more : List (Act T×Fails)) :
    calls d (acts++more) = calls d acts++calls (after d (calls d acts)) more := by
  induction acts generalizing d with
  | nil => rfl
  | cons e acts ih =>
    obtain ⟨a,f⟩ := e
    rw [List.cons_append,calls,calls,ih,after_append,List.append_assoc]

theorem used_snoc (item : Option (Stored T)) (acts : List (Act T×Fails)) (a : Act T) (f : Fails) :
    used item (acts++[(a,f)]) = after (used item acts) (callsOf (used item acts) a f) := by
  simp [used,calls_append,calls]

/-- A read gives what was set last, where anything was. -/
def Steady (d : Device (Stored T)) (fails : Bool) : Prop :=
  ∀ v, d.memory = some v → get fails d = some v

/-- Every act's read is steady where the calls acts make leave none behind. -/
theorem steady_of_noneBehind {item : Option (Stored T)} {acts : List (Act T×Fails)}
    (h : NoneBehind item (calls (deviceStore item) acts)) (before : List (Act T×Fails)) (a : Act T) (f : Fails)
    (rest : List (Act T×Fails)) (hacts : acts = before++(a,f) :: rest) : Steady (used item before) f.read := by
  intro v hv
  have hback : ReadsBack item (calls (deviceStore item) acts) := (readsBack_iff_noneBehind item _).mpr h
  have hset : lastSet (calls (deviceStore item) before) = some v := (after_memory item _).symm.trans hv
  have hcalls : ∃ more, calls (deviceStore item) acts =
      calls (deviceStore item) before++StoreCall.get f.read :: more := by
    rw [hacts,calls_append,calls,callsOf,List.cons_append]
    exact ⟨_,rfl⟩
  obtain ⟨more,hcalls⟩ := hcalls
  exact hback _ f.read more hcalls v hset

/-- Every copy a read may give has a property. -/
structure Shows (P : List (Held T) → Prop) (d : Device (Stored T)) : Prop where
  memory : ∀ v, d.memory = some v → P (contents (some v))
  neither : d.memory = none → P []
  item : d.memory = none → P (contents d.item)

theorem Shows.list {P : List (Held T) → Prop} {d : Device (Stored T)} {fails : Bool} (h : Shows P d)
    (hread : Steady d fails) : P (list fails d) := by
  rw [DeviceStore.list]
  cases hmem : d.memory with
  | some v =>
    rw [hread v hmem]
    exact h.memory v hmem
  | none =>
    cases fails with
    | true => simpa [get,hmem,contents] using h.neither hmem
    | false => simpa [get,hmem] using h.item hmem

theorem shows_set {P : List (Held T) → Prop} {all : List (Held T)} {fails : Bool} (h : P all)
    (d : Device (Stored T)) : Shows P (set (some all) fails d) where
  memory v hv := by
    cases hv
    exact h
  neither hnone := by cases hnone
  item hnone := by cases hnone

/-- An act that saves only what keeps a property keeps it shown. -/
theorem Shows.act {P : List (Held T) → Prop} {d : Device (Stored T)} {a : Act T} {f : Fails} (h : Shows P d)
    (hsaves : ∀ all, saved (DeviceStore.list f.read d) a = some all → P all) :
    Shows P (after d (callsOf d a f)) := by
  rw [callsOf]
  cases hsaved : saved (DeviceStore.list f.read d) a with
  | none => exact h
  | some all => exact shows_set (hsaves all hsaved) d

/-- What the acts of a stretch keep is shown at its end, where every read is steady. -/
theorem shows_run {P : List (Held T) → Prop} {item : Option (Stored T)} {acts before : List (Act T×Fails)}
    (hacts : NoneBehind item (calls (deviceStore item) acts)) (hstart : Shows P (used item before))
    (between rest : List (Act T×Fails)) (hsplit : acts = before++between++rest)
    (hkeeps : ∀ e ∈ between, ∀ all all', P all → saved all e.1 = some all' → P all') :
    Shows P (used item (before++between)) := by
  induction between using List.reverseRecOn generalizing rest with
  | nil => simpa using hstart
  | append_singleton between e ih =>
    obtain ⟨a,f⟩ := e
    have hprev : Shows P (used item (before++between)) := by
      refine ih ((a,f) :: rest) (by simp [hsplit]) fun e he => hkeeps e ?_
      exact List.mem_append_left _ he
    have hread : Steady (used item (before++between)) f.read :=
      steady_of_noneBehind hacts _ a f rest (by simp [hsplit])
    rw [← List.append_assoc,used_snoc]
    refine hprev.act fun all hall => ?_
    exact hkeeps (a,f) (List.mem_append_right _ (List.mem_singleton.mpr rfl)) _ all (hprev.list hread) hall

/-- Only a drop of its key takes an act out. -/
theorem key_mem_saved {all all' : List (Held T)} {a : Act T} {key : String} (hkey : key ∈ keys all)
    (ha : a ≠ Act.drop key) (h : saved all a = some all') : key ∈ keys all' := by
  cases a with
  | list => cases h
  | put entry =>
    cases h
    rw [Outbox.keys_put]
    split
    · exact hkey
    · exact List.mem_append_left _ hkey
  | update entry =>
    rw [saved] at h
    split at h
    · cases h
      rwa [Outbox.update,Outbox.keys_replace]
    · cases h
  | drop k =>
    rw [saved] at h
    split at h
    · cases h
      by_contra hgone
      exact ha (by rw [Outbox.eq_of_dropped hkey hgone])
    · cases h
  | refuse k reason =>
    cases h
    rwa [Outbox.keys_refuse]

/-- Only a put of its key brings an act in. -/
theorem key_notMem_saved {all all' : List (Held T)} {a : Act T} {key : String} (hkey : key ∉ keys all)
    (ha : ∀ entry, a = Act.put entry → entry.key ≠ key) (h : saved all a = some all') :
    key ∉ keys all' := by
  cases a with
  | list => cases h
  | put entry =>
    cases h
    rw [Outbox.keys_put]
    split
    · exact hkey
    · rw [List.mem_append,List.mem_singleton]
      rintro (hmem | rfl)
      · exact hkey hmem
      · exact ha entry rfl rfl
  | update entry =>
    rw [saved] at h
    split at h
    · cases h
      rwa [Outbox.update,Outbox.keys_replace]
    · cases h
  | drop k =>
    rw [saved] at h
    split at h
    · cases h
      intro hmem
      rw [Outbox.keys_drop] at hmem
      exact hkey (List.mem_filter.mp hmem).1
    · cases h
  | refuse k reason =>
    cases h
    rwa [Outbox.keys_refuse]

/-- A put shows its act. -/
theorem shows_put (d : Device (Stored T)) (entry : Held T) (f : Fails) :
    Shows (entry.key ∈ keys ·) (after d (callsOf d (.put entry) f)) := by
  refine shows_set ?_ d
  rw [Outbox.keys_put]
  split
  · assumption
  · exact List.mem_append_right _ (List.mem_singleton.mpr rfl)

/-- A drop that read what is kept shows its act no more. -/
theorem shows_drop {d : Device (Stored T)} {f : Fails} (key : String) (hread : Steady d f.read)
    (hheard : f.read = true → d.memory = none → d.item = none) :
    Shows (key ∉ keys ·) (after d (callsOf d (.drop key) f)) := by
  by_cases hmem : key ∈ keys (list f.read d)
  · rw [callsOf,saved,if_pos ((Outbox.any_key _ key).mpr hmem)]
    refine shows_set ?_ d
    rw [Outbox.keys_drop]
    simp
  · rw [callsOf,saved,if_neg fun hany => hmem ((Outbox.any_key _ key).mp hany)]
    change Shows (key ∉ keys ·) d
    refine ⟨fun v hv => ?_,fun _ => List.not_mem_nil,fun hnone => ?_⟩
    · rwa [list,hread v hv] at hmem
    · rw [list] at hmem
      cases hfails : f.read with
      | true =>
        rw [hheard hfails hnone]
        exact List.not_mem_nil
      | false => simpa [get,hfails,hnone] using hmem

theorem staysUntilDropped_of_noneBehind {item : Option (Stored T)} {acts : List (Act T×Fails)}
    (h : NoneBehind item (calls (deviceStore item) acts)) : StaysUntilDropped item acts := by
  intro before entry f between g rest hacts hdrop
  have hput : Shows (entry.key ∈ keys ·) (used item (before++[(Act.put entry,f)])) := by
    rw [used_snoc]
    exact shows_put _ entry f
  have hshown : Shows (entry.key ∈ keys ·) (used item (before++[(Act.put entry,f)]++between)) :=
    shows_run h hput between ((Act.list,g) :: rest) (by simp [hacts])
      fun e he _ _ hmem => key_mem_saved hmem (hdrop e he)
  rw [List.append_assoc,List.singleton_append] at hshown
  exact hshown.list (steady_of_noneBehind h _ .list g rest hacts)

theorem staysGone_of_noneBehind {item : Option (Stored T)} {acts : List (Act T×Fails)}
    (h : NoneBehind item (calls (deviceStore item) acts)) : StaysGone item acts := by
  intro before key f between g rest hacts hheard hput
  have hread : Steady (used item before) f.read :=
    steady_of_noneBehind h before (.drop key) f (between++(Act.list,g) :: rest) (by simp [hacts])
  have hdrop : Shows (key ∉ keys ·) (used item (before++[(Act.drop key,f)])) := by
    rw [used_snoc]
    refine shows_drop key hread fun hfails hnone => ?_
    have hset : lastSet (calls (deviceStore item) before) = none := (after_memory item _).symm.trans hnone
    exact (after_item_unset item hset).trans (hheard hfails hset)
  have hshown : Shows (key ∉ keys ·) (used item (before++[(Act.drop key,f)]++between)) :=
    shows_run h hdrop between ((Act.list,g) :: rest) (by simp [hacts])
      fun e he _ _ hmem => key_notMem_saved hmem (hput e he)
  rw [List.append_assoc,List.singleton_append] at hshown
  exact hshown.list (steady_of_noneBehind h _ .list g rest hacts)

/-- A read gives what was set last exactly where no `localStorage` is left behind; over such
a store an act that was put stays until it is dropped, and one dropped stays gone. -/
theorem reads_back_iff (V T : Type) (item : Option V) (held : Option (Stored T)) (called : List (StoreCall V))
    (acts : List (Act T×Fails)) : (ReadsBack item called ↔ NoneBehind item called) ∧
      (NoneBehind held (calls (deviceStore held) acts) → StaysUntilDropped held acts ∧ StaysGone held acts) :=
  ⟨readsBack_iff_noneBehind item called,fun h => ⟨staysUntilDropped_of_noneBehind h,staysGone_of_noneBehind h⟩⟩

/-- A device that keeps nothing still shows a put act, and no more once it is dropped. -/
theorem blocked_keeps :
    "k" ∈ keys (list true (used (none : Option (Stored Unit)) [(.put ⟨"k","p:t:s","Ada",(),none⟩,⟨true,true⟩)])) ∧
    "k" ∉ keys (list false (used (none : Option (Stored Unit))
      [(.put ⟨"k","p:t:s","Ada",(),none⟩,⟨true,true⟩),(.drop "k",⟨false,true⟩)])) := by
  have hnone : ∀ calls : List (StoreCall (Stored Unit)), (∀ c ∈ calls, ∀ v, c ≠ .set v false) →
      NoneBehind none calls := by
    intro calls hfail before fails rest hcalls v hset
    refine Or.inr (Or.inl ?_)
    have hlanded : lastLanded before = none := by
      refine List.findSome?_eq_none_iff.mpr fun c hc => ?_
      have hne := hfail c (by simp [hcalls,List.mem_reverse.mp hc])
      cases c with
      | get fails => rfl
      | set value fails =>
        cases fails with
        | true => rfl
        | false => exact absurd rfl (hne value)
    rw [hlanded]
    rfl
  have hput := ((reads_back_iff Unit Unit none none []
    [(.put ⟨"k","p:t:s","Ada",(),none⟩,⟨true,true⟩),(.list,⟨true,true⟩)]).2 (hnone _ (by simp [calls,callsOf,saved]))).1
  have hdrop := ((reads_back_iff Unit Unit none none []
    [(.put ⟨"k","p:t:s","Ada",(),none⟩,⟨true,true⟩),(.drop "k",⟨false,true⟩),(.list,⟨false,true⟩)]).2 (hnone _
      (by simp [calls,callsOf,saved,list,contents,get,deviceStore,after,call,set,Outbox.put]))).2
  exact ⟨hput [] _ _ [] _ [] rfl (by simp),hdrop [_] _ _ [] _ [] rfl (by simp) (by simp)⟩

/-- A store that takes no write after its first: the get gives that first value, and an
act put meanwhile is not in the list. -/
theorem full_reads_first :
    ¬ReadsBack (none : Option String) [.set "a" false,.set "b" true,.get false] ∧
    ¬StaysUntilDropped (some (some [])) [(.put ⟨"k","p:t:s","Ada",(),none⟩,⟨false,true⟩),(.list,⟨false,true⟩)] := by
  constructor
  · intro h
    have hget := h [.set "a" false,.set "b" true] false [] rfl "b" rfl
    exact absurd hget (by decide)
  · intro h
    have hlist := h [] _ _ [] _ [] rfl (by simp)
    exact absurd hlist (by decide)

end DeviceStore
end Spork
