import Mathlib

/-! The list of acts an outbox keeps on the device (client/domain/outbox.ts): what each
call writes back, and which failures are worth trying again. -/
namespace Spork
namespace Outbox

/-- An act kept until the server has it. -/
structure Held (T : Type) where
  key : String
  /-- `person:tenant:site` of the session that recorded it. -/
  owner : String
  ownerName : String
  body : T
  /-- The server's refusal, once it gave one. -/
  refused : Option String
  deriving DecidableEq, Repr

/-- What a send was thrown: its status where it has a number, its text where it is an
error of the language. -/
structure Failure where
  status : Option ℤ
  message : Option String
  deriving DecidableEq, Repr

/-- Whether a failure is worth trying again: no answer, or not this act's fault. -/
def transient (f : Failure) : Bool :=
  match f.status with
  | none => true
  | some s => s == 0 || s == 401 || s == 408 || s == 425 || s == 429 || decide (s ≥ 500)

/-- The message a refusal carries. -/
def said (f : Failure) : String :=
  match f.message with
  | some m => if m = "" then "The server refused it." else m
  | none => "The server refused it."

variable {T : Type}

/-- `all[at] = entry`, at the first place its key stands. -/
def replace (entry : Held T) : List (Held T) → List (Held T)
  | [] => []
  | e :: es => if e.key = entry.key then entry :: es else e :: replace entry es

/-- The same key replaces, and keeps its place. -/
def put (all : List (Held T)) (entry : Held T) : List (Held T) :=
  if all.any (·.key == entry.key) then replace entry all else all++[entry]

/-- One sent or dropped elsewhere meanwhile stays gone. -/
def update (all : List (Held T)) (entry : Held T) : List (Held T) := replace entry all

def drop (all : List (Held T)) (key : String) : List (Held T) := all.filter (·.key != key)

def refuse (all : List (Held T)) (key reason : String) : List (Held T) :=
  all.map fun e => if e.key = key then {e with refused := some reason} else e

/-- Still kept, and not refused. -/
def waits (all : List (Held T)) (key : String) : Bool :=
  all.any fun e => e.key == key && e.refused.isNone

/-- How many of an owner's acts are still waiting. -/
def waiting (all : List (Held T)) (owner : String) : ℕ :=
  (all.filter fun e => e.owner == owner && e.refused.isNone).length

def keys (all : List (Held T)) : List String := all.map (·.key)

@[simp] theorem keys_replace (entry : Held T) (all : List (Held T)) : keys (replace entry all) = keys all := by
  induction all with
  | nil => rfl
  | cons e es ih =>
    rw [replace]
    split
    · rename_i hkey
      simp [keys,hkey]
    · simpa [keys] using ih

theorem mem_replace {entry e : Held T} {all : List (Held T)} (h : e ∈ replace entry all) :
    e = entry ∧ entry.key ∈ keys all ∨ e ∈ all := by
  induction all with
  | nil => cases h
  | cons x xs ih =>
    rw [replace] at h
    split at h
    · rename_i hkey
      rcases List.mem_cons.mp h with rfl | h
      · exact Or.inl ⟨rfl,by simp [keys,hkey]⟩
      · exact Or.inr (List.mem_cons_of_mem x h)
    · rcases List.mem_cons.mp h with rfl | h
      · exact Or.inr List.mem_cons_self
      · rcases ih h with ⟨rfl,hmem⟩ | h
        · exact Or.inl ⟨rfl,List.mem_cons_of_mem _ hmem⟩
        · exact Or.inr (List.mem_cons_of_mem x h)

/-- Where keys differ, what is left beside the replaced entry has another key. -/
theorem mem_replace_of_nodup {entry e : Held T} {all : List (Held T)} (hkeys : (keys all).Nodup)
    (h : e ∈ replace entry all) : e = entry ∧ entry.key ∈ keys all ∨ e ∈ all ∧ e.key ≠ entry.key := by
  induction all with
  | nil => cases h
  | cons x xs ih =>
    obtain ⟨hfirst,hrest⟩ := List.nodup_cons.mp hkeys
    rw [replace] at h
    split at h
    · rename_i hkey
      rcases List.mem_cons.mp h with rfl | h
      · exact Or.inl ⟨rfl,by simp [keys,hkey]⟩
      · refine Or.inr ⟨List.mem_cons_of_mem x h,fun heq => hfirst ?_⟩
        exact List.mem_map.mpr ⟨e,h,heq.trans hkey.symm⟩
    · rename_i hkey
      rcases List.mem_cons.mp h with rfl | h
      · exact Or.inr ⟨List.mem_cons_self,hkey⟩
      · rcases ih hrest h with ⟨rfl,hmem⟩ | ⟨h,hne⟩
        · exact Or.inl ⟨rfl,List.mem_cons_of_mem _ hmem⟩
        · exact Or.inr ⟨List.mem_cons_of_mem x h,hne⟩

theorem mem_keys {key : String} {all : List (Held T)} : key ∈ keys all ↔ ∃ e ∈ all, e.key = key :=
  List.mem_map

theorem any_key (all : List (Held T)) (key : String) : all.any (·.key == key) = true ↔ key ∈ keys all := by
  simp [keys]

/-- A key put again keeps its place; a new one comes last. -/
theorem keys_put (all : List (Held T)) (entry : Held T) :
    keys (put all entry) = if entry.key ∈ keys all then keys all else keys all++[entry.key] := by
  rw [put]
  by_cases h : entry.key ∈ keys all
  · rw [if_pos ((any_key all entry.key).mpr h),if_pos h,keys_replace]
  · rw [if_neg (fun hany => h ((any_key all entry.key).mp hany)),if_neg h]
    simp [keys]

theorem put_new {all : List (Held T)} {entry : Held T} (h : entry.key ∉ keys all) : put all entry = all++[entry] := by
  rw [put,if_neg fun hany => h ((any_key all entry.key).mp hany)]

@[simp] theorem keys_refuse (all : List (Held T)) (key reason : String) : keys (refuse all key reason) = keys all := by
  rw [keys,refuse,List.map_map]
  refine List.map_congr_left fun e _ => ?_
  change (if e.key = key then {e with refused := some reason} else e).key = e.key
  split <;> rfl

theorem mem_refuse {all : List (Held T)} {key reason : String} {e : Held T} (h : e ∈ refuse all key reason) :
    ∃ x ∈ all, x.key = e.key ∧ x.owner = e.owner ∧ x.body = e.body := by
  obtain ⟨x,hx,rfl⟩ := List.mem_map.mp h
  refine ⟨x,hx,?_⟩
  split <;> exact ⟨rfl,rfl,rfl⟩

theorem keys_drop (all : List (Held T)) (key : String) : keys (drop all key) = (keys all).filter (· != key) := by
  rw [keys,drop,keys,List.filter_map]
  rfl

/-- Nothing but the act named is dropped. -/
theorem eq_of_dropped {all : List (Held T)} {key k : String} (h : k ∈ keys all)
    (hgone : k ∉ keys (drop all key)) : k = key := by
  by_contra hne
  rw [keys_drop] at hgone
  exact hgone (List.mem_filter.mpr ⟨h,by simpa using hne⟩)

theorem waits_iff {all : List (Held T)} {key : String} :
    waits all key = true ↔ ∃ e ∈ all, e.key = key ∧ e.refused = none := by
  simp [waits]

end Outbox
end Spork
