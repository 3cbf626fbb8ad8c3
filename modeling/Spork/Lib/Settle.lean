import Spork.Lib.GroupBy

/-! A table of keyed rows brought to the rows it should have: its own that are not among
them are deleted, and each of them is inserted, or written over the one of its key where
the two differ. -/
namespace Spork
namespace Settle

variable {ρ κ : Type*} [DecidableEq κ] (key : ρ → κ) (mine : ρ → Bool) (upsert : ρ → ρ → ρ) (differs : ρ → ρ → Bool)

def removed (rows old : List ρ) : List ρ := old.filter fun x => mine x && decide (key x ∉ rows.map key)

/-- The row of its key, where there is one, written over it. -/
def overwrite (rows : List ρ) (x : ρ) : ρ :=
  match rows.find? fun r => key r = key x with
  | none => x
  | some r => upsert x r

def settle (rows old : List ρ) : List ρ :=
  ((old.filter fun x => !(mine x && decide (key x ∉ rows.map key))).map (overwrite key upsert rows))++
    rows.filter fun r => key r ∉ old.map key

def written (rows old : List ρ) : List ρ :=
  rows.filter fun r =>
    match old.find? fun x => key x = key r with
    | none => true
    | some x => differs x r

/-- How many rows it deletes, inserts and updates. -/
def touched (rows old : List ρ) : ℕ := (written key differs rows old).length+(removed key mine rows old).length

variable {key mine upsert differs} {rows old : List ρ} {x : ρ}

section

variable (hrows : (rows.map key).Nodup) (hup : ∀ x r, key x = key r → upsert x r = r)

include hup in
theorem key_overwrite : key (overwrite key upsert rows x) = key x := by
  unfold overwrite
  cases hfind : rows.find? fun r => key r = key x with
  | none => rfl
  | some r =>
    have hkey : key r = key x := by simpa using List.find?_some hfind
    simp only [hup x r hkey.symm,hkey]

theorem overwrite_none (hx : key x ∉ rows.map key) : overwrite key upsert rows x = x := by
  have hnone : rows.find? (fun r => key r = key x) = none :=
    List.find?_eq_none.mpr fun r hr => by simpa using fun hkey : key r = key x => hx (List.mem_map.mpr ⟨r,hr,hkey⟩)
  rw [overwrite,hnone]

include hrows hup in
theorem overwrite_some {r : ρ} (hr : r ∈ rows) (hkey : key x = key r) : overwrite key upsert rows x = r := by
  rw [overwrite,hkey,GroupBy.find_keyed hrows hr]
  exact hup x r hkey

include hrows hup in
/-- The table has the rows it should, and what isn't its own under no key of theirs. -/
theorem mem_settle :
    x ∈ settle key mine upsert rows old ↔ x ∈ rows ∨ x ∈ old ∧ mine x = false ∧ key x ∉ rows.map key := by
  rw [settle,List.mem_append]
  constructor
  · rintro (hx | hx)
    · obtain ⟨y,hy,rfl⟩ := List.mem_map.mp hx
      obtain ⟨hold,hkeep⟩ := List.mem_filter.mp hy
      by_cases hin : key y ∈ rows.map key
      · obtain ⟨r,hr,hkey⟩ := List.mem_map.mp hin
        rw [overwrite_some hrows hup hr hkey.symm]
        exact .inl hr
      · rw [overwrite_none hin]
        exact .inr ⟨hold,by simpa [hin] using hkeep,hin⟩
    · exact .inl (List.mem_of_mem_filter hx)
  · rintro (hx | ⟨hold,hother,hin⟩)
    · by_cases hthere : key x ∈ old.map key
      · obtain ⟨y,hy,hkey⟩ := List.mem_map.mp hthere
        have hin : key y ∈ rows.map key := hkey ▸ List.mem_map_of_mem hx
        refine .inl (List.mem_map.mpr ⟨y,List.mem_filter.mpr ⟨hy,by simp [hin]⟩,overwrite_some hrows hup hx hkey⟩)
      · exact .inr (List.mem_filter.mpr ⟨hx,decide_eq_true hthere⟩)
    · refine .inl (List.mem_map.mpr ⟨x,List.mem_filter.mpr ⟨hold,by simp [hother]⟩,overwrite_none hin⟩)

include hrows hup in
/-- No key is there twice. -/
theorem settle_keys (hold : (old.map key).Nodup) : ((settle key mine upsert rows old).map key).Nodup := by
  rw [settle,List.map_append,List.map_map]
  have hkeys : (key ∘ overwrite key upsert rows) = key := funext fun x => key_overwrite hup
  rw [hkeys]
  refine (hold.sublist (List.filter_sublist.map key)).append (hrows.sublist (List.filter_sublist.map key)) ?_
  intro k hk hnew
  obtain ⟨r,hr,rfl⟩ := List.mem_map.mp hnew
  have hout : key r ∉ old.map key := by simpa using (List.mem_filter.mp hr).2
  exact hout ((List.filter_sublist.map key).subset hk)

include hrows hup in
/-- What is settled stays as it is, and nothing of it is touched. -/
theorem settle_again (hsame : ∀ r, differs r r = false) (hold : (old.map key).Nodup) :
    settle key mine upsert rows (settle key mine upsert rows old) = settle key mine upsert rows old ∧
      touched key mine differs rows (settle key mine upsert rows old) = 0 := by
  generalize ht : settle key mine upsert rows old = t
  have hmem (x : ρ) : x ∈ t ↔ x ∈ rows ∨ x ∈ old ∧ mine x = false ∧ key x ∉ rows.map key := ht ▸ mem_settle hrows hup
  have hkeys : (t.map key).Nodup := ht ▸ settle_keys hrows hup hold
  have hstay : ∀ x ∈ t, (mine x && decide (key x ∉ rows.map key)) = false := by
    intro x hx
    rcases (hmem x).mp hx with hr | ⟨-,hother,-⟩
    · simp only [List.mem_map_of_mem hr,not_true,decide_false,Bool.and_false]
    · rw [hother,Bool.false_and]
  constructor
  · have hkept : (t.filter fun x => !(mine x && decide (key x ∉ rows.map key))) = t :=
      List.filter_eq_self.mpr fun x hx => by rw [hstay x hx]; rfl
    have hover : t.map (overwrite key upsert rows) = t := by
      refine (List.map_congr_left fun x hx => ?_).trans (List.map_id t)
      rcases (hmem x).mp hx with hr | ⟨-,-,hout⟩
      · exact overwrite_some hrows hup hr rfl
      · exact overwrite_none hout
    have hnew : (rows.filter fun r => key r ∉ t.map key) = [] :=
      List.filter_eq_nil_iff.mpr fun r hr => by simpa using ⟨r,(hmem r).mpr (.inl hr),rfl⟩
    rw [settle,hkept,hover,hnew,List.append_nil]
  · have hgone : removed key mine rows t = [] := List.filter_eq_nil_iff.mpr fun x hx => by simp only [hstay x hx,Bool.false_eq_true,not_false_eq_true]
    have hsaid : written key differs rows t = [] := by
      refine List.filter_eq_nil_iff.mpr fun r hr => ?_
      rw [GroupBy.find_keyed hkeys ((hmem r).mpr (.inl hr))]
      simp [hsame]
    rw [touched,hgone,hsaid]
    rfl

end

end Settle
end Spork
