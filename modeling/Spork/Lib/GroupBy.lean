import Spork.Lib.Forest
import Spork.Lib.ShareOut

/-! Rows put together by a key, a group for every key there is. -/
namespace Spork
namespace GroupBy

variable {ρ κ : Type*} [DecidableEq κ]

/-- The keys there are, each with its rows. -/
def groups (key : ρ → κ) (rows : List ρ) : List (κ × List ρ) :=
  (rows.map key).dedup.map fun k => (k,rows.filter fun r => key r = k)

/-- The rows of a key, none when there is no such group. -/
def rowsOf (gs : List (κ × List ρ)) (k : κ) : List ρ := ((gs.find? fun g => g.1 = k).map Prod.snd).getD []

theorem mem_groups {key : ρ → κ} {rows : List ρ} {g : κ × List ρ} (hg : g ∈ groups key rows) :
    (∃ r ∈ rows, key r = g.1) ∧ g.2 = rows.filter fun r => key r = g.1 := by
  obtain ⟨k,hk,rfl⟩ := List.mem_map.mp hg
  exact ⟨List.mem_map.mp (List.mem_dedup.mp hk),rfl⟩

theorem find_groups (key : ρ → κ) (rows : List ρ) {k : κ} (hk : ∃ r ∈ rows, key r = k) :
    (groups key rows).find? (fun g => g.1 = k) = some (k,rows.filter fun r => key r = k) := by
  have hmem : (k,rows.filter fun r => key r = k) ∈ groups key rows :=
    List.mem_map.mpr ⟨k,List.mem_dedup.mpr (List.mem_map.mpr hk),rfl⟩
  cases hfound : (groups key rows).find? fun g => g.1 = k with
  | none => exact absurd (List.find?_eq_none.mp hfound _ hmem) (by simp)
  | some g =>
    have hkey : g.1 = k := by simpa using List.find?_some hfound
    obtain ⟨-,hrows⟩ := mem_groups (List.mem_of_find?_eq_some hfound)
    rw [← hkey,← hrows]

theorem rowsOf_groups (key : ρ → κ) (rows : List ρ) (k : κ) :
    rowsOf (groups key rows) k = rows.filter fun r => key r = k := by
  by_cases hk : ∃ r ∈ rows, key r = k
  · rw [rowsOf,find_groups key rows hk]
    rfl
  · have hnone : (groups key rows).find? (fun g => g.1 = k) = none := by
      refine List.find?_eq_none.mpr fun g hg hkey => hk ?_
      obtain ⟨r,hr,heq⟩ := (mem_groups hg).1
      exact ⟨r,hr,heq.trans (by simpa using hkey)⟩
    have hempty : rows.filter (fun r => key r = k) = [] := by
      refine List.filter_eq_nil_iff.mpr fun r hr hkey => hk ⟨r,hr,by simpa using hkey⟩
    rw [rowsOf,hnone,hempty]
    rfl

/-- The groups under a key: one, or none where no row has it. -/
theorem filter_groups (key : ρ → κ) (rows : List ρ) (k : κ) : (groups key rows).filter (fun g => g.1 = k) =
    if k ∈ rows.map key then [(k,rows.filter fun r => key r = k)] else [] := by
  have hkeys : (rows.map key).dedup.filter (fun k' => k' = k) = if k ∈ rows.map key then [k] else [] := by
    have hcount := List.nodup_iff_count_le_one.mp (List.nodup_dedup (rows.map key)) k
    rw [List.filter_eq]
    split
    · rename_i hmem
      rw [le_antisymm hcount (List.one_le_count_iff.mpr (List.mem_dedup.mpr hmem))]
      rfl
    · rename_i hmem
      rw [List.count_eq_zero_of_not_mem (fun hin => hmem (List.mem_dedup.mp hin))]
      rfl
  rw [groups,List.filter_map]
  show ((rows.map key).dedup.filter fun k' => k' = k).map _ = _
  rw [hkeys]
  split <;> rfl

/-- A sum over what passes a test, over all. -/
theorem sum_filter {α : Type*} (xs : List α) (test : α → Bool) (w : α → ℤ) :
    ((xs.filter test).map w).sum = (xs.map fun x => if test x then w x else 0).sum := by
  induction xs with
  | nil => rfl
  | cons x xs ih =>
    rw [List.filter_cons,List.map_cons,List.sum_cons,← ih]
    split
    · rw [List.map_cons,List.sum_cons]
    · rw [zero_add]

/-- Groups summed, of the keys that pass a test, are their rows summed. -/
theorem sum_groups (key : ρ → κ) (rows : List ρ) (w : ρ → ℤ) (test : κ → Bool) :
    (((groups key rows).filter fun g => test g.1).map fun g => (g.2.map w).sum).sum =
      ((rows.filter fun r => test (key r)).map w).sum := by
  have hperm := ShareOut.fibers_perm ((List.nodup_dedup (rows.map key)).filter test) key
    (fun r (hr : r ∈ rows.filter fun r => test (key r)) => by
      obtain ⟨hmem,htest⟩ := List.mem_filter.mp hr
      exact List.mem_filter.mpr ⟨List.mem_dedup.mpr (List.mem_map_of_mem hmem),htest⟩)
  rw [← (hperm.map w).sum_eq,Forest.sum_flatMap,groups,List.filter_map,List.map_map]
  refine congrArg List.sum (List.map_congr_left fun k hk => ?_)
  have htest : test k = true := (List.mem_filter.mp hk).2
  show ((rows.filter fun r => key r = k).map w).sum = (((rows.filter fun r => test (key r)).filter fun r => key r = k).map w).sum
  rw [List.filter_filter]
  refine congrArg (fun l => (l.map w).sum) (List.filter_congr fun r _ => ?_)
  by_cases hr : key r = k
  · simp [hr,htest]
  · simp [hr]

/-- The rows of each of some keys are the rows with one of them. -/
theorem flatMap_filter_perm (key : ρ → κ) {ks : List κ} (hks : ks.Nodup) (rows : List ρ) :
    (ks.flatMap fun k => rows.filter fun r => key r = k).Perm (rows.filter fun r => key r ∈ ks) := by
  induction ks with
  | nil => simp
  | cons k ks ih =>
    obtain ⟨hk,hrest⟩ := List.nodup_cons.mp hks
    rw [List.flatMap_cons]
    have hsplit := List.filter_append_perm (fun r => decide (key r = k)) (rows.filter fun r => key r ∈ k :: ks)
    rw [List.filter_filter,List.filter_filter] at hsplit
    refine List.Perm.trans ?_ hsplit
    have hfirst (r : ρ) : (decide (key r = k) && decide (key r ∈ k :: ks)) = decide (key r = k) := by
      by_cases h : key r = k <;> simp [h]
    have hothers (r : ρ) : (!decide (key r = k) && decide (key r ∈ k :: ks)) = decide (key r ∈ ks) := by
      by_cases h : key r = k
      · simp [h,hk]
      · simp [h]
    simp only [hfirst,hothers]
    exact (ih hrest).append_left _

/-- The groups have every row, each once. -/
theorem flatMap_groups_perm (key : ρ → κ) (rows : List ρ) : ((groups key rows).flatMap Prod.snd).Perm rows := by
  have hall : rows.filter (fun r => key r ∈ (rows.map key).dedup) = rows := by
    refine List.filter_eq_self.mpr fun r hr => ?_
    simpa using ⟨r,hr,rfl⟩
  have hperm := flatMap_filter_perm key (List.nodup_dedup (rows.map key)) rows
  rw [hall] at hperm
  rw [groups,List.flatMap_map]
  exact hperm

/-! ## Keyed rows -/

/-- Where no two rows share a key, a row is the one found by its key. -/
theorem find_keyed {α κ : Type*} [DecidableEq κ] {key : α → κ} {l : List α} (hkeys : (l.map key).Nodup) {a : α}
    (ha : a ∈ l) : l.find? (fun x => key x = key a) = some a := by
  cases hfind : l.find? (fun x => key x = key a) with
  | none => exact absurd (by simp) (List.find?_eq_none.mp hfind a ha)
  | some b =>
    have hkey : key b = key a := by simpa using List.find?_some hfind
    rw [List.inj_on_of_nodup_map hkeys (List.mem_of_find?_eq_some hfind) ha hkey]

/-- Where no two rows share a key, a row is the only one of its key. -/
theorem filter_keyed {α κ : Type*} [DecidableEq κ] {key : α → κ} {l : List α} (hkeys : (l.map key).Nodup) {a : α}
    (ha : a ∈ l) : l.filter (fun x => key x = key a) = [a] := by
  induction l with
  | nil => cases ha
  | cons b l ih =>
    obtain ⟨hb,hrest⟩ := List.nodup_cons.mp hkeys
    rcases List.mem_cons.mp ha with rfl | hmem
    · have hnone : l.filter (fun x => key x = key a) = [] := by
        apply List.filter_eq_nil_iff.mpr
        intro c hc
        simpa using fun h : key c = key a => hb (List.mem_map.mpr ⟨c,hc,h⟩)
      simp [hnone]
    · have hne : key b ≠ key a := fun h => hb (List.mem_map.mpr ⟨a,hmem,h.symm⟩)
      simp [hne,ih hrest hmem]

end GroupBy
end Spork
