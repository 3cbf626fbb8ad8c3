import Mathlib

/-! Rows of a table written one at a time, while a key of each must be no other row's: which
batches of writes go through, in one order or in every order, and what they leave. -/
namespace Spork
namespace OneByOne

variable {ρ ω ι κ : Type*} [DecidableEq ι] (id : ρ → ι) (key : ρ → κ) (target : ω → ι) (write : ω → ρ → ρ)

/-- The rows with one written. -/
def put (rows : List ρ) (w : ω) : List ρ := rows.map fun r => if id r = target w then write w r else r

/-- No other row has the key a write gives its row. -/
def Free (rows : List ρ) (w : ω) : Prop :=
  ∀ r ∈ rows, id r = target w → ∀ q ∈ rows, id q ≠ target w → key q ≠ key (write w r)

/-- Writes each free when it comes. -/
def Goes : List ρ → List ω → Prop
  | _, [] => True
  | rows, w :: ws => Free id key target write rows w ∧ Goes (put id target write rows w) ws

/-- A row as all of some writes leave it. -/
def written (ws : List ω) (r : ρ) : ρ :=
  match ws.find? fun w => target w = id r with
  | none => r
  | some w => write w r

/-- No two rows have one key. -/
def Apart (rows : List ρ) : Prop := ∀ r ∈ rows, ∀ q ∈ rows, id q ≠ id r → key q ≠ key r

variable {id key target write} {rows : List ρ} {ws : List ω} {w : ω} {r : ρ}

theorem written_of_mem (hws : (ws.map target).Nodup) (hw : w ∈ ws) (h : id r = target w) :
    written id target write ws r = write w r := by
  cases hfind : ws.find? fun v => target v = id r with
  | none => exact absurd h.symm (by simpa using List.find?_eq_none.mp hfind w hw)
  | some v =>
    have hv : target v = id r := by simpa using List.find?_some hfind
    have hsame : v = w := List.inj_on_of_nodup_map hws (List.mem_of_find?_eq_some hfind) hw (hv.trans h)
    rw [written,hfind,hsame]

theorem written_of_not_mem (h : id r ∉ ws.map target) : written id target write ws r = r := by
  have hnone : ws.find? (fun w => target w = id r) = none := by
    refine List.find?_eq_none.mpr fun w hw heq => h ?_
    exact List.mem_map.mpr ⟨w,hw,by simpa using heq⟩
  rw [written,hnone]

/-- The order of the writes is nothing to what they leave. -/
theorem written_perm {ws' : List ω} (hperm : ws.Perm ws') (hws : (ws.map target).Nodup) :
    written id target write ws = written id target write ws' := by
  have hws' : (ws'.map target).Nodup := (hperm.map target).nodup_iff.mp hws
  funext r
  by_cases hr : id r ∈ ws.map target
  · obtain ⟨w,hw,heq⟩ := List.mem_map.mp hr
    rw [written_of_mem hws hw heq.symm,written_of_mem hws' (hperm.mem_iff.mp hw) heq.symm]
  · have hr' : id r ∉ ws'.map target := fun h => hr ((hperm.map target).mem_iff.mpr h)
    rw [written_of_not_mem hr,written_of_not_mem hr']

section
variable (hid : ∀ w r, id (write w r) = id r)
include hid

theorem id_written (r : ρ) : id (written id target write ws r) = id r := by
  rw [written]
  split
  · rfl
  · exact hid _ r

theorem written_cons (hws : ((w :: ws).map target).Nodup) (r : ρ) : written id target write (w :: ws) r =
    written id target write ws (if id r = target w then write w r else r) := by
  obtain ⟨hw,-⟩ := List.nodup_cons.mp hws
  split
  · rename_i h
    rw [written_of_mem hws List.mem_cons_self h,written_of_not_mem]
    rw [hid,h]
    exact hw
  · rename_i h
    rw [written,List.find?_cons_of_neg (by simpa using Ne.symm h),written]

/-- What a batch leaves. -/
theorem foldl_put (hws : (ws.map target).Nodup) (rows : List ρ) :
    ws.foldl (put id target write) rows = rows.map (written id target write ws) := by
  induction ws generalizing rows with
  | nil => exact (List.map_id' rows).symm
  | cons w ws ih =>
    rw [List.foldl_cons,ih (List.nodup_cons.mp hws).2,put,List.map_map]
    exact List.map_congr_left fun r _ => (written_cons hid hws r).symm

theorem apart_put (h : Apart id key rows) (hfree : Free id key target write rows w) :
    Apart id key (put id target write rows w) := by
  intro r' hr' q' hq' hne
  obtain ⟨r,hr,rfl⟩ := List.mem_map.mp hr'
  obtain ⟨q,hq,rfl⟩ := List.mem_map.mp hq'
  have hids : id q ≠ id r := by
    intro heq
    refine hne ?_
    split_ifs <;> simp_all
  by_cases hrw : id r = target w
  · have hqw : id q ≠ target w := fun heq => hids (heq.trans hrw.symm)
    rw [if_pos hrw,if_neg hqw]
    exact hfree r hr hrw q hq hqw
  · by_cases hqw : id q = target w
    · rw [if_neg hrw,if_pos hqw]
      exact (hfree q hq hqw r hr hrw).symm
    · rw [if_neg hrw,if_neg hqw]
      exact h r hr q hq hids

/-- Writes that go through leave every key its row's alone. -/
theorem Goes.apart (hgoes : Goes id key target write rows ws) (h : Apart id key rows) :
    Apart id key (ws.foldl (put id target write) rows) := by
  induction ws generalizing rows with
  | nil => exact h
  | cons w ws ih => exact ih hgoes.2 (apart_put hid h hgoes.1)

/-- Writes go through, in whatever order, where what they leave has no two of one key and none
takes a key that another row to be written has. -/
theorem goes_of_apart (hws : (ws.map target).Nodup) (hleft : Apart id key (rows.map (written id target write ws)))
    (hold : ∀ w ∈ ws, ∀ r ∈ rows, id r = target w → ∀ q ∈ rows, id q ≠ target w → id q ∈ ws.map target →
      key q ≠ key (write w r)) : Goes id key target write rows ws := by
  induction ws generalizing rows with
  | nil => trivial
  | cons w ws ih =>
    obtain ⟨hw,hrest⟩ := List.nodup_cons.mp hws
    refine ⟨fun r hr hrw q hq hqw => ?_,ih hrest ?_ ?_⟩
    · by_cases hqws : id q ∈ (w :: ws).map target
      · exact hold w List.mem_cons_self r hr hrw q hq hqw hqws
      · -- a row no write is of is as it is left
        have hapart := hleft _ (List.mem_map_of_mem hr) _ (List.mem_map_of_mem hq)
        rw [id_written hid,id_written hid,hrw] at hapart
        rw [written_of_mem hws List.mem_cons_self hrw,written_of_not_mem hqws] at hapart
        exact hapart hqw
    · rw [put,List.map_map]
      have hsame : (written id target write ws ∘ fun r => if id r = target w then write w r else r) =
          written id target write (w :: ws) := funext fun r => (written_cons hid hws r).symm
      rw [hsame]
      exact hleft
    · intro v hv r' hr' hrv q' hq' hqv hqws
      obtain ⟨r,hr,rfl⟩ := List.mem_map.mp hr'
      obtain ⟨q,hq,rfl⟩ := List.mem_map.mp hq'
      have hkeeps (p : ρ) : id (if id p = target w then write w p else p) = id p := by
        split_ifs
        · exact hid w p
        · rfl
      rw [hkeeps] at hrv hqv hqws
      have hrw : id r ≠ target w := fun heq => hw (by rw [← heq,hrv]; exact List.mem_map_of_mem hv)
      have hqw : id q ≠ target w := fun heq => hw (heq ▸ hqws)
      rw [if_neg hrw,if_neg hqw]
      exact hold v (List.mem_cons_of_mem w hv) r hr hrv q hq hqv (List.mem_cons_of_mem _ hqws)

end

end OneByOne
end Spork
