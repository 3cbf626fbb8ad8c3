import Mathlib

/-! Things that each take the name of their first choice, or of their second when the first is
taken: when no two have the same name. -/
namespace Spork
namespace SecondChoice

variable {ν κ : Type*} [DecidableEq κ] (first second : ν → κ)

/-- A thing's name, so many taken. -/
def choice (taken : List κ) (n : ν) : κ := if first n ∈ taken then second n else first n

/-- Each thing's name, in turn. -/
def chosen (taken : List κ) : List ν → List κ
  | [] => []
  | n :: ns => choice first second taken n :: chosen (choice first second taken n :: taken) ns

/-- Those that come after another of their first choice. -/
def late (taken : List κ) : List ν → List ν
  | [] => []
  | n :: ns => if first n ∈ taken then n :: late (first n :: taken) ns else late (first n :: taken) ns

variable {first second}

theorem chosen_congr {taken taken' : List κ} (h : ∀ n, first n ∈ taken ↔ first n ∈ taken') (ns : List ν) :
    chosen first second taken ns = chosen first second taken' ns := by
  induction ns generalizing taken taken' with
  | nil => rfl
  | cons n ns ih =>
    have hchoice : choice first second taken n = choice first second taken' n := by
      simp only [choice,h n]
    rw [chosen,chosen,hchoice]
    refine congrArg _ (ih fun m => ?_)
    rw [List.mem_cons,List.mem_cons,h]

section
variable (hapart : ∀ n m, first n ≠ second m)
include hapart

/-- What one has taken, to those after it: their first choice where it was its own. -/
theorem chosen_cons (taken : List κ) (n : ν) (ns : List ν) : chosen first second taken (n :: ns) =
    choice first second taken n :: chosen first second (first n :: taken) ns := by
  rw [chosen]
  refine congrArg _ (chosen_congr (fun m => ?_) ns)
  rw [List.mem_cons,List.mem_cons,choice]
  split_ifs with hn
  · constructor
    · rintro (h | h)
      · exact absurd h (hapart m n)
      · exact Or.inr h
    · rintro (h | h)
      · exact Or.inr (h ▸ hn)
      · exact Or.inr h
  · rfl

/-- A name given is a first choice that was free, or the second of one that came late. -/
theorem mem_chosen {taken : List κ} {ns : List ν} {c : κ} (hc : c ∈ chosen first second taken ns) :
    (c ∉ taken ∧ ∃ n ∈ ns, c = first n) ∨ ∃ n ∈ late first taken ns, c = second n := by
  induction ns generalizing taken with
  | nil => cases hc
  | cons n ns ih =>
    rw [chosen_cons hapart,List.mem_cons] at hc
    rw [late]
    rcases hc with rfl | hc
    · rw [choice]
      split_ifs with hn
      · exact Or.inr ⟨n,List.mem_cons_self,rfl⟩
      · exact Or.inl ⟨hn,n,List.mem_cons_self,rfl⟩
    · rcases ih hc with ⟨hnot,m,hm,rfl⟩ | ⟨m,hm,rfl⟩
      · exact Or.inl ⟨fun h => hnot (List.mem_cons_of_mem _ h),m,List.mem_cons_of_mem n hm,rfl⟩
      · right
        split_ifs
        · exact ⟨m,List.mem_cons_of_mem n hm,rfl⟩
        · exact ⟨m,hm,rfl⟩

theorem second_mem_chosen {taken : List κ} {ns : List ν} {n : ν} (hn : n ∈ late first taken ns) :
    second n ∈ chosen first second taken ns := by
  induction ns generalizing taken with
  | nil => cases hn
  | cons m ns ih =>
    rw [chosen_cons hapart,choice,List.mem_cons]
    rw [late] at hn
    split_ifs at hn ⊢
    · rcases List.mem_cons.mp hn with rfl | hin
      · exact Or.inl rfl
      · exact Or.inr (ih hin)
    · exact Or.inr (ih hn)

/-- No two have one name when no two that came late have one second choice. -/
theorem nodup_chosen_iff (taken : List κ) (ns : List ν) :
    (chosen first second taken ns).Nodup ↔ ((late first taken ns).map second).Nodup := by
  induction ns generalizing taken with
  | nil => simp [chosen,late]
  | cons n ns ih =>
    rw [chosen_cons hapart,List.nodup_cons,ih,late,choice]
    split_ifs with hn
    · rw [List.map_cons,List.nodup_cons]
      refine and_congr_left fun _ => not_congr ⟨fun hin => ?_,fun hin => ?_⟩
      · rcases mem_chosen hapart hin with ⟨-,m,-,h⟩ | ⟨m,hm,h⟩
        · exact absurd h.symm (hapart m n)
        · exact List.mem_map.mpr ⟨m,hm,h.symm⟩
      · obtain ⟨m,hm,h⟩ := List.mem_map.mp hin
        exact h ▸ second_mem_chosen hapart hm
    · refine and_iff_right fun hin => ?_
      rcases mem_chosen hapart hin with ⟨hnot,-⟩ | ⟨m,-,h⟩
      · exact hnot List.mem_cons_self
      · exact hapart n m h

/-- None has a name that was taken when no second choice of one that came late was. -/
theorem fresh_chosen_iff (taken : List κ) (ns : List ν) :
    (∀ c ∈ chosen first second taken ns, c ∉ taken) ↔ ∀ n ∈ late first taken ns, second n ∉ taken := by
  constructor
  · exact fun h n hn => h _ (second_mem_chosen hapart hn)
  · intro h c hc
    rcases mem_chosen hapart hc with ⟨hnot,-⟩ | ⟨n,hn,rfl⟩
    · exact hnot
    · exact h n hn

end

/-- Those that come late: their first choice was taken, or another's before. -/
theorem mem_late_iff {taken : List κ} {ns : List ν} {n : ν} : n ∈ late first taken ns ↔
    ∃ before after, ns = before++n :: after ∧ (first n ∈ taken ∨ ∃ m ∈ before, first m = first n) := by
  induction ns generalizing taken with
  | nil => simp [late]
  | cons m ns ih =>
    have hrest : n ∈ late first (first m :: taken) ns ↔ ∃ before after, m :: ns = (m :: before)++n :: after ∧
        (first n ∈ taken ∨ ∃ k ∈ m :: before, first k = first n) := by
      rw [ih]
      refine exists_congr fun before => exists_congr fun after => ?_
      rw [List.cons_append,List.cons.injEq,List.mem_cons]
      constructor
      · rintro ⟨h,(heq | hin) | ⟨k,hk,heq⟩⟩
        · exact ⟨⟨rfl,h⟩,Or.inr ⟨m,List.mem_cons_self,heq.symm⟩⟩
        · exact ⟨⟨rfl,h⟩,Or.inl hin⟩
        · exact ⟨⟨rfl,h⟩,Or.inr ⟨k,List.mem_cons_of_mem m hk,heq⟩⟩
      · rintro ⟨⟨-,h⟩,hin | ⟨k,hk,heq⟩⟩
        · exact ⟨h,Or.inl (Or.inr hin)⟩
        · rcases List.mem_cons.mp hk with rfl | hk
          · exact ⟨h,Or.inl (Or.inl heq.symm)⟩
          · exact ⟨h,Or.inr ⟨k,hk,heq⟩⟩
    rw [late]
    constructor
    · intro hin
      split_ifs at hin with hm
      · rcases List.mem_cons.mp hin with rfl | hin
        · exact ⟨[],ns,rfl,Or.inl hm⟩
        · obtain ⟨before,after,h⟩ := hrest.mp hin
          exact ⟨m :: before,after,h⟩
      · obtain ⟨before,after,h⟩ := hrest.mp hin
        exact ⟨m :: before,after,h⟩
    · rintro ⟨before,after,heq,hlate⟩
      cases before with
      | nil =>
        obtain ⟨rfl,rfl⟩ := List.cons.inj heq
        rcases hlate with hin | ⟨k,hk,-⟩
        · rw [if_pos hin]
          exact List.mem_cons_self
        · cases hk
      | cons k before =>
        obtain ⟨rfl,-⟩ := List.cons.inj heq
        have hin := hrest.mpr ⟨before,after,heq,hlate⟩
        split_ifs
        · exact List.mem_cons_of_mem _ hin
        · exact hin

theorem late_sublist (taken : List κ) (ns : List ν) : (late first taken ns).Sublist ns := by
  induction ns generalizing taken with
  | nil => exact List.Sublist.refl _
  | cons n ns ih =>
    rw [late]
    split_ifs
    · exact (ih _).cons_cons n
    · exact (ih _).cons n

end SecondChoice
end Spork
