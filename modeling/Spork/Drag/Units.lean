import Spork.Drag.DropOn
import Spork.Lib.GroupBy

/-! What a plan has of each line, in each parcel and in all, and what one change to it makes of
that: so many more of a line in one parcel, or a parcel added. -/
namespace Spork
namespace Drag

open Packing (Uuid)

/-- The units of a line planned into a parcel. -/
def unitsIn (pp : PlannedParcel) (line : Uuid) : ℤ :=
  ((pp.lines.filter (·.lineId = line)).map PlannedLine.quantity).sum

/-- The units of a line a plan has in the parcels of an id. -/
def unitsAt (plan : List PlannedParcel) (id : Id) (line : Uuid) : ℤ :=
  ((plan.filter (·.id = id)).map fun pp => unitsIn pp line).sum

/-- The units of a line in a plan. -/
def unitsOfPlan (plan : List PlannedParcel) (line : Uuid) : ℤ := (plan.map fun pp => unitsIn pp line).sum

/-- The ids of a plan's parcels. -/
def idsOf (plan : List PlannedParcel) : List Id := plan.map PlannedParcel.id

/-- A planned parcel as it is kept: one row for each of its lines, of some units. -/
structure Planned (pp : PlannedParcel) : Prop where
  once : (pp.lines.map PlannedLine.lineId).Nodup
  some_ : ∀ l ∈ pp.lines, 0 < l.quantity

theorem unitsIn_nonneg {pp : PlannedParcel} (h : Planned pp) (line : Uuid) : 0 ≤ unitsIn pp line := by
  apply List.sum_nonneg
  intro q hq
  obtain ⟨l,hl,rfl⟩ := List.mem_map.mp hq
  exact (h.some_ l (List.mem_filter.mp hl).1).le

/-! ## A line in a parcel -/

theorem unitsIn_row {pp : PlannedParcel} (h : Planned pp) {l : PlannedLine} (hl : l ∈ pp.lines) :
    unitsIn pp l.lineId = l.quantity := by
  rw [unitsIn,GroupBy.filter_keyed h.once hl]
  simp

theorem unitsIn_none {pp : PlannedParcel} {line : Uuid} (h : ∀ l ∈ pp.lines, l.lineId ≠ line) : unitsIn pp line = 0 := by
  rw [unitsIn,List.filter_eq_nil_iff.mpr fun l hl => by simpa using h l hl]
  rfl

theorem withLine_lines (pp : PlannedParcel) (line : Uuid) (n : ℤ) : (withLine pp line n).lines =
    if pp.lines.any (·.lineId = line) then
      (pp.lines.map fun l => if l.lineId = line then {l with quantity := l.quantity+n} else l).filter (·.quantity > 0)
    else if n > 0 then pp.lines++[⟨line,n⟩]
    else pp.lines := rfl

/-- The rows with so many more of one line are of the same lines. -/
theorem map_lineId (rows : List PlannedLine) (line : Uuid) (n : ℤ) :
    (rows.map fun l => if l.lineId = line then {l with quantity := l.quantity+n} else l).map PlannedLine.lineId =
      rows.map PlannedLine.lineId := by
  rw [List.map_map]
  apply List.map_congr_left
  intro l _
  simp only [Function.comp_apply]
  split_ifs <;> rfl

/-- So many more of a line, or fewer, leave a parcel as one is kept. -/
theorem withLine_planned {pp : PlannedParcel} (h : Planned pp) (line : Uuid) (n : ℤ) : Planned (withLine pp line n) := by
  constructor
  · rw [withLine_lines]
    split_ifs with hthere hn
    · refine List.Nodup.sublist (List.Sublist.map _ List.filter_sublist) ?_
      rw [map_lineId]
      exact h.once
    · rw [List.map_append,List.nodup_append]
      refine ⟨h.once,List.nodup_singleton _,?_⟩
      intro a ha b hb
      obtain ⟨l,hl,rfl⟩ := List.mem_map.mp ha
      obtain rfl : b = line := by simpa using hb
      intro heq
      exact hthere (List.any_eq_true.mpr ⟨l,hl,decide_eq_true heq⟩)
    · exact h.once
  · intro l hl
    rw [withLine_lines] at hl
    split_ifs at hl with hthere hn
    · exact of_decide_eq_true (List.mem_filter.mp hl).2
    · rcases List.mem_append.mp hl with hl | hl
      · exact h.some_ l hl
      · rw [List.mem_singleton.mp hl]
        exact hn
    · exact h.some_ l hl

/-- So many more of a line are in the parcel, when they are not fewer than were there. -/
theorem withLine_unitsIn {pp : PlannedParcel} (h : Planned pp) {line : Uuid} {n : ℤ} (hn : 0 ≤ unitsIn pp line+n) (k : Uuid) :
    unitsIn (withLine pp line n) k = unitsIn pp k+if line = k then n else 0 := by
  by_cases hthere : pp.lines.any (·.lineId = line) = true
  · obtain ⟨l,hl,heq⟩ := List.any_eq_true.mp hthere
    obtain rfl : l.lineId = line := of_decide_eq_true heq
    have hrow := unitsIn_row h hl
    have hplanned := withLine_planned h l.lineId n
    have hmapped (m : PlannedLine) (hm : m ∈ pp.lines) (hquantity : 0 < if m.lineId = l.lineId then m.quantity+n else m.quantity) :
        (if m.lineId = l.lineId then {m with quantity := m.quantity+n} else m) ∈ (withLine pp l.lineId n).lines := by
      rw [withLine_lines,if_pos hthere]
      refine List.mem_filter.mpr ⟨List.mem_map.mpr ⟨m,hm,rfl⟩,?_⟩
      split_ifs at hquantity ⊢
      · exact decide_eq_true hquantity
      · exact decide_eq_true hquantity
    by_cases hk : l.lineId = k
    · subst hk
      rw [if_pos rfl,hrow]
      rcases lt_or_eq_of_le (hrow ▸ hn) with hpos | hzero
      · have hin := hmapped l hl (by rw [if_pos rfl];exact hpos)
        rw [if_pos rfl] at hin
        exact unitsIn_row hplanned hin
      · rw [← hzero]
        apply unitsIn_none
        intro m hm heq
        rw [withLine_lines,if_pos hthere] at hm
        obtain ⟨hm,hpos⟩ := List.mem_filter.mp hm
        obtain ⟨m',hm',rfl⟩ := List.mem_map.mp hm
        have hpos := of_decide_eq_true hpos
        have hsame : m'.lineId = l.lineId := by
          split_ifs at heq with h
          · exact h
          · exact heq
        rw [if_pos hsame] at hpos
        have hrow' := unitsIn_row h hm'
        rw [hsame,hrow] at hrow'
        simp only at hpos
        omega
    · rw [if_neg hk,add_zero]
      by_cases hother : ∃ m ∈ pp.lines, m.lineId = k
      · obtain ⟨m,hm,rfl⟩ := hother
        have hne : m.lineId ≠ l.lineId := fun heq => hk heq.symm
        have hin := hmapped m hm (by rw [if_neg hne];exact h.some_ m hm)
        rw [if_neg hne] at hin
        rw [unitsIn_row hplanned hin,unitsIn_row h hm]
      · push Not at hother
        rw [unitsIn_none hother]
        apply unitsIn_none
        intro m hm heq
        rw [withLine_lines,if_pos hthere] at hm
        obtain ⟨m',hm',rfl⟩ := List.mem_map.mp (List.mem_filter.mp hm).1
        apply hother m' hm'
        rw [← heq]
        split_ifs <;> rfl
  · have hnone : unitsIn pp line = 0 := by
      apply unitsIn_none
      intro l hl heq
      exact hthere (List.any_eq_true.mpr ⟨l,hl,decide_eq_true heq⟩)
    rw [hnone,zero_add] at hn
    unfold unitsIn
    rw [withLine_lines,if_neg hthere]
    rcases lt_or_eq_of_le hn with hpos | hzero
    · rw [if_pos hpos]
      by_cases hk : line = k <;> simp [hk]
    · rw [← hzero]
      simp

/-! ## A parcel in a plan -/

theorem unitsAt_nil (id : Id) (line : Uuid) : unitsAt [] id line = 0 := rfl

theorem unitsAt_cons (pp : PlannedParcel) (plan : List PlannedParcel) (id : Id) (line : Uuid) :
    unitsAt (pp :: plan) id line = (if pp.id = id then unitsIn pp line else 0)+unitsAt plan id line := by
  by_cases h : pp.id = id <;> simp [unitsAt,h]

theorem unitsAt_append (plan more : List PlannedParcel) (id : Id) (line : Uuid) :
    unitsAt (plan++more) id line = unitsAt plan id line+unitsAt more id line := by
  simp [unitsAt]

theorem unitsOfPlan_append (plan more : List PlannedParcel) (line : Uuid) :
    unitsOfPlan (plan++more) line = unitsOfPlan plan line+unitsOfPlan more line := by
  simp [unitsOfPlan]

theorem unitsAt_nonneg {plan : List PlannedParcel} (h : ∀ pp ∈ plan, Planned pp) (id : Id) (line : Uuid) :
    0 ≤ unitsAt plan id line := by
  apply List.sum_nonneg
  intro q hq
  obtain ⟨pp,hpp,rfl⟩ := List.mem_map.mp hq
  exact unitsIn_nonneg (h pp (List.mem_filter.mp hpp).1) line

/-- With one parcel of each id, what the plan has at an id is what its parcel has. -/
theorem unitsAt_mem {plan : List PlannedParcel} (hids : (idsOf plan).Nodup) {pp : PlannedParcel} (hpp : pp ∈ plan)
    (line : Uuid) : unitsAt plan pp.id line = unitsIn pp line := by
  induction plan with
  | nil => cases hpp
  | cons q plan ih =>
    obtain ⟨hq,hrest⟩ := List.nodup_cons.mp hids
    rw [unitsAt_cons]
    rcases List.mem_cons.mp hpp with rfl | hmem
    · have hnone : unitsAt plan pp.id line = 0 := by
        rw [unitsAt,List.filter_eq_nil_iff.mpr fun r hr => by
          simpa using fun h : r.id = pp.id => hq (List.mem_map.mpr ⟨r,hr,h⟩)]
        rfl
      rw [if_pos rfl,hnone,add_zero]
    · have hne : q.id ≠ pp.id := fun h => hq (List.mem_map.mpr ⟨pp,hmem,h.symm⟩)
      rw [if_neg hne,zero_add,ih hrest hmem]

/-- A change to the parcels of one id. -/
def changeAt (id : Id) (f : PlannedParcel → PlannedParcel) (plan : List PlannedParcel) : List PlannedParcel :=
  plan.map fun pp => if pp.id = id then f pp else pp

theorem idsOf_changeAt {id : Id} {f : PlannedParcel → PlannedParcel} (hf : ∀ pp, (f pp).id = pp.id)
    (plan : List PlannedParcel) : idsOf (changeAt id f plan) = idsOf plan := by
  rw [idsOf,changeAt,List.map_map]
  apply List.map_congr_left
  intro pp _
  simp only [Function.comp_apply]
  split_ifs
  · exact hf pp
  · rfl

theorem planned_changeAt {id : Id} {f : PlannedParcel → PlannedParcel} (hf : ∀ pp, Planned pp → Planned (f pp))
    {plan : List PlannedParcel} (h : ∀ pp ∈ plan, Planned pp) : ∀ pp ∈ changeAt id f plan, Planned pp := by
  intro pp hpp
  obtain ⟨q,hq,rfl⟩ := List.mem_map.mp hpp
  split_ifs
  · exact hf q (h q hq)
  · exact h q hq

/-- A change that leaves the lines leaves the units. -/
theorem units_changeAt_same {id : Id} {f : PlannedParcel → PlannedParcel} (hf : ∀ pp, (f pp).id = pp.id)
    (hlines : ∀ pp, (f pp).lines = pp.lines) (plan : List PlannedParcel) :
    (∀ line, unitsOfPlan (changeAt id f plan) line = unitsOfPlan plan line) ∧
      ∀ i line, unitsAt (changeAt id f plan) i line = unitsAt plan i line := by
  have hunits (pp : PlannedParcel) (line : Uuid) : unitsIn (f pp) line = unitsIn pp line := by
    rw [unitsIn,unitsIn,hlines]
  constructor
  · intro line
    unfold unitsOfPlan changeAt
    rw [List.map_map]
    congr 1
    apply List.map_congr_left
    intro pp _
    simp only [Function.comp_apply]
    split_ifs
    · exact hunits pp line
    · rfl
  · intro i line
    induction plan with
    | nil => rfl
    | cons pp plan ih =>
      simp only [changeAt,List.map_cons] at ih ⊢
      rw [unitsAt_cons,unitsAt_cons,ih]
      by_cases hid : pp.id = id
      · rw [if_pos hid,hf,hunits]
      · rw [if_neg hid]

/-- So many more of a line in one parcel of a plan are so many more in the plan, and no other
parcel's are changed. -/
theorem units_withLine {plan : List PlannedParcel} (hids : (idsOf plan).Nodup) (h : ∀ pp ∈ plan, Planned pp) {id : Id}
    (hid : id ∈ idsOf plan) {line : Uuid} {n : ℤ} (hn : 0 ≤ unitsAt plan id line+n) {f : PlannedParcel → PlannedParcel}
    (hf : ∀ pp, (f pp).id = pp.id) (hlines : ∀ pp, (f pp).lines = (withLine pp line n).lines) :
    (∀ k, unitsOfPlan (changeAt id f plan) k = unitsOfPlan plan k+if line = k then n else 0) ∧
      ∀ i k, unitsAt (changeAt id f plan) i k = unitsAt plan i k+if i = id ∧ line = k then n else 0 := by
  induction plan with
  | nil => cases hid
  | cons pp plan ih =>
    obtain ⟨hfirst,hrest⟩ := List.nodup_cons.mp hids
    have hpp := h pp (by simp)
    have hmore : ∀ q ∈ plan, Planned q := fun q hq => h q (List.mem_cons_of_mem pp hq)
    by_cases hhere : pp.id = id
    · subst hhere
      have hnot : ∀ q ∈ plan, q.id ≠ pp.id := fun q hq heq => hfirst (List.mem_map.mpr ⟨q,hq,heq⟩)
      have hsame : changeAt pp.id f plan = plan := by
        unfold changeAt
        rw [List.map_congr_left fun q hq => if_neg (hnot q hq),List.map_id']
      have hnone : unitsAt plan pp.id line = 0 := by
        rw [unitsAt,List.filter_eq_nil_iff.mpr fun q hq => by simpa using hnot q hq]
        rfl
      rw [unitsAt_cons,if_pos rfl,hnone,add_zero] at hn
      have hunits (k : Uuid) : unitsIn (f pp) k = unitsIn pp k+if line = k then n else 0 := by
        rw [unitsIn,hlines]
        exact withLine_unitsIn hpp hn k
      have hcons : changeAt pp.id f (pp :: plan) = f pp :: plan := by
        rw [changeAt,List.map_cons,if_pos rfl]
        exact congrArg _ hsame
      rw [hcons]
      constructor
      · intro k
        simp only [unitsOfPlan,List.map_cons,List.sum_cons,hunits]
        ring
      · intro i k
        rw [unitsAt_cons,unitsAt_cons,hf,hunits]
        by_cases hi : pp.id = i
        · subst hi
          simp only [if_true,true_and]
          ring
        · have hi' : i ≠ pp.id := fun h => hi h.symm
          simp only [hi,hi',false_and,if_false,add_zero]
    · have hin : id ∈ idsOf plan := by
        rcases List.mem_cons.mp hid with heq | hin
        · exact absurd heq.symm hhere
        · exact hin
      rw [unitsAt_cons,if_neg hhere,zero_add] at hn
      obtain ⟨htotal,hat⟩ := ih hrest hmore hin hn
      have hcons : changeAt id f (pp :: plan) = pp :: changeAt id f plan := by
        simp [changeAt,hhere]
      rw [hcons]
      constructor
      · intro k
        have hk := htotal k
        simp only [unitsOfPlan,List.map_cons,List.sum_cons] at hk ⊢
        rw [hk]
        ring
      · intro i k
        rw [unitsAt_cons,unitsAt_cons,hat]
        ring

end Drag
end Spork
