import Spork.Lib.Beside
import Spork.Lib.GroupBy
import Spork.Picking.ToPick

/-! The picking walk on the device, and a fresh read of it laid over the one on screen
(client/app/outbound/picking/walk.ts). -/
namespace Spork
namespace PickWalk

open ToPick (Id)

/-- A row of the walk: what is still to take of a line, and the cell to take it from. -/
structure PickLine where
  lineId : Id
  stockId : Option Id
  remaining : ℤ
  picked : ℤ
  covered : ℤ
  available : Option ℤ
  allocated : Bool
  deriving DecidableEq, Repr

inductive RouteFrom
  | pack | first
  deriving DecidableEq, Repr

structure WalkRoute where
  start : RouteFrom
  cellMm : Option ℤ
  walked : ℚ
  typed : ℚ
  stops : ℕ
  offRoute : ℕ
  path : List (ℚ × ℚ)
  deriving DecidableEq

structure PickListScreen where
  site : List Char
  lines : List PickLine
  route : Option WalkRoute
  deriving DecidableEq

/-- The fresh row of a line: the last in a map of them. -/
def now (fresh : List PickLine) (id : Id) : Option PickLine := fresh.reverse.find? fun l => l.lineId = id

/-- Where the nearest row before this one in the fresh read is shown. -/
def searchBack (fresh lines : List PickLine) : ℕ → Option ℕ
  | 0 => none
  | back+1 =>
    match fresh[back]?.bind fun before => lines.findIdx? fun l => l.lineId = before.lineId with
    | some after => some after
    | none => searchBack fresh lines back

/-- One fresh row, put in where it isn't shown. -/
def mergeRow (fresh : List PickLine) (s : List PickLine × List Id) (row : PickLine × ℕ) : List PickLine × List Id :=
  if row.1.lineId ∈ s.2 then s
  else
    let start := match searchBack fresh s.1 row.2 with
      | some after => after+1
      | none => 0
    (s.1.insertIdx start row.1,row.1.lineId :: s.2)

/-- A fresh read laid over the walk somebody is standing in. -/
def merge (current fresh : PickListScreen) : PickListScreen :=
  let lines := current.lines.filterMap fun l => now fresh.lines l.lineId
  { fresh with lines := (fresh.lines.zipIdx.foldl (mergeRow fresh.lines) (lines,lines.map (·.lineId))).1 }

/-! ## Row after row -/

/-- The walk once so many rows of the fresh read are in. -/
def laid (fresh kept before : List PickLine) : List PickLine × List Id :=
  before.zipIdx.foldl (mergeRow fresh) (kept,kept.map (·.lineId))

variable {fresh kept before : List PickLine} {x : PickLine}

theorem laid_concat : laid fresh kept (before++[x]) = mergeRow fresh (laid fresh kept before) (x,before.length) := by
  simp [laid,List.zipIdx_append]

/-- Directly after the row before it, or first. -/
def Follows (y : Option PickLine) (x : PickLine) (lines : List PickLine) : Prop :=
  match y with
  | none => [x] <+: lines
  | some y => [y,x] <:+: lines

/-- What holds of the walk once so many rows of the fresh read are in. -/
structure Laid (kept before : List PickLine) (s : List PickLine × List Id) : Prop where
  shown : ∀ id, id ∈ s.2 ↔ id ∈ s.1.map (·.lineId)
  perm : s.1.Perm (kept++before.filter fun l => l.lineId ∉ kept.map (·.lineId))
  keeps : (s.1.filter fun l => l.lineId ∈ kept.map (·.lineId)) = kept
  follows : ∀ above x below, before = above++x :: below → x.lineId ∉ kept.map (·.lineId) →
    Follows above.getLast? x s.1

theorem laid_nil : Laid kept [] (kept,kept.map (·.lineId)) where
  shown id := Iff.rfl
  perm := by simp
  keeps := List.filter_eq_self.mpr fun l hl => decide_eq_true (List.mem_map_of_mem hl)
  follows above x below h := by simp at h

/-- A row that isn't shown goes in directly after the row before it, or first. -/
theorem searchBack_last {fresh lines : List PickLine} {before after : List PickLine} {y x : PickLine}
    (hfresh : fresh = before++y :: x :: after) {s t : List PickLine} (hlines : lines = s++y :: t)
    (hs : ∀ l ∈ s, l.lineId ≠ y.lineId) :
    ∃ i, searchBack fresh lines (before.length+1) = some i ∧ lines.insertIdx (i+1) x = s++y :: x :: t := by
  obtain ⟨i,hfind,hput⟩ := Beside.insertIdx_after (p := fun l : PickLine => decide (l.lineId = y.lineId)) (t := t) (z := x)
    (fun b hb => decide_eq_false (hs b hb)) (decide_eq_true rfl)
  refine ⟨i,?_,by rw [hlines,hput]⟩
  have hrow : fresh[before.length]? = some y := by simp [hfresh]
  rw [searchBack,hrow,Option.bind_some,hlines,hfind]

/-- A split of a list with one element more is of the list, or at the element. -/
theorem split_concat {α : Type*} {before above below : List α} {x z : α} (h : before++[x] = above++z :: below) :
    (above = before ∧ z = x ∧ below = []) ∨ ∃ rest, below = rest++[x] ∧ before = above++z :: rest := by
  rcases below.eq_nil_or_concat' with rfl | ⟨rest,w,rfl⟩
  · obtain ⟨rfl,hz⟩ := List.append_inj' h rfl
    exact .inl ⟨rfl,(List.cons.inj hz).1.symm,rfl⟩
  · rw [← List.cons_append,← List.append_assoc] at h
    obtain ⟨hbefore,hw⟩ := List.append_inj' h rfl
    rw [(List.cons.inj hw).1]
    exact .inr ⟨rest,rfl,hbefore⟩

theorem filter_concat_new (hx : x.lineId ∈ kept.map (·.lineId)) :
    ((before++[x]).filter fun l => l.lineId ∉ kept.map (·.lineId)) =
      before.filter fun l => l.lineId ∉ kept.map (·.lineId) := by
  rw [List.filter_append,List.filter_cons_of_neg (by simpa using hx),List.filter_nil,List.append_nil]

/-- A new row put in where it follows the row before it, and nothing else parted. -/
theorem Laid.put {s : List PickLine × List Id} (h : Laid kept before s) (hx : x.lineId ∉ kept.map (·.lineId))
    {lines : List PickLine} (hperm : lines.Perm (x :: s.1))
    (hkeeps : (lines.filter fun l => l.lineId ∈ kept.map (·.lineId)) = s.1.filter fun l => l.lineId ∈ kept.map (·.lineId))
    (hlast : Follows before.getLast? x lines)
    (hfollows : ∀ above z below, before = above++z :: below → Follows above.getLast? z s.1 → Follows above.getLast? z lines) :
    Laid kept (before++[x]) (lines,x.lineId :: s.2) where
  shown id := by
    rw [(hperm.map (·.lineId)).mem_iff,List.map_cons,List.mem_cons,List.mem_cons,h.shown]
  perm := by
    rw [List.filter_append,List.filter_cons_of_pos (by simpa using hx),List.filter_nil,← List.append_assoc]
    exact hperm.trans ((h.perm.cons x).trans (List.perm_append_singleton x _).symm)
  keeps := hkeeps.trans h.keeps
  follows above z below hsplit hz := by
    rcases split_concat hsplit with ⟨rfl,rfl,-⟩ | ⟨rest,-,hbefore⟩
    · exact hlast
    · exact hfollows above z rest hbefore (h.follows above z rest hbefore hz)

section Run

variable {after : List PickLine} (hfresh : (fresh.map (·.lineId)).Nodup) (hkept : (kept.map (·.lineId)).Nodup)
  (hsub : ∀ l ∈ kept, l ∈ fresh) (hcut : fresh = before++x :: after)

include hfresh hkept in
/-- What is shown of the fresh rows so far has no line twice. -/
theorem laid_distinct (hbefore : before.Sublist fresh) {s : List PickLine × List Id} (h : Laid kept before s) :
    (s.1.map (·.lineId)).Nodup := by
  rw [(h.perm.map (·.lineId)).nodup_iff,List.map_append]
  refine hkept.append ?_ ?_
  · exact hfresh.sublist ((List.filter_sublist.trans hbefore).map _)
  · intro id hid hin
    obtain ⟨l,hl,rfl⟩ := List.mem_map.mp hin
    simpa [hid] using (List.mem_filter.mp hl).2

include hfresh hsub in
/-- A row whose turn has come is shown. -/
theorem laid_mem (hbefore : before.Sublist fresh) {s : List PickLine × List Id} (h : Laid kept before s) {y : PickLine}
    (hy : y ∈ before) : y ∈ s.1 := by
  rw [h.perm.mem_iff,List.mem_append]
  by_cases hon : y.lineId ∈ kept.map (·.lineId)
  · obtain ⟨l,hl,hid⟩ := List.mem_map.mp hon
    rw [← List.inj_on_of_nodup_map hfresh (hsub l hl) (hbefore.subset hy) hid]
    exact .inl hl
  · exact .inr (List.mem_filter.mpr ⟨hy,by simpa using hon⟩)

include hfresh hcut in
/-- The next row is shown already where it was kept. -/
theorem shown_iff {s : List PickLine × List Id} (h : Laid kept before s) :
    x.lineId ∈ s.2 ↔ x.lineId ∈ kept.map (·.lineId) := by
  rw [hcut,List.map_append,List.map_cons] at hfresh
  rw [h.shown,(h.perm.map (·.lineId)).mem_iff,List.map_append,List.mem_append,or_iff_left_iff_imp]
  intro hin
  obtain ⟨l,hl,hid⟩ := List.mem_map.mp hin
  have hbefore : x.lineId ∈ before.map (·.lineId) := hid ▸ List.mem_map_of_mem (List.mem_of_mem_filter hl)
  exact absurd rfl ((List.nodup_append.mp hfresh).2.2 _ hbefore _ List.mem_cons_self)

include hfresh hkept hsub hcut in
theorem mergeRow_laid {s : List PickLine × List Id} (h : Laid kept before s) :
    Laid kept (before++[x]) (mergeRow fresh s (x,before.length)) := by
  have hnodup : ((before++x :: after).map (·.lineId)).Nodup := hcut ▸ hfresh
  rw [List.map_append,List.map_cons] at hnodup
  have hshown := shown_iff hfresh hcut h
  by_cases hon : x.lineId ∈ kept.map (·.lineId)
  · -- shown from the start: it keeps its place
    rw [mergeRow,if_pos (hshown.mpr hon)]
    refine ⟨h.shown,by rw [filter_concat_new hon]; exact h.perm,h.keeps,fun above z below hsplit hz => ?_⟩
    rcases split_concat hsplit with ⟨-,rfl,-⟩ | ⟨rest,-,hbefore⟩
    · exact absurd hon hz
    · exact h.follows above z rest hbefore hz
  · rw [mergeRow,if_neg (mt hshown.mp hon)]
    have hout : decide (x.lineId ∈ kept.map (·.lineId)) = false := decide_eq_false hon
    rcases before.eq_nil_or_concat' with rfl | ⟨above,y,rfl⟩
    · -- the fresh read's first goes first
      refine h.put hon (List.Perm.refl _) ?_ ?_ fun above z below hsplit => by simp at hsplit
      · exact List.filter_cons_of_neg (by simpa using hon)
      · exact ⟨s.1,rfl⟩
    · have hbefore : (above++[y]).Sublist fresh := hcut ▸ List.sublist_append_left _ _
      obtain ⟨front,back,hlines⟩ :=
        List.append_of_mem (laid_mem hfresh hsub hbefore h (List.mem_append_right above List.mem_cons_self))
      have hdistinct := laid_distinct hfresh hkept hbefore h
      rw [hlines,List.map_append,List.map_cons] at hdistinct
      have hfront : ∀ l ∈ front, l.lineId ≠ y.lineId := fun l hl =>
        (List.nodup_append.mp hdistinct).2.2 _ (List.mem_map_of_mem hl) _ List.mem_cons_self
      have hcut' : fresh = above++y :: x :: after := by simp [hcut]
      obtain ⟨i,hback,hput⟩ := searchBack_last hcut' hlines hfront
      simp only [List.length_append,List.length_singleton,hback,hput]
      refine h.put hon ?_ ?_ ?_ ?_
      · rw [hlines]
        refine (List.Perm.append_left front (List.Perm.swap x y back)).trans ?_
        exact List.perm_middle
      · rw [hlines]
        simp only [List.filter_append,List.filter_cons,hout,Bool.false_eq_true,if_false]
      · rw [List.getLast?_concat]
        exact ⟨front,back,by simp⟩
      · intro above' z below hsplit
        rw [hlines]
        cases hup : above'.getLast? with
        | none => exact Beside.first_insert
        | some w =>
          refine Beside.pair_insert ?_
          rintro rfl
          -- the last of the rows so far isn't before another of them
          have hlast : w ∈ z :: below := by
            have hend := congrArg List.getLast? hsplit
            rw [List.getLast?_concat,List.getLast?_append_of_ne_nil _ (List.cons_ne_nil z below)] at hend
            exact List.mem_of_getLast? hend.symm
          have hrows := (List.nodup_append.mp hnodup).1
          rw [hsplit,List.map_append] at hrows
          exact (List.nodup_append.mp hrows).2.2 _ (List.mem_map_of_mem (List.mem_of_getLast? hup)) _
            (List.mem_map_of_mem hlast) rfl

end Run

/-- Row after row to the end of the fresh read. -/
theorem laid_run (hfresh : (fresh.map (·.lineId)).Nodup) (hkept : (kept.map (·.lineId)).Nodup)
    (hsub : ∀ l ∈ kept, l ∈ fresh) {before after : List PickLine} (hcut : fresh = before++after) :
    Laid kept before (laid fresh kept before) := by
  induction before using List.reverseRecOn generalizing after with
  | nil => exact laid_nil
  | append_singleton before x ih =>
    rw [List.append_assoc,List.singleton_append] at hcut
    rw [laid_concat]
    exact mergeRow_laid hfresh hkept hsub hcut (ih hcut)

/-- Rows of the fresh read's own order are put back into it. -/
theorem laid_same (hfresh : (fresh.map (·.lineId)).Nodup) (hkept : (kept.map (·.lineId)).Nodup)
    (hsub : ∀ l ∈ kept, l ∈ fresh) (horder : kept = fresh.filter fun l => l.lineId ∈ kept.map (·.lineId))
    {before after : List PickLine} (hcut : fresh = before++after) :
    (laid fresh kept before).1 = before++after.filter fun l => l.lineId ∈ kept.map (·.lineId) := by
  induction before using List.reverseRecOn generalizing after with
  | nil =>
    rw [List.nil_append,← List.nil_append after,← hcut,← horder]
    rfl
  | append_singleton before x ih =>
    rw [List.append_assoc,List.singleton_append] at hcut
    have h := laid_run hfresh hkept hsub hcut
    have hlines := ih hcut
    have hshown := shown_iff hfresh hcut h
    rw [laid_concat]
    by_cases hon : x.lineId ∈ kept.map (·.lineId)
    · rw [mergeRow,if_pos (hshown.mpr hon),hlines,List.filter_cons_of_pos (by simpa using hon)]
      simp
    · rw [List.filter_cons_of_neg (by simpa using hon)] at hlines
      rw [mergeRow,if_neg (mt hshown.mp hon)]
      rcases before.eq_nil_or_concat' with rfl | ⟨above,y,rfl⟩
      · simp only [hlines]
        rfl
      · have hcut' : fresh = above++y :: x :: after := by simp [hcut]
        have hfront : ∀ l ∈ above, l.lineId ≠ y.lineId := by
          rw [hcut',List.map_append,List.map_cons] at hfresh
          exact fun l hl => (List.nodup_append.mp hfresh).2.2 _ (List.mem_map_of_mem hl) _ List.mem_cons_self
        rw [List.append_assoc,List.singleton_append] at hlines
        obtain ⟨i,hback,hput⟩ := searchBack_last hcut' hlines hfront
        simp only [List.length_append,List.length_singleton,hback,hput]
        simp

theorem now_eq_some_iff (hfresh : (fresh.map (·.lineId)).Nodup) {id : Id} :
    now fresh id = some x ↔ x ∈ fresh ∧ x.lineId = id := by
  constructor
  · intro h
    exact ⟨List.mem_reverse.mp (List.mem_of_find?_eq_some h),by simpa using List.find?_some h⟩
  · rintro ⟨hx,rfl⟩
    have hrev : (fresh.reverse.map (·.lineId)).Nodup := by rwa [List.map_reverse,List.nodup_reverse]
    exact GroupBy.find_keyed hrev (List.mem_reverse.mpr hx)

/-! ## A fresh read laid over the walk -/

section Merge

variable {current : PickListScreen} {read : PickListScreen}

/-- The rows still on the walk, with their fresh figures. -/
def keptOf (current read : PickListScreen) : List PickLine := current.lines.filterMap fun l => now read.lines l.lineId

theorem keptOf_ids (hread : (read.lines.map (·.lineId)).Nodup) : (keptOf current read).map (·.lineId) =
    (current.lines.map (·.lineId)).filter fun id => id ∈ read.lines.map (·.lineId) := by
  unfold keptOf
  induction current.lines with
  | nil => rfl
  | cons l ls ih =>
    cases hnow : now read.lines l.lineId with
    | none =>
      have hout : l.lineId ∉ read.lines.map (·.lineId) := by
        intro hin
        obtain ⟨x,hx,hid⟩ := List.mem_map.mp hin
        rw [(now_eq_some_iff hread).mpr ⟨hx,hid⟩] at hnow
        cases hnow
      simp only [List.filterMap_cons,hnow]
      rw [ih,List.map_cons,List.filter_cons_of_neg (by simpa using hout)]
    | some x =>
      obtain ⟨hx,hid⟩ := (now_eq_some_iff hread).mp hnow
      have hin : l.lineId ∈ read.lines.map (·.lineId) := hid ▸ List.mem_map_of_mem hx
      simp only [List.filterMap_cons,hnow]
      rw [List.map_cons,ih,List.map_cons,List.filter_cons_of_pos (by simpa using hin),hid]

theorem keptOf_sub (hread : (read.lines.map (·.lineId)).Nodup) : ∀ l ∈ keptOf current read, l ∈ read.lines := by
  intro l hl
  obtain ⟨_,-,hnow⟩ := List.mem_filterMap.mp hl
  exact ((now_eq_some_iff hread).mp hnow).1

/-- The rows of some lines are the rows found by them. -/
theorem filterMap_now (hread : (read.lines.map (·.lineId)).Nodup) {rows : List PickLine} (hrows : ∀ l ∈ rows, l ∈ read.lines) :
    rows.filterMap (fun l => now read.lines l.lineId) = rows := by
  induction rows with
  | nil => rfl
  | cons l ls ih =>
    have hnow := (now_eq_some_iff hread).mpr ⟨hrows l List.mem_cons_self,rfl⟩
    simp only [List.filterMap_cons,hnow]
    rw [ih fun x hx => hrows x (List.mem_cons_of_mem l hx)]

/-- Rows of the read are the same where their lines are. -/
theorem eq_of_ids (hread : (read.lines.map (·.lineId)).Nodup) {rows rows' : List PickLine}
    (hrows : ∀ l ∈ rows, l ∈ read.lines) (hrows' : ∀ l ∈ rows', l ∈ read.lines)
    (h : rows.map (·.lineId) = rows'.map (·.lineId)) : rows = rows' := by
  rw [← filterMap_now hread hrows,← filterMap_now hread hrows']
  have hfind (rows : List PickLine) :
      rows.filterMap (fun l => now read.lines l.lineId) = (rows.map (·.lineId)).filterMap (now read.lines) := by
    rw [List.filterMap_map]
    rfl
  rw [hfind,hfind,h]

/-- All the fresh rows, in. -/
theorem merge_laid (hcurrent : (current.lines.map (·.lineId)).Nodup) (hread : (read.lines.map (·.lineId)).Nodup) :
    ((keptOf current read).map (·.lineId)).Nodup ∧
      Laid (keptOf current read) read.lines (laid read.lines (keptOf current read) read.lines) := by
  have hkept : ((keptOf current read).map (·.lineId)).Nodup := by
    rw [keptOf_ids hread]
    exact hcurrent.filter _
  exact ⟨hkept,laid_run hread hkept (keptOf_sub hread) (List.append_nil _).symm⟩

/-- A row of the read is kept where its line is on the walk. -/
theorem kept_iff (hread : (read.lines.map (·.lineId)).Nodup) {l : PickLine} (hl : l ∈ read.lines) :
    l.lineId ∈ (keptOf current read).map (·.lineId) ↔ l.lineId ∈ current.lines.map (·.lineId) := by
  rw [keptOf_ids hread,List.mem_filter]
  exact and_iff_left (decide_eq_true (List.mem_map_of_mem hl))

theorem merge_perm (hcurrent : (current.lines.map (·.lineId)).Nodup) (hread : (read.lines.map (·.lineId)).Nodup) :
    (merge current read).lines.Perm read.lines := by
  obtain ⟨hkept,hlaid⟩ := merge_laid hcurrent hread
  have hsub : ∀ l ∈ keptOf current read, l ∈ read.lines := keptOf_sub hread
  refine (List.perm_ext_iff_of_nodup ?_ hread.of_map).mpr fun l => ⟨fun hl => ?_,fun hl => ?_⟩
  · exact (laid_distinct hread hkept (List.Sublist.refl _) hlaid).of_map
  · rcases List.mem_append.mp (hlaid.perm.mem_iff.mp hl) with hin | hin
    · exact hsub l hin
    · exact List.mem_of_mem_filter hin
  · exact laid_mem hread hsub (List.Sublist.refl _) hlaid hl

/-- Nothing is put in where all the read's rows are shown. -/
theorem laid_all (hfresh : (fresh.map (·.lineId)).Nodup) (hperm : kept.Perm fresh) : (laid fresh kept fresh).1 = kept := by
  have hkept := (hperm.map (·.lineId)).nodup_iff.mpr hfresh
  have hlaid := laid_run hfresh hkept (fun l hl => hperm.mem_iff.mp hl) (List.append_nil _).symm
  have hall : ∀ l ∈ (laid fresh kept fresh).1, l.lineId ∈ kept.map (·.lineId) := by
    intro l hl
    rcases List.mem_append.mp (hlaid.perm.mem_iff.mp hl) with hin | hin
    · exact List.mem_map_of_mem hin
    · exact List.mem_map_of_mem (hperm.mem_iff.mpr (List.mem_of_mem_filter hin))
  exact (List.filter_eq_self.mpr fun l hl => decide_eq_true (hall l hl)).symm.trans hlaid.keeps

/-- Laid over the walk, a read keeps the walk's order: it is the read's own rows, each once,
with those still on the walk as they stood, each new one directly after the row it follows
in the read, and again laid over it changes nothing. -/
theorem merge_keeps_order (hcurrent : (current.lines.map (·.lineId)).Nodup) (hread : (read.lines.map (·.lineId)).Nodup) :
    (merge current read).site = read.site ∧ (merge current read).route = read.route ∧
    (merge current read).lines.Perm read.lines ∧
    ((merge current read).lines.map (·.lineId)).filter (· ∈ current.lines.map (·.lineId)) =
      (current.lines.map (·.lineId)).filter (· ∈ read.lines.map (·.lineId)) ∧
    (∀ above x below, read.lines = above++x :: below → x.lineId ∉ current.lines.map (·.lineId) →
      Follows above.getLast? x (merge current read).lines) ∧
    merge (merge current read) read = merge current read ∧
    ((current.lines.map (·.lineId)).filter (· ∈ read.lines.map (·.lineId)) =
      (read.lines.map (·.lineId)).filter (· ∈ current.lines.map (·.lineId)) → merge current read = read) := by
  obtain ⟨hkept,hlaid⟩ := merge_laid hcurrent hread
  have hperm := merge_perm hcurrent hread
  have hids : (keptOf current read).map (·.lineId) = _ := keptOf_ids hread
  refine ⟨rfl,rfl,hperm,?_,?_,?_,?_⟩
  · rw [← hids,← congrArg (List.map (·.lineId)) hlaid.keeps,List.filter_map]
    refine congrArg (List.map _) (List.filter_congr fun l hl => ?_)
    exact decide_eq_decide.mpr (kept_iff hread (hperm.mem_iff.mp hl)).symm
  · intro above x below hsplit hx
    refine hlaid.follows above x below hsplit ?_
    rwa [kept_iff hread (by simp [hsplit])]
  · have hall : (laid read.lines (merge current read).lines read.lines).1 = (merge current read).lines := laid_all hread hperm
    have hagain : keptOf (merge current read) read = (merge current read).lines :=
      filterMap_now hread fun l hl => hperm.mem_iff.mp hl
    show { read with lines := (laid read.lines (keptOf (merge current read) read) read.lines).1 } = _
    rw [hagain,hall]
    rfl
  · intro horder
    have hrows : keptOf current read = read.lines.filter fun l => l.lineId ∈ (keptOf current read).map (·.lineId) := by
      refine eq_of_ids hread (keptOf_sub hread) (fun l hl => List.mem_of_mem_filter hl) ?_
      refine hids.trans (horder.trans ?_)
      rw [List.filter_map]
      exact congrArg (List.map _) (List.filter_congr fun l hl => decide_eq_decide.mpr (kept_iff hread hl).symm)
    have hsame := laid_same hread hkept (keptOf_sub hread) hrows (List.append_nil _).symm
    show { read with lines := (laid read.lines (keptOf current read) read.lines).1 } = _
    rw [hsame]
    simp

/-- Two new rows ahead of the one on screen stay in their own order. -/
theorem merge_ahead :
    let shown : PickListScreen := ⟨"5170".toList,[⟨1,none,3,0,3,none,false⟩],none⟩
    let read : PickListScreen :=
      ⟨"5170".toList,[⟨2,none,1,0,1,none,false⟩,⟨3,none,1,0,1,none,false⟩,⟨1,none,3,0,3,none,false⟩],none⟩
    merge shown read = read := by
  intro shown read
  have h := @merge_keeps_order shown read (by decide) (by decide)
  exact h.2.2.2.2.2.2 (by decide)

end Merge

end PickWalk
end Spork
