import Mathlib

/-! A place's grid and the numbers on its labels (`layout.rs`): its cells, the number a
column has on either side, and what is wrong with a grid. A 32-bit count is an integer. -/
namespace Spork
namespace Layout

/-- A cell of a place's grid, each coordinate counted from 1. -/
structure GridCell where
  bay : ℤ
  level : ℤ
  row : ℤ
  position : ℤ
  side : ℤ
  deriving DecidableEq,Repr

/-- A place's grid and how its labels are numbered. -/
structure Grid where
  bays : ℤ
  levels : ℤ
  rows : ℤ
  /-- One count per level, none meaning one position everywhere. -/
  positions : List ℤ
  firstBay : ℤ
  bayStep : ℤ
  firstLevel : ℤ
  /-- 1, or 2 for a rack with a face on each side, numbered round it. -/
  sides : ℤ
  /-- Its first label is at the right end of its front. -/
  fromRight : Bool
  deriving DecidableEq,Repr

/-- The integers from 1 to a number. -/
def oneTo (n : ℤ) : List ℤ := (List.range n.toNat).map fun k : ℕ => (k : ℤ)+1

@[simp] theorem mem_oneTo {n k : ℤ} : k ∈ oneTo n ↔ 1 ≤ k ∧ k ≤ n := by
  simp only [oneTo,List.mem_map,List.mem_range]
  constructor
  · rintro ⟨i,hi,rfl⟩
    omega
  · intro hk
    exact ⟨(k-1).toNat,by omega,by omega⟩

theorem nodup_oneTo (n : ℤ) : (oneTo n).Nodup := by
  apply List.Nodup.map
  · intro i j hij
    simpa using hij
  · exact List.nodup_range

/-- What a list's things come to has nothing twice when each thing's has not and two things
share none. -/
theorem nodup_flatMap_of_apart {α β : Type*} {xs : List α} {f : α → List β} (hxs : xs.Nodup)
    (hf : ∀ x ∈ xs, (f x).Nodup) (hapart : ∀ x y b, b ∈ f x → b ∈ f y → x = y) :
    (xs.flatMap f).Nodup := by
  rw [List.nodup_flatMap]
  refine ⟨hf,hxs.imp ?_⟩
  intro x y hne b hx hy
  exact hne (hapart x y b hx hy)

namespace Grid

def single : Grid := ⟨1,1,1,[],1,1,1,1,false⟩

variable (g : Grid)

/-- How many bins share a bay at a level. A level below the first is past the end of the
list, as the index wraps. -/
def positionsAt (level : ℤ) : ℤ := if level < 1 then 1 else g.positions.getD (level-1).toNat 1

def contains (c : GridCell) : Bool :=
  decide (c.side ≥ 1 ∧ c.side ≤ g.sides ∧ c.bay ≥ 1 ∧ c.bay ≤ g.bays ∧ c.level ≥ 1 ∧
    c.level ≤ g.levels ∧ c.row ≥ 1 ∧ c.row ≤ g.rows ∧ c.position ≥ 1 ∧
    c.position ≤ g.positionsAt c.level)

/-- Every cell: the front, then the back, each bay by bay, then level by level up, then row
by row back, then position by position along the bay. -/
def cells : List GridCell :=
  (oneTo g.sides).flatMap fun side =>
    (oneTo g.bays).flatMap fun bay =>
      (oneTo g.levels).flatMap fun level =>
        (oneTo g.rows).flatMap fun row =>
          (oneTo (g.positionsAt level)).map fun position => ⟨bay,level,row,position,side⟩

/-- How far along the front's numbering a column is, from 1. -/
def along (bay : ℤ) : ℤ := if g.fromRight then g.bays+1-bay else bay

/-- The number on the label of this column's bay on this side. -/
def labelNumber (side bay : ℤ) : ℤ :=
  if side = 2 then g.firstBay+(2*g.bays-g.along bay)*g.bayStep
  else g.firstBay+(g.along bay-1)*g.bayStep

def levelNumber (level : ℤ) : ℤ := g.firstLevel+level-1

/-- A sentence, when there is something to say. -/
def sentence (wrong : Bool) (text : String) : List String := if wrong then [text] else []

/-- Everything wrong with a grid, given whether a bay's number is below zero. -/
def problemsWhere (belowZero : Bool) : List String :=
  sentence (decide (g.bays < 1 ∨ g.levels < 1 ∨ g.rows < 1))
    "a grid needs at least one bay, one level and one row"++
  sentence (decide (g.positions ≠ [] ∧ (g.positions.length : ℤ) ≠ g.levels))
    (toString g.positions.length++" position counts for "++toString g.levels++" levels")++
  sentence (g.positions.any fun n => decide (n < 1)) "a level with no positions"++
  sentence (decide (g.bayStep = 0)) "every bay would have the same number (a step of 0)"++
  sentence (decide (g.sides ≠ 1 ∧ g.sides ≠ 2)) "a grid has one side or two"++
  sentence belowZero "a bay numbered below zero"++
  sentence (decide (g.firstLevel < 0)) "a level numbered below zero"

/-- Everything wrong with this grid, one sentence each. -/
def problems : List String :=
  g.problemsWhere (decide (g.firstBay < 0 ∨
    g.firstBay+(max g.bays 1*min (max g.sides 1) 2-1)*g.bayStep < 0))

@[simp] theorem sentence_eq_nil {wrong : Bool} {text : String} :
    sentence wrong text = [] ↔ wrong = false := by
  cases wrong <;> simp [sentence]

/-- A grid with no problems. -/
theorem problems_eq_nil_iff :
    g.problems = [] ↔
      1 ≤ g.bays ∧ 1 ≤ g.levels ∧ 1 ≤ g.rows ∧
      (g.positions = [] ∨ (g.positions.length : ℤ) = g.levels) ∧
      (∀ n ∈ g.positions, 1 ≤ n) ∧ g.bayStep ≠ 0 ∧ (g.sides = 1 ∨ g.sides = 2) ∧
      0 ≤ g.firstBay ∧ 0 ≤ g.firstBay+(g.bays*g.sides-1)*g.bayStep ∧ 0 ≤ g.firstLevel := by
  simp only [problems,problemsWhere,List.append_eq_nil_iff,sentence_eq_nil,decide_eq_false_iff_not,
    List.any_eq_false,decide_eq_true_eq,not_or,not_lt,not_and_or,not_not]
  constructor
  · rintro ⟨⟨⟨⟨⟨⟨⟨hbays,hlevels,hrows⟩,hcounts⟩,hone⟩,hstep⟩,hsides⟩,hfirst,hlast⟩,hlevel⟩
    rw [max_eq_left hbays] at hlast
    have hclamp : min (max g.sides 1) 2 = g.sides := by
      omega
    rw [hclamp] at hlast
    exact ⟨hbays,hlevels,hrows,hcounts,hone,hstep,hsides,hfirst,hlast,hlevel⟩
  · rintro ⟨hbays,hlevels,hrows,hcounts,hone,hstep,hsides,hfirst,hlast,hlevel⟩
    have hclamp : min (max g.sides 1) 2 = g.sides := by
      omega
    rw [max_eq_left hbays,hclamp]
    exact ⟨⟨⟨⟨⟨⟨⟨hbays,hlevels,hrows⟩,hcounts⟩,hone⟩,hstep⟩,hsides⟩,hfirst,hlast⟩,hlevel⟩

theorem mem_cells_iff (c : GridCell) : c ∈ g.cells ↔ g.contains c = true := by
  simp only [cells,List.mem_flatMap,List.mem_map,mem_oneTo,contains,decide_eq_true_eq]
  constructor
  · rintro ⟨side,hside,bay,hbay,level,hlevel,row,hrow,position,hposition,rfl⟩
    exact ⟨hside.1,hside.2,hbay.1,hbay.2,hlevel.1,hlevel.2,hrow.1,hrow.2,hposition⟩
  · rintro ⟨hs1,hs2,hb1,hb2,hl1,hl2,hr1,hr2,hp⟩
    exact ⟨c.side,⟨hs1,hs2⟩,c.bay,⟨hb1,hb2⟩,c.level,⟨hl1,hl2⟩,c.row,⟨hr1,hr2⟩,c.position,hp,rfl⟩

/-- No cell is listed twice. -/
theorem nodup_cells : g.cells.Nodup := by
  apply nodup_flatMap_of_apart (nodup_oneTo _)
  · intro side _
    apply nodup_flatMap_of_apart (nodup_oneTo _)
    · intro bay _
      apply nodup_flatMap_of_apart (nodup_oneTo _)
      · intro level _
        apply nodup_flatMap_of_apart (nodup_oneTo _)
        · intro row _
          apply (nodup_oneTo _).map
          intro position position' h
          exact congrArg GridCell.position h
        · intro x y c hx hy
          simp only [List.mem_map] at hx hy
          obtain ⟨_,_,rfl⟩ := hx
          obtain ⟨_,_,h⟩ := hy
          exact (congrArg GridCell.row h).symm
      · intro x y c hx hy
        simp only [List.mem_map,List.mem_flatMap] at hx hy
        obtain ⟨_,_,_,_,rfl⟩ := hx
        obtain ⟨_,_,_,_,h⟩ := hy
        exact (congrArg GridCell.level h).symm
    · intro x y c hx hy
      simp only [List.mem_map,List.mem_flatMap] at hx hy
      obtain ⟨_,_,_,_,_,_,rfl⟩ := hx
      obtain ⟨_,_,_,_,_,_,h⟩ := hy
      exact (congrArg GridCell.bay h).symm
  · intro x y c hx hy
    simp only [List.mem_map,List.mem_flatMap] at hx hy
    obtain ⟨_,_,_,_,_,_,_,_,rfl⟩ := hx
    obtain ⟨_,_,_,_,_,_,_,_,h⟩ := hy
    exact (congrArg GridCell.side h).symm

end Grid
end Layout
end Spork
