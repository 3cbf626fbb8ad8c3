import Spork.Layout.Editor
import Spork.Layout.Grid
import Spork.Lib.Slots

/-! A bin as a box in its cell on its rack (client/app/layout/blocks.ts), in exact arithmetic:
the cell is cut from its place's box the way the rack is built. -/
namespace Spork
namespace Layout
namespace Blocks

/-- The arithmetic of lengths and angles, exact: what `Math.hypot` and `Math.atan2` give, and
what turning by an angle takes. -/
structure Exact (N : Type*) [Field N] [LinearOrder N] where
  hypot : N → N → N
  atan2 : N → N → N
  cos : N → N
  sin : N → N
  hypot_nonneg : ∀ x y, 0 ≤ hypot x y
  hypot_mul_self : ∀ x y, hypot x y*hypot x y = x*x+y*y
  cos_atan2 : ∀ x y, x*x+y*y = 1 → cos (atan2 y x) = x
  sin_atan2 : ∀ x y, x*x+y*y = 1 → sin (atan2 y x) = y

/-- What the drawing reads of a place's grid. -/
structure LayoutPlace (K : Type*) where
  placeId : K
  bays : ℤ
  levels : ℤ
  rows : ℤ
  /-- 1, or 2 for a rack with a face on each side. -/
  sides : ℤ
  /-- How many bins share a bay at each level, lowest first. -/
  positions : List ℤ

/-- A bin in its cell. -/
structure MapBin (K : Type*) extends GridCell where
  placeId : K

/-- A bin as a box in its cell: the map's unit. -/
structure BinCell (K N : Type*) where
  bin : MapBin K
  /-- The middle of the cell, on the site. -/
  centre : N × N × N
  /-- How long it runs along the rack, how deep, and how tall. -/
  size : N × N × N
  /-- Which way the rack runs, from the site's x axis. -/
  angle : N
  /-- Which way the face it is on looks, out into the aisle. -/
  facing : N × N

/-- `grid.positions[level - 1] ?? 1` -/
def LayoutPlace.across {K : Type*} (grid : LayoutPlace K) (level : ℤ) : ℤ :=
  if level < 1 then 1 else grid.positions.getD (level-1).toNat 1

/-- The bin's cell is inside its grid. -/
def LayoutPlace.inside {K : Type*} (grid : LayoutPlace K) (bin : GridCell) : Bool :=
  decide (bin.side ≥ 1 ∧ bin.side ≤ max 1 grid.sides ∧ bin.bay ≥ 1 ∧ bin.bay ≤ grid.bays ∧
    bin.level ≥ 1 ∧ bin.level ≤ grid.levels ∧ bin.row ≥ 1 ∧ bin.row ≤ grid.rows ∧
    bin.position ≥ 1 ∧ bin.position ≤ grid.across bin.level)

/-- A bin's place along its bay: the back's first is the left one as the back is faced, the far
end of the bay. -/
def nth (across : ℤ) (bin : GridCell) : ℤ := if bin.side = 2 then across-bin.position else bin.position-1

/-- A bin's row back: the front's from the front, the back's from the back. -/
def index (slabs : ℤ) (bin : GridCell) : ℤ := if bin.side = 2 then slabs-bin.row else bin.row-1

variable {K N : Type*} [Field N] [LinearOrder N]

/-- How much of a cell its box fills, so neighbours read as separate bins. -/
def cellFill : N := 86/100

section
variable (e : Exact N)

/-- From one corner to another: how far, and which way. -/
def run (p q : N × N) : N := e.hypot (q.1-p.1) (q.2-p.2)

def way (p q : N × N) : N × N := ((q.1-p.1)/run e p q,(q.2-p.2)/run e p q)

def cellBox (shape : PlanShape K N) (grid : LayoutPlace K) (bin : MapBin K) : Option (BinCell K N) :=
  match shape.corners with
  | [a,b,_,d] =>
    let across := grid.across bin.level
    let length := run e a b
    let depth := run e a d
    if grid.inside bin.toGridCell = false ∨ length = 0 ∨ depth = 0 then none else
      let u := way e a b
      let v := way e a d
      let bay := length/grid.bays
      let share := bay/across
      let along := ((bin.bay-1 : ℤ) : N)*bay+(nth across bin.toGridCell : N)*share+share/2
      let slabs := max 1 grid.sides*grid.rows
      let slab := depth/slabs
      let back := (index slabs bin.toGridCell : N)*slab+slab/2
      -- a solid place's levels share its height; a floor's cells lie on it
      let solid := shape.solid ∧ shape.height > 0
      let level := if solid then shape.height/grid.levels else min share slab*(3/10)
      let up := if solid then shape.z+((bin.level-1 : ℤ) : N)*level+level/2 else shape.z+level/2
      some
        { bin
          centre := (a.1+u.1*along+v.1*back,a.2+u.2*along+v.2*back,up)
          size := (share*cellFill,slab*cellFill,level*cellFill)
          angle := e.atan2 u.2 u.1
          facing := if bin.side = 2 then v else (-v.1,-v.2) }
  | _ => none

/-- Every bin's cell. A bin whose place has no rectangle on the plan, or whose cell is outside
its grid, is left out. -/
def cellsOf [DecidableEq K] (plan : List (PlanShape K N)) (places : List (LayoutPlace K)) (bins : List (MapBin K)) :
    List (BinCell K N) :=
  bins.filterMap fun bin =>
    (plan.reverse.find? fun s => s.placeId = bin.placeId).bind fun shape =>
      (places.reverse.find? fun p => p.placeId = bin.placeId).bind fun grid =>
        if shape.corners.length ≠ 4 then none else cellBox e shape grid bin

/-! ## Where a box is -/

/-- How far a point of the site is from a box's middle, along it, back and up. -/
def BinCell.lengthwise (c : BinCell K N) (p : N × N × N) : N :=
  (p.1-c.centre.1)*e.cos c.angle+(p.2.1-c.centre.2.1)*e.sin c.angle

def BinCell.depthwise (c : BinCell K N) (p : N × N × N) : N :=
  (p.2.1-c.centre.2.1)*e.cos c.angle-(p.1-c.centre.1)*e.sin c.angle

def BinCell.upwards (c : BinCell K N) (p : N × N × N) : N := p.2.2-c.centre.2.2

/-- The box drawn. -/
def BinCell.drawn (c : BinCell K N) : Set (N × N × N) :=
  {p | |c.lengthwise e p| ≤ c.size.1/2 ∧ |c.depthwise e p| ≤ c.size.2.1/2 ∧ |c.upwards p| ≤ c.size.2.2/2}

/-- Its cell: the box, before the gap left round it. -/
def BinCell.cell (c : BinCell K N) : Set (N × N × N) :=
  {p | |c.lengthwise e p| ≤ c.size.1/cellFill/2 ∧ |c.depthwise e p| ≤ c.size.2.1/cellFill/2 ∧
    |c.upwards p| ≤ c.size.2.2/cellFill/2}

/-- The cell without its sides. -/
def BinCell.inner (c : BinCell K N) : Set (N × N × N) :=
  {p | |c.lengthwise e p| < c.size.1/cellFill/2 ∧ |c.depthwise e p| < c.size.2.1/cellFill/2 ∧
    |c.upwards p| < c.size.2.2/cellFill/2}

end

/-- A point by how far along the front, how far back and how high it is: fractions of the
rectangle from its first corner, and cells. -/
def at3 (a b d : N × N) (s t w : N) : N × N × N :=
  (a.1+s*(b.1-a.1)+t*(d.1-a.1),a.2+s*(b.2-a.2)+t*(d.2-a.2),w)

/-- What is above a place's rectangle, at such heights. -/
def above (a b d : N × N) (heights : Set N) : Set (N × N × N) :=
  {p | ∃ s t w, 0 ≤ s ∧ s ≤ 1 ∧ 0 ≤ t ∧ t ≤ 1 ∧ w ∈ heights ∧ p = at3 a b d s t w}

/-- A place drawn as a rectangle of some length and depth, by its front's corners and the
corner behind the first. -/
structure Rectangle (shape : PlanShape K N) (a b d : N × N) : Prop where
  corners : shape.corners = [a,b,(b.1+d.1-a.1,b.2+d.2-a.2),d]
  square : (b.1-a.1)*(d.1-a.1)+(b.2-a.2)*(d.2-a.2) = 0
  long : a ≠ b
  deep : a ≠ d

/-- A grid of one bay, level, row and position or more. -/
structure LayoutPlace.Positive (grid : LayoutPlace K) : Prop where
  bays : 0 < grid.bays
  levels : 0 < grid.levels
  rows : 0 < grid.rows
  positions : ∀ n ∈ grid.positions, 0 < n

theorem LayoutPlace.Positive.across_pos {grid : LayoutPlace K} (h : grid.Positive) (level : ℤ) : 0 < grid.across level := by
  rw [LayoutPlace.across]
  split_ifs
  · exact Int.one_pos
  · by_cases hlt : (level-1).toNat < grid.positions.length
    · rw [List.getD_eq_getElem _ _ hlt]
      exact h.positions _ (List.getElem_mem hlt)
    · rw [List.getD_eq_default _ _ (not_lt.mp hlt)]
      exact Int.one_pos

section
variable [IsStrictOrderedRing N] {e : Exact N}

/-! ## The rack's own directions -/

/-- How far a point is along a direction from a corner. -/
def off (a u : N × N) (p : N × N × N) : N := (p.1-a.1)*u.1+(p.2.1-a.2)*u.2

theorem run_pos {p q : N × N} (h : p ≠ q) : 0 < run e p q := by
  have hne : run e p q ≠ 0 := by
    intro hzero
    have hsq := e.hypot_mul_self (q.1-p.1) (q.2-p.2)
    rw [run] at hzero
    rw [hzero,mul_zero] at hsq
    have h1 : (q.1-p.1)*(q.1-p.1) = 0 := by
      linarith [mul_self_nonneg (q.1-p.1),mul_self_nonneg (q.2-p.2)]
    have h2 : (q.2-p.2)*(q.2-p.2) = 0 := by
      linarith
    exact h (Prod.ext (sub_eq_zero.mp (mul_self_eq_zero.mp h1)).symm (sub_eq_zero.mp (mul_self_eq_zero.mp h2)).symm)
  exact lt_of_le_of_ne (e.hypot_nonneg _ _) hne.symm

/-- A way is one long. -/
theorem way_unit {p q : N × N} (h : p ≠ q) : (way e p q).1*(way e p q).1+(way e p q).2*(way e p q).2 = 1 := by
  have hrun := (run_pos (e := e) h).ne'
  have hsq := e.hypot_mul_self (q.1-p.1) (q.2-p.2)
  rw [way]
  field_simp
  rw [run]
  linear_combination -hsq

theorem way_mul_run {p q : N × N} (h : p ≠ q) :
    (way e p q).1*run e p q = q.1-p.1 ∧ (way e p q).2*run e p q = q.2-p.2 := by
  have hrun := (run_pos (e := e) h).ne'
  exact ⟨div_mul_cancel₀ _ hrun,div_mul_cancel₀ _ hrun⟩

/-- A direction square to another is it turned a quarter, one way or the other. -/
theorem quarter {u v : N × N} (hu : u.1*u.1+u.2*u.2 = 1) (hv : v.1*v.1+v.2*v.2 = 1) (huv : u.1*v.1+u.2*v.2 = 0) :
    ∃ k, (k = 1 ∨ k = -1) ∧ v.1 = -(k*u.2) ∧ v.2 = k*u.1 := by
  refine ⟨u.1*v.2-u.2*v.1,?_,?_,?_⟩
  · rw [← mul_self_eq_one_iff]
    linear_combination hv*(u.1*u.1+u.2*u.2)+hu-huv*(u.1*v.1+u.2*v.2)
  · linear_combination -v.1*hu+u.1*huv
  · linear_combination -v.2*hu+u.2*huv

/-! ## The cell a box is -/

/-- A share of a bay, and a row's depth. -/
def share (e : Exact N) (grid : LayoutPlace K) (a b : N × N) (level : ℤ) : N := run e a b/grid.bays/grid.across level

def slab (e : Exact N) (grid : LayoutPlace K) (a d : N × N) : N := run e a d/(max 1 grid.sides*grid.rows : ℤ)

/-- How tall a cell is, and its middle from the floor. -/
def tall (e : Exact N) (shape : PlanShape K N) (grid : LayoutPlace K) (a b d : N × N) (level : ℤ) : N :=
  if shape.solid ∧ shape.height > 0 then shape.height/grid.levels else min (share e grid a b level) (slab e grid a d)*(3/10)

def up (e : Exact N) (shape : PlanShape K N) (grid : LayoutPlace K) (a b d : N × N) (level : ℤ) : N :=
  if shape.solid ∧ shape.height > 0 then
    shape.z+((level-1 : ℤ) : N)*tall e shape grid a b d level+tall e shape grid a b d level/2
  else shape.z+tall e shape grid a b d level/2

/-- A box by the rack's own directions. -/
structure Cuts (e : Exact N) (shape : PlanShape K N) (grid : LayoutPlace K) (a b d : N × N) (bin : GridCell)
    (cell : BinCell K N) : Prop where
  lengthwise : ∀ p, cell.lengthwise e p = off a (way e a b) p-Slots.middleIn (run e a b/grid.bays)
    (share e grid a b bin.level) (bin.bay-1) (nth (grid.across bin.level) bin)
  depthwise : ∀ p, |cell.depthwise e p| =
    |off a (way e a d) p-Slots.middle (slab e grid a d) (index (max 1 grid.sides*grid.rows) bin)|
  upwards : ∀ p, cell.upwards p = p.2.2-up e shape grid a b d bin.level
  size : cell.size = (share e grid a b bin.level*cellFill,slab e grid a d*cellFill,
    tall e shape grid a b d bin.level*cellFill)

variable {shape : PlanShape K N} {grid : LayoutPlace K} {a b d : N × N}

omit [LinearOrder N] [IsStrictOrderedRing N] in
/-- How far a point is from a middle that is so far along and so far back. -/
theorem from_middle_along {a u v : N × N} (hu : u.1*u.1+u.2*u.2 = 1) (huv : u.1*v.1+u.2*v.2 = 0) (x y along back : N) :
    (x-(a.1+u.1*along+v.1*back))*u.1+(y-(a.2+u.2*along+v.2*back))*u.2 = (x-a.1)*u.1+(y-a.2)*u.2-along := by
  linear_combination -along*hu-back*huv

omit [LinearOrder N] [IsStrictOrderedRing N] in
theorem from_middle_back {a u v : N × N} {k : N} (hv : v.1*v.1+v.2*v.2 = 1) (huv : u.1*v.1+u.2*v.2 = 0)
    (hv1 : v.1 = -(k*u.2)) (hv2 : v.2 = k*u.1) (x y along back : N) :
    k*((y-(a.2+u.2*along+v.2*back))*u.1-(x-(a.1+u.1*along+v.1*back))*u.2) = (x-a.1)*v.1+(y-a.2)*v.2-back := by
  linear_combination -(y-(a.2+u.2*along+v.2*back))*hv2-(x-(a.1+u.1*along+v.1*back))*hv1-along*huv-back*hv

theorem Rectangle.way_square (h : Rectangle shape a b d) :
    (way e a b).1*(way e a d).1+(way e a b).2*(way e a d).2 = 0 := by
  have hlong := (run_pos (e := e) h.long).ne'
  have hdeep := (run_pos (e := e) h.deep).ne'
  rw [way,way]
  field_simp
  rw [mul_zero]
  exact h.square

theorem cellBox_cuts (h : Rectangle shape a b d) {bin : MapBin K} (hin : grid.inside bin.toGridCell = true) :
    ∃ cell, cellBox e shape grid bin = some cell ∧ Cuts e shape grid a b d bin.toGridCell cell := by
  have hlong := (run_pos (e := e) h.long).ne'
  have hdeep := (run_pos (e := e) h.deep).ne'
  have hu := way_unit (e := e) h.long
  have hv := way_unit (e := e) h.deep
  have huv := h.way_square (e := e)
  obtain ⟨k,hk,hv1,hv2⟩ := quarter hu hv huv
  rw [cellBox,h.corners]
  simp only [hin,hlong,hdeep,Bool.true_eq_false,or_self,if_false]
  refine ⟨_,rfl,?_,?_,fun p => rfl,rfl⟩
  · intro p
    simp only [BinCell.lengthwise,e.cos_atan2 _ _ hu,e.sin_atan2 _ _ hu]
    exact from_middle_along hu huv _ _ _ _
  · intro p
    have hflip : ∀ x : N, |x| = |k*x| := by
      intro x
      rcases hk with rfl | rfl <;> simp
    simp only [BinCell.depthwise,e.cos_atan2 _ _ hu,e.sin_atan2 _ _ hu]
    rw [hflip]
    congr 1
    exact from_middle_back hv huv hv1 hv2 _ _ _ _

variable {bin : GridCell} {cell : BinCell K N}

omit [LinearOrder N] [IsStrictOrderedRing N] in
theorem cellFill_mul_div [CharZero N] (x : N) : x*cellFill/cellFill = x := by
  have hfill : (cellFill : N) ≠ 0 := by
    rw [cellFill]
    norm_num
  rw [mul_div_cancel_right₀ x hfill]

theorem Cuts.mem_cell (h : Cuts e shape grid a b d bin cell) {p : N × N × N} : p ∈ cell.cell e ↔
    off a (way e a b) p ∈ Slots.about (Slots.middleIn (run e a b/grid.bays) (share e grid a b bin.level)
      (bin.bay-1) (nth (grid.across bin.level) bin)) (share e grid a b bin.level) ∧
    off a (way e a d) p ∈ Slots.about (Slots.middle (slab e grid a d) (index (max 1 grid.sides*grid.rows) bin))
      (slab e grid a d) ∧
    p.2.2 ∈ Slots.about (up e shape grid a b d bin.level) (tall e shape grid a b d bin.level) := by
  rw [BinCell.cell,Set.mem_ofPred_eq,h.lengthwise,h.depthwise,h.upwards,h.size]
  simp only [cellFill_mul_div]
  rfl

theorem Cuts.mem_inner (h : Cuts e shape grid a b d bin cell) {p : N × N × N} : p ∈ cell.inner e ↔
    off a (way e a b) p ∈ Slots.inside (Slots.middleIn (run e a b/grid.bays) (share e grid a b bin.level)
      (bin.bay-1) (nth (grid.across bin.level) bin)) (share e grid a b bin.level) ∧
    off a (way e a d) p ∈ Slots.inside (Slots.middle (slab e grid a d) (index (max 1 grid.sides*grid.rows) bin))
      (slab e grid a d) ∧
    p.2.2 ∈ Slots.inside (up e shape grid a b d bin.level) (tall e shape grid a b d bin.level) := by
  rw [BinCell.inner,Set.mem_ofPred_eq,h.lengthwise,h.depthwise,h.upwards,h.size]
  simp only [cellFill_mul_div]
  rfl

theorem share_pos (h : Rectangle shape a b d) (hgrid : grid.Positive) (level : ℤ) : 0 < share e grid a b level :=
  div_pos (div_pos (run_pos h.long) (Int.cast_pos.mpr hgrid.bays)) (Int.cast_pos.mpr (hgrid.across_pos level))

theorem slab_pos (h : Rectangle shape a b d) (hgrid : grid.Positive) : 0 < slab e grid a d := by
  refine div_pos (run_pos h.deep) (Int.cast_pos.mpr (mul_pos ?_ hgrid.rows))
  omega

theorem tall_pos (h : Rectangle shape a b d) (hgrid : grid.Positive) (level : ℤ) : 0 < tall e shape grid a b d level := by
  rw [tall]
  split_ifs with hsolid
  · exact div_pos hsolid.2 (Int.cast_pos.mpr hgrid.levels)
  · exact mul_pos (lt_min (share_pos h hgrid level) (slab_pos h hgrid)) (by norm_num)

/-- What is drawn is in its cell, clear of its sides. -/
theorem Cuts.drawn_subset (h : Cuts e shape grid a b d bin cell) (hrect : Rectangle shape a b d) (hgrid : grid.Positive) :
    cell.drawn e ⊆ cell.inner e := by
  have hless : ∀ {x : N}, 0 < x → x*cellFill < x := by
    intro x hx
    rw [cellFill]
    linarith
  have hshare := hless (share_pos (e := e) hrect hgrid bin.level)
  have hslab := hless (slab_pos (e := e) hrect hgrid)
  have htall := hless (tall_pos (e := e) hrect hgrid bin.level)
  intro p hp
  rw [BinCell.drawn,Set.mem_ofPred_eq,h.size] at hp
  rw [BinCell.inner,Set.mem_ofPred_eq,h.size]
  simp only [cellFill_mul_div]
  exact ⟨hp.1.trans_lt (by linarith),hp.2.1.trans_lt (by linarith),hp.2.2.trans_lt (by linarith)⟩

/-! ## The box a rack is -/

theorem Rectangle.off_at3 (h : Rectangle shape a b d) (s t w : N) :
    off a (way e a b) (at3 a b d s t w) = s*run e a b ∧ off a (way e a d) (at3 a b d s t w) = t*run e a d := by
  obtain ⟨hb1,hb2⟩ := way_mul_run (e := e) h.long
  obtain ⟨hd1,hd2⟩ := way_mul_run (e := e) h.deep
  have hu := way_unit (e := e) h.long
  have hv := way_unit (e := e) h.deep
  have huv := h.way_square (e := e)
  rw [off,off,at3,← hb1,← hb2,← hd1,← hd2]
  constructor
  · linear_combination s*run e a b*hu+t*run e a d*huv
  · linear_combination t*run e a d*hv+s*run e a b*huv

/-- A point above the rectangle, by how far along and back it is. -/
theorem Rectangle.mem_above (h : Rectangle shape a b d) (heights : Set N) (p : N × N × N) :
    p ∈ above a b d heights ↔ (0 ≤ off a (way e a b) p ∧ off a (way e a b) p ≤ run e a b) ∧
      (0 ≤ off a (way e a d) p ∧ off a (way e a d) p ≤ run e a d) ∧ p.2.2 ∈ heights := by
  have hlong := run_pos (e := e) h.long
  have hdeep := run_pos (e := e) h.deep
  constructor
  · rintro ⟨s,t,w,hs0,hs1,ht0,ht1,hw,rfl⟩
    obtain ⟨hs,ht⟩ := h.off_at3 (e := e) s t w
    rw [hs,ht]
    exact ⟨⟨mul_nonneg hs0 hlong.le,mul_le_of_le_one_left hlong.le hs1⟩,
      ⟨mul_nonneg ht0 hdeep.le,mul_le_of_le_one_left hdeep.le ht1⟩,hw⟩
  · rintro ⟨⟨hs0,hs1⟩,⟨ht0,ht1⟩,hw⟩
    refine ⟨off a (way e a b) p/run e a b,off a (way e a d) p/run e a d,p.2.2,div_nonneg hs0 hlong.le,
      (div_le_one hlong).mpr hs1,div_nonneg ht0 hdeep.le,(div_le_one hdeep).mpr ht1,hw,?_⟩
    obtain ⟨hb1,hb2⟩ := way_mul_run (e := e) h.long
    obtain ⟨hd1,hd2⟩ := way_mul_run (e := e) h.deep
    have hu := way_unit (e := e) h.long
    obtain ⟨k,hk,hv1,hv2⟩ := quarter hu (way_unit (e := e) h.deep) (h.way_square (e := e))
    have hkk : k*k = 1 := mul_self_eq_one_iff.mpr hk
    have hcancel : ∀ {x r y : N}, 0 < r → x/r*(y*r) = x*y := by
      intro x r y hr
      field_simp
    rw [at3,← hb1,← hb2,← hd1,← hd2,hcancel hlong,hcancel hlong,hcancel hdeep,hcancel hdeep,off,off,hv1,hv2]
    refine Prod.ext ?_ (Prod.ext ?_ rfl)
    · linear_combination -(p.1-a.1)*hu-((p.1-a.1)*(way e a b).2*(way e a b).2-
        (p.2.1-a.2)*(way e a b).1*(way e a b).2)*hkk
    · linear_combination -(p.2.1-a.2)*hu-((p.2.1-a.2)*(way e a b).1*(way e a b).1-
        (p.1-a.1)*(way e a b).1*(way e a b).2)*hkk

/-! ## Cells and coordinates -/

/-- The cells of a grid are those cut along, back and up it. -/
theorem inside_iff {c : GridCell} : grid.inside c = true ↔
    (1 ≤ c.bay ∧ c.bay ≤ grid.bays) ∧ (1 ≤ c.level ∧ c.level ≤ grid.levels) ∧
    (1 ≤ c.side ∧ c.side ≤ max 1 grid.sides) ∧ (1 ≤ c.row ∧ c.row ≤ grid.rows) ∧
    1 ≤ c.position ∧ c.position ≤ grid.across c.level := by
  rw [LayoutPlace.inside,decide_eq_true_eq]
  constructor
  · rintro ⟨hs1,hs2,hb1,hb2,hl1,hl2,hr1,hr2,hp1,hp2⟩
    exact ⟨⟨hb1,hb2⟩,⟨hl1,hl2⟩,⟨hs1,hs2⟩,⟨hr1,hr2⟩,hp1,hp2⟩
  · rintro ⟨⟨hb1,hb2⟩,⟨hl1,hl2⟩,⟨hs1,hs2⟩,⟨hr1,hr2⟩,hp1,hp2⟩
    exact ⟨hs1,hs2,hb1,hb2,hl1,hl2,hr1,hr2,hp1,hp2⟩

/-- How many rows there are from face to face. -/
theorem slabs_eq (hsides : grid.sides = 1 ∨ grid.sides = 2) :
    (max 1 grid.sides = 1 ∧ max 1 grid.sides*grid.rows = grid.rows) ∨
      (max 1 grid.sides = 2 ∧ max 1 grid.sides*grid.rows = 2*grid.rows) := by
  rcases hsides with h | h
  · left
    rw [h,max_self,one_mul]
    exact ⟨rfl,rfl⟩
  · right
    rw [h]
    exact ⟨rfl,rfl⟩

/-- A cell's place along its bay, and its row back. -/
theorem nth_bounds {c : GridCell} (hin : grid.inside c = true) :
    0 ≤ nth (grid.across c.level) c ∧ nth (grid.across c.level) c < grid.across c.level := by
  obtain ⟨-,-,-,-,hp1,hp2⟩ := inside_iff.mp hin
  rw [nth]
  split_ifs <;> omega

theorem index_bounds {c : GridCell} (hsides : grid.sides = 1 ∨ grid.sides = 2) (hin : grid.inside c = true) :
    0 ≤ index (max 1 grid.sides*grid.rows) c ∧
      index (max 1 grid.sides*grid.rows) c < max 1 grid.sides*grid.rows := by
  obtain ⟨-,-,hs,hr,-⟩ := inside_iff.mp hin
  rw [index]
  rcases slabs_eq hsides with ⟨hmax,hslabs⟩ | ⟨hmax,hslabs⟩ <;> rw [hslabs] <;> split_ifs <;> omega

/-- Cells as far back, as far along their bays, in the same bay and level are one. -/
theorem cell_unique {c c' : GridCell} (hsides : grid.sides = 1 ∨ grid.sides = 2) (hin : grid.inside c = true)
    (hin' : grid.inside c' = true) (hlevel : c.level = c'.level) (hbay : c.bay = c'.bay)
    (hindex : index (max 1 grid.sides*grid.rows) c = index (max 1 grid.sides*grid.rows) c')
    (hnth : nth (grid.across c.level) c = nth (grid.across c'.level) c') : c = c' := by
  obtain ⟨-,-,hs,hr,hp⟩ := inside_iff.mp hin
  obtain ⟨-,-,hs',hr',hp'⟩ := inside_iff.mp hin'
  obtain ⟨bay,level,row,position,side⟩ := c
  obtain ⟨bay',level',row',position',side'⟩ := c'
  simp only at hlevel hbay hs hr hp hs' hr' hp'
  subst hlevel hbay
  simp only [index,nth] at hindex hnth
  have hside : side = side' := by
    rcases slabs_eq hsides with ⟨hmax,hslabs⟩ | ⟨hmax,hslabs⟩ <;> rw [hslabs] at hindex <;>
      split_ifs at hindex <;> omega
  subst hside
  split_ifs at hindex hnth <;> simp only [GridCell.mk.injEq,true_and,and_true] <;> omega

/-- There is a cell that far back and that far along a bay. -/
theorem exists_cell {level bay i j : ℤ} (hsides : grid.sides = 1 ∨ grid.sides = 2)
    (hlevel : 1 ≤ level ∧ level ≤ grid.levels) (hbay : 0 ≤ bay ∧ bay < grid.bays)
    (hi : 0 ≤ i ∧ i < max 1 grid.sides*grid.rows) (hj : 0 ≤ j ∧ j < grid.across level) :
    ∃ c, grid.inside c = true ∧ c.level = level ∧ c.bay = bay+1 ∧
      index (max 1 grid.sides*grid.rows) c = i ∧ nth (grid.across level) c = j := by
  by_cases hfront : i < grid.rows
  · refine ⟨⟨bay+1,level,i+1,j+1,1⟩,?_,rfl,rfl,?_,?_⟩
    · rw [inside_iff]
      refine ⟨?_,hlevel,⟨le_rfl,le_max_left 1 grid.sides⟩,?_,?_⟩ <;> simp only <;> omega
    · simp [index]
    · simp [nth]
  · refine ⟨⟨bay+1,level,max 1 grid.sides*grid.rows-i,grid.across level-j,2⟩,?_,rfl,rfl,?_,?_⟩
    · rw [inside_iff]
      rcases slabs_eq hsides with ⟨hmax,hslabs⟩ | ⟨hmax,hslabs⟩ <;> rw [hslabs] at hi ⊢ <;>
        refine ⟨?_,hlevel,?_,?_,?_⟩ <;> simp only <;> omega
    · simp [index]
    · simp [nth]

theorem cellBox_some (h : Rectangle shape a b d) {bin : MapBin K} {cell : BinCell K N}
    (hcell : cellBox e shape grid bin = some cell) :
    grid.inside bin.toGridCell = true ∧ Cuts e shape grid a b d bin.toGridCell cell := by
  have hin : grid.inside bin.toGridCell = true := by
    by_contra hnot
    rw [cellBox,h.corners] at hcell
    simp [hnot] at hcell
  obtain ⟨cell',hcell',hcuts⟩ := cellBox_cuts (e := e) h hin
  rw [hcell,Option.some.injEq] at hcell'
  exact ⟨hin,hcell' ▸ hcuts⟩

/-- The bins drawn are those in the grid. -/
theorem cellBox_isSome (h : Rectangle shape a b d) (bin : MapBin K) :
    (cellBox e shape grid bin).isSome = true ↔ grid.inside bin.toGridCell = true := by
  constructor
  · intro hsome
    obtain ⟨cell,hcell⟩ := Option.isSome_iff_exists.mp hsome
    exact (cellBox_some h hcell).1
  · intro hin
    obtain ⟨cell,hcell,-⟩ := cellBox_cuts (e := e) h hin
    exact Option.isSome_iff_exists.mpr ⟨cell,hcell⟩

theorem across_mul_share (hgrid : grid.Positive) (level : ℤ) :
    (grid.across level : N)*share e grid a b level = run e a b/grid.bays := by
  have hacross : (grid.across level : N) ≠ 0 := (Int.cast_pos.mpr (hgrid.across_pos level)).ne'
  rw [share,mul_div_cancel₀ _ hacross]

theorem bays_mul (hgrid : grid.Positive) : (grid.bays : N)*(run e a b/grid.bays) = run e a b := by
  have hbays : (grid.bays : N) ≠ 0 := (Int.cast_pos.mpr hgrid.bays).ne'
  rw [mul_div_cancel₀ _ hbays]

theorem slabs_mul_slab (hgrid : grid.Positive) :
    ((max 1 grid.sides*grid.rows : ℤ) : N)*slab e grid a d = run e a d := by
  have hpos : 0 < max 1 grid.sides*grid.rows := mul_pos (by omega) hgrid.rows
  have hslabs : ((max 1 grid.sides*grid.rows : ℤ) : N) ≠ 0 := (Int.cast_pos.mpr hpos).ne'
  rw [slab,mul_div_cancel₀ _ hslabs]

/-- Two bins of one level with an inner point of both are in one cell. -/
theorem cell_of_shared (h : Rectangle shape a b d) (hgrid : grid.Positive) (hsides : grid.sides = 1 ∨ grid.sides = 2)
    {c c' : GridCell} {cell cell' : BinCell K N} (hin : grid.inside c = true) (hin' : grid.inside c' = true)
    (hcuts : Cuts e shape grid a b d c cell) (hcuts' : Cuts e shape grid a b d c' cell') {p : N × N × N}
    (hp : p ∈ cell.inner e) (hp' : p ∈ cell'.inner e) (hlevel : c.level = c'.level) : c = c' := by
  obtain ⟨halong,hback,-⟩ := hcuts.mem_inner.mp hp
  obtain ⟨halong',hback',-⟩ := hcuts'.mem_inner.mp hp'
  have hindex := Slots.slot_unique (slab_pos h hgrid) hback hback'
  obtain ⟨h0,h1⟩ := nth_bounds hin
  obtain ⟨h0',h1'⟩ := nth_bounds hin'
  rw [← hlevel] at halong' h0' h1'
  obtain ⟨hbay,hnth⟩ := Slots.part_unique (share_pos h hgrid c.level) (across_mul_share hgrid c.level) h0 h1 h0' h1'
    halong halong'
  refine cell_unique hsides hin hin' hlevel (by omega) hindex ?_
  rw [← hlevel]
  exact hnth

/-- A cell is above its place's rectangle. -/
theorem Cuts.within (h : Rectangle shape a b d) (hgrid : grid.Positive) (hsides : grid.sides = 1 ∨ grid.sides = 2)
    {c : GridCell} {cell : BinCell K N} (hin : grid.inside c = true) (hcuts : Cuts e shape grid a b d c cell)
    {heights : Set N}
    (hheights : ∀ w ∈ Slots.about (up e shape grid a b d c.level) (tall e shape grid a b d c.level), w ∈ heights) :
    cell.cell e ⊆ above a b d heights := by
  intro p hp
  obtain ⟨halong,hback,hup⟩ := hcuts.mem_cell.mp hp
  obtain ⟨⟨hb1,hb2⟩,-⟩ := inside_iff.mp hin
  obtain ⟨h0,h1⟩ := nth_bounds hin
  obtain ⟨hi0,hi1⟩ := index_bounds hsides hin
  have hshare := share_pos (e := e) h hgrid c.level
  have hbay : 0 < run e a b/grid.bays := div_pos (run_pos h.long) (Int.cast_pos.mpr hgrid.bays)
  have hslot := Slots.part_within hshare (across_mul_share hgrid c.level) h0 h1 halong
  have hlength := Slots.slot_within hbay (n := grid.bays) (by omega) (by omega) hslot
  have hdepth := Slots.slot_within (slab_pos h hgrid) hi0 hi1 hback
  rw [bays_mul hgrid] at hlength
  rw [slabs_mul_slab hgrid] at hdepth
  exact (h.mem_above heights p).mpr ⟨hlength,hdepth,hheights _ hup⟩

/-- Above every point of the rectangle there is a cell of each level. -/
theorem exists_over (h : Rectangle shape a b d) (hgrid : grid.Positive) (hsides : grid.sides = 1 ∨ grid.sides = 2)
    {level : ℤ} (hlevel : 1 ≤ level ∧ level ≤ grid.levels) {heights : Set N} {p : N × N × N}
    (hp : p ∈ above a b d heights)
    (hup : p.2.2 ∈ Slots.about (up e shape grid a b d level) (tall e shape grid a b d level)) :
    ∃ c, c.level = level ∧ ∀ bin : MapBin K, bin.toGridCell = c →
      ∃ cell, cellBox e shape grid bin = some cell ∧ p ∈ cell.cell e := by
  obtain ⟨⟨hs0,hs1⟩,⟨ht0,ht1⟩,-⟩ := (h.mem_above (e := e) heights p).mp hp
  rw [← bays_mul (e := e) hgrid] at hs1
  rw [← slabs_mul_slab (e := e) hgrid] at ht1
  obtain ⟨bay,j,hb0,hb1,hj0,hj1,halong⟩ := Slots.exists_part hgrid.bays (hgrid.across_pos level)
    (across_mul_share hgrid level) hs0 hs1
  obtain ⟨i,hi0,hi1,hback⟩ := Slots.exists_slot (mul_pos (by omega) hgrid.rows) ht0 ht1
  obtain ⟨c,hin,hclevel,hbay,hindex,hnth⟩ := exists_cell hsides hlevel ⟨hb0,hb1⟩ ⟨hi0,hi1⟩ ⟨hj0,hj1⟩
  refine ⟨c,hclevel,?_⟩
  rintro bin rfl
  obtain ⟨cell,hcell,hcuts⟩ := cellBox_cuts (e := e) h hin
  refine ⟨cell,hcell,hcuts.mem_cell.mpr ?_⟩
  rw [hclevel,hbay,hindex,hnth,add_sub_cancel_right]
  exact ⟨halong,hback,hup⟩

/-- A cell's middle is inside it. -/
theorem Cuts.centre_mem (h : Cuts e shape grid a b d bin cell) (hrect : Rectangle shape a b d) (hgrid : grid.Positive) :
    cell.centre ∈ cell.inner e := by
  have hshare := share_pos (e := e) hrect hgrid bin.level
  have hslab := slab_pos (e := e) hrect hgrid
  have htall := tall_pos (e := e) hrect hgrid bin.level
  rw [BinCell.inner,Set.mem_ofPred_eq,h.size]
  simp only [cellFill_mul_div,BinCell.lengthwise,BinCell.depthwise,BinCell.upwards,sub_self,zero_mul,add_zero,
    abs_zero]
  exact ⟨by linarith,by linarith,by linarith⟩

variable (e shape grid a b d) in
/-- Bins of some of a grid's cells have boxes of their own: no two share an inner point of
their cells, or any point of what is drawn, each is above the rectangle at such heights, and
every point above it at those to fill is in one's cell. -/
structure CutUp (which : GridCell → Prop) (within filled : Set N) : Prop where
  apart : ∀ (bin bin' : MapBin K) (cell cell' : BinCell K N), which bin.toGridCell → which bin'.toGridCell →
    bin.toGridCell ≠ bin'.toGridCell → cellBox e shape grid bin = some cell → cellBox e shape grid bin' = some cell' →
    Disjoint (cell.inner e) (cell'.inner e) ∧ Disjoint (cell.drawn e) (cell'.drawn e)
  within : ∀ (bin : MapBin K) (cell : BinCell K N), which bin.toGridCell → cellBox e shape grid bin = some cell →
    cell.cell e ⊆ above a b d within
  fills : ∀ p ∈ above a b d filled, ∃ c, which c ∧ ∀ bin : MapBin K, bin.toGridCell = c →
    ∃ cell, cellBox e shape grid bin = some cell ∧ p ∈ cell.cell e

variable (e a b d) in
/-- Straight ahead of each point of a cell, on a face, there is one of its points. -/
def Reaches (cell : BinCell K N) (face : N) : Prop :=
  (cell.cell e).Nonempty ∧ ∀ s t w, at3 a b d s t w ∈ cell.cell e → at3 a b d s face w ∈ cell.cell e

/-- Cells that are one when they are of a level and share an inner point are apart. -/
theorem apart_of_level (h : Rectangle shape a b d) (hgrid : grid.Positive) (hsides : grid.sides = 1 ∨ grid.sides = 2)
    {bin bin' : MapBin K} {cell cell' : BinCell K N} (hne : bin.toGridCell ≠ bin'.toGridCell)
    (hcell : cellBox e shape grid bin = some cell) (hcell' : cellBox e shape grid bin' = some cell')
    (hlevel : ∀ p ∈ cell.inner e, p ∈ cell'.inner e → bin.level = bin'.level) :
    Disjoint (cell.inner e) (cell'.inner e) ∧ Disjoint (cell.drawn e) (cell'.drawn e) := by
  obtain ⟨hin,hcuts⟩ := cellBox_some h hcell
  obtain ⟨hin',hcuts'⟩ := cellBox_some h hcell'
  have hapart : Disjoint (cell.inner e) (cell'.inner e) := by
    rw [Set.disjoint_left]
    intro p hp hp'
    exact hne (cell_of_shared h hgrid hsides hin hin' hcuts hcuts' hp hp' (hlevel p hp hp'))
  exact ⟨hapart,hapart.mono (hcuts.drawn_subset h hgrid) (hcuts'.drawn_subset h hgrid)⟩

/-- How tall and how high a solid place's cells are. -/
theorem mem_about_up (hsolid : shape.solid = true) (hheight : 0 < shape.height) {level : ℤ} {w : N} :
    (w ∈ Slots.about (up e shape grid a b d level) (tall e shape grid a b d level) ↔
      w-shape.z ∈ Slots.about (Slots.middle (shape.height/grid.levels) (level-1)) (shape.height/grid.levels)) ∧
    (w ∈ Slots.inside (up e shape grid a b d level) (tall e shape grid a b d level) ↔
      w-shape.z ∈ Slots.inside (Slots.middle (shape.height/grid.levels) (level-1)) (shape.height/grid.levels)) := by
  have htall : tall e shape grid a b d level = shape.height/grid.levels := if_pos ⟨hsolid,hheight⟩
  have hup : up e shape grid a b d level = shape.z+((level-1 : ℤ) : N)*tall e shape grid a b d level+
      tall e shape grid a b d level/2 := if_pos ⟨hsolid,hheight⟩
  have hoff : w-(shape.z+((level-1 : ℤ) : N)*(shape.height/grid.levels)+shape.height/grid.levels/2) =
      w-shape.z-Slots.middle (shape.height/grid.levels) (level-1) := by
    rw [Slots.middle]
    ring
  rw [hup,htall]
  simp only [Slots.about,Slots.inside,Set.mem_ofPred_eq,hoff,and_self]

/-- A solid place's bins cut its whole box. -/
theorem cutUp_solid (h : Rectangle shape a b d) (hgrid : grid.Positive) (hsides : grid.sides = 1 ∨ grid.sides = 2)
    (hsolid : shape.solid = true) (hheight : 0 < shape.height) :
    CutUp e shape grid a b d (fun _ => True) (Set.Icc shape.z (shape.z+shape.height))
      (Set.Icc shape.z (shape.z+shape.height)) := by
  have hlevels : (0 : N) < grid.levels := Int.cast_pos.mpr hgrid.levels
  have hlevel : 0 < shape.height/grid.levels := div_pos hheight hlevels
  have hheights : (grid.levels : N)*(shape.height/grid.levels) = shape.height := mul_div_cancel₀ _ hlevels.ne'
  refine ⟨?_,?_,?_⟩
  · intro bin bin' cell cell' _ _ hne hcell hcell'
    obtain ⟨-,hcuts⟩ := cellBox_some h hcell
    obtain ⟨-,hcuts'⟩ := cellBox_some h hcell'
    refine apart_of_level h hgrid hsides hne hcell hcell' fun p hp hp' => ?_
    have hup := (mem_about_up hsolid hheight).2.mp (hcuts.mem_inner.mp hp).2.2
    have hup' := (mem_about_up hsolid hheight).2.mp (hcuts'.mem_inner.mp hp').2.2
    have := Slots.slot_unique hlevel hup hup'
    omega
  · intro bin cell _ hcell
    obtain ⟨hin,hcuts⟩ := cellBox_some h hcell
    refine hcuts.within h hgrid hsides hin fun w hw => ?_
    obtain ⟨-,⟨hl1,hl2⟩,-⟩ := inside_iff.mp hin
    obtain ⟨hlow,hhigh⟩ := Slots.slot_within hlevel (n := grid.levels) (by omega) (by omega)
      ((mem_about_up hsolid hheight).1.mp hw)
    exact ⟨by linarith,by linarith⟩
  · intro p hp
    obtain ⟨-,-,hlow,hhigh⟩ := (h.mem_above (e := e) _ p).mp hp
    obtain ⟨l,hl0,hl1,hslot⟩ := Slots.exists_slot hgrid.levels (w := shape.height/grid.levels) (x := p.2.2-shape.z)
      (by linarith) (by linarith)
    have hup : p.2.2 ∈ Slots.about (up e shape grid a b d (l+1)) (tall e shape grid a b d (l+1)) := by
      rw [(mem_about_up hsolid hheight).1,add_sub_cancel_right]
      exact hslot
    obtain ⟨c,-,hc⟩ := exists_over h hgrid hsides (by omega) hp hup
    exact ⟨c,trivial,hc⟩

/-- A floor's bins, of a level, lie on it and cover it. -/
theorem cutUp_floor (h : Rectangle shape a b d) (hgrid : grid.Positive) (hsides : grid.sides = 1 ∨ grid.sides = 2)
    (hfloor : shape.solid = false) {level : ℤ} (hlevel : 1 ≤ level ∧ level ≤ grid.levels) :
    CutUp e shape grid a b d (fun c => c.level = level) (Set.Ici shape.z) {shape.z} := by
  have hup : ∀ l, up e shape grid a b d l = shape.z+tall e shape grid a b d l/2 := by
    intro l
    rw [up,if_neg]
    simp [hfloor]
  refine ⟨?_,?_,?_⟩
  · intro bin bin' cell cell' hl hl' hne hcell hcell'
    exact apart_of_level h hgrid hsides hne hcell hcell' fun _ _ _ => hl.trans hl'.symm
  · intro bin cell _ hcell
    obtain ⟨hin,hcuts⟩ := cellBox_some h hcell
    refine hcuts.within h hgrid hsides hin fun w hw => ?_
    rw [hup,Slots.mem_about] at hw
    exact Set.mem_Ici.mpr (by linarith)
  · intro p hp
    obtain ⟨-,-,hz⟩ := (h.mem_above (e := e) _ p).mp hp
    refine exists_over h hgrid hsides hlevel hp ?_
    have htall := tall_pos (e := e) h hgrid level
    rw [hup,Slots.mem_about,Set.mem_singleton_iff.mp hz]
    constructor <;> linarith

/-- The first row of a face reaches it. -/
theorem reaches_face (h : Rectangle shape a b d) (hgrid : grid.Positive) {bin : MapBin K} {cell : BinCell K N}
    (hcell : cellBox e shape grid bin = some cell) (hrow : bin.row = 1) :
    (bin.side = 1 → Reaches e a b d cell 0) ∧
      (bin.side = 2 → Reaches e a b d cell 1) := by
  obtain ⟨hin,hcuts⟩ := cellBox_some h hcell
  have hslab := slab_pos (e := e) h hgrid
  have hsome : (cell.cell e).Nonempty := by
    refine ⟨cell.centre,hcuts.mem_cell.mpr ?_⟩
    obtain ⟨h1,h2,h3⟩ := hcuts.mem_inner.mp (hcuts.centre_mem h hgrid)
    exact ⟨Slots.inside_subset_about h1,Slots.inside_subset_about h2,Slots.inside_subset_about h3⟩
  have hmove : ∀ face : N, face*run e a d ∈ Slots.about
      (Slots.middle (slab e grid a d) (index (max 1 grid.sides*grid.rows) bin.toGridCell)) (slab e grid a d) →
      Reaches e a b d cell face := by
    refine fun face hface => ⟨hsome,fun s t w hp => ?_⟩
    obtain ⟨hs,-,hw⟩ := hcuts.mem_cell.mp hp
    refine hcuts.mem_cell.mpr ⟨?_,?_,hw⟩
    · rwa [(h.off_at3 s face w).1,← (h.off_at3 s t w).1]
    · rwa [(h.off_at3 s face w).2]
  constructor
  · intro hside
    apply hmove
    have hindex : index (max 1 grid.sides*grid.rows) bin.toGridCell = 0 := by
      simp [index,hside,hrow]
    rw [hindex,Slots.mem_about_slot,Int.cast_zero]
    constructor <;> linarith
  · intro hside
    apply hmove
    have hindex : index (max 1 grid.sides*grid.rows) bin.toGridCell = max 1 grid.sides*grid.rows-1 := by
      simp [index,hside,hrow]
    rw [hindex,Slots.mem_about_slot,one_mul,← slabs_mul_slab (e := e) hgrid]
    push_cast
    constructor <;> linarith

/-- The cells of a place's bins: a solid place's cut its box from end to end, a floor's lie on
it and cover it level by level, and those of a face's first row reach it. -/
theorem cells_tile (e : Exact N) {shape : PlanShape K N} {grid : LayoutPlace K} {a b d : N × N}
    (hrect : Rectangle shape a b d) (hheight : 0 < shape.height) (hgrid : grid.Positive)
    (hsides : grid.sides = 1 ∨ grid.sides = 2) :
    (∀ bin, (cellBox e shape grid bin).isSome = true ↔ grid.inside bin.toGridCell = true) ∧
    (shape.solid = true → CutUp e shape grid a b d (fun _ => True) (Set.Icc shape.z (shape.z+shape.height))
      (Set.Icc shape.z (shape.z+shape.height))) ∧
    (shape.solid = false → ∀ level, 1 ≤ level ∧ level ≤ grid.levels →
      CutUp e shape grid a b d (fun c => c.level = level) (Set.Ici shape.z) {shape.z}) ∧
    ∀ bin cell, cellBox e shape grid bin = some cell → bin.row = 1 →
      (bin.side = 1 → Reaches e a b d cell 0) ∧ (bin.side = 2 → Reaches e a b d cell 1) :=
  ⟨cellBox_isSome hrect,fun hsolid => cutUp_solid hrect hgrid hsides hsolid hheight,
    fun hfloor _ hlevel => cutUp_floor hrect hgrid hsides hfloor hlevel,
    fun _ _ hcell hrow => reaches_face hrect hgrid hcell hrow⟩

end

/-- The real numbers' own lengths and angles. -/
noncomputable def exactReal : Exact ℝ where
  hypot x y := √(x*x+y*y)
  atan2 y x := Complex.arg ⟨x,y⟩
  cos := Real.cos
  sin := Real.sin
  hypot_nonneg x y := Real.sqrt_nonneg _
  hypot_mul_self x y := Real.mul_self_sqrt (add_nonneg (mul_self_nonneg x) (mul_self_nonneg y))
  cos_atan2 x y h := by
    have hnorm : ‖(⟨x,y⟩ : ℂ)‖ = 1 := by
      rw [Complex.norm_def,Complex.normSq_mk,h,Real.sqrt_one]
    rw [Complex.cos_arg (by rw [← norm_ne_zero_iff,hnorm]; exact one_ne_zero),hnorm,div_one]
  sin_atan2 x y h := by
    have hnorm : ‖(⟨x,y⟩ : ℂ)‖ = 1 := by
      rw [Complex.norm_def,Complex.normSq_mk,h,Real.sqrt_one]
    rw [Complex.sin_arg,hnorm,div_one]

/-- A rack turned on its site, five by five and two tall. -/
noncomputable def turnedRack : PlanShape ℕ ℝ := ⟨0,"Rack",true,0,[(0,0),(3,4),(-1,7),(-4,3)],0,2,Frame.site⟩

/-- Two bays, two levels, the lower with two bins to a bay, and a face on each side. -/
def twoSided : LayoutPlace ℕ := ⟨0,2,2,1,2,[2,1]⟩

theorem turnedRack_tiled :
    (∀ bin, (cellBox exactReal turnedRack twoSided bin).isSome = true ↔ twoSided.inside bin.toGridCell = true) ∧
    (turnedRack.solid = true → CutUp exactReal turnedRack twoSided (0,0) (3,4) (-4,3) (fun _ => True)
      (Set.Icc turnedRack.z (turnedRack.z+turnedRack.height)) (Set.Icc turnedRack.z (turnedRack.z+turnedRack.height))) ∧
    (turnedRack.solid = false → ∀ level, 1 ≤ level ∧ level ≤ twoSided.levels →
      CutUp exactReal turnedRack twoSided (0,0) (3,4) (-4,3) (fun c => c.level = level) (Set.Ici turnedRack.z)
        {turnedRack.z}) ∧
    ∀ bin cell, cellBox exactReal turnedRack twoSided bin = some cell → bin.row = 1 →
      (bin.side = 1 → Reaches exactReal (0,0) (3,4) (-4,3) cell 0) ∧
        (bin.side = 2 → Reaches exactReal (0,0) (3,4) (-4,3) cell 1) :=
  cells_tile exactReal ⟨by norm_num [turnedRack],by norm_num,by simp,by simp⟩ (by norm_num [turnedRack])
    ⟨by decide,by decide,by decide,by decide⟩ (by decide)

/-- A floor one by one. -/
noncomputable def smallFloor : PlanShape ℕ ℝ := ⟨0,"Floor",false,0,[(0,0),(1,0),(1,1),(0,1)],0,1,Frame.site⟩

theorem smallFloor_rectangle (solid : Bool) :
    Rectangle { smallFloor with solid } (0,0) (1,0) (0,1) :=
  ⟨by norm_num [smallFloor],by norm_num,by simp,by simp⟩

/-- Bins cut alike share the inside of their cells. -/
theorem not_apart {shape : PlanShape K N} {grid : LayoutPlace K} {a b d : N × N} [IsStrictOrderedRing N] {e : Exact N}
    (h : Rectangle shape a b d) (hgrid : grid.Positive) {bin bin' : MapBin K}
    (hin : grid.inside bin.toGridCell = true) (hin' : grid.inside bin'.toGridCell = true)
    (hbay : bin.bay = bin'.bay) (hacross : grid.across bin.level = grid.across bin'.level)
    (hnth : nth (grid.across bin.level) bin.toGridCell = nth (grid.across bin.level) bin'.toGridCell)
    (hindex : index (max 1 grid.sides*grid.rows) bin.toGridCell = index (max 1 grid.sides*grid.rows) bin'.toGridCell)
    (hup : up e shape grid a b d bin.level = up e shape grid a b d bin'.level)
    (htall : tall e shape grid a b d bin.level = tall e shape grid a b d bin'.level) :
    ∃ cell cell', cellBox e shape grid bin = some cell ∧ cellBox e shape grid bin' = some cell' ∧
      ¬Disjoint (cell.inner e) (cell'.inner e) := by
  obtain ⟨cell,hcell,hcuts⟩ := cellBox_cuts (e := e) h hin
  obtain ⟨cell',hcell',hcuts'⟩ := cellBox_cuts (e := e) h hin'
  refine ⟨cell,cell',hcell,hcell',?_⟩
  rw [Set.not_disjoint_iff]
  refine ⟨cell.centre,hcuts.centre_mem h hgrid,hcuts'.mem_inner.mpr ?_⟩
  have hin := hcuts.mem_inner.mp (hcuts.centre_mem h hgrid)
  rw [share,hacross] at hin
  rw [hacross] at hnth
  rw [← hbay,← hnth,← hindex,← hup,← htall,share]
  exact hin

/-- A floor of two levels has the bins of both in one place, and a rack of three sides the
first and the third. -/
theorem levels_and_sides_overlap :
    (∃ cell cell', cellBox exactReal { smallFloor with solid := false } ⟨0,1,2,1,1,[]⟩ ⟨⟨1,1,1,1,1⟩,0⟩ = some cell ∧
      cellBox exactReal { smallFloor with solid := false } ⟨0,1,2,1,1,[]⟩ ⟨⟨1,2,1,1,1⟩,0⟩ = some cell' ∧
      ¬Disjoint (cell.inner exactReal) (cell'.inner exactReal)) ∧
    ∃ cell cell', cellBox exactReal { smallFloor with solid := true } ⟨0,1,1,1,3,[]⟩ ⟨⟨1,1,1,1,1⟩,0⟩ = some cell ∧
      cellBox exactReal { smallFloor with solid := true } ⟨0,1,1,1,3,[]⟩ ⟨⟨1,1,1,1,3⟩,0⟩ = some cell' ∧
      ¬Disjoint (cell.inner exactReal) (cell'.inner exactReal) := by
  constructor
  · refine not_apart (smallFloor_rectangle false) ⟨by decide,by decide,by decide,by decide⟩ (by decide) (by decide)
      (by decide) (by decide) (by decide) (by decide) ?_ ?_
    · simp [up,tall,share,LayoutPlace.across]
    · simp [tall,share,LayoutPlace.across]
  · exact not_apart (smallFloor_rectangle true) ⟨by decide,by decide,by decide,by decide⟩ (by decide) (by decide)
      (by decide) (by decide) (by decide) (by decide) rfl rfl

end Blocks
end Layout
end Spork
