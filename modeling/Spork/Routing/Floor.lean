import Spork.Lib.LeastFirst

/-! Walking distance on the floor (`routing.rs`): the floor gridded into spots someone can
stand on, eight steps from each, and the shortest walk from one to each of several.

Where the floor is on the site is left out, as no distance depends on it. A length is an
exact fraction; the diagonal of a square is the one the source has for it. -/
namespace Spork
namespace Routing

/-- The floor as a grid of spots someone can stand on. -/
structure Floor where
  /-- How far apart neighbouring nodes are, in the site's cells. -/
  step : ℚ
  w : ℕ
  h : ℕ
  opened : List Bool
  step_pos : 0 < step
  w_pos : 0 < w

/-- Nodes one cell apart. -/
theorem one_cell : (0 : ℚ) < 1 := by norm_num

/-- The square root of two, as a double has it. -/
def sqrt2 : ℚ := 6369051672525773/4503599627370496

namespace Floor
variable (floor : Floor)

def isOpen (n : ℕ) : Bool := floor.opened.getD n false

/-- Whether there is floor at a place of the grid. -/
def openAt (x y : ℤ) : Bool :=
  decide (x ≥ 0 ∧ y ≥ 0 ∧ x < floor.w ∧ y < floor.h) && floor.isOpen (y.toNat*floor.w+x.toNat)

def moves : List (ℤ × ℤ) := [(1,0),(-1,0),(0,1),(0,-1),(1,1),(1,-1),(-1,1),(-1,-1)]

/-- The step from a place by a move: onto floor, and a diagonal one only between two
squares that are floor, so no step clips the corner of something solid. -/
def stepBy (i j : ℤ) (d : ℤ × ℤ) : Option (ℕ × ℚ) :=
  let (dx,dy) := d
  let x := i+dx
  let y := j+dy
  if floor.openAt x y = false then none
  else if dx ≠ 0 ∧ dy ≠ 0 ∧ ¬(floor.openAt (i+dx) j = true ∧ floor.openAt i (j+dy) = true) then none
  else
    let cost := if dx ≠ 0 ∧ dy ≠ 0 then sqrt2 else 1
    some (y.toNat*floor.w+x.toNat,cost*floor.step)

/-- How far along its row a node is, and which row it is in. -/
def col (n : ℕ) : ℤ := ((n%floor.w : ℕ) : ℤ)
def row (n : ℕ) : ℤ := ((n/floor.w : ℕ) : ℤ)

/-- The eight steps from a node, with their lengths. -/
def steps (n : ℕ) : List (ℕ × ℚ) := moves.filterMap (floor.stepBy (floor.col n) (floor.row n))

/-- What a walk has to be shorter by to be kept. -/
def pico : ℚ := 1/10^12

/-- The search of `distances`, at most so many nodes looked at. -/
def searchWithin (more source : ℕ) (wanted : Finset ℕ) : Option (LeastFirst.Search ℕ) :=
  LeastFirst.run floor.steps pico more wanted (LeastFirst.start source)

/-! ## Steps go both ways -/

theorem openAt_iff (x y : ℤ) : floor.openAt x y = true ↔
    0 ≤ x ∧ 0 ≤ y ∧ x < floor.w ∧ y < floor.h ∧
      floor.isOpen (y.toNat*floor.w+x.toNat) = true := by
  simp [openAt,and_assoc]

/-- The node of a place is at that place. -/
theorem node_place {x y : ℤ} (hx : 0 ≤ x) (hxw : x < floor.w) (hy : 0 ≤ y) :
    floor.col (y.toNat*floor.w+x.toNat) = x ∧ floor.row (y.toNat*floor.w+x.toNat) = y := by
  have hlt : x.toNat < floor.w := by omega
  unfold col row
  constructor
  · rw [Nat.add_comm,Nat.add_mul_mod_self_right,Nat.mod_eq_of_lt hlt]
    omega
  · rw [Nat.add_comm,Nat.add_mul_div_right _ _ floor.w_pos,Nat.div_eq_of_lt hlt]
    omega

/-- The place of a node has it. -/
theorem place_node (n : ℕ) : (floor.row n).toNat*floor.w+(floor.col n).toNat = n := by
  unfold col row
  rw [Int.toNat_natCast,Int.toNat_natCast]
  exact Nat.div_add_mod' n floor.w

theorem openAt_node {n : ℕ} (hn : n < floor.w*floor.h) :
    floor.openAt (floor.col n) (floor.row n) = floor.isOpen n := by
  have hx : n%floor.w < floor.w := Nat.mod_lt n floor.w_pos
  have hy : n/floor.w < floor.h := Nat.div_lt_of_lt_mul hn
  have hon : floor.col n ≥ 0 ∧ floor.row n ≥ 0 ∧ floor.col n < floor.w ∧ floor.row n < floor.h := by
    exact ⟨Int.natCast_nonneg _,Int.natCast_nonneg _,Int.ofNat_lt.mpr hx,Int.ofNat_lt.mpr hy⟩
  rw [openAt,floor.place_node,decide_eq_true hon,Bool.true_and]

theorem mem_steps {n m : ℕ} {len : ℚ} (h : (m,len) ∈ floor.steps n) :
    ∃ d ∈ moves, floor.stepBy (floor.col n) (floor.row n) d = some (m,len) := by
  simpa [steps] using h

theorem stepBy_some {i j : ℤ} {d : ℤ × ℤ} {m : ℕ} {len : ℚ} (h : floor.stepBy i j d = some (m,len)) :
    floor.openAt (i+d.1) (j+d.2) = true ∧
    (d.1 ≠ 0 → d.2 ≠ 0 → floor.openAt (i+d.1) j = true ∧ floor.openAt i (j+d.2) = true) ∧
    m = (j+d.2).toNat*floor.w+(i+d.1).toNat ∧
    len = (if d.1 ≠ 0 ∧ d.2 ≠ 0 then sqrt2 else 1)*floor.step := by
  simp only [stepBy] at h
  split_ifs at h with hopen hcorner hdiag
  all_goals
    simp only [Option.some.injEq,Prod.mk.injEq] at h
    refine ⟨by simpa using hopen,fun hx hy => ?_,h.1.symm,by simp [hdiag,← h.2]⟩
    by_contra hnot
    exact hcorner ⟨hx,hy,hnot⟩

theorem steps_nonneg (n : ℕ) : ∀ e ∈ floor.steps n, 0 ≤ e.2 := by
  rintro ⟨m,len⟩ he
  obtain ⟨d,-,hd⟩ := floor.mem_steps he
  obtain ⟨-,-,-,rfl⟩ := floor.stepBy_some hd
  have hcost : (0 : ℚ) ≤ if d.1 ≠ 0 ∧ d.2 ≠ 0 then sqrt2 else 1 := by
    split_ifs <;> norm_num [sqrt2]
  exact mul_nonneg hcost floor.step_pos.le

theorem steps_length (n : ℕ) : (floor.steps n).length ≤ 8 := List.length_filterMap_le _ _

theorem moves_neg {d : ℤ × ℤ} (h : d ∈ moves) : -d ∈ moves := by
  fin_cases h <;> decide

/-- A step leads onto the floor. -/
theorem steps_open {n m : ℕ} (h : LeastFirst.Adjacent floor.steps n m) :
    m < floor.w*floor.h ∧ floor.isOpen m = true := by
  obtain ⟨len,hlen⟩ := h
  obtain ⟨d,-,hd⟩ := floor.mem_steps hlen
  obtain ⟨hopen,-,rfl,-⟩ := floor.stepBy_some hd
  obtain ⟨hx,hy,hxw,hyh,hm⟩ := (floor.openAt_iff _ _).mp hopen
  refine ⟨?_,hm⟩
  generalize floor.col n+d.1 = X at hx hxw
  generalize floor.row n+d.2 = Y at hy hyh
  have hXlt : X.toNat < floor.w := by omega
  have hYlt : Y.toNat+1 ≤ floor.h := by omega
  calc Y.toNat*floor.w+X.toNat < Y.toNat*floor.w+floor.w := Nat.add_lt_add_left hXlt _
    _ = (Y.toNat+1)*floor.w := by ring
    _ ≤ floor.h*floor.w := Nat.mul_le_mul_right _ hYlt
    _ = floor.w*floor.h := Nat.mul_comm _ _

/-- A step can be taken back. -/
theorem steps_symm {n m : ℕ} (hn : n < floor.w*floor.h) (hopen : floor.isOpen n = true)
    (h : LeastFirst.Adjacent floor.steps n m) : LeastFirst.Adjacent floor.steps m n := by
  obtain ⟨len,hlen⟩ := h
  obtain ⟨d,hd,hstep⟩ := floor.mem_steps hlen
  obtain ⟨hto,hcorner,rfl,-⟩ := floor.stepBy_some hstep
  obtain ⟨hx,hy,hxw,-,-⟩ := (floor.openAt_iff _ _).mp hto
  obtain ⟨hcol,hrow⟩ := floor.node_place hx hxw hy
  have hhere : floor.openAt (floor.col n) (floor.row n) = true := by
    rw [floor.openAt_node hn,hopen]
  refine ⟨(if d.1 ≠ 0 ∧ d.2 ≠ 0 then sqrt2 else 1)*floor.step,?_⟩
  refine List.mem_filterMap.mpr ⟨-d,moves_neg hd,?_⟩
  rw [hcol,hrow]
  -- the two squares a diagonal passes between are the same both ways
  have hnot : ¬(d.1 ≠ 0 ∧ d.2 ≠ 0 ∧ ¬(floor.openAt (floor.col n) (floor.row n+d.2) = true ∧
      floor.openAt (floor.col n+d.1) (floor.row n) = true)) := by
    rintro ⟨hdx,hdy,hclip⟩
    exact hclip (hcorner hdx hdy).symm
  simp only [stepBy,add_neg_cancel_right,hhere,Bool.true_eq_false,if_false,
    ne_eq,neg_eq_zero,floor.place_node]
  exact if_neg hnot

/-- Where steps from a node of the floor lead is on it. -/
theorem reached_open {a n : ℕ} (ha : a < floor.w*floor.h ∧ floor.isOpen a = true)
    (h : LeastFirst.Reached floor.steps a n) : n < floor.w*floor.h ∧ floor.isOpen n = true := by
  induction h with
  | refl => exact ha
  | tail _ hadj _ => exact floor.steps_open hadj

/-- A walk can be walked back. -/
theorem reached_symm {a n : ℕ} (ha : a < floor.w*floor.h ∧ floor.isOpen a = true)
    (h : LeastFirst.Reached floor.steps a n) : LeastFirst.Reached floor.steps n a := by
  induction h with
  | refl => exact Relation.ReflTransGen.refl
  | tail hbefore hadj ih =>
    obtain ⟨hlt,hopen⟩ := floor.reached_open ha hbefore
    exact Relation.ReflTransGen.head (floor.steps_symm hlt hopen hadj) ih

/-! ## Distances -/

/-- As many nodes looked at as the floor can ask for. -/
def enough : ℕ := 8*(floor.w*floor.h)+2

/-- The search ends: it has a cost for what is reached of what is wanted, and for nothing
that is not. -/
theorem search_spec {a : ℕ} (ha : a < floor.w*floor.h ∧ floor.isOpen a = true) (wanted : Finset ℕ)
    (more : ℕ) (hmore : floor.enough ≤ more) :
    ∃ s, floor.searchWithin more a wanted = some s ∧
      (∀ n, s.best n ≠ ⊤ → LeastFirst.Reached floor.steps a n) ∧
      ∀ n ∈ wanted, LeastFirst.Reached floor.steps a n → s.best n ≠ ⊤ := by
  obtain ⟨s,hrun,hsound,hall⟩ := LeastFirst.run_spec (by norm_num [pico] : (0 : ℚ) ≤ pico) floor.steps_nonneg
    (fun n hn => Finset.mem_range.mpr (floor.reached_open ha hn).1) floor.steps_length more wanted
    ∅ 0 (LeastFirst.start a) LeastFirst.start_kept (by
      unfold enough at hmore
      simp only [LeastFirst.start,List.length_singleton,Finset.card_range,Finset.card_empty,Nat.sub_zero]
      omega)
  exact ⟨s,hrun,hsound,fun n hn hreach => hall n (Or.inl hn) hreach (by simp [LeastFirst.start])⟩

/-- The shortest walk from one node to each of `dest`; infinite for one that can't be
reached. The search has ended by `enough` (`search_spec`). -/
def distances (source : ℕ) (dest : List ℕ) : List (WithTop ℚ) :=
  if floor.isOpen source = false then dest.map fun _ => ⊤
  else
    match floor.searchWithin floor.enough source dest.toFinset with
    | none => dest.map fun _ => ⊤
    | some s => dest.map s.best

/-- A distance is of a walk there is, and there is one for every walk. -/
theorem distances_finite {a : ℕ} (ha : a < floor.w*floor.h) (dest : List ℕ) :
    ∃ best : ℕ → WithTop ℚ, floor.distances a dest = dest.map best ∧
      ∀ n ∈ dest, best n ≠ ⊤ ↔ floor.isOpen a = true ∧ LeastFirst.Reached floor.steps a n := by
  unfold distances
  cases hopen : floor.isOpen a with
  | false => exact ⟨fun _ => ⊤,rfl,by simp⟩
  | true =>
    obtain ⟨s,hs,hsound,hall⟩ := floor.search_spec ⟨ha,hopen⟩ dest.toFinset floor.enough le_rfl
    refine ⟨s.best,by simp [hs],fun n hn => ⟨fun h => ⟨rfl,hsound n h⟩,fun h => ?_⟩⟩
    exact hall n (List.mem_toFinset.mpr hn) h.2

end Floor

end Routing
end Spork
