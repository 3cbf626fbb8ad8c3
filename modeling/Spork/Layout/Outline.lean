import Spork.Lib.Polygon

/-! What is wrong with an outline (`layout.rs`), and that an outline nothing is wrong with is a
simple polygon.

A number is an exact one, so every corner is of finite numbers. How far from nothing still
counts as nothing is a tolerance; one of zero takes in zero only. -/
namespace Spork
namespace Layout

abbrev Point := ℚ × ℚ

/-- What is wrong with an outline. -/
inductive OutlineProblem
  | notPairs
  | fewCorners
  | edgesMeet (a b c d : Point)
  | noArea
  deriving DecidableEq

/-- How a problem is told, by how a number is printed. -/
def OutlineProblem.text (shown : ℚ → List Char) : OutlineProblem → List Char
  | .notPairs => "an outline is pairs of numbers".toList
  | .fewCorners => "an outline needs at least three corners".toList
  | .edgesMeet a b c d =>
    let point (p : Point) := shown p.1++",".toList++shown p.2
    "the edge from ".toList++point a++" to ".toList++point b++" meets the edge from ".toList++point c++
      " to ".toList++point d
  | .noArea => "the outline encloses no area".toList

def nearZero (tolerance v : ℚ) : Bool := decide (v = 0 ∨ |v| < tolerance)

def orient (tolerance : ℚ) (a b c : Point) : ℤ :=
  let v := (b.1-a.1)*(c.2-a.2)-(b.2-a.2)*(c.1-a.1)
  if nearZero tolerance v then 0 else if v > 0 then 1 else -1

def onSegment (a b p : Point) : Bool :=
  decide (p.1 ≥ min a.1 b.1) && decide (p.1 ≤ max a.1 b.1) &&
    decide (p.2 ≥ min a.2 b.2) && decide (p.2 ≤ max a.2 b.2)

def segmentsMeet (tolerance : ℚ) (a b c d : Point) : Bool :=
  let o1 := orient tolerance a b c
  let o2 := orient tolerance a b d
  let o3 := orient tolerance c d a
  let o4 := orient tolerance c d b
  if o1 ≠ o2 ∧ o3 ≠ o4 then true
  else
    (decide (o1 = 0) && onSegment a b c) || (decide (o2 = 0) && onSegment a b d) ||
      (decide (o3 = 0) && onSegment c d a) || (decide (o4 = 0) && onSegment c d b)

/-- A flat list's numbers by twos. -/
def pairs : List ℚ → List Point
  | x :: y :: rest => (x,y) :: pairs rest
  | _ => []

/-- An outline's corners, without the first repeated as the last. -/
def corners (flat : List ℚ) : List Point :=
  let pts := pairs flat
  if pts.length > 1 ∧ pts.head? = pts.getLast? then pts.dropLast else pts

/-- The corners counted around and around. -/
def cornerAt (pts : List Point) (i : ℕ) : Point := pts.getD (i%pts.length) (0,0)

/-- The first two edges that meet, of those that are not neighbours. -/
def firstMeeting (tolerance : ℚ) (pts : List Point) : Option OutlineProblem :=
  let n := pts.length
  (List.range n).findSome? fun i => (List.range' (i+1) (n-(i+1))).findSome? fun j =>
    if j = i+1 ∨ (i = 0 ∧ j = n-1) then none
    else
      let (a,b) := (cornerAt pts i,cornerAt pts (i+1))
      let (c,d) := (cornerAt pts j,cornerAt pts (j+1))
      if segmentsMeet tolerance a b c d then some (.edgesMeet a b c d) else none

/-- Twice the area the corners go around. -/
def area2 (pts : List Point) : ℚ :=
  ((List.range pts.length).map fun i =>
    let (a,b) := (cornerAt pts i,cornerAt pts (i+1))
    a.1*b.2-b.1*a.2).sum

def outlineProblemBy (tolerance noArea : ℚ) (flat : List ℚ) : Option OutlineProblem :=
  if flat.length%2 ≠ 0 then some .notPairs
  else
    let pts := corners flat
    if pts.length < 3 then some .fewCorners
    else
      match firstMeeting tolerance pts with
      | some problem => some problem
      -- after the crossings: a bowtie's halves cancel
      | none => if nearZero noArea (area2 pts) then some .noArea else none

/-- The code's, with its own tolerances. -/
def outlineProblem (flat : List ℚ) : Option OutlineProblem :=
  outlineProblemBy (1/10^12) (1/10^9) flat

/-! ## When edges meet -/

theorem nearZero_zero {v : ℚ} : nearZero 0 v = true ↔ v = 0 := by
  simp only [nearZero,decide_eq_true_eq,or_iff_left_iff_imp]
  intro h
  exact absurd h (not_lt.mpr (abs_nonneg v))

theorem orient_eq_sign (a b c : Point) : orient 0 a b c = (SignType.sign (Polygon.cross a b c) : ℤ) := by
  unfold orient
  change (if nearZero 0 (Polygon.cross a b c) then (0 : ℤ) else if Polygon.cross a b c > 0 then 1 else -1) = _
  rcases lt_trichotomy (Polygon.cross a b c) 0 with h | h | h
  · rw [if_neg (mt nearZero_zero.mp h.ne),if_neg (not_lt.mpr h.le),sign_neg h]
    rfl
  · rw [if_pos (nearZero_zero.mpr h),h,sign_zero]
    rfl
  · rw [if_neg (mt nearZero_zero.mp h.ne'),if_pos h,sign_pos h]
    rfl

theorem onSegment_iff {a b p : Point} : onSegment a b p = true ↔ Polygon.InBox a b p := by
  simp only [onSegment,Bool.and_eq_true,decide_eq_true_eq,Polygon.InBox,Set.uIcc,Set.mem_Icc,ge_iff_le,and_assoc]

/-- A corner is told to be on an edge just when it is. -/
theorem on_edge_iff {a b p : Point} :
    (decide (orient 0 a b p = 0) && onSegment a b p) = true ↔ p ∈ segment ℚ a b := by
  have hzero (s : SignType) : (s : ℤ) = 0 ↔ s = 0 := by
    cases s <;> decide
  rw [Bool.and_eq_true,decide_eq_true_eq,onSegment_iff,orient_eq_sign,Polygon.mem_segment_iff,hzero,
    sign_eq_zero_iff]

/-- Two edges are told to meet just when they share a point. -/
theorem segments_meet_iff {a b c d : Point} :
    segmentsMeet 0 a b c d = true ↔ ∃ p, p ∈ segment ℚ a b ∧ p ∈ segment ℚ c d := by
  have hsigns (s t : SignType) : (s : ℤ) ≠ t ↔ s ≠ t := by
    cases s <;> cases t <;> decide
  rw [Polygon.meet_iff,← on_edge_iff,← on_edge_iff,← on_edge_iff,← on_edge_iff,segmentsMeet]
  simp only [orient_eq_sign,hsigns]
  split_ifs with h
  · simp [h]
  · simp only [Bool.or_eq_true,h,false_or,or_assoc]

/-! ## When an outline is accepted -/

theorem cornerAt_periodic (pts : List Point) : Function.Periodic (cornerAt pts) pts.length := by
  intro i
  rw [cornerAt,cornerAt,Nat.add_mod_right]

/-- No two edges are found to meet when all that are not neighbours are apart. -/
theorem firstMeeting_eq_none_iff {pts : List Point} : firstMeeting 0 pts = none ↔
    ∀ i j, i < j → j < pts.length → j ≠ i+1 → ¬(i = 0 ∧ j = pts.length-1) →
      Disjoint (Polygon.side (cornerAt pts) i) (Polygon.side (cornerAt pts) j) := by
  have hmeet (i j : ℕ) : Disjoint (Polygon.side (cornerAt pts) i) (Polygon.side (cornerAt pts) j) ↔
      ¬segmentsMeet 0 (cornerAt pts i) (cornerAt pts (i+1)) (cornerAt pts j) (cornerAt pts (j+1)) = true := by
    rw [segments_meet_iff,Set.disjoint_left]
    simp [Polygon.side]
  simp only [firstMeeting,List.findSome?_eq_none_iff,List.mem_range,List.mem_range'_1]
  constructor
  · intro hnone i j hij hj hnext hends
    have h := hnone i (by omega) j (by omega)
    rw [if_neg (by tauto)] at h
    rw [hmeet]
    intro hyes
    rw [if_pos hyes] at h
    cases h
  · intro hapart i hi j hj
    split_ifs with hskip hyes
    · rfl
    · exfalso
      have h := hapart i j (by omega) (by omega) (by tauto) (by tauto)
      exact (hmeet i j).mp h hyes
    · rfl

theorem area2_eq (pts : List Point) : area2 pts = 2*Polygon.area pts.length (cornerAt pts) := by
  rw [Polygon.area,mul_div_cancel₀ _ (two_ne_zero),area2]
  rfl

/-- Nothing is wrong with an outline, with no tolerance, just when it is pairs of numbers that
are the corners of a simple polygon. -/
theorem outline_accepted_iff (flat : List ℚ) : outlineProblemBy 0 0 flat = none ↔
    Even flat.length ∧ Polygon.Simple (corners flat).length (cornerAt (corners flat)) := by
  rw [Polygon.simple_iff (cornerAt_periodic _),← firstMeeting_eq_none_iff,Nat.even_iff]
  have harea : nearZero 0 (area2 (corners flat)) = true ↔
      Polygon.area (corners flat).length (cornerAt (corners flat)) = 0 := by
    rw [nearZero_zero,area2_eq]
    simp
  unfold outlineProblemBy
  by_cases hodd : flat.length%2 = 0
  · rw [if_neg (not_not.mpr hodd)]
    by_cases hfew : (corners flat).length < 3
    · simp only [if_pos hfew,reduceCtorEq,false_iff]
      omega
    · simp only [if_neg hfew]
      cases firstMeeting 0 (corners flat) with
      | some problem => simp
      | none =>
        by_cases hnone : nearZero 0 (area2 (corners flat)) = true
        · simp [hnone,harea.mp hnone]
        · simp only [hnone,hodd]
          refine iff_of_true rfl ⟨trivial,not_lt.mp hfew,trivial,?_⟩
          by_contra h
          exact hnone (harea.mpr h)
  · rw [if_pos hodd]
    simp [hodd]

/-- A bowtie's halves cancel, and it is its edges that are told of. -/
example : outlineProblem [0,0,4,4,4,0,0,4] = some (.edgesMeet (0,0) (4,4) (4,0) (0,4)) := by
  decide +kernel

end Layout
end Spork
