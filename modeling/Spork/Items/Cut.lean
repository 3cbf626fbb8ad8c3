import Spork.Lib.Fallible
import Spork.Lib.Perspective

/-! A photograph cut to the face it is of (client/app/items/cut.ts), and the corners the server
takes (crates/server/src/cuts.rs), in exact arithmetic. -/
namespace Spork
namespace Cut

open Spork.Polygon (cross)
open Fallible (refuseIf)

/-- x, y as fractions of the photograph shown the right way up. -/
abbrev Point := ℚ × ℚ

/-- The face's top-left, top-right, bottom-right and bottom-left, in that order. -/
abbrev Quad := Perspective.Quad ℚ

def corners (q : Quad) : List Point := [q.a,q.b,q.c,q.d]

/-- `q[i % 4]`. -/
def corner (q : Quad) (i : ℕ) : Point := (corners q).getD (i%4) q.a

/-- The eight numbers the server keeps. -/
def toCorners (q : Quad) : List ℚ := (corners q).flatMap fun p => [p.1,p.2]

/-- A quarter turn clockwise: what was the face's left edge is now its top. -/
def turn (q : Quad) : Quad := ⟨q.d,q.a,q.b,q.c⟩

/-- Which way three points turn. -/
def turning (a b c : Point) : ℚ := (b.1-a.1)*(c.2-b.2)-(b.2-a.2)*(c.1-b.1)

/-- Twice the signed area so far, while the corners turn clockwise. -/
def wind (q : Quad) (twice : Option ℚ) (i : ℕ) : Option ℚ :=
  let a := corner q i
  let b := corner q (i+1)
  twice.bind fun twice => if turning a b (corner q (i+2)) ≤ 0 then none else some (twice+(a.1*b.2-b.1*a.2))

/-- The corners make a face: clockwise as the photograph is shown, not folded or crossed, and
round at least a hundredth of it. -/
def isFace (q : Quad) : Bool := ((List.range 4).foldl (wind q) (some 0)).any fun twice => twice/2 ≥ 1/100

/-! ## The map -/

/-- In the photograph's pixels. -/
def pixels (q : Quad) (width height : ℚ) : Quad :=
  let scaled (p : Point) : Point := (p.1*width,p.2*height)
  ⟨scaled q.a,scaled q.b,scaled q.c,scaled q.d⟩

/-- `dx1*dy2 - dx2*dy1`, of corners in pixels. -/
def det (q : Quad) : ℚ := (q.b.1-q.c.1)*(q.d.2-q.c.2)-(q.d.1-q.c.1)*(q.b.2-q.c.2)

/-- `g` and `h`, of corners in pixels: none for a parallelogram. -/
def terms (q : Quad) : ℚ × ℚ :=
  let dx1 := q.b.1-q.c.1
  let dx2 := q.d.1-q.c.1
  let dx3 := q.a.1-q.b.1+q.c.1-q.d.1
  let dy1 := q.b.2-q.c.2
  let dy2 := q.d.2-q.c.2
  let dy3 := q.a.2-q.b.2+q.c.2-q.d.2
  if dx3 ≠ 0 ∨ dy3 ≠ 0 then ((dx3*dy2-dx2*dy3)/det q,(dx1*dy3-dx3*dy1)/det q) else (0,0)

/-- What the map divides by. -/
def denominator (q : Quad) (width height u v : ℚ) : ℚ :=
  let t := terms (pixels q width height)
  t.1*u+t.2*v+1

/-- The map from the straightened face onto the photograph, across and down the face. -/
def projection (q : Quad) (width height u v : ℚ) : Point :=
  let p := pixels q width height
  let (g,h) := terms p
  let a := p.b.1-p.a.1+g*p.b.1
  let b := p.d.1-p.a.1+h*p.d.1
  let c := p.a.1
  let d := p.b.2-p.a.2+g*p.b.2
  let e := p.d.2-p.a.2+h*p.d.2
  let f := p.a.2
  let z := denominator q width height u v
  ((a*u+b*v+c)/z,(d*u+e*v+f)/z)

/-! ## The server's rule -/

/-- The smallest share of the photograph a face may cover. -/
def leastArea : ℚ := 1/100

/-- The points of eight numbers. -/
def points : List ℚ → List Point
  | x :: y :: rest => (x,y) :: points rest
  | _ => []

/-- Corners that make a face, or why they do not. -/
def checkCorners (cs : List ℚ) : Except String Unit := do
  refuseIf (cs.length ≠ 8) ("a face has four corners, eight numbers; this is "++toString cs.length)
  refuseIf (cs.any fun c => c < 0 ∨ c > 1) "each corner is a fraction of the photograph, from 0 to 1"
  let p := points cs
  let at' (i : ℕ) : Point := p.getD (i%4) (0,0)
  -- the shoelace: twice the signed area, positive when clockwise as shown
  let twice := ((List.range 4).map fun i => (at' i).1*(at' (i+1)).2-(at' (i+1)).1*(at' i).2).sum
  refuseIf (twice/2 < leastArea) "the corners enclose almost nothing, or run the wrong way round"
  -- convex: every turn round the face is the same way
  refuseIf ((List.range 4).any fun i => turning (at' i) (at' (i+1)) (at' (i+2)) ≤ 0)
    "the corners cross or fold in; a face's edges do not"

/-! ## What a face is -/

/-- Twice the area the corners are round, clockwise. -/
def twiceArea (q : Quad) : ℚ :=
  (q.a.1*q.b.2-q.b.1*q.a.2)+(q.b.1*q.c.2-q.c.1*q.b.2)+(q.c.1*q.d.2-q.d.1*q.c.2)+(q.d.1*q.a.2-q.a.1*q.d.2)

theorem turning_eq_cross (a b c : Point) : turning a b c = cross a b c := by
  rw [turning,cross]
  ring

/-- One corner's part of twice the area. -/
def edge (q : Quad) (i : ℕ) : ℚ := (corner q i).1*(corner q (i+1)).2-(corner q (i+1)).1*(corner q i).2

/-- A corner turns clockwise. -/
def Turns (q : Quad) (i : ℕ) : Prop := 0 < cross (corner q i) (corner q (i+1)) (corner q (i+2))

instance (q : Quad) (i : ℕ) : Decidable (Turns q i) := inferInstanceAs (Decidable (_ < _))

theorem wind_none (q : Quad) (is : List ℕ) : is.foldl (wind q) none = none := by
  induction is with
  | nil => rfl
  | cons i is ih => exact ih

/-- Winding round corners adds up their edges, while they turn. -/
theorem wind_fold (q : Quad) (is : List ℕ) (twice : ℚ) : is.foldl (wind q) (some twice) =
    if ∀ i ∈ is, Turns q i then some (twice+(is.map (edge q)).sum) else none := by
  induction is generalizing twice with
  | nil => simp
  | cons i is ih =>
    have hstep : wind q (some twice) i = if Turns q i then some (twice+edge q i) else none := by
      rw [wind,Option.bind_some,turning_eq_cross]
      by_cases hturns : Turns q i
      · rw [if_pos hturns,if_neg (not_le.mpr hturns)]
        rfl
      · rw [if_neg hturns,if_pos (not_lt.mp hturns)]
    rw [List.foldl_cons,hstep]
    by_cases hturns : Turns q i
    · rw [if_pos hturns,ih]
      simp only [List.forall_mem_cons,hturns,true_and,List.map_cons,List.sum_cons,add_assoc]
    · rw [if_neg hturns,wind_none,if_neg]
      exact fun hall => hturns (hall i List.mem_cons_self)

theorem turns_iff (q : Quad) : (∀ i ∈ List.range 4, Turns q i) ↔ q.Convex := by
  constructor
  · intro h
    exact ⟨h 0 (by decide),h 1 (by decide),h 2 (by decide),h 3 (by decide)⟩
  · intro h i hi
    have hlt := List.mem_range.mp hi
    interval_cases i
    · exact h.b
    · exact h.c
    · exact h.d
    · exact h.a

theorem edges_sum (q : Quad) : ((List.range 4).map (edge q)).sum = twiceArea q := by
  have hrange : List.range 4 = [0,1,2,3] := rfl
  have hedges : edge q 0 = q.a.1*q.b.2-q.b.1*q.a.2 ∧ edge q 1 = q.b.1*q.c.2-q.c.1*q.b.2 ∧
      edge q 2 = q.c.1*q.d.2-q.d.1*q.c.2 ∧ edge q 3 = q.d.1*q.a.2-q.a.1*q.d.2 := ⟨rfl,rfl,rfl,rfl⟩
  obtain ⟨h₀,h₁,h₂,h₃⟩ := hedges
  simp only [hrange,List.map_cons,List.map_nil,List.sum_cons,List.sum_nil,h₀,h₁,h₂,h₃,twiceArea]
  ring

/-- A face is convex, clockwise, and round a hundredth of the photograph. -/
theorem isFace_iff (q : Quad) : isFace q = true ↔ q.Convex ∧ 1/100 ≤ twiceArea q/2 := by
  rw [isFace,wind_fold,edges_sum,zero_add]
  by_cases hconvex : q.Convex
  · rw [if_pos ((turns_iff q).mpr hconvex)]
    simp [hconvex]
  · rw [if_neg fun hturns => hconvex ((turns_iff q).mp hturns)]
    simp [hconvex]

/-- A face turned is one still, and one that is turned is one. -/
theorem isFace_turn (q : Quad) : isFace (turn q) = isFace q := by
  have harea : twiceArea (turn q) = twiceArea q := by
    simp only [twiceArea,turn]
    ring
  have hconvex : (turn q).Convex ↔ q.Convex := ⟨fun h => ⟨h.c,h.d,h.a,h.b⟩,fun h => ⟨h.a,h.b,h.c,h.d⟩⟩
  rw [Bool.eq_iff_iff,isFace_iff,isFace_iff,harea,hconvex]

/-- Of fractions of the photograph the server takes those that make a face. -/
theorem checkCorners_iff (q : Quad) (h : ∀ c ∈ toCorners q, 0 ≤ c ∧ c ≤ 1) :
    checkCorners (toCorners q) = .ok () ↔ isFace q = true := by
  have hpoints : points (toCorners q) = corners q := rfl
  have hlength : (toCorners q).length = 8 := rfl
  have hcorner : ∀ i, (corners q).getD (i%4) (0,0) = corner q i := by
    intro i
    have hlt : i%4 < (corners q).length := Nat.mod_lt i (by decide)
    rw [corner,List.getD_eq_getElem _ _ hlt,List.getD_eq_getElem _ _ hlt]
  have hfractions : ¬(((toCorners q).any fun c => decide (c < 0 ∨ c > 1)) = true) := by
    rw [List.any_eq_true]
    rintro ⟨c,hc,hout⟩
    have hin := h c hc
    rcases of_decide_eq_true hout with hlow | hhigh
    · exact absurd hin.1 (not_le.mpr hlow)
    · exact absurd hin.2 (not_le.mpr hhigh)
  have hturns : (¬(((List.range 4).any fun i => decide (turning (corner q i) (corner q (i+1)) (corner q (i+2)) ≤ 0)) = true)) ↔
      q.Convex := by
    rw [← turns_iff,List.any_eq_true]
    simp only [turning_eq_cross,decide_eq_true_eq,not_exists,not_and,not_le,Turns]
  have hedges : ((List.range 4).map fun i => (corner q i).1*(corner q (i+1)).2-(corner q (i+1)).1*(corner q i).2).sum =
      twiceArea q := edges_sum q
  rw [checkCorners]
  simp only [Fallible.then_ok_iff,Fallible.refuseIf_ok]
  rw [hpoints]
  simp only [hcorner]
  rw [hedges,hturns,isFace_iff]
  simp only [hlength,ne_eq,not_true_eq_false,not_false_eq_true,true_and,hfractions,leastArea,not_lt,Bool.false_eq_true]
  exact and_comm

/-! ## How a face is straightened -/

/-- In pixels a face is convex still. -/
theorem pixels_convex {q : Quad} (h : q.Convex) {width height : ℚ} (hw : 0 < width) (hh : 0 < height) :
    (pixels q width height).Convex := by
  have hscale : ∀ a b c : Point, cross (a.1*width,a.2*height) (b.1*width,b.2*height) (c.1*width,c.2*height) =
      width*height*cross a b c := by
    intro a b c
    simp only [cross]
    ring
  have hpos := mul_pos hw hh
  refine ⟨?_,?_,?_,?_⟩
  · exact (hscale q.a q.b q.c).symm ▸ mul_pos hpos h.b
  · exact (hscale q.b q.c q.d).symm ▸ mul_pos hpos h.c
  · exact (hscale q.c q.d q.a).symm ▸ mul_pos hpos h.d
  · exact (hscale q.d q.a q.b).symm ▸ mul_pos hpos h.a

theorem det_eq (q : Quad) : det q = -cross q.b q.c q.d := by
  simp only [det,cross]
  ring

/-- The terms solved for are how depth grows, a parallelogram's too. -/
theorem terms_eq {q : Quad} (h : cross q.b q.c q.d ≠ 0) : terms q = (Perspective.across q,Perspective.down q) := by
  have hg : (q.a.1-q.b.1+q.c.1-q.d.1)*(q.d.2-q.c.2)-(q.d.1-q.c.1)*(q.a.2-q.b.2+q.c.2-q.d.2) =
      cross q.b q.c q.d-cross q.c q.d q.a := by
    simp only [cross]
    ring
  have hh : (q.b.1-q.c.1)*(q.a.2-q.b.2+q.c.2-q.d.2)-(q.a.1-q.b.1+q.c.1-q.d.1)*(q.b.2-q.c.2) =
      cross q.b q.c q.d-cross q.a q.b q.c := by
    simp only [cross]
    ring
  have hsolved : terms q = ((cross q.b q.c q.d-cross q.c q.d q.a)/det q,(cross q.b q.c q.d-cross q.a q.b q.c)/det q) := by
    rw [terms]
    split
    · rw [hg,hh]
    · rename_i hflat
      obtain ⟨hx,hy⟩ := not_or.mp hflat
      rw [not_not] at hx hy
      rw [hx,hy] at hg hh
      simp only [zero_mul,mul_zero,sub_zero] at hg hh
      rw [← hg,← hh,zero_div]
  rw [hsolved,det_eq,Perspective.across,Perspective.down]
  refine Prod.ext ?_ ?_
  · dsimp only
    field_simp
    ring
  · dsimp only
    field_simp
    ring

theorem denominator_eq {q : Quad} {width height : ℚ} (h : (pixels q width height).Convex) (u v : ℚ) :
    denominator q width height u v = Perspective.depth (pixels q width height) u v := by
  rw [denominator,terms_eq h.c.ne']
  rfl

theorem projection_eq {q : Quad} {width height : ℚ} (h : (pixels q width height).Convex) (u v : ℚ) :
    projection q width height u v = Perspective.place (pixels q width height) u v := by
  rw [projection,denominator_eq h,terms_eq h.c.ne']
  rfl

/-- The corners of a straightened face go to its corners, and the rest of it inside them. -/
structure Straightens (q : Quad) (width height : ℚ) : Prop where
  det_ne : det (pixels q width height) ≠ 0
  depth : ∀ u v, Perspective.InSquare u v → 0 < denominator q width height u v
  a : projection q width height 0 0 = (pixels q width height).a
  b : projection q width height 1 0 = (pixels q width height).b
  c : projection q width height 1 1 = (pixels q width height).c
  d : projection q width height 0 1 = (pixels q width height).d
  inside : ∀ u v, Perspective.InSquare u v → (pixels q width height).Inside (projection q width height u v)

/-- Wherever corners make a face it is straightened soundly, and they make one however they are
turned, and just where the server takes them. -/
theorem face_straightened (q : Quad) :
    (isFace q = true → ∀ width height, 0 < width → 0 < height → Straightens q width height) ∧
      isFace (turn q) = isFace q ∧ turn (turn (turn (turn q))) = q ∧
      ((∀ c ∈ toCorners q, 0 ≤ c ∧ c ≤ 1) → (isFace q = true ↔ checkCorners (toCorners q) = .ok ())) := by
  refine ⟨fun hface width height hw hh => ?_,isFace_turn q,rfl,fun h => (checkCorners_iff q h).symm⟩
  have hconvex := pixels_convex ((isFace_iff q).mp hface).1 hw hh
  obtain ⟨hb,hc,hd⟩ := Perspective.depth_corners hconvex
  obtain ⟨ha',hb',hc',hd'⟩ := Perspective.place_corners hconvex.c.ne' hb.ne' hc.ne' hd.ne'
  refine ⟨?_,fun u v huv => ?_,?_,?_,?_,?_,fun u v huv => ?_⟩
  · rw [det_eq]
    exact neg_ne_zero.mpr hconvex.c.ne'
  · rw [denominator_eq hconvex]
    exact Perspective.depth_pos hconvex huv
  · rw [projection_eq hconvex,ha']
  · rw [projection_eq hconvex,hb']
  · rw [projection_eq hconvex,hc']
  · rw [projection_eq hconvex,hd']
  · rw [projection_eq hconvex]
    exact Perspective.place_inside hconvex huv

/-- A carton's front, photographed from its left. -/
def front : Quad := ⟨(1/5,1/10),(4/5,3/10),(4/5,7/10),(1/5,9/10)⟩

theorem front_straightened : isFace front = true ∧ Straightens front 4000 3000 ∧ checkCorners (toCorners front) = .ok () := by
  have hface : isFace front = true := by decide +kernel
  have hcorners : ∀ c ∈ toCorners front, 0 ≤ c ∧ c ≤ 1 := by decide +kernel
  obtain ⟨hsound,-,-,hserver⟩ := face_straightened front
  exact ⟨hface,hsound hface 4000 3000 (by norm_num) (by norm_num),(hserver hcorners).mp hface⟩

end Cut
end Spork
