import Spork.Lib.Polygon

/-! The perspective map of the unit square onto a convex quadrilateral over an ordered field:
its depth is positive all over the square, and it takes the square inside. -/
namespace Spork
namespace Perspective

open Spork.Polygon (cross)

/-- Four corners, in turn. -/
structure Quad (α : Type*) where
  a : α × α
  b : α × α
  c : α × α
  d : α × α
  deriving DecidableEq, Repr

section Field

variable {α : Type*} [Field α]

/-- How depth grows across and down the square. -/
def across (q : Quad α) : α := cross q.c q.d q.a/cross q.b q.c q.d-1

def down (q : Quad α) : α := cross q.a q.b q.c/cross q.b q.c q.d-1

def depth (q : Quad α) (u v : α) : α := across q*u+down q*v+1

/-- A point of the square as the map takes it, before it is divided by its depth. -/
def flat (q : Quad α) (u v : α) : α × α :=
  ((q.b.1-q.a.1+across q*q.b.1)*u+(q.d.1-q.a.1+down q*q.d.1)*v+q.a.1,
    (q.b.2-q.a.2+across q*q.b.2)*u+(q.d.2-q.a.2+down q*q.d.2)*v+q.a.2)

/-- The map: a point of the square, across and down. -/
def place (q : Quad α) (u v : α) : α × α := ((flat q u v).1/depth q u v,(flat q u v).2/depth q u v)

/-- Corners weighed, each by its depth, as a point of the square is between them. -/
def mixed (q : Quad α) (u v a b c d : α) : α :=
  (1-u)*(1-v)*a+u*(1-v)*(depth q 1 0*b)+u*v*(depth q 1 1*c)+(1-u)*v*(depth q 0 1*d)

variable {q : Quad α}

theorem depth_split (q : Quad α) (u v : α) : depth q u v = mixed q u v 1 1 1 1 := by
  simp only [depth,mixed]
  ring

theorem depth_b (h : cross q.b q.c q.d ≠ 0) : depth q 1 0*cross q.b q.c q.d = cross q.c q.d q.a := by
  rw [depth,across]
  field_simp
  ring

theorem depth_d (h : cross q.b q.c q.d ≠ 0) : depth q 0 1*cross q.b q.c q.d = cross q.a q.b q.c := by
  rw [depth,down]
  field_simp
  ring

/-- The two halves of a quadrilateral are as large either way it is cut. -/
theorem cross_halves (q : Quad α) : cross q.a q.b q.c+cross q.c q.d q.a = cross q.b q.c q.d+cross q.d q.a q.b := by
  simp only [cross]
  ring

theorem depth_c (h : cross q.b q.c q.d ≠ 0) : depth q 1 1*cross q.b q.c q.d = cross q.d q.a q.b := by
  have hsum : depth q 1 1 = depth q 1 0+depth q 0 1-1 := by
    rw [depth,depth,depth]
    ring
  rw [hsum]
  linear_combination depth_b h+depth_d h+cross_halves q

/-- The corner over from the first is where the map's lines meet. -/
theorem meet_c (h : cross q.b q.c q.d ≠ 0) :
    depth q 1 0*q.b.1+depth q 0 1*q.d.1-q.a.1 = depth q 1 1*q.c.1 ∧
      depth q 1 0*q.b.2+depth q 0 1*q.d.2-q.a.2 = depth q 1 1*q.c.2 := by
  constructor
  · apply mul_right_cancel₀ h
    have hb := depth_b h
    have hc := depth_c h
    have hd := depth_d h
    have hpoint : cross q.c q.d q.a*q.b.1+cross q.a q.b q.c*q.d.1-q.a.1*cross q.b q.c q.d = cross q.d q.a q.b*q.c.1 := by
      simp only [cross]
      ring
    linear_combination hb*q.b.1+hd*q.d.1-hc*q.c.1+hpoint
  · apply mul_right_cancel₀ h
    have hb := depth_b h
    have hc := depth_c h
    have hd := depth_d h
    have hpoint : cross q.c q.d q.a*q.b.2+cross q.a q.b q.c*q.d.2-q.a.2*cross q.b q.c q.d = cross q.d q.a q.b*q.c.2 := by
      simp only [cross]
      ring
    linear_combination hb*q.b.2+hd*q.d.2-hc*q.c.2+hpoint

/-- What the map takes a point to is its corners weighed. -/
theorem flat_split (h : cross q.b q.c q.d ≠ 0) (u v : α) :
    flat q u v = (mixed q u v q.a.1 q.b.1 q.c.1 q.d.1,mixed q u v q.a.2 q.b.2 q.c.2 q.d.2) := by
  obtain ⟨hx,hy⟩ := meet_c h
  rw [flat]
  refine Prod.ext ?_ ?_
  · simp only [mixed,depth] at hx ⊢
    linear_combination u*v*hx
  · simp only [mixed,depth] at hy ⊢
    linear_combination u*v*hy

/-- The corners of the square go to the corners. -/
theorem place_corners (h : cross q.b q.c q.d ≠ 0) (hb : depth q 1 0 ≠ 0) (hc : depth q 1 1 ≠ 0) (hd : depth q 0 1 ≠ 0) :
    place q 0 0 = q.a ∧ place q 1 0 = q.b ∧ place q 1 1 = q.c ∧ place q 0 1 = q.d := by
  have hsplit := flat_split h
  refine ⟨?_,?_,?_,?_⟩
  · simp [place,flat,depth]
  · rw [place,hsplit]
    refine Prod.ext ?_ ?_ <;> simp [mixed,mul_div_cancel_left₀,hb]
  · rw [place,hsplit]
    refine Prod.ext ?_ ?_ <;> simp [mixed,mul_div_cancel_left₀,hc]
  · rw [place,hsplit]
    refine Prod.ext ?_ ?_ <;> simp [mixed,mul_div_cancel_left₀,hd]

end Field

/-! ## Over an ordered field -/

section Ordered

variable {α : Type*} [Field α] [LinearOrder α]

/-- Every corner turns the same way. -/
structure Quad.Convex (q : Quad α) : Prop where
  b : 0 < cross q.a q.b q.c
  c : 0 < cross q.b q.c q.d
  d : 0 < cross q.c q.d q.a
  a : 0 < cross q.d q.a q.b

/-- On the inner side of every edge, or on it. -/
structure Quad.Inside (q : Quad α) (p : α × α) : Prop where
  ab : 0 ≤ cross q.a q.b p
  bc : 0 ≤ cross q.b q.c p
  cd : 0 ≤ cross q.c q.d p
  da : 0 ≤ cross q.d q.a p

variable [IsStrictOrderedRing α] {q : Quad α} {u v : α}

/-- At each corner the depth is positive. -/
theorem depth_corners (h : q.Convex) : 0 < depth q 1 0 ∧ 0 < depth q 1 1 ∧ 0 < depth q 0 1 := by
  have hne : cross q.b q.c q.d ≠ 0 := h.c.ne'
  refine ⟨?_,?_,?_⟩
  · exact (mul_pos_iff_of_pos_right h.c).mp (depth_b hne ▸ h.d)
  · exact (mul_pos_iff_of_pos_right h.c).mp (depth_c hne ▸ h.a)
  · exact (mul_pos_iff_of_pos_right h.c).mp (depth_d hne ▸ h.b)

/-- A point of the square. -/
structure InSquare (u v : α) : Prop where
  left : 0 ≤ u
  right : u ≤ 1
  top : 0 ≤ v
  bottom : v ≤ 1

/-- Corners weighed are no less than the least of them, each with its depth. -/
theorem le_mixed (h : InSquare u v) {m a b c d : α} (ha : m ≤ a) (hb : m ≤ depth q 1 0*b) (hc : m ≤ depth q 1 1*c)
    (hd : m ≤ depth q 0 1*d) : m ≤ mixed q u v a b c d := by
  have hu : 0 ≤ 1-u := sub_nonneg.mpr h.right
  have hv : 0 ≤ 1-v := sub_nonneg.mpr h.bottom
  have hsum : m = (1-u)*(1-v)*m+u*(1-v)*m+u*v*m+(1-u)*v*m := by ring
  have h₁ := mul_le_mul_of_nonneg_left ha (mul_nonneg hu hv)
  have h₂ := mul_le_mul_of_nonneg_left hb (mul_nonneg h.left hv)
  have h₃ := mul_le_mul_of_nonneg_left hc (mul_nonneg h.left h.top)
  have h₄ := mul_le_mul_of_nonneg_left hd (mul_nonneg hu h.top)
  rw [mixed,hsum]
  linarith

/-- The depth is positive all over the square. -/
theorem depth_pos (hq : q.Convex) (h : InSquare u v) : 0 < depth q u v := by
  obtain ⟨hb,hc,hd⟩ := depth_corners hq
  have hleast : 0 < min 1 (min (depth q 1 0) (min (depth q 1 1) (depth q 0 1))) := by
    simp only [lt_min_iff]
    exact ⟨one_pos,hb,hc,hd⟩
  rw [depth_split]
  refine hleast.trans_le (le_mixed h ?_ ?_ ?_ ?_)
  · exact min_le_left _ _
  · rw [mul_one]
    exact (min_le_right _ _).trans (min_le_left _ _)
  · rw [mul_one]
    exact (min_le_right _ _).trans ((min_le_right _ _).trans (min_le_left _ _))
  · rw [mul_one]
    exact (min_le_right _ _).trans ((min_le_right _ _).trans (min_le_right _ _))

/-- The side of an edge a point goes to is its corners' sides weighed. -/
theorem cross_place (hne : cross q.b q.c q.d ≠ 0) (hdepth : depth q u v ≠ 0) (e f : α × α) :
    cross e f (place q u v)*depth q u v =
      mixed q u v (cross e f q.a) (cross e f q.b) (cross e f q.c) (cross e f q.d) := by
  have hx : (place q u v).1*depth q u v = mixed q u v q.a.1 q.b.1 q.c.1 q.d.1 := by
    rw [place,div_mul_cancel₀ _ hdepth,flat_split hne]
  have hy : (place q u v).2*depth q u v = mixed q u v q.a.2 q.b.2 q.c.2 q.d.2 := by
    rw [place,div_mul_cancel₀ _ hdepth,flat_split hne]
  have hone := depth_split q u v
  simp only [mixed] at hx hy hone ⊢
  simp only [cross]
  linear_combination (f.1-e.1)*(hy-e.2*hone)-(f.2-e.2)*(hx-e.1*hone)

/-- Every point of the square goes inside. -/
theorem place_inside (hq : q.Convex) (h : InSquare u v) : q.Inside (place q u v) := by
  obtain ⟨hb,hc,hd⟩ := depth_corners hq
  have hpos := depth_pos hq h
  have hside : ∀ e f, 0 ≤ cross e f q.a → 0 ≤ cross e f q.b → 0 ≤ cross e f q.c → 0 ≤ cross e f q.d →
      0 ≤ cross e f (place q u v) := by
    intro e f ha' hb' hc' hd'
    refine nonneg_of_mul_nonneg_left ?_ hpos
    rw [cross_place hq.c.ne' hpos.ne']
    exact le_mixed h ha' (mul_nonneg hb.le hb') (mul_nonneg hc.le hc') (mul_nonneg hd.le hd')
  have hstart : ∀ e f : α × α, cross e f e = 0 := fun e f => by
    rw [cross]
    ring
  have hend : ∀ e f : α × α, cross e f f = 0 := fun e f => by
    rw [cross]
    ring
  have hda : cross q.a q.b q.d = cross q.d q.a q.b := (Polygon.cross_rotate q.d q.a q.b)
  have hab : cross q.b q.c q.a = cross q.a q.b q.c := Polygon.cross_rotate q.a q.b q.c
  have hbc : cross q.c q.d q.b = cross q.b q.c q.d := Polygon.cross_rotate q.b q.c q.d
  have hcd : cross q.d q.a q.c = cross q.c q.d q.a := Polygon.cross_rotate q.c q.d q.a
  refine ⟨hside _ _ (hstart _ _).ge (hend _ _).ge hq.b.le (hda ▸ hq.a.le),hside _ _ (hab ▸ hq.b.le) (hstart _ _).ge
    (hend _ _).ge hq.c.le,hside _ _ hq.d.le (hbc ▸ hq.c.le) (hstart _ _).ge (hend _ _).ge,hside _ _ (hend _ _).ge hq.a.le
    (hcd ▸ hq.d.le) (hstart _ _).ge⟩

end Ordered

end Perspective
end Spork
