import Mathlib

/-! Closed polygons in the plane over an ordered field: when two sides share a point, and when
the sides make a simple polygon. -/
namespace Spork
namespace Polygon

variable {α : Type*} [Field α] [LinearOrder α] [IsStrictOrderedRing α]

/-- On which side of the line from `a` to `b` a point is: twice a signed area. -/
def cross (a b c : α × α) : α := (b.1-a.1)*(c.2-a.2)-(b.2-a.2)*(c.1-a.1)

/-- A point between two others in each coordinate. -/
def InBox (a b p : α × α) : Prop := p.1 ∈ Set.uIcc a.1 b.1 ∧ p.2 ∈ Set.uIcc a.2 b.2

/-! ## Segments -/

theorem mem_segment_iff_exists {a b p : α × α} : p ∈ segment α a b ↔
    ∃ t, 0 ≤ t ∧ t ≤ 1 ∧ p.1 = a.1+t*(b.1-a.1) ∧ p.2 = a.2+t*(b.2-a.2) := by
  rw [segment_eq_image']
  constructor
  · rintro ⟨t,ht,rfl⟩
    exact ⟨t,ht.1,ht.2,rfl,rfl⟩
  · rintro ⟨t,hzero,hone,hx,hy⟩
    exact ⟨t,⟨hzero,hone⟩,Prod.ext hx.symm hy.symm⟩

theorem mem_uIcc_iff_exists {x y z : α} : z ∈ Set.uIcc x y ↔ ∃ t, 0 ≤ t ∧ t ≤ 1 ∧ z = x+t*(y-x) := by
  rw [← segment_eq_uIcc,segment_eq_image']
  constructor
  · rintro ⟨t,ht,rfl⟩
    exact ⟨t,ht.1,ht.2,rfl⟩
  · rintro ⟨t,hzero,hone,hz⟩
    exact ⟨t,⟨hzero,hone⟩,hz.symm⟩

theorem cross_eq_zero_of_mem {a b p : α × α} (h : p ∈ segment α a b) : cross a b p = 0 := by
  obtain ⟨t,-,-,hx,hy⟩ := mem_segment_iff_exists.mp h
  rw [cross,hx,hy]
  ring

/-- A segment is the part of its line that is in its box. -/
theorem mem_segment_iff {a b p : α × α} : p ∈ segment α a b ↔ cross a b p = 0 ∧ InBox a b p := by
  constructor
  · intro h
    refine ⟨cross_eq_zero_of_mem h,?_⟩
    obtain ⟨t,hzero,hone,hx,hy⟩ := mem_segment_iff_exists.mp h
    exact ⟨mem_uIcc_iff_exists.mpr ⟨t,hzero,hone,hx⟩,mem_uIcc_iff_exists.mpr ⟨t,hzero,hone,hy⟩⟩
  · rintro ⟨hline,hx,hy⟩
    rw [mem_segment_iff_exists]
    rw [cross] at hline
    by_cases hupright : b.1-a.1 = 0
    · obtain ⟨s,-,-,hs⟩ := mem_uIcc_iff_exists.mp hx
      obtain ⟨t,hzero,hone,ht⟩ := mem_uIcc_iff_exists.mp hy
      refine ⟨t,hzero,hone,?_,ht⟩
      rw [hs,hupright]
      ring
    · obtain ⟨t,hzero,hone,ht⟩ := mem_uIcc_iff_exists.mp hx
      refine ⟨t,hzero,hone,ht,?_⟩
      apply mul_left_cancel₀ hupright
      rw [ht] at hline
      linear_combination hline

/-- The ends of each on different sides of the other: they cross. -/
theorem meet_of_sides {a b c d : α × α} (hcd : SignType.sign (cross a b c) ≠ SignType.sign (cross a b d))
    (hab : SignType.sign (cross c d a) ≠ SignType.sign (cross c d b)) :
    ∃ p, p ∈ segment α a b ∧ p ∈ segment α c d := by
  have hdet : cross a b c-cross a b d = -(cross c d a-cross c d b) := by
    simp only [cross]
    ring
  -- where a line is crossed, by how far the ends are from it
  have hpart {x y : α} (h : SignType.sign x ≠ SignType.sign y) : x-y ≠ 0 ∧ 0 ≤ x/(x-y) ∧ x/(x-y) ≤ 1 := by
    have hne : x ≠ y := by
      rintro rfl
      exact h rfl
    refine ⟨sub_ne_zero.mpr hne,?_⟩
    rcases lt_or_gt_of_ne hne with hlt | hlt
    · have hx : x ≤ 0 := by
        by_contra hpos
        rw [sign_pos (not_le.mp hpos),sign_pos ((not_le.mp hpos).trans hlt)] at h
        exact h rfl
      have hy : 0 ≤ y := by
        by_contra hneg
        rw [sign_neg (not_le.mp hneg),sign_neg (hlt.trans (not_le.mp hneg))] at h
        exact h rfl
      exact ⟨div_nonneg_of_nonpos hx (by linarith),(div_le_one_of_neg (by linarith)).mpr (by linarith)⟩
    · have hy : y ≤ 0 := by
        by_contra hpos
        rw [sign_pos (not_le.mp hpos),sign_pos ((not_le.mp hpos).trans hlt)] at h
        exact h rfl
      have hx : 0 ≤ x := by
        by_contra hneg
        rw [sign_neg (not_le.mp hneg),sign_neg (hlt.trans (not_le.mp hneg))] at h
        exact h rfl
      exact ⟨div_nonneg hx (by linarith),(div_le_one (by linarith)).mpr (by linarith)⟩
  obtain ⟨hne,hzero,hone⟩ := hpart hcd
  obtain ⟨hne',hzero',hone'⟩ := hpart hab
  refine ⟨(c.1+cross a b c/(cross a b c-cross a b d)*(d.1-c.1),c.2+cross a b c/(cross a b c-cross a b d)*(d.2-c.2)),
    ?_,mem_segment_iff_exists.mpr ⟨_,hzero,hone,rfl,rfl⟩⟩
  rw [mem_segment_iff_exists]
  refine ⟨_,hzero',hone',?_,?_⟩
  · rw [hdet,div_neg]
    field_simp
    simp only [cross]
    ring
  · rw [hdet,div_neg]
    field_simp
    simp only [cross]
    ring

/-- The parts on either side of a point that cuts a segment have different signs. -/
theorem sign_parts {t x : α} (hzero : 0 ≤ t) (hone : t ≤ 1) (hx : x ≠ 0) :
    SignType.sign (-(t*x)) ≠ SignType.sign ((1-t)*x) := by
  have hpart : 0 ≤ SignType.sign t := sign_nonneg_iff.mpr hzero
  have hrest : 0 ≤ SignType.sign (1-t) := sign_nonneg_iff.mpr (sub_nonneg.mpr hone)
  have hsome : SignType.sign t ≠ 0 ∨ SignType.sign (1-t) ≠ 0 := by
    rw [← not_and_or,sign_eq_zero_iff,sign_eq_zero_iff]
    rintro ⟨rfl,h⟩
    linarith
  have hsign : SignType.sign x ≠ 0 := sign_ne_zero.mpr hx
  rw [Left.sign_neg,sign_mul,sign_mul]
  revert hpart hrest hsome hsign
  generalize SignType.sign t = i
  generalize SignType.sign (1-t) = j
  generalize SignType.sign x = k
  cases i <;> cases j <;> cases k <;> decide

/-- Of two overlapping stretches of a line, one has an end of the other in it. -/
theorem overlap {u t k : α} (hu : 0 ≤ u) (hu' : u ≤ 1) (ht : 0 ≤ t) (ht' : t ≤ 1) :
    (0 ≤ u-t*k ∧ u-t*k ≤ 1) ∨ (0 ≤ u+(1-t)*k ∧ u+(1-t)*k ≤ 1) ∨
      (k ≠ 0 ∧ 0 ≤ -(u-t*k)/k ∧ -(u-t*k)/k ≤ 1) := by
  rcases le_or_gt 0 k with hk | hk
  · have hbefore := mul_nonneg ht hk
    have hafter := mul_nonneg (sub_nonneg.mpr ht') hk
    by_cases hstart : 0 ≤ u-t*k
    · exact .inl ⟨hstart,by linarith⟩
    · have hpos : 0 < k := by
        apply lt_of_le_of_ne hk
        rintro rfl
        apply hstart
        linarith
      refine .inr (.inr ⟨hpos.ne',div_nonneg (by linarith) hk,(div_le_one hpos).mpr (by linarith)⟩)
  · have hbefore := mul_nonneg ht (neg_nonneg.mpr hk.le)
    have hafter := mul_nonneg (sub_nonneg.mpr ht') (neg_nonneg.mpr hk.le)
    by_cases hend : 0 ≤ u+(1-t)*k
    · exact .inr (.inl ⟨hend,by linarith⟩)
    · exact .inr (.inr ⟨hk.ne,div_nonneg_of_nonpos (by linarith) hk.le,
        (div_le_one_of_neg hk).mpr (by linarith)⟩)

/-- Two segments of one line that share a point: an end of one is on the other. -/
theorem meet_parallel {a b c d p : α × α} (hab : p ∈ segment α a b) (hcd : p ∈ segment α c d)
    (hdet : (b.1-a.1)*(d.2-c.2)-(b.2-a.2)*(d.1-c.1) = 0) :
    c ∈ segment α a b ∨ d ∈ segment α a b ∨ a ∈ segment α c d := by
  by_cases hsame : a = b
  · subst hsame
    rw [segment_same] at hab
    rw [← Set.mem_singleton_iff.mp hab]
    exact .inr (.inr hcd)
  · have hk : ∃ k, d.1-c.1 = k*(b.1-a.1) ∧ d.2-c.2 = k*(b.2-a.2) := by
      by_cases hx : b.1-a.1 = 0
      · have hy : b.2-a.2 ≠ 0 := by
          intro hy
          exact hsame (Prod.ext (sub_eq_zero.mp hx).symm (sub_eq_zero.mp hy).symm)
        have hzero : d.1-c.1 = 0 := by
          apply mul_left_cancel₀ hy
          rw [hx] at hdet
          linear_combination -hdet
        exact ⟨(d.2-c.2)/(b.2-a.2),by rw [hx,hzero,mul_zero],(div_mul_cancel₀ _ hy).symm⟩
      · refine ⟨(d.1-c.1)/(b.1-a.1),(div_mul_cancel₀ _ hx).symm,?_⟩
        field_simp
        linear_combination hdet
    obtain ⟨k,hkx,hky⟩ := hk
    obtain ⟨u,hu,hu',hx,hy⟩ := mem_segment_iff_exists.mp hab
    obtain ⟨t,ht,ht',hx',hy'⟩ := mem_segment_iff_exists.mp hcd
    simp only [mem_segment_iff_exists]
    rcases overlap (k := k) hu hu' ht ht' with h | h | h
    · refine .inl ⟨_,h.1,h.2,?_,?_⟩
      · linear_combination hx-hx'-t*hkx
      · linear_combination hy-hy'-t*hky
    · refine .inr (.inl ⟨_,h.1,h.2,?_,?_⟩)
      · linear_combination hx-hx'+(1-t)*hkx
      · linear_combination hy-hy'+(1-t)*hky
    · obtain ⟨hne,hzero,hone⟩ := h
      refine .inr (.inr ⟨_,hzero,hone,?_,?_⟩)
      · rw [hkx]
        field_simp
        linear_combination hx'-hx+t*hkx
      · rw [hky]
        field_simp
        linear_combination hy'-hy+t*hky

/-- Two segments share a point just when the ends of each are on different sides of the other,
or an end of one is on the other. -/
theorem meet_iff {a b c d : α × α} : (∃ p, p ∈ segment α a b ∧ p ∈ segment α c d) ↔
    (SignType.sign (cross a b c) ≠ SignType.sign (cross a b d) ∧
      SignType.sign (cross c d a) ≠ SignType.sign (cross c d b)) ∨
    c ∈ segment α a b ∨ d ∈ segment α a b ∨ a ∈ segment α c d ∨ b ∈ segment α c d := by
  constructor
  · rintro ⟨p,hab,hcd⟩
    obtain ⟨u,hu,hu',hx,hy⟩ := mem_segment_iff_exists.mp hab
    obtain ⟨t,ht,ht',hx',hy'⟩ := mem_segment_iff_exists.mp hcd
    by_cases hdet : (b.1-a.1)*(d.2-c.2)-(b.2-a.2)*(d.1-c.1) = 0
    · have h := meet_parallel hab hcd hdet
      tauto
    · left
      constructor
      · have hc : cross a b c = -(t*((b.1-a.1)*(d.2-c.2)-(b.2-a.2)*(d.1-c.1))) := by
          rw [cross]
          linear_combination (b.1-a.1)*(hy-hy')-(b.2-a.2)*(hx-hx')
        have hd : cross a b d = (1-t)*((b.1-a.1)*(d.2-c.2)-(b.2-a.2)*(d.1-c.1)) := by
          rw [cross]
          linear_combination (b.1-a.1)*(hy-hy')-(b.2-a.2)*(hx-hx')
        rw [hc,hd]
        exact sign_parts ht ht' hdet
      · have ha : cross c d a = (1-(1-u))*((b.1-a.1)*(d.2-c.2)-(b.2-a.2)*(d.1-c.1)) := by
          rw [cross]
          linear_combination -(d.1-c.1)*(hy-hy')+(d.2-c.2)*(hx-hx')
        have hb : cross c d b = -((1-u)*((b.1-a.1)*(d.2-c.2)-(b.2-a.2)*(d.1-c.1))) := by
          rw [cross]
          linear_combination -(d.1-c.1)*(hy-hy')+(d.2-c.2)*(hx-hx')
        rw [ha,hb]
        exact (sign_parts (sub_nonneg.mpr hu') (by linarith) hdet).symm
  · rintro (⟨hcd,hab⟩ | h | h | h | h)
    · exact meet_of_sides hcd hab
    · exact ⟨c,h,left_mem_segment α c d⟩
    · exact ⟨d,h,right_mem_segment α c d⟩
    · exact ⟨a,left_mem_segment α a b,h⟩
    · exact ⟨b,right_mem_segment α a b,h⟩

/-- Two segments from one end that share another point are one within the other. -/
theorem spike {a b c q : α × α} (hab : q ∈ segment α a b) (hbc : q ∈ segment α b c) (hne : q ≠ b) :
    a ∈ segment α b c ∨ c ∈ segment α a b := by
  rw [segment_symm] at hab
  obtain ⟨s,hs,hs',hx,hy⟩ := mem_segment_iff_exists.mp hab
  obtain ⟨t,ht,ht',hx',hy'⟩ := mem_segment_iff_exists.mp hbc
  have hspos : 0 < s := by
    apply lt_of_le_of_ne hs
    rintro rfl
    exact hne (Prod.ext (by rw [hx];ring) (by rw [hy];ring))
  have htpos : 0 < t := by
    apply lt_of_le_of_ne ht
    rintro rfl
    exact hne (Prod.ext (by rw [hx'];ring) (by rw [hy'];ring))
  rw [segment_symm α a b]
  simp only [mem_segment_iff_exists]
  rcases le_total s t with hle | hle
  · refine .inr ⟨s/t,by positivity,(div_le_one htpos).mpr hle,?_,?_⟩
    · field_simp
      linear_combination hx-hx'
    · field_simp
      linear_combination hy-hy'
  · refine .inl ⟨t/s,by positivity,(div_le_one hspos).mpr hle,?_,?_⟩
    · field_simp
      linear_combination hx'-hx
    · field_simp
      linear_combination hy'-hy

/-! ## Sides around a polygon -/

/-- The side from a corner to the next. -/
def side (corner : ℕ → α × α) (i : ℕ) : Set (α × α) := segment α (corner i) (corner (i+1))

/-- The same side, or one next to it around `n` of them. -/
def Neighbours (n i j : ℕ) : Prop := i ≡ j [MOD n] ∨ i+1 ≡ j [MOD n] ∨ j+1 ≡ i [MOD n]

/-- The area enclosed, which is negative where the corners go around clockwise. -/
def area (n : ℕ) (corner : ℕ → α × α) : α :=
  (∑ i ∈ Finset.range n,((corner i).1*(corner (i+1)).2-(corner (i+1)).1*(corner i).2))/2

/-- A simple polygon of `n` corners, counted around and around: its sides meet only where
neighbours share a corner, and it encloses something. -/
structure Simple (n : ℕ) (corner : ℕ → α × α) : Prop where
  three : 3 ≤ n
  apart : ∀ i j, ¬Neighbours n i j → Disjoint (side corner i) (side corner j)
  joined : ∀ i, side corner i ∩ side corner (i+1) = {corner (i+1)}
  area : area n corner ≠ 0

variable {n : ℕ} {corner : ℕ → α × α}

omit [IsStrictOrderedRing α] in
theorem side_mod (h : Function.Periodic corner n) (i : ℕ) : side corner (i%n) = side corner i := by
  have hnext : corner (i%n+1) = corner (i+1) := by
    rw [← h.map_mod_nat (i%n+1),Nat.mod_add_mod,h.map_mod_nat]
  rw [side,side,h.map_mod_nat,hnext]

omit [IsStrictOrderedRing α] in
/-- Sides that are not neighbours are apart when they are so in order of their numbers. -/
theorem apart_of_ordered (hn : 0 < n) (h : Function.Periodic corner n)
    (hordered : ∀ i j, i < j → j < n → j ≠ i+1 → ¬(i = 0 ∧ j = n-1) → Disjoint (side corner i) (side corner j)) :
    ∀ i j, ¬Neighbours n i j → Disjoint (side corner i) (side corner j) := by
  have hbelow {i j : ℕ} (hij : i%n < j%n) (hapart : ¬Neighbours n i j) :
      Disjoint (side corner i) (side corner j) := by
    rw [← side_mod h i,← side_mod h j]
    apply hordered _ _ hij (Nat.mod_lt j hn)
    · intro hnext
      apply hapart
      refine .inr (.inl ?_)
      rw [Nat.ModEq,← Nat.mod_add_mod,← hnext,Nat.mod_mod]
    · rintro ⟨hfirst,hlast⟩
      apply hapart
      refine .inr (.inr ?_)
      rw [Nat.ModEq,← Nat.mod_add_mod,hlast,hfirst,Nat.sub_add_cancel hn,Nat.mod_self]
  intro i j hapart
  rcases Nat.lt_trichotomy (i%n) (j%n) with hlt | heq | hgt
  · exact hbelow hlt hapart
  · exact absurd (.inl heq) hapart
  · refine (hbelow hgt ?_).symm
    rintro (h | h | h)
    · exact hapart (.inl h.symm)
    · exact hapart (.inr (.inr h))
    · exact hapart (.inr (.inl h))

/-- Of four sides or more, those that are apart leave neighbours only their corner: where two
turned back on each other, one would reach the side beyond. -/
theorem joined_of_apart (hn : 4 ≤ n) (h : Function.Periodic corner n)
    (hapart : ∀ i j, ¬Neighbours n i j → Disjoint (side corner i) (side corner j)) (i : ℕ) :
    side corner i ∩ side corner (i+1) = {corner (i+1)} := by
  have hne {k l : ℕ} (hk : k < n) (hl : l < n) (hkl : k ≠ l) : ¬i+k ≡ i+l [MOD n] := by
    intro hmod
    exact hkl ((Nat.ModEq.add_left_cancel' i hmod).eq_of_lt_of_lt hk hl)
  apply Set.Subset.antisymm
  · rintro q ⟨hq,hq'⟩
    by_contra hcorner
    rcases spike hq hq' hcorner with hback | hback
    · have hlast : corner i ∈ side corner (i+(n-1)) := by
        rw [side,Nat.add_assoc,Nat.sub_add_cancel (by omega),h i]
        exact right_mem_segment α _ _
      refine Set.disjoint_left.mp (hapart (i+(n-1)) (i+1) ?_) hlast hback
      rintro (hmod | hmod | hmod)
      · exact hne (by omega) (by omega) (by omega) hmod
      · rw [Nat.add_assoc,Nat.sub_add_cancel (by omega)] at hmod
        apply hne (k := 0) (l := 1) (by omega) (by omega) (by omega)
        exact (Nat.add_modEq_right (a := i) (n := n)).symm.trans hmod
      · exact hne (k := 2) (l := n-1) (by omega) (by omega) (by omega) hmod
    · refine Set.disjoint_left.mp (hapart i (i+2) ?_) hback (left_mem_segment α _ _)
      rintro (hmod | hmod | hmod)
      · exact hne (k := 0) (by omega) (by omega) (by omega) hmod
      · exact hne (by omega) (by omega) (by omega) hmod
      · exact hne (k := 3) (l := 0) (by omega) (by omega) (by omega) hmod
  · rintro q rfl
    exact ⟨right_mem_segment α _ _,left_mem_segment α _ _⟩

omit [LinearOrder α] [IsStrictOrderedRing α] in
theorem cross_rotate (a b c : α × α) : cross b c a = cross a b c := by
  simp only [cross]
  ring

/-- Of three sides that enclose an area, neighbours share only their corner. -/
theorem joined_of_area (h : Function.Periodic corner 3) (harea : area 3 corner ≠ 0) (i : ℕ) :
    side corner i ∩ side corner (i+1) = {corner (i+1)} := by
  have hcross : ∀ i, cross (corner i) (corner (i+1)) (corner (i+2)) = 2*area 3 corner := by
    intro i
    induction i with
    | zero =>
      have hback : corner 3 = corner 0 := h 0
      simp only [cross,area,Finset.sum_range_succ,Finset.sum_range_zero,Nat.zero_add,hback]
      ring
    | succ i ih =>
      have hback : corner (i+1+2) = corner i := h i
      rw [hback,cross_rotate,ih]
  have hne : cross (corner i) (corner (i+1)) (corner (i+2)) ≠ 0 := by
    rw [hcross]
    exact mul_ne_zero two_ne_zero harea
  apply Set.Subset.antisymm
  · rintro q ⟨hq,hq'⟩
    by_contra hcorner
    rcases spike hq hq' hcorner with hback | hback
    · apply hne
      rw [← cross_rotate]
      exact cross_eq_zero_of_mem hback
    · exact hne (cross_eq_zero_of_mem hback)
  · rintro q rfl
    exact ⟨right_mem_segment α _ _,left_mem_segment α _ _⟩

/-- A polygon is simple when it has three corners, sides that are not neighbours are apart, and
there is some area: neighbours need no test of their own. -/
theorem simple_iff (h : Function.Periodic corner n) : Simple n corner ↔
    3 ≤ n ∧ (∀ i j, i < j → j < n → j ≠ i+1 → ¬(i = 0 ∧ j = n-1) →
      Disjoint (side corner i) (side corner j)) ∧ area n corner ≠ 0 := by
  constructor
  · intro hsimple
    have hthree := hsimple.three
    refine ⟨hthree,?_,hsimple.area⟩
    intro i j hij hj hnext hends
    apply hsimple.apart
    have hi : i%n = i := Nat.mod_eq_of_lt (hij.trans hj)
    have hjn : j%n = j := Nat.mod_eq_of_lt hj
    rintro (hmod | hmod | hmod)
    · rw [Nat.ModEq,hi,hjn] at hmod
      omega
    · rw [Nat.ModEq,hjn,Nat.mod_eq_of_lt (by omega)] at hmod
      omega
    · rw [Nat.ModEq,hi] at hmod
      rcases Nat.lt_or_ge (j+1) n with hlt | hge
      · rw [Nat.mod_eq_of_lt hlt] at hmod
        omega
      · have hlast : j+1 = n := by omega
        rw [hlast,Nat.mod_self] at hmod
        exact hends ⟨hmod.symm,by omega⟩
  · rintro ⟨hthree,hordered,harea⟩
    have hapart := apart_of_ordered (by omega) h hordered
    refine ⟨hthree,hapart,?_,harea⟩
    rcases Nat.eq_or_lt_of_le hthree with rfl | hfour
    · exact joined_of_area h harea
    · exact joined_of_apart hfour h hapart

end Polygon
end Spork
