import Spork.Packing.Pack

/-! Filling a space takes pieces off what is left and puts each where `out` says,
and it ends: every call nested in another has a piece fewer to place. -/
namespace Spork
namespace Packing

/-- How many of `k` are left. -/
def countOf (k : Kind) (left : List Left) : ℕ :=
  ((left.filter (·.kind = k)).map Left.count).sum

/-- How many of `k` are placed. -/
def placed (k : Kind) (out : List Placement) : ℕ := out.countP (·.kind = k)

/-- What the placements weigh by the record. -/
def weigh (out : List Placement) : ℚ := (out.map fun p => p.kind.weight).sum

/-- Its dims are its kind's size the way its axes name, and an upright kind stands. -/
def Placement.Turned (p : Placement) : Prop :=
  p.axes ∈ ways ∧ p.dims = turned p.kind.size p.axes ∧ (p.kind.upright = true → p.axes.h = 2)

@[simp] theorem total_nil : total [] = 0 := rfl
@[simp] theorem total_cons (e : Left) (es : List Left) : total (e :: es) = e.count+total es := by
  simp [total]
@[simp] theorem total_append (xs ys : List Left) : total (xs++ys) = total xs+total ys := by
  simp [total]

@[simp] theorem countOf_nil (k : Kind) : countOf k [] = 0 := rfl
@[simp] theorem countOf_cons (k : Kind) (e : Left) (es : List Left) :
    countOf k (e :: es) = (if e.kind = k then e.count else 0)+countOf k es := by
  by_cases h : e.kind = k <;> simp [countOf,h]
@[simp] theorem countOf_append (k : Kind) (xs ys : List Left) :
    countOf k (xs++ys) = countOf k xs+countOf k ys := by
  simp [countOf]

@[simp] theorem placed_nil (k : Kind) : placed k [] = 0 := rfl
@[simp] theorem placed_cons (k : Kind) (p : Placement) (ps : List Placement) :
    placed k (p :: ps) = (if p.kind = k then 1 else 0)+placed k ps := by
  by_cases h : p.kind = k <;> simp [placed,h,Nat.add_comm]
@[simp] theorem placed_append (k : Kind) (ps qs : List Placement) :
    placed k (ps++qs) = placed k ps+placed k qs := by
  simp [placed]

@[simp] theorem weigh_nil : weigh [] = 0 := rfl
@[simp] theorem weigh_cons (p : Placement) (ps : List Placement) :
    weigh (p :: ps) = p.kind.weight+weigh ps := by simp [weigh]
@[simp] theorem weigh_append (ps qs : List Placement) : weigh (ps++qs) = weigh ps+weigh qs := by
  simp [weigh]

theorem countOf_perm {xs ys : List Left} (h : xs.Perm ys) (k : Kind) :
    countOf k xs = countOf k ys :=
  ((h.filter _).map _).sum_eq

theorem total_perm {xs ys : List Left} (h : xs.Perm ys) : total xs = total ys :=
  (h.map _).sum_eq

/-! ## The ways up -/

/-- `w` is one of the ways `axes` with the thing's size turned that way, fitting the room. -/
theorem mem_fittingFrom {size room : Dims} {upright : Bool} {axes : List Axes}
    {seen : List Dims} {w : Way} (h : w ∈ fittingFrom size room upright axes seen) :
    w.axes ∈ axes ∧ w.dims = turned size w.axes ∧ (upright = true → w.axes.h = 2) ∧
      w.dims.l ≤ room.l ∧ w.dims.w ≤ room.w ∧ w.dims.h ≤ room.h := by
  induction axes generalizing seen with
  | nil => simp [fittingFrom] at h
  | cons a rest ih =>
    have later {seen : List Dims} (h : w ∈ fittingFrom size room upright rest seen) :
        w.axes ∈ a :: rest ∧ w.dims = turned size w.axes ∧ (upright = true → w.axes.h = 2) ∧
          w.dims.l ≤ room.l ∧ w.dims.w ≤ room.w ∧ w.dims.h ≤ room.h := by
      obtain ⟨ha,hrest⟩ := ih h
      exact ⟨List.mem_cons_of_mem a ha,hrest⟩
    simp only [fittingFrom] at h
    split at h
    · exact later h
    · rename_i hup
      split at h
      · exact later h
      · split at h
        · rename_i hfits
          rcases List.mem_cons.mp h with rfl | h
          · refine ⟨by simp,rfl,?_,hfits⟩
            intro hu
            simpa [hu] using hup
          · exact later h
        · exact later h

/-- What `flattest` keeps as it goes is the best so far or the way it looks at. -/
theorem flatter_foldl {room : Dims} {ws : List Way} {best : Option (Way × ℤ)} {r : Way × ℤ}
    (h : ws.foldl (flatter room) best = some r) : best = some r ∨ r.1 ∈ ws := by
  induction ws generalizing best with
  | nil => exact Or.inl h
  | cons w ws ih =>
    rcases ih h with hstep | hmem
    · cases best with
      | none =>
        simp only [flatter,Option.some.injEq] at hstep
        subst r
        exact Or.inr (by simp)
      | some b =>
        simp only [flatter] at hstep
        split at hstep
        · obtain rfl := Option.some.inj hstep
          exact Or.inr (by simp)
        · exact Or.inl hstep
    · exact Or.inr (List.mem_cons_of_mem w hmem)

theorem flattest_fits {size room : Dims} {upright : Bool} {w : Way}
    (h : flattest size room upright = some w) :
    w.axes ∈ ways ∧ w.dims = turned size w.axes ∧ (upright = true → w.axes.h = 2) ∧
      w.dims.l ≤ room.l ∧ w.dims.w ≤ room.w ∧ w.dims.h ≤ room.h := by
  obtain ⟨r,hr,rfl⟩ := Option.map_eq_some_iff.mp h
  rcases flatter_foldl hr with hnone | hmem
  · cases hnone
  · exact mem_fittingFrom hmem

/-! ## Taking one piece -/

theorem placeable_some {limit : Option ℚ} {used : ℚ} {room : Dims} {e : Left} {w : Way}
    (h : placeable limit used room e = some w) :
    0 < e.count ∧ affords limit used e.kind = true ∧
      flattest e.kind.size room e.kind.upright = some w := by
  simp only [placeable] at h
  split at h
  · cases h
  · rename_i hc
    push Not at hc
    exact ⟨Nat.pos_of_ne_zero hc.1,by simpa using hc.2,h⟩

theorem takeFirst_some {way : Left → Option Way} {left left' : List Left} {k : Kind} {w : Way}
    (h : takeFirst way left = some (k,w,left')) :
    ∃ pre e post, left = pre++e :: post ∧ way e = some w ∧ k = e.kind ∧
      left' = pre++{e with count := e.count-1} :: post := by
  induction left generalizing left' with
  | nil => cases h
  | cons e rest ih =>
    simp only [takeFirst] at h
    split at h
    · rename_i hw
      cases h
      exact ⟨[],e,rest,rfl,hw,rfl,rfl⟩
    · obtain ⟨⟨k',w',rest'⟩,hrest,heq⟩ := Option.map_eq_some_iff.mp h
      cases heq
      obtain ⟨pre,e',post,rfl,hw,hk,rfl⟩ := ih hrest
      exact ⟨e :: pre,e',post,rfl,hw,hk,rfl⟩

/-- What going from one filling to a later one took and where it put it. -/
structure Takes (limit : Option ℚ) (st st' : Filling) (new : List Placement) : Prop where
  out : st'.out = st.out++new
  kept : ∀ k, placed k new+countOf k st'.left = countOf k st.left
  kinds : st'.left.map Left.kind = st.left.map Left.kind
  fewer : new.length+total st'.left = total st.left
  used : st'.used = st.used+weigh new
  within : ∀ most, limit = some most → st.used ≤ most → st'.used ≤ most
  turned : ∀ p ∈ new, p.Turned
  unpacked : ∀ p ∈ new, p.packed = false

theorem Takes.refl (limit : Option ℚ) (st : Filling) : Takes limit st st [] where
  out := by simp
  kept := by simp
  kinds := rfl
  fewer := by simp
  used := by simp
  within := fun _ _ h => h
  turned := by simp
  unpacked := by simp

theorem Takes.trans {limit : Option ℚ} {st st₁ st₂ : Filling} {new₁ new₂ : List Placement}
    (h₁ : Takes limit st st₁ new₁) (h₂ : Takes limit st₁ st₂ new₂) :
    Takes limit st st₂ (new₁++new₂) where
  out := by rw [h₂.out,h₁.out,List.append_assoc]
  kept k := by
    have e₁ := h₁.kept k
    have e₂ := h₂.kept k
    simp only [placed_append]
    omega
  kinds := h₂.kinds.trans h₁.kinds
  fewer := by
    have e₁ := h₁.fewer
    have e₂ := h₂.fewer
    simp only [List.length_append]
    omega
  used := by rw [h₂.used,h₁.used,weigh_append,add_assoc]
  within most hm hu := h₂.within most hm (h₁.within most hm hu)
  turned p hp := (List.mem_append.mp hp).elim (h₁.turned p) (h₂.turned p)
  unpacked p hp := (List.mem_append.mp hp).elim (h₁.unpacked p) (h₂.unpacked p)

/-- One piece taken and put down is a step of filling. -/
theorem takes_one {limit : Option ℚ} {room : Dims} {k : Kind} {w : Way} {left : List Left}
    (st : Filling) (x y z : ℤ)
    (h : takeFirst (placeable limit st.used room) st.left = some (k,w,left)) :
    Takes limit st ⟨left,st.out++[putAt x y z k w],st.used+k.weight⟩ [putAt x y z k w] := by
  obtain ⟨pre,e,post,hleft,hway,rfl,rfl⟩ := takeFirst_some h
  obtain ⟨hcount,hafford,hflat⟩ := placeable_some hway
  obtain ⟨haxes,hdims,hup,-⟩ := flattest_fits hflat
  refine ⟨rfl,?_,?_,?_,?_,?_,?_,?_⟩
  · intro k
    simp only [hleft,countOf_append,countOf_cons,placed_cons,placed_nil,putAt]
    split <;> omega
  · simp [hleft]
  · simp only [hleft,total_append,total_cons,List.length_singleton]
    omega
  · simp [putAt]
  · intro most hmost _
    simpa [affords,hmost] using hafford
  · intro p hp
    obtain rfl := List.mem_singleton.mp hp
    exact ⟨haxes,hdims,hup⟩
  · intro p hp
    obtain rfl := List.mem_singleton.mp hp
    rfl

/-! ## Filling ends -/

/-- `f` comes back for every space while fewer than `depth` pieces are left. -/
def Ends (limit : Option ℚ) (f : Space → Filling → Option Filling) (depth : ℕ) : Prop :=
  ∀ space st, total st.left < depth → ∃ st' new, f space st = some st' ∧ Takes limit st st' new

theorem Ends.comp {limit : Option ℚ} {f : Space → Filling → Option Filling} {depth : ℕ}
    (hf : Ends limit f depth) (a b : Space) {st : Filling} (h : total st.left < depth) :
    ∃ st' new, (f a st).bind (f b) = some st' ∧ Takes limit st st' new := by
  obtain ⟨st₁,new₁,ha,h₁⟩ := hf a st h
  obtain ⟨st₂,new₂,hb,h₂⟩ := hf b st₁ (by have := h₁.fewer; omega)
  exact ⟨st₂,new₁++new₂,by simp [ha,hb],h₁.trans h₂⟩

/-- The space on top of what is placed. -/
def Space.above (s : Space) (d : Dims) : Space := ⟨s.x,s.y,s.z+d.h,⟨d.l,d.w,s.room.h-d.h⟩⟩

/-- The floor beside what is placed, so far across. -/
def Space.beside (s : Space) (d : Dims) (w : ℤ) : Space :=
  ⟨s.x+d.l,s.y,s.z,⟨s.room.l-d.l,w,s.room.h⟩⟩

/-- The floor before what is placed, so far along. -/
def Space.before (s : Space) (d : Dims) (l : ℤ) : Space :=
  ⟨s.x,s.y+d.w,s.z,⟨l,s.room.w-d.w,s.room.h⟩⟩

theorem round_eq (f : Space → Filling → Option Filling) (s : Space) (d : Dims) (st : Filling) :
    round f s d st =
      (if s.room.h > d.h then f (s.above d) st else some st).bind fun st =>
        if Double.mul (s.room.l-d.l) s.room.w ≥ Double.mul (s.room.w-d.w) s.room.l then
          (f (s.beside d s.room.w) st).bind (f (s.before d d.l))
        else (f (s.before d s.room.l) st).bind (f (s.beside d d.w)) := by
  simp only [round,Space.above,Space.beside,Space.before]
  split <;> rfl

theorem round_ends {limit : Option ℚ} {f : Space → Filling → Option Filling} {depth : ℕ}
    (hf : Ends limit f depth) (space : Space) (d : Dims) (st : Filling)
    (h : total st.left < depth) :
    ∃ st' new, round f space d st = some st' ∧ Takes limit st st' new := by
  obtain ⟨st₁,new₁,htop,h₁⟩ : ∃ st' new,
      (if space.room.h > d.h then f (space.above d) st else some st) = some st' ∧
      Takes limit st st' new := by
    split
    · exact hf _ st h
    · exact ⟨st,[],rfl,Takes.refl limit st⟩
  have hless : total st₁.left < depth := by have := h₁.fewer; omega
  rw [round_eq,htop,Option.bind_some]
  split
  · obtain ⟨st₂,new₂,hrest,h₂⟩ := hf.comp _ _ hless
    exact ⟨st₂,new₁++new₂,hrest,h₁.trans h₂⟩
  · obtain ⟨st₂,new₂,hrest,h₂⟩ := hf.comp _ _ hless
    exact ⟨st₂,new₁++new₂,hrest,h₁.trans h₂⟩

theorem fill_ends (limit : Option ℚ) (depth : ℕ) : Ends limit (fill limit depth) depth := by
  induction depth with
  | zero => intro _ _ h; omega
  | succ depth ih =>
    intro space st h
    simp only [fill]
    split
    · exact ⟨st,[],rfl,Takes.refl limit st⟩
    · split
      · exact ⟨st,[],rfl,Takes.refl limit st⟩
      · rename_i k w left htake
        have hone := takes_one st space.x space.y space.z htake
        have hfewer := hone.fewer
        simp only [List.length_singleton] at hfewer
        obtain ⟨st',new,hrun,hrest⟩ := round_ends ih space w.dims
          ⟨left,st.out++[putAt space.x space.y space.z k w],st.used+k.weight⟩
          (by simp only; omega)
        exact ⟨st',_,hrun,hone.trans hrest⟩

/-- Every layer's placements, from the bottom layer up. -/
def placements (layers : List Layer) : List Placement := layers.flatMap Layer.placements

theorem layersFrom_ends (size : Dims) (limit : Option ℚ) (depth : ℕ) (z : ℤ) (left : List Left)
    (used : ℚ) (h : total left < depth) :
    ∃ layers left' used', layersFrom size limit depth z left used = some (layers,left') ∧
      Takes limit ⟨left,[],used⟩ ⟨left',placements layers,used'⟩ (placements layers) := by
  induction depth generalizing z left used with
  | zero => omega
  | succ depth ih =>
    simp only [layersFrom]
    split
    · exact ⟨[],left,used,rfl,Takes.refl limit ⟨left,[],used⟩⟩
    · rename_i k w left₁ htake
      have hone := takes_one ⟨left,[],used⟩ 0 0 z htake
      have hfewer := hone.fewer
      simp only [List.length_singleton] at hfewer
      obtain ⟨st₂,new,hround,h₂⟩ := round_ends (fill_ends limit depth)
        ⟨0,0,z,⟨size.l,size.w,w.dims.h⟩⟩ w.dims
        ⟨left₁,[putAt 0 0 z k w],used+k.weight⟩ (by simp only; omega)
      have hfewer₂ : new.length+total st₂.left = total left₁ := h₂.fewer
      obtain ⟨layers,left₃,used₃,hrun,h₃⟩ := ih (z+w.dims.h) st₂.left st₂.used (by omega)
      refine ⟨⟨z,w.dims.h,st₂.out⟩ :: layers,left₃,used₃,by simp [hround,hrun],?_⟩
      have hout : st₂.out = [putAt 0 0 z k w]++new := h₂.out
      have hlast : Takes limit st₂ ⟨left₃,st₂.out++placements layers,used₃⟩ (placements layers) :=
        { h₃ with out := rfl }
      simpa [placements,hout] using (hone.trans h₂).trans hlast

/-- `pack` at a depth no run of it reaches. -/
theorem packWithin_isSome (size : Dims) (pieces : List Left) (maxWeight : Option ℚ) :
    (packWithin (total pieces+1) size pieces maxWeight).isSome = true := by
  have hperm : total (sorted pieces) = total pieces :=
    total_perm (List.perm_insertionSort _ _)
  obtain ⟨layers,left,-,hrun,-⟩ := layersFrom_ends size maxWeight (total pieces+1) 0
    (sorted pieces) 0 (by omega)
  simp [packWithin,hrun]

/-- Pack `pieces` into a box of `size`, layer on layer, its goods weighing no
more than `maxWeight` when the box has one. What does not go in stays in `left`. -/
def pack (size : Dims) (pieces : List Left) (maxWeight : Option ℚ) : Packed :=
  (packWithin (total pieces+1) size pieces maxWeight).get (packWithin_isSome size pieces maxWeight)

/-! ## Any depth deep enough gives the same -/

theorem round_mono {f g : Space → Filling → Option Filling}
    (hfg : ∀ space st st', f space st = some st' → g space st = some st') {s : Space} {d : Dims}
    {st st' : Filling} (h : round f s d st = some st') : round g s d st = some st' := by
  rw [round_eq] at h ⊢
  obtain ⟨st₁,htop,hrest⟩ := Option.bind_eq_some_iff.mp h
  refine Option.bind_eq_some_iff.mpr ⟨st₁,?_,?_⟩
  · split_ifs at htop ⊢
    · exact hfg _ _ _ htop
    · exact htop
  · split_ifs at hrest ⊢
    all_goals
      obtain ⟨st₂,ha,hb⟩ := Option.bind_eq_some_iff.mp hrest
      exact Option.bind_eq_some_iff.mpr ⟨st₂,hfg _ _ _ ha,hfg _ _ _ hb⟩

theorem fill_succ (limit : Option ℚ) (depth : ℕ) (space : Space) (st st' : Filling)
    (h : fill limit depth space st = some st') : fill limit (depth+1) space st = some st' := by
  induction depth generalizing space st st' with
  | zero => cases h
  | succ depth ih =>
    rw [fill] at h ⊢
    split_ifs at h ⊢ with hroom
    · exact h
    · cases htake : takeFirst (placeable limit st.used space.room) st.left with
      | none => simpa only [htake] using h
      | some r =>
        simp only [htake] at h ⊢
        exact round_mono ih h

theorem layersFrom_succ (size : Dims) (limit : Option ℚ) (depth : ℕ) (z : ℤ) (left : List Left)
    (used : ℚ) (r : List Layer × List Left) (h : layersFrom size limit depth z left used = some r) :
    layersFrom size limit (depth+1) z left used = some r := by
  induction depth generalizing z left used r with
  | zero => cases h
  | succ depth ih =>
    rw [layersFrom] at h ⊢
    cases htake : takeFirst (placeable limit used ⟨size.l,size.w,size.h-z⟩) left with
    | none => simpa only [htake] using h
    | some first =>
      simp only [htake] at h ⊢
      obtain ⟨st,hround,h⟩ := Option.bind_eq_some_iff.mp h
      obtain ⟨rest,hrest,h⟩ := Option.bind_eq_some_iff.mp h
      exact Option.bind_eq_some_iff.mpr ⟨st,round_mono (fill_succ limit depth) hround,
        Option.bind_eq_some_iff.mpr ⟨rest,ih _ _ _ _ hrest,h⟩⟩

/-- `pack` is what its loop and recursion give, cut off at any depth past the
number of pieces. -/
theorem packWithin_eq (size : Dims) (pieces : List Left) (maxWeight : Option ℚ) (depth : ℕ)
    (h : total pieces < depth) :
    packWithin depth size pieces maxWeight = some (pack size pieces maxWeight) := by
  induction depth, h using Nat.le_induction with
  | base => exact (Option.some_get _).symm
  | succ depth _ ih =>
    obtain ⟨r,hr,hpack⟩ := Option.map_eq_some_iff.mp ih
    rw [← hpack,packWithin,layersFrom_succ _ _ _ _ _ _ _ hr]
    rfl

/-- The run behind `pack`, and what it took. -/
theorem pack_run (size : Dims) (pieces : List Left) (maxWeight : Option ℚ) :
    ∃ left used, layersFrom size maxWeight (total pieces+1) 0 (sorted pieces) 0 =
        some ((pack size pieces maxWeight).layers,left) ∧
      (pack size pieces maxWeight).left = left.filter (·.count > 0) ∧
      Takes maxWeight ⟨sorted pieces,[],0⟩
        ⟨left,placements (pack size pieces maxWeight).layers,used⟩
        (placements (pack size pieces maxWeight).layers) := by
  have hless : total (sorted pieces) < total pieces+1 := by
    rw [sorted,total_perm (List.perm_insertionSort _ _)]
    omega
  obtain ⟨layers,left,used,hrun,htakes⟩ := layersFrom_ends size maxWeight (total pieces+1) 0
    (sorted pieces) 0 hless
  have hpack := packWithin_eq size pieces maxWeight (total pieces+1) (by omega)
  rw [packWithin,hrun,Option.map_some,Option.some.injEq] at hpack
  rw [← hpack]
  exact ⟨left,used,hrun,rfl,htakes⟩

theorem countOf_filter (k : Kind) (left : List Left) :
    countOf k (left.filter (·.count > 0)) = countOf k left := by
  induction left with
  | nil => rfl
  | cons e es ih =>
    by_cases he : e.count = 0
    · simp [he,ih]
    · simp [Nat.pos_of_ne_zero he,ih]

/-- No piece is lost or made: of each kind, what is placed and what is left are
what was given. -/
theorem pack_kept (size : Dims) (pieces : List Left) (maxWeight : Option ℚ) (k : Kind) :
    placed k (placements (pack size pieces maxWeight).layers)+
      countOf k (pack size pieces maxWeight).left = countOf k pieces := by
  obtain ⟨left,used,-,hleft,htakes⟩ := pack_run size pieces maxWeight
  have hkept := htakes.kept k
  rw [sorted,countOf_perm (List.perm_insertionSort _ _)] at hkept
  rw [hleft,countOf_filter,hkept]

end Packing
end Spork
