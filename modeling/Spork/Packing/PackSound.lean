import Spork.Lib.Cuboid
import Spork.Packing.PackRun

/-! What `pack` makes can be packed: every piece lies inside the box, no two share
any space, and no piece is lost. Filling cuts its space in three by cuts straight
across, so what goes in one part stays clear of the others. -/
namespace Spork
namespace Packing

def Dims.Positive (d : Dims) : Prop := 0 < d.l ∧ 0 < d.w ∧ 0 < d.h

instance (d : Dims) : Decidable d.Positive := by unfold Dims.Positive; infer_instance

/-- Every kind has all three of its sides. -/
def Measured (left : List Left) : Prop := ∀ k ∈ left.map Left.kind, k.size.Positive

def Space.cuboid (s : Space) : Cuboid (Fin 3) ℤ := ⟨![s.x,s.y,s.z],![s.room.l,s.room.w,s.room.h]⟩

def Placement.cuboid (p : Placement) : Cuboid (Fin 3) ℤ :=
  ⟨![p.x,p.y,p.z],![p.dims.l,p.dims.w,p.dims.h]⟩

/-- The points of space strictly inside a placed piece. -/
def Placement.interior (p : Placement) : Set (Fin 3 → ℝ) :=
  (p.cuboid.map (Int.castAddHom ℝ)).interior

theorem turned_positive {size : Dims} (h : size.Positive) (axes : Axes) :
    (turned size axes).Positive := by
  have hside (i : Fin 3) : 0 < size.side i := by
    obtain ⟨hl,hw,hh⟩ := h
    fin_cases i
    · exact hl
    · exact hw
    · exact hh
  exact ⟨hside _,hside _,hside _⟩

/-- The piece taken to fill a room has three sides, and fits it. -/
theorem takeFirst_fits {limit : Option ℚ} {used : ℚ} {room : Dims} {left left' : List Left}
    {k : Kind} {w : Way} (hm : Measured left)
    (h : takeFirst (placeable limit used room) left = some (k,w,left')) :
    w.dims.Positive ∧ w.dims.l ≤ room.l ∧ w.dims.w ≤ room.w ∧ w.dims.h ≤ room.h := by
  obtain ⟨pre,e,post,rfl,hway,rfl,-⟩ := takeFirst_some h
  obtain ⟨-,hdims,-,hfits⟩ := flattest_fits (placeable_some hway).2.2
  refine ⟨?_,hfits⟩
  rw [hdims]
  exact turned_positive (hm e.kind (by simp)) w.axes

/-! ## The parts of a space -/

section Parts

variable (s : Space) (d : Dims)

theorem beside_cuboid : (s.beside d s.room.w).cuboid = s.cuboid.far 0 d.l := by
  simp only [Space.cuboid,Space.beside,Cuboid.far,Cuboid.mk.injEq]
  constructor <;> (funext i; fin_cases i <;> simp)

theorem before_cuboid : (s.before d s.room.l).cuboid = s.cuboid.far 1 d.w := by
  simp only [Space.cuboid,Space.before,Cuboid.far,Cuboid.mk.injEq]
  constructor <;> (funext i; fin_cases i <;> simp)

theorem before_near_cuboid : (s.before d d.l).cuboid = (s.cuboid.near 0 d.l).far 1 d.w := by
  simp only [Space.cuboid,Space.before,Cuboid.near,Cuboid.far,Cuboid.mk.injEq]
  constructor <;> (funext i; fin_cases i <;> simp)

theorem beside_near_cuboid : (s.beside d d.w).cuboid = (s.cuboid.near 1 d.w).far 0 d.l := by
  simp only [Space.cuboid,Space.beside,Cuboid.near,Cuboid.far,Cuboid.mk.injEq]
  constructor <;> (funext i; fin_cases i <;> simp)

/-- The column `d` stands in, from the floor of the space to its top. -/
def Space.column : Cuboid (Fin 3) ℤ := (s.cuboid.near 0 d.l).near 1 d.w

theorem column_comm : s.column d = (s.cuboid.near 1 d.w).near 0 d.l := by
  simp only [Space.column,Space.cuboid,Cuboid.near,Cuboid.mk.injEq,true_and]
  funext i
  fin_cases i <;> simp

theorem above_cuboid : (s.above d).cuboid = (s.column d).far 2 d.h := by
  simp only [Space.column,Space.cuboid,Space.above,Cuboid.near,Cuboid.far,Cuboid.mk.injEq]
  constructor <;> (funext i; fin_cases i <;> simp)

theorem putAt_cuboid (k : Kind) (w : Way) :
    (putAt s.x s.y s.z k w).cuboid = (s.column w.dims).near 2 w.dims.h := by
  simp only [Placement.cuboid,putAt,Space.column,Space.cuboid,Cuboid.near,Cuboid.mk.injEq,true_and]
  funext i
  fin_cases i <;> simp

end Parts

/-! ## What lies in a space, piece clear of piece -/

/-- The placements lie inside `s` and share no space. -/
structure Stowed (s : Cuboid (Fin 3) ℤ) (ps : List Placement) : Prop where
  inside : ∀ p ∈ ps, p.cuboid.Within s
  apart : ps.Pairwise fun p q => p.cuboid.Apart q.cuboid

theorem Stowed.nil (s : Cuboid (Fin 3) ℤ) : Stowed s [] := ⟨by simp,List.Pairwise.nil⟩

theorem Stowed.mono {s t : Cuboid (Fin 3) ℤ} {ps : List Placement} (h : Stowed s ps)
    (hst : s.Within t) : Stowed t ps :=
  ⟨fun p hp => (h.inside p hp).trans hst,h.apart⟩

theorem Stowed.perm {s : Cuboid (Fin 3) ℤ} {ps qs : List Placement} (h : Stowed s ps)
    (hpq : ps.Perm qs) : Stowed s qs where
  inside p hp := h.inside p (hpq.mem_iff.mpr hp)
  apart := (hpq.pairwise_iff fun hab => Cuboid.Apart.symm hab).mp h.apart

/-- What lies in two parts of `s` that are apart lies in `s`. -/
theorem Stowed.append {s a b : Cuboid (Fin 3) ℤ} {ps qs : List Placement} (ha : Stowed a ps)
    (hb : Stowed b qs) (hab : a.Apart b) (has : a.Within s) (hbs : b.Within s) :
    Stowed s (ps++qs) where
  inside p hp := (List.mem_append.mp hp).elim (fun hp => (ha.inside p hp).trans has)
    (fun hp => (hb.inside p hp).trans hbs)
  apart := List.pairwise_append.mpr ⟨ha.apart,hb.apart,fun p hp q hq =>
    hab.mono (ha.inside p hp) (hb.inside q hq)⟩

theorem Stowed.cut {s : Cuboid (Fin 3) ℤ} {ps qs : List Placement} (i : Fin 3) {d : ℤ}
    (hd : 0 ≤ d) (hs : d ≤ s.extent i) (hnear : Stowed (s.near i d) ps)
    (hfar : Stowed (s.far i d) qs) : Stowed s (ps++qs) :=
  hnear.append hfar (s.near_apart_far i d) (s.near_within hs) (s.far_within hd)

/-- What `f` adds it stows in the space it was given. -/
def Stows (f : Space → Filling → Option Filling) (depth : ℕ) : Prop :=
  ∀ space st st', total st.left < depth → Measured st.left → f space st = some st' →
    ∃ new, st'.out = st.out++new ∧ Stowed space.cuboid new

theorem Takes.measured {limit : Option ℚ} {st st' : Filling} {new : List Placement}
    (h : Takes limit st st' new) (hm : Measured st.left) : Measured st'.left := by
  rw [Measured,h.kinds]
  exact hm

/-- Two spaces filled one after the other, each within its own part. -/
theorem Stows.comp {limit : Option ℚ} {f : Space → Filling → Option Filling} {depth : ℕ}
    (hf : Stows f depth) (he : Ends limit f depth) {a b : Space} {st st' : Filling}
    (hless : total st.left < depth) (hm : Measured st.left)
    (h : (f a st).bind (f b) = some st') :
    ∃ new₁ new₂, st'.out = st.out++(new₁++new₂) ∧ Stowed a.cuboid new₁ ∧ Stowed b.cuboid new₂ := by
  obtain ⟨st₁,hrun₁,hrun₂⟩ := Option.bind_eq_some_iff.mp h
  obtain ⟨st₁',taken,hrun₁',htakes⟩ := he a st hless
  obtain rfl : st₁ = st₁' := Option.some.inj (hrun₁.symm.trans hrun₁')
  have hfewer := htakes.fewer
  obtain ⟨new₁,hout₁,h₁⟩ := hf a st st₁ hless hm hrun₁
  obtain ⟨new₂,hout₂,h₂⟩ := hf b st₁ st' (by omega) (htakes.measured hm) hrun₂
  exact ⟨new₁,new₂,by rw [hout₂,hout₁,List.append_assoc],h₁,h₂⟩

/-- The piece in the corner and what goes round it share no space. -/
theorem round_stows {limit : Option ℚ} {f : Space → Filling → Option Filling} {depth : ℕ}
    (hf : Stows f depth) (he : Ends limit f depth) (s : Space) (k : Kind) (w : Way)
    (hpos : w.dims.Positive) (hl : w.dims.l ≤ s.room.l) (hw : w.dims.w ≤ s.room.w)
    (hh : w.dims.h ≤ s.room.h) {st st' : Filling} (hless : total st.left < depth)
    (hm : Measured st.left) (h : round f s w.dims st = some st') :
    ∃ new, st'.out = st.out++new ∧ Stowed s.cuboid (putAt s.x s.y s.z k w :: new) := by
  set d := w.dims with hd
  obtain ⟨hl₀,hw₀,hh₀⟩ := hpos
  rw [round_eq] at h
  obtain ⟨st₁,htop,hrest⟩ := Option.bind_eq_some_iff.mp h
  -- the piece and what goes on top of it fill the column over its place
  have hcorner : Stowed ((s.column d).near 2 d.h) [putAt s.x s.y s.z k w] :=
    ⟨by simp [putAt_cuboid,hd,Cuboid.Within.refl],List.pairwise_singleton _ _⟩
  obtain ⟨new₁,hout₁,hcolumn,hless₁,hm₁⟩ : ∃ new₁, st₁.out = st.out++new₁ ∧
      Stowed (s.column d) (putAt s.x s.y s.z k w :: new₁) ∧ total st₁.left < depth ∧
      Measured st₁.left := by
    split at htop
    · obtain ⟨st₁',taken,hrun,htakes⟩ := he (s.above d) st hless
      obtain rfl : st₁ = st₁' := Option.some.inj (htop.symm.trans hrun)
      have hfewer := htakes.fewer
      obtain ⟨new₁,hout₁,hnew₁⟩ := hf _ _ _ hless hm htop
      rw [above_cuboid] at hnew₁
      exact ⟨new₁,hout₁,Stowed.cut 2 hh₀.le (by simpa [Space.column,Cuboid.near,Space.cuboid] using hh)
        hcorner hnew₁,by omega,htakes.measured hm⟩
    · obtain rfl := Option.some.inj htop
      exact ⟨[],by simp,hcorner.mono (Cuboid.near_within _
        (by simpa [Space.column,Cuboid.near,Space.cuboid] using hh)),hless,hm⟩
  have horder (new₂ new₃ : List Placement) : ((putAt s.x s.y s.z k w :: new₁)++new₃++new₂).Perm
      (putAt s.x s.y s.z k w :: (new₁++(new₂++new₃))) := by
    have hswap : (new₃++new₂).Perm (new₂++new₃) := List.perm_append_comm
    simpa using hswap.append_left new₁
  split at hrest
  · -- beside it the whole width, before it only as far as it goes
    obtain ⟨new₂,new₃,hout,hbeside,hbefore⟩ := hf.comp he hless₁ hm₁ hrest
    rw [beside_cuboid] at hbeside
    rw [before_near_cuboid] at hbefore
    have hnear : Stowed (s.cuboid.near 0 d.l) ((putAt s.x s.y s.z k w :: new₁)++new₃) :=
      Stowed.cut 1 hw₀.le (by simpa [Cuboid.near,Space.cuboid] using hw) hcolumn hbefore
    have hall := Stowed.cut 0 hl₀.le (by simpa [Space.cuboid] using hl) hnear hbeside
    exact ⟨new₁++(new₂++new₃),by rw [hout,hout₁,List.append_assoc],hall.perm (horder new₂ new₃)⟩
  · obtain ⟨new₂,new₃,hout,hbefore,hbeside⟩ := hf.comp he hless₁ hm₁ hrest
    rw [before_cuboid] at hbefore
    rw [beside_near_cuboid] at hbeside
    rw [column_comm] at hcolumn
    have hnear : Stowed (s.cuboid.near 1 d.w) ((putAt s.x s.y s.z k w :: new₁)++new₃) :=
      Stowed.cut 0 hl₀.le (by simpa [Cuboid.near,Space.cuboid] using hl) hcolumn hbeside
    have hall := Stowed.cut 1 hw₀.le (by simpa [Space.cuboid] using hw) hnear hbefore
    exact ⟨new₁++(new₂++new₃),by rw [hout,hout₁,List.append_assoc],hall.perm (horder new₂ new₃)⟩

theorem fill_stows (limit : Option ℚ) (depth : ℕ) : Stows (fill limit depth) depth := by
  induction depth with
  | zero => intro _ _ _ h; omega
  | succ depth ih =>
    intro space st st' hless hm h
    simp only [fill] at h
    split at h
    · obtain rfl := Option.some.inj h
      exact ⟨[],by simp,Stowed.nil _⟩
    · split at h
      · obtain rfl := Option.some.inj h
        exact ⟨[],by simp,Stowed.nil _⟩
      · rename_i k w left htake
        have hone := takes_one st space.x space.y space.z htake
        have hfewer : 1+total left = total st.left := hone.fewer
        obtain ⟨hpos,hfits⟩ := takeFirst_fits hm htake
        obtain ⟨new,hout,hstowed⟩ := round_stows ih (fill_ends limit depth) space k w hpos
          hfits.1 hfits.2.1 hfits.2.2 (by simp only; omega) (hone.measured hm) h
        exact ⟨putAt space.x space.y space.z k w :: new,by simp [hout],hstowed⟩

/-- The inside of a box from height `z` up. -/
def slab (size : Dims) (z : ℤ) : Cuboid (Fin 3) ℤ := Space.cuboid ⟨0,0,z,⟨size.l,size.w,size.h-z⟩⟩

theorem layer_cuboid (size : Dims) (z height : ℤ) :
    Space.cuboid ⟨0,0,z,⟨size.l,size.w,height⟩⟩ = (slab size z).near 2 height := by
  simp only [slab,Space.cuboid,Cuboid.near,Cuboid.mk.injEq,true_and]
  funext i
  fin_cases i <;> simp

theorem slab_far (size : Dims) (z height : ℤ) :
    slab size (z+height) = (slab size z).far 2 height := by
  simp only [slab,Space.cuboid,Cuboid.far,Cuboid.mk.injEq]
  constructor
  · funext i
    fin_cases i <;> simp
  · funext i
    fin_cases i <;> simp [sub_sub]

theorem layersFrom_stows (size : Dims) (limit : Option ℚ) (depth : ℕ) (z : ℤ) (left left' : List Left)
    (used : ℚ) (layers : List Layer) (hless : total left < depth) (hm : Measured left)
    (h : layersFrom size limit depth z left used = some (layers,left')) :
    Stowed (slab size z) (placements layers) := by
  induction depth generalizing z left used layers with
  | zero => omega
  | succ depth ih =>
    simp only [layersFrom] at h
    split at h
    · cases h
      exact Stowed.nil _
    · rename_i k w left₁ htake
      have hone := takes_one ⟨left,[],used⟩ 0 0 z htake
      have hfewer : 1+total left₁ = total left := hone.fewer
      obtain ⟨hpos,hfits⟩ := takeFirst_fits hm htake
      obtain ⟨st₂,hround,h⟩ := Option.bind_eq_some_iff.mp h
      obtain ⟨⟨rest,left₃⟩,hrest,h⟩ := Option.bind_eq_some_iff.mp h
      cases h
      obtain ⟨st₂',taken,hround',h₂⟩ := round_ends (fill_ends limit depth)
        ⟨0,0,z,⟨size.l,size.w,w.dims.h⟩⟩ w.dims
        ⟨left₁,[putAt 0 0 z k w],used+k.weight⟩ (by simp only; omega)
      obtain rfl : st₂ = st₂' := Option.some.inj (hround.symm.trans hround')
      have hfewer₂ : taken.length+total st₂.left = total left₁ := h₂.fewer
      obtain ⟨new,hout,hlayer⟩ := round_stows (fill_stows limit depth) (fill_ends limit depth)
        ⟨0,0,z,⟨size.l,size.w,w.dims.h⟩⟩ k w hpos hfits.1 hfits.2.1 le_rfl
        (by simp only; omega) (hone.measured hm) hround
      rw [layer_cuboid] at hlayer
      have habove := ih (z+w.dims.h) st₂.left st₂.used rest (by omega)
        (h₂.measured (hone.measured hm)) hrest
      rw [slab_far] at habove
      have hall := Stowed.cut 2 hpos.2.2.le (by simpa [slab,Space.cuboid] using hfits.2.2)
        hlayer habove
      simpa [placements,hout] using hall

/-- What a packer needs of a packing: goods inside the box, each in its own place,
turned as said, none lost, and no heavier than the box takes. -/
structure Sound (size : Dims) (pieces : List Left) (maxWeight : Option ℚ) (r : Packed) : Prop where
  inside : ∀ layer ∈ r.layers, ∀ p ∈ layer.placements,
    (0 ≤ p.x ∧ p.x+p.dims.l ≤ size.l) ∧ (0 ≤ p.y ∧ p.y+p.dims.w ≤ size.w) ∧
      (0 ≤ p.z ∧ p.z+p.dims.h ≤ size.h)
  apart : (placements r.layers).Pairwise fun p q => Disjoint p.interior q.interior
  turned : ∀ p ∈ placements r.layers, p.Turned
  kept : ∀ k, placed k (placements r.layers)+countOf k r.left = countOf k pieces
  affordable : ∀ most, maxWeight = some most → 0 ≤ most → weigh (placements r.layers) ≤ most

theorem within_box {size : Dims} {p : Placement} (h : p.cuboid.Within (slab size 0)) :
    (0 ≤ p.x ∧ p.x+p.dims.l ≤ size.l) ∧ (0 ≤ p.y ∧ p.y+p.dims.w ≤ size.w) ∧
      (0 ≤ p.z ∧ p.z+p.dims.h ≤ size.h) := by
  have hx := h 0
  have hy := h 1
  have hz := h 2
  simp only [Placement.cuboid,slab,Space.cuboid] at hx hy hz
  exact ⟨by simpa using hx,by simpa using hy,by simpa using hz⟩

/-- Packing ends, at any depth past the number of pieces, and what it makes is sound. -/
theorem pack_sound (size : Dims) (pieces : List Left)
    (hpieces : ∀ p ∈ pieces, p.kind.size.Positive) (maxWeight : Option ℚ) :
    (∀ depth, total pieces < depth →
      packWithin depth size pieces maxWeight = some (pack size pieces maxWeight)) ∧
    Sound size pieces maxWeight (pack size pieces maxWeight) := by
  obtain ⟨left,used,hrun,-,htakes⟩ := pack_run size pieces maxWeight
  have hperm : (sorted pieces).Perm pieces := List.perm_insertionSort _ _
  have hmeasured : Measured (sorted pieces) := by
    intro k hk
    obtain ⟨p,hp,rfl⟩ := List.mem_map.mp hk
    exact hpieces p (hperm.mem_iff.mp hp)
  have hstowed := layersFrom_stows size maxWeight (total pieces+1) 0 (sorted pieces) left 0 _
    (by rw [total_perm hperm]; omega) hmeasured hrun
  refine ⟨packWithin_eq size pieces maxWeight,?_,?_,htakes.turned,pack_kept size pieces maxWeight,?_⟩
  · intro layer hlayer p hp
    exact within_box (hstowed.inside p (List.mem_flatMap.mpr ⟨layer,hlayer,hp⟩))
  · exact hstowed.apart.imp fun h =>
      (h.map (Int.castAddHom ℝ) Int.cast_mono).disjoint_interior
  · intro most hmost hnonneg
    have hwithin := htakes.within most hmost hnonneg
    have hused := htakes.used
    simp only [zero_add] at hused hwithin
    rwa [← hused]

theorem pack_sound_aprons :
    let apron : Kind := ⟨1,7,"APRON",.each,1,⟨120,80,30⟩,some 250,true,0⟩
    (∀ depth, total [⟨apron,5⟩] < depth →
      packWithin depth ⟨300,200,100⟩ [⟨apron,5⟩] (some 1000) =
        some (pack ⟨300,200,100⟩ [⟨apron,5⟩] (some 1000))) ∧
    Sound ⟨300,200,100⟩ [⟨apron,5⟩] (some 1000) (pack ⟨300,200,100⟩ [⟨apron,5⟩] (some 1000)) :=
  pack_sound ⟨300,200,100⟩ [⟨_,5⟩] (by decide) (some 1000)

end Packing
end Spork
