import Spork.Packing.Shortcut

/-! What goods weigh by the record, as units are split, packed and boxed: none weighs less than
nothing, more pieces weigh no less, and a box high enough whose limit they are within takes
them all. -/
namespace Spork
namespace Packing

/-! ## What kinds weigh together -/

def weightOf (left : List Left) : ℚ := (left.map fun e => (e.count : ℚ)*e.kind.weight).sum

/-- What things set aside weigh by the record. -/
def recorded (things : List Aside) : ℚ := (things.map fun a => a.weightG.getD 0).sum

theorem weightOf_eq (left : List Left) : weightOf left = ((expand left).map Kind.weight).sum := by
  induction left with
  | nil => rfl
  | cons e es ih =>
    have hcons : expand (e :: es) = List.replicate e.count e.kind++expand es := rfl
    rw [hcons,List.map_append,List.sum_append,← ih,List.map_replicate,List.sum_replicate,nsmul_eq_mul,weightOf,
      List.map_cons,List.sum_cons]
    rfl

theorem weigh_eq (ps : List Placement) : weigh ps = ((ps.map Placement.kind).map Kind.weight).sum := by
  rw [List.map_map]
  rfl

/-- More of some kinds weigh no less. -/
theorem weights_le {xs ys : List Kind} (h : ∀ k, xs.count k ≤ ys.count k) (hweights : ∀ k ∈ ys, 0 ≤ k.weight) :
    (xs.map Kind.weight).sum ≤ (ys.map Kind.weight).sum := by
  obtain ⟨zs,hzs,hsub⟩ : xs.Subperm ys := List.subperm_ext_iff.mpr fun k _ => h k
  rw [← (hzs.map Kind.weight).sum_eq]
  exact (hsub.map Kind.weight).sum_le_sum fun w hw => by
    obtain ⟨k,hk,rfl⟩ := List.mem_map.mp hw
    exact hweights k hk

theorem mem_expand {k : Kind} {left : List Left} (h : k ∈ expand left) : ∃ e ∈ left, k = e.kind := by
  obtain ⟨e,he,hk⟩ := List.mem_flatMap.mp h
  exact ⟨e,he,(List.mem_replicate.mp hk).2⟩

variable {pieces : List Left}

/-- What some of the pieces weigh, placed or left. -/
theorem weightOf_le {left : List Left} (h : ∀ k, countOf k left ≤ countOf k pieces)
    (hweights : ∀ e ∈ pieces, 0 ≤ e.kind.weight) : weightOf left ≤ weightOf pieces := by
  rw [weightOf_eq,weightOf_eq]
  refine weights_le (fun k => ?_) fun k hk => ?_
  · rw [count_expand,count_expand]
    exact h k
  · obtain ⟨e,he,rfl⟩ := mem_expand hk
    exact hweights e he

theorem weigh_le {ps : List Placement} (h : ∀ k, placed k ps ≤ countOf k pieces)
    (hweights : ∀ e ∈ pieces, 0 ≤ e.kind.weight) : weigh ps ≤ weightOf pieces := by
  rw [weigh_eq,weightOf_eq]
  refine weights_le (fun k => ?_) fun k hk => ?_
  · rw [count_expand,List.count,List.countP_map]
    exact h k
  · obtain ⟨e,he,rfl⟩ := mem_expand hk
    exact hweights e he

theorem weightOf_nonneg (hweights : ∀ e ∈ pieces, 0 ≤ e.kind.weight) : 0 ≤ weightOf pieces :=
  List.sum_nonneg fun v hv => by
    obtain ⟨e,he,rfl⟩ := List.mem_map.mp hv
    exact mul_nonneg (Nat.cast_nonneg _) (hweights e he)

/-- What is placed and what is left weigh what there was. -/
theorem weigh_kept {ps : List Placement} {left : List Left} (h : ∀ k, placed k ps+countOf k left = countOf k pieces) :
    weigh ps+weightOf left = weightOf pieces := by
  rw [weigh_eq,weightOf_eq,weightOf_eq,← List.sum_append,← List.map_append]
  exact ((kept_perm h).map Kind.weight).sum_eq

/-! ## A box that takes everything -/

theorem flattest_fitting {size room : Dims} (upright : Bool) (hl : size.l ≤ room.l) (hw : size.w ≤ room.w) (hh : size.h ≤ room.h) :
    flattest size room upright ≠ none := by
  have hkeeps (ws : List Way) (best : Way × ℤ) : (ws.foldl (flatter room) (some best)).isSome = true := by
    induction ws generalizing best with
    | nil => rfl
    | cons w ws ih =>
      rw [List.foldl_cons]
      simp only [flatter]
      split_ifs
      · exact ih _
      · exact ih _
  have hstanding : fitting size room upright = ⟨⟨0,1,2⟩,turned size ⟨0,1,2⟩⟩ ::
      fittingFrom size room upright [⟨1,0,2⟩,⟨0,2,1⟩,⟨2,0,1⟩,⟨1,2,0⟩,⟨2,1,0⟩] [turned size ⟨0,1,2⟩] := by
    have hfits : (turned size ⟨0,1,2⟩).l ≤ room.l ∧ (turned size ⟨0,1,2⟩).w ≤ room.w ∧ (turned size ⟨0,1,2⟩).h ≤ room.h :=
      ⟨hl,hw,hh⟩
    rw [fitting,ways,fittingFrom,if_neg (by simp)]
    dsimp only
    rw [if_neg List.not_mem_nil,if_pos hfits]
  rw [flattest,hstanding,List.foldl_cons]
  intro hnone
  exact Option.isSome_iff_ne_none.mp (hkeeps _ _) (Option.map_eq_none_iff.mp hnone)

theorem takeFirst_none {way : Left → Option Way} {left : List Left} (h : takeFirst way left = none) :
    ∀ e ∈ left, way e = none := by
  induction left with
  | nil => simp
  | cons e es ih =>
    rw [takeFirst] at h
    cases hway : way e with
    | some w => simp [hway] at h
    | none =>
      rw [hway] at h
      exact List.forall_mem_cons.mpr ⟨hway,ih (Option.map_eq_none_iff.mp h)⟩

/-- No side of what is left is longer than this. -/
def Within (side : ℤ) (left : List Left) : Prop :=
  ∀ e ∈ left, e.kind.size.l ≤ side ∧ e.kind.size.w ≤ side ∧ e.kind.size.h ≤ side

theorem within_turned {size : Dims} {side : ℤ} (h : size.l ≤ side ∧ size.w ≤ side ∧ size.h ≤ side) (axes : Axes) :
    (turned size axes).h ≤ side := by
  obtain ⟨hl,hw,hh⟩ := h
  simp only [turned]
  generalize axes.h = i
  fin_cases i
  · exact hl
  · exact hw
  · exact hh

/-- Of the kinds in a list, what is true of all is true of as many of them in another. -/
theorem forall_kinds {left left' : List Left} (hkinds : left'.map Left.kind = left.map Left.kind) {P : Kind → Prop}
    (h : ∀ e ∈ left, P e.kind) : ∀ e ∈ left', P e.kind := by
  intro e he
  obtain ⟨e',he',heq⟩ := List.mem_map.mp (hkinds ▸ List.mem_map_of_mem he)
  exact heq ▸ h e' he'

section
variable {size : Dims} {limit : Option ℚ} {side : ℤ}

/-- One of each entry goes in while there is height for as many layers as pieces. -/
theorem layersFrom_all (hside : 0 ≤ side) (hl : side ≤ size.l) (hw : side ≤ size.w) {depth : ℕ} {z : ℤ} {left left' : List Left}
    {used : ℚ} {layers : List Layer} (hless : total left < depth) (hwithin : Within side left) (hheight : side*total left ≤ size.h-z)
    (hweights : ∀ e ∈ left, 0 ≤ e.kind.weight) (hlimit : ∀ most ∈ limit, used+weightOf left ≤ most)
    (h : layersFrom size limit depth z left used = some (layers,left')) : ∀ e ∈ left', e.count = 0 := by
  induction depth generalizing z left used layers with
  | zero => omega
  | succ depth ih =>
    simp only [layersFrom] at h
    split at h
    · rename_i htake
      obtain ⟨-,rfl⟩ := Prod.mk.inj (Option.some.inj h)
      intro e he
      by_contra hcount
      have hnone := takeFirst_none htake e he
      obtain ⟨hel,hew,heh⟩ := hwithin e he
      have hone : 1 ≤ total left := by
        have hle : e.count ≤ total left := List.le_sum_of_mem (List.mem_map_of_mem he)
        omega
      have hroom : side ≤ size.h-z := (le_mul_of_one_le_right hside (by exact_mod_cast hone)).trans hheight
      have hafford : affords limit used e.kind = true := by
        cases hlim : limit with
        | none => rfl
        | some most =>
          have hmost := hlimit most hlim
          have hentry : (e.count : ℚ)*e.kind.weight ≤ weightOf left :=
            List.single_le_sum (fun v hv => by
              obtain ⟨e',he',rfl⟩ := List.mem_map.mp hv
              exact mul_nonneg (Nat.cast_nonneg _) (hweights e' he')) _ (List.mem_map_of_mem he)
          have hpiece : e.kind.weight ≤ (e.count : ℚ)*e.kind.weight :=
            le_mul_of_one_le_left (hweights e he) (by exact_mod_cast Nat.one_le_iff_ne_zero.mpr hcount)
          exact decide_eq_true (by linarith)
      have hfits : flattest e.kind.size ⟨size.l,size.w,size.h-z⟩ e.kind.upright ≠ none :=
        flattest_fitting _ (hel.trans hl) (hew.trans hw) (heh.trans hroom)
      rw [placeable,if_neg (by simp [hcount,hafford])] at hnone
      exact hfits hnone
    · rename_i k w left₁ htake
      have hone := takes_one ⟨left,[],used⟩ 0 0 z htake
      have hfewer := hone.fewer
      simp only [List.length_singleton] at hfewer
      obtain ⟨st,new,hround,htakes⟩ := round_ends (fill_ends limit depth) ⟨0,0,z,⟨size.l,size.w,w.dims.h⟩⟩ w.dims
        ⟨left₁,[putAt 0 0 z k w],used+k.weight⟩ (by simp only; omega)
      simp only [hround,Option.bind_eq_bind,Option.bind_some] at h
      obtain ⟨⟨later,left₂⟩,hlater,heq⟩ := Option.bind_eq_some_iff.mp h
      cases heq
      have hall := hone.trans htakes
      have hkinds : st.left.map Left.kind = left.map Left.kind := hall.kinds
      have hused : st.used = used+weigh ([putAt 0 0 z k w]++new) := hall.used
      have hkept := weigh_kept hall.kept
      have hcount : new.length+total st.left = total left₁ := htakes.fewer
      -- the layer is no higher than the longest side, and there is a piece less
      obtain ⟨pre,e,post,hleft,hway,-,-⟩ := takeFirst_some htake
      obtain ⟨-,-,hflat⟩ := placeable_some hway
      obtain ⟨-,hdims,-⟩ := flattest_fits hflat
      have hhigh : w.dims.h ≤ side := hdims ▸ within_turned (hwithin e (by simp [hleft])) w.axes
      have hmore : side*((total st.left : ℤ)+1) ≤ side*total left := mul_le_mul_of_nonneg_left (by omega) hside
      have hwithin' : Within side st.left :=
        @forall_kinds _ _ hkinds (fun k => k.size.l ≤ side ∧ k.size.w ≤ side ∧ k.size.h ≤ side) hwithin
      have hweights' := @forall_kinds _ _ hkinds (fun k => 0 ≤ k.weight) hweights
      refine ih (by omega) hwithin' (by linarith) hweights' (fun most hmost => ?_) hlater
      rw [hused,add_assoc,hkept]
      exact hlimit most hmost

theorem pack_all (hside : 0 ≤ side) (hl : side ≤ size.l) (hw : side ≤ size.w) (hwithin : Within side pieces)
    (hheight : side*total pieces ≤ size.h) (hweights : ∀ e ∈ pieces, 0 ≤ e.kind.weight)
    (hlimit : ∀ most ∈ limit, weightOf pieces ≤ most) : (pack size pieces limit).left = [] := by
  obtain ⟨left,used,hrun,hleft,-⟩ := pack_run size pieces limit
  have hperm : (sorted pieces).Perm pieces := List.perm_insertionSort _ _
  have hweight : weightOf (sorted pieces) = weightOf pieces := (hperm.map _).sum_eq
  have hcounts := layersFrom_all hside hl hw (by rw [total_perm hperm]; omega) (fun e he => hwithin e (hperm.mem_iff.mp he))
    (by rwa [total_perm hperm,sub_zero]) (fun e he => hweights e (hperm.mem_iff.mp he))
    (fun most hmost => by rw [zero_add,hweight]; exact hlimit most hmost) hrun
  rw [hleft,List.filter_eq_nil_iff]
  exact fun e he => by simp [hcounts e he]

end

theorem exists_within (left : List Left) : ∃ side : ℤ, 1 ≤ side ∧ Within side left := by
  induction left with
  | nil => exact ⟨1,le_rfl,by simp [Within]⟩
  | cons e es ih =>
    obtain ⟨side,hside,hes⟩ := ih
    refine ⟨max side (max e.kind.size.l (max e.kind.size.w e.kind.size.h)),hside.trans (le_max_left _ _),
      List.forall_mem_cons.mpr ⟨by simp,fun e' he' => ?_⟩⟩
    obtain ⟨hl,hw,hh⟩ := hes e' he'
    exact ⟨hl.trans (le_max_left _ _),hw.trans (le_max_left _ _),hh.trans (le_max_left _ _)⟩

/-- There is a size of box that takes all there is, with any limit it is within. -/
theorem exists_taking (hweights : ∀ e ∈ pieces, 0 ≤ e.kind.weight) : ∃ size : StatedSize, (dims size).Positive ∧
    ∀ limit : Option ℚ, (∀ most ∈ limit, weightOf pieces ≤ most) → (pack (dims size) pieces limit).left = [] := by
  obtain ⟨side,hside,hwithin⟩ := exists_within pieces
  have hnonneg : 0 ≤ side*total pieces := mul_nonneg (by omega) (Int.natCast_nonneg _)
  refine ⟨⟨side,side,side*total pieces+1⟩,⟨?_,?_,?_⟩,fun limit hlimit => ?_⟩
  · exact hside
  · exact hside
  · exact Int.lt_add_one_of_le hnonneg
  · exact @pack_all pieces _ limit side (zero_le_one.trans hside) le_rfl le_rfl hwithin (by simp [dims]) hweights hlimit

/-! ## What units are split into -/

/-- No recorded weight is less than nothing. -/
def Grams (lines : List BenchLine) : Prop := ∀ line ∈ lines, ∀ unit ∈ line.packs, ∀ g ∈ unit.grossWeightG, 0 ≤ g

/-- What has three sides where it is to be placed, at least one of each, and weighs no less
than nothing. -/
structure Weighed (s : Split) : Prop where
  sized : Sized s.pieces
  pieces : ∀ e ∈ s.pieces, 0 ≤ e.kind.weight
  loose : ∀ a ∈ s.loose, 0 ≤ a.weightG.getD 0
  unmeasured : ∀ a ∈ s.unmeasured, 0 ≤ a.weightG.getD 0

theorem recorded_nonneg {things : List Aside} (h : ∀ a ∈ things, 0 ≤ a.weightG.getD 0) : 0 ≤ recorded things :=
  List.sum_nonneg fun v hv => by
    obtain ⟨a,ha,rfl⟩ := List.mem_map.mp hv
    exact h a ha

theorem measured_positive {unit : PackUnit} {d : Dims} (h : measured unit = some d) : d.Positive := by
  rw [measured] at h
  split at h
  · cases h
  · obtain ⟨hpos,hsize⟩ := Option.ite_none_right_eq_some.mp h
    exact Option.some.inj hsize ▸ hpos

section
variable {line : BenchLine} (hline : ∀ unit ∈ line.packs, ∀ g ∈ unit.grossWeightG, 0 ≤ g)
include hline

theorem putAs_weighed {index : ℕ} {inBox : Bool} {level : Level} {unit : PackUnit} {count : ℤ} {s : Split}
    (hs : Weighed s) (hunit : unit ∈ line.packs) (hunits : 0 < unit.units) (hcount : 0 < count) :
    Weighed (putAs line index inBox level unit count s) := by
  have haside : 0 ≤ (aside line count (some unit)).weightG.getD 0 := by
    simp only [aside,Option.bind_some]
    cases hg : unit.grossWeightG with
    | none => exact le_rfl
    | some g =>
      have hweight := hline unit hunit g hg
      exact div_nonneg (mul_nonneg hweight (by exact_mod_cast hcount.le)) (by exact_mod_cast hunits.le)
  unfold putAs
  by_cases halone : (unit.shipsAsIs && !inBox) = true
  · rw [if_pos halone]
    exact ⟨hs.sized,hs.pieces,hs.loose,hs.unmeasured⟩
  · rw [if_neg halone]
    split
    · rename_i d hd
      refine ⟨?_,?_,hs.loose,hs.unmeasured⟩
      · refine List.forall_mem_append.mpr ⟨hs.sized,List.forall_mem_singleton.mpr ⟨measured_positive hd,?_⟩⟩
        simp only
        omega
      · refine List.forall_mem_append.mpr ⟨hs.pieces,List.forall_mem_singleton.mpr ?_⟩
        simp only [Kind.weight,kindOf]
        cases hg : unit.grossWeightG with
        | none => exact le_rfl
        | some g => exact hline unit hunit g hg
    · split_ifs
      · exact ⟨hs.sized,hs.pieces,List.forall_mem_append.mpr ⟨hs.loose,List.forall_mem_singleton.mpr haside⟩,hs.unmeasured⟩
      · exact ⟨hs.sized,hs.pieces,hs.loose,List.forall_mem_append.mpr ⟨hs.unmeasured,List.forall_mem_singleton.mpr haside⟩⟩

theorem splitLevel_weighed {index : ℕ} {inBox : Bool} {s : Split} {units : ℤ} (hs : Weighed s) (level : Level) :
    Weighed (splitLevel line index inBox (s,units) level).1 := by
  rw [splitLevel_eq]
  split
  · exact hs
  · rename_i unit husable
    obtain ⟨hunit,-,hunits,-⟩ := usable_some husable
    split_ifs with hfew
    · exact hs
    · exact putAs_weighed hline hs hunit hunits ((Int.le_ediv_iff_mul_le hunits).mpr (by omega))

theorem splitLine_weighed {index : ℕ} {inBox : Bool} {s : Split} (hs : Weighed s) (unitsOf : ℤ) :
    Weighed (splitLine inBox s line index unitsOf) := by
  have hlevels (ls : List Level) (acc : Split × ℤ) (hacc : Weighed acc.1) :
      Weighed (ls.foldl (splitLevel line index inBox) acc).1 := by
    induction ls generalizing acc with
    | nil => exact hacc
    | cons level ls ih => exact ih _ (splitLevel_weighed hline hacc level)
  have hend := hlevels [.carton,.inner,.each] (s,max 0 unitsOf) hs
  unfold splitLine
  dsimp only
  split_ifs
  · exact hs
  · exact ⟨hend.sized,hend.pieces,hend.loose,
      List.forall_mem_append.mpr ⟨hend.unmeasured,List.forall_mem_singleton.mpr le_rfl⟩⟩
  · exact hend

end

theorem split_weighed {ls : List (BenchLine × ℤ)} (hweights : Grams (ls.map Prod.fst)) (inBox : Bool) :
    Weighed (split ls inBox) := by
  suffices hfrom : ∀ (index : ℕ) (s : Split), Weighed s → Weighed (splitFrom inBox index ls s) from
    hfrom 0 ⟨[],[],[],[]⟩ ⟨by simp [Sized],by simp,by simp,by simp⟩
  induction ls with
  | nil => exact fun _ _ hs => hs
  | cons l ls ih =>
    obtain ⟨hline,hrest⟩ := List.forall_mem_cons.mp hweights
    exact fun index s hs => ih hrest (index+1) _ (splitLine_weighed hline hs l.2)

end Packing
end Spork
