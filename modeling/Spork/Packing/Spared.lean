import Spork.Packing.Payload

/-! When no suggested box can be over its limit by the record: for given lines, what the open
carton holds and the least limit there is, whatever the boxes are. -/
namespace Spork
namespace Packing

/-! ## What a plan can weigh -/

section
variable {lines : List BenchLine} {presets : List Preset} {carton : Option OpenCarton} {objective : Objective}

theorem grams_toBox (hweights : Grams lines) : Weighed (toBox lines) :=
  split_weighed (by rw [List.map_map]; simpa [Function.comp_def] using hweights) false

theorem grams_alreadyIn (hweights : Grams lines) (contents : List Content) : Weighed (alreadyIn contents lines) :=
  split_weighed (by rwa [unitsIn_lines]) true

theorem weightOf_append (xs ys : List Left) : weightOf (xs++ys) = weightOf xs+weightOf ys := by
  rw [weightOf,List.map_append,List.sum_append]
  rfl

theorem mem_together {pieces acc : List Left} {e : Left} (h : e ∈ pieces.foldl addTo acc) :
    e.kind ∈ acc.map Left.kind ∨ e.kind ∈ pieces.map Left.kind := by
  induction pieces generalizing acc with
  | nil => exact Or.inl (List.mem_map_of_mem h)
  | cons p pieces ih =>
    rcases ih h with hacc | hlater
    · rw [addTo_kinds] at hacc
      split_ifs at hacc with hin
      · exact Or.inl hacc
      · rcases List.mem_append.mp hacc with hacc | hnew
        · exact Or.inl hacc
        · exact Or.inr (by simp [List.mem_singleton.mp hnew])
    · exact Or.inr (List.mem_cons_of_mem _ hlater)

/-- Pooled kind by kind, pieces weigh what they did. -/
theorem weightOf_together (pieces : List Left) : weightOf (pieces.foldl addTo []) = weightOf pieces := by
  obtain ⟨-,hcount⟩ := together_spec pieces [] List.nodup_nil
  have hperm : (expand (pieces.foldl addTo [])).Perm (expand pieces) := List.perm_iff_count.mpr fun k => by
    rw [count_expand,count_expand,hcount,countOf_nil,zero_add]
  rw [weightOf_eq,weightOf_eq]
  exact (hperm.map Kind.weight).sum_eq

theorem counts_le (pieces : List Left) (k : Kind) : counts pieces k ≤ countOf k pieces := by
  rw [counts]
  cases hfind : pieces.reverse.find? (·.kind = k) with
  | none => exact Nat.zero_le _
  | some e =>
    have hmem : e ∈ pieces := List.mem_reverse.mp (List.mem_of_find?_eq_some hfind)
    have hkind : e.kind = k := by simpa using List.find?_some hfind
    exact List.le_sum_of_mem (List.mem_map_of_mem (List.mem_filter.mpr ⟨hmem,by simpa using hkind⟩))

/-- No more is left after the open carton than there was to box. -/
theorem fillOpen_rest (c : OpenCarton) (remaining : List Left) (k : Kind) :
    countOf k (fillOpen c lines remaining).rest ≤ countOf k remaining := by
  obtain ⟨hone,-⟩ := together_spec ((alreadyIn c.contents lines).pieces++remaining) [] List.nodup_nil
  have hleft := @pack_oneEach (dims c.size) _ c.maxPayloadG hone
  have hrest := countOf_min hleft (counts remaining) k
  refine Nat.le_trans ?_ (counts_le remaining k)
  change countOf k ((((pack (dims c.size) (((alreadyIn c.contents lines).pieces++remaining).foldl addTo []) c.maxPayloadG).left.map
    fun e => (⟨e.kind,min e.count (counts remaining e.kind)⟩ : Left))).filter (·.count > 0)) ≤ _
  rw [countOf_filter,hrest]
  exact min_le_right _ _

theorem fillOpen_weight (c : OpenCarton) (remaining : List Left) : (fillOpen c lines remaining).plan.weightG =
    weigh (placements (pack (dims c.size) (((alreadyIn c.contents lines).pieces++remaining).foldl addTo []) c.maxPayloadG).layers) :=
  weigh_bare _ _ (markLayers_spec _ _).1

/-- A plan of some of the pieces weighs no more than they all do. -/
theorem best_weight {rest : List Left} (hweights : ∀ e ∈ rest, 0 ≤ e.kind.weight) {boxes : List Box} {b : BoxPlan}
    (hb : b ∈ (best rest boxes objective).plans) : b.weightG ≤ weightOf rest := by
  obtain ⟨box,-,rest',hplan⟩ := best_offered rest objective b hb
  have hweigh : b.weightG = weigh (placements b.layers) := by rw [hplan]; rfl
  obtain ⟨xs,ys,hsplit⟩ := List.append_of_mem hb
  rw [hweigh]
  refine weigh_le (fun k => ?_) hweights
  have hkept := (best_boxing rest boxes objective).kept k
  rw [hsplit,planned_append,planned_cons,placed_append,placed_append] at hkept
  omega

theorem extra_weight (c : OpenCarton) (presets : List Preset) (objective : Objective) :
    recorded (packedPlans lines presets (some c) objective).2 = looseIn c.contents lines := by
  have hextra : (packedPlans lines presets (some c) objective).2 =
      (alreadyIn c.contents lines).loose++(alreadyIn c.contents lines).unmeasured := by
    simp only [packedPlans,boxed]
    split <;> rfl
  rw [hextra,recorded,List.map_append,List.sum_append]
  rfl

/-- As packed, a box holds no more than there is to box, and the open carton no more than
that and what it held already. -/
theorem packed_weight (hweights : Grams lines) {i : ℕ} {b : BoxPlan}
    (hb : (packedPlans lines presets carton objective).1[i]? = some b) :
    (carton = none ∨ i ≠ 0 → b.weightG ≤ weightOf (toBox lines).pieces) ∧ ∀ c ∈ carton, i = 0 →
      b.carton.isSome = true ∧ b.weightG ≤ weightOf (alreadyIn c.contents lines).pieces+weightOf (toBox lines).pieces := by
  have hpieces := (grams_toBox hweights).pieces
  cases carton with
  | none =>
    refine ⟨fun _ => ?_,by simp⟩
    simp only [packedPlans,boxed] at hb
    split at hb
    · simp at hb
    · rw [List.nil_append] at hb
      exact best_weight hpieces (List.mem_of_getElem? hb)
  | some c =>
    have hrest : weightOf (fillOpen c lines (toBox lines).pieces).rest ≤ weightOf (toBox lines).pieces :=
      weightOf_le (fillOpen_rest c _) hpieces
    have hrestWeights : ∀ e ∈ (fillOpen c lines (toBox lines).pieces).rest, 0 ≤ e.kind.weight := by
      intro e he
      have hpos : 0 < e.count := of_decide_eq_true (List.mem_filter.mp he).2
      have hcount : e.count ≤ countOf e.kind (fillOpen c lines (toBox lines).pieces).rest :=
        List.le_sum_of_mem (List.mem_map_of_mem (List.mem_filter.mpr ⟨he,by simp⟩))
      have hle := @fillOpen_rest lines c (toBox lines).pieces e.kind
      have hin : countOf e.kind (toBox lines).pieces ≠ 0 := by omega
      obtain ⟨e',he',hkind⟩ := List.mem_map.mp (not_imp_comm.mp countOf_eq_zero hin)
      exact hkind ▸ hpieces e' he'
    have htogether : ∀ e ∈ (alreadyIn c.contents lines).pieces++(toBox lines).pieces, 0 ≤ e.kind.weight :=
      List.forall_mem_append.mpr ⟨(grams_alreadyIn hweights c.contents).pieces,hpieces⟩
    cases i with
    | zero =>
      refine ⟨by simp,fun c' hc' _ => ?_⟩
      obtain rfl := Option.some.inj hc'
      obtain rfl : (fillOpen c lines (toBox lines).pieces).plan = b := by
        simp only [packedPlans,boxed] at hb
        split at hb <;> simpa using hb
      refine ⟨rfl,?_⟩
      rw [fillOpen_weight,← weightOf_append]
      refine weigh_le (fun k => ?_) htogether
      obtain ⟨-,hcount⟩ := together_spec ((alreadyIn c.contents lines).pieces++(toBox lines).pieces) [] List.nodup_nil
      have hkept := pack_kept (dims c.size) (((alreadyIn c.contents lines).pieces++(toBox lines).pieces).foldl addTo []) c.maxPayloadG k
      rw [hcount,countOf_nil] at hkept
      omega
    | succ i =>
      refine ⟨fun _ => ?_,by simp⟩
      simp only [packedPlans,boxed] at hb
      split at hb
      · simp at hb
      · rw [List.singleton_append,List.getElem?_cons_succ] at hb
        exact (best_weight hrestWeights (List.mem_of_getElem? hb)).trans hrest

/-- A single plan is a box that weighs what goes round the goods as well. -/
theorem arrange_one {plan : BoxPlan} (hfew : total (toBox lines).pieces ≤ mostPieces)
    (hplans : (packedPlans lines presets carton objective).1 = [plan]) :
    ∃ b ∈ (arrange lines presets carton objective).boxes, b.preset = plan.preset ∧ b.carton = plan.carton ∧
      b.weightG = plan.weightG+((if carton.isSome then recorded (packedPlans lines presets carton objective).2 else 0)+
        recorded (toBox lines).loose) := by
  rw [arrange_boxes,if_neg (not_lt.mpr hfew)]
  have hlt : 0 < (goRound carton (packedPlans lines presets carton objective).2 (toBox lines).loose
      (packedPlans lines presets carton objective).1).length := by
    rw [goRound_length,hplans]
    exact one_pos
  obtain ⟨b,hb,hpreset,hcart,hweight⟩ := goRound_weight (List.getElem?_eq_getElem hlt)
  obtain rfl : plan = b := by simpa [hplans] using hb
  have hroomiest : roomiest (packedPlans lines presets carton objective).1 = some 0 := by
    rw [hplans]
    rfl
  rw [if_pos hroomiest] at hweight
  exact ⟨_,List.getElem_mem hlt,hpreset,hcart,by simpa using hweight⟩

end

/-- One box that takes everything is the plan, whatever plans cost. -/
theorem best_taking {pieces : List Left} (hpieces : Sized pieces) (hsome : pieces ≠ []) {box : Box}
    (htakes : (packBox box pieces).left = []) (objective : Objective) :
    best pieces [box] objective = ⟨[plan box (packBox box pieces).layers],[]⟩ := by
  have hbulk := bulk_pos hpieces hsome
  rcases best_mem pieces [box] objective with h | ⟨box',hbox',h⟩
  · have hmost : (smallestTaking pieces [box]).or (takingMost pieces [box]) = some (box,packBox box pieces) := by
      have htook : 0 < Double.sub (bulk pieces) (bulk (packBox box pieces).left) := by
        rw [htakes]
        exact Double.ofInt_pos.mpr (by simpa [bulk] using hbulk)
      simp only [smallestTaking,htakes,if_true]
      split_ifs
      · simp [takingMost,takeMore,htook]
      · rfl
    rw [h,greedy,greedyFrom,if_neg hsome,hmost]
    simp only [htakes]
    rfl
  · obtain rfl := List.mem_singleton.mp hbox'
    have hless : bulk (packBox box' pieces).left ≠ bulk pieces := by
      rw [htakes]
      exact hbulk.ne
    rw [h,uniform,uniformFrom,if_neg hsome]
    simp only [if_neg hless]
    rw [htakes]
    rfl

/-! ## When nothing is over -/

/-- Nothing that goes in round the goods can take a box over its limit: there is too much to
arrange, or no box to put it in; or all there is weighs no more than the least limit; or nothing
loose weighs anything, and what there is to box goes in with no more weight, or what is in the
open carton already was all measured. -/
def Spared (lines : List BenchLine) (held : Option (List Content)) (least : ℚ) : Prop :=
  mostPieces < total (toBox lines).pieces ∨ (held = none ∧ (toBox lines).pieces = []) ∨
  weightOf (toBox lines).pieces+recorded (toBox lines).loose+held.elim 0 (contentsWeight · lines) ≤ least ∨
  recorded (toBox lines).loose = 0 ∧ (weightOf (toBox lines).pieces = 0 ∨ held.elim 0 (looseIn · lines) = 0)

section
variable {lines : List BenchLine} (hweights : Grams lines) {least : ℚ}
include hweights

theorem looseIn_nonneg (contents : List Content) : 0 ≤ looseIn contents lines :=
  add_nonneg (recorded_nonneg (grams_alreadyIn hweights contents).loose)
    (recorded_nonneg (grams_alreadyIn hweights contents).unmeasured)

theorem contentsWeight_nonneg (contents : List Content) : 0 ≤ contentsWeight contents lines :=
  add_nonneg (weightOf_nonneg (grams_alreadyIn hweights contents).pieces) (looseIn_nonneg hweights contents)

/-- Spared, every box is within its limit. -/
theorem spared_within (hleast : 0 ≤ least) {presets : List Preset} {carton : Option OpenCarton} {objective : Objective}
    (hpresets : ∀ p ∈ presets, ∀ g ∈ p.maxPayloadG, least ≤ g) (hcarton : ∀ c ∈ carton, ∀ g ∈ c.maxPayloadG, least ≤ g)
    (hspared : Spared lines (carton.map OpenCarton.contents) least) :
    ∀ b ∈ (arrange lines presets carton objective).boxes, ∀ most, Limits lines carton b most → b.weightG ≤ most := by
  intro b hb most hlimits
  rw [arrange_boxes] at hb
  by_cases hmany : mostPieces < total (toBox lines).pieces
  · simp [hmany] at hb
  rw [if_neg hmany] at hb
  obtain ⟨i,hlt,rfl⟩ := List.mem_iff_getElem.mp hb
  obtain ⟨b',hb',hpreset,hcart,hweight⟩ := goRound_weight (List.getElem?_eq_getElem hlt)
  have hlimits' : Limits lines carton b' most := by
    rw [Limits,← hpreset,← hcart]
    exact hlimits
  obtain ⟨hafford,hof⟩ := packedPlans_affordable lines presets carton objective b' (List.mem_of_getElem? hb')
  have hmost : least ≤ most := by
    rcases hof with hbox | ⟨c,hc,hsame⟩
    · obtain ⟨p,hp,hpbox⟩ := List.mem_filterMap.mp ((List.perm_insertionSort _ _).mem_iff.mp hbox)
      rw [Preset.box] at hpbox
      obtain ⟨-,hpbox⟩ := Option.ite_none_right_eq_some.mp hpbox
      obtain ⟨size,-,heq⟩ := Option.map_eq_some_iff.mp hpbox
      exact hpresets p hp most (by rw [Option.mem_def,← hlimits'.1,← heq])
    · exact hcarton c hc most (by rw [Option.mem_def,← hlimits'.1,hsame])
  have hpacked := hafford.within most hlimits'.1 (hleast.trans hmost)
  obtain ⟨hother,hopen⟩ := packed_weight hweights hb'
  have hpieces := weightOf_nonneg (grams_toBox hweights).pieces
  have hloose := recorded_nonneg (grams_toBox hweights).loose
  rw [hweight]
  obtain ⟨r,hr,hnonneg,hle⟩ : ∃ r, (if roomiest (packedPlans lines presets carton objective).1 = some i then
      recorded (toBox lines).loose else 0) = r ∧ 0 ≤ r ∧ r ≤ recorded (toBox lines).loose := by
    split_ifs
    · exact ⟨_,rfl,hloose,le_rfl⟩
    · exact ⟨_,rfl,le_rfl,hloose⟩
  rw [hr]
  cases carton with
  | none =>
    have hgoods := hother (Or.inl rfl)
    rw [if_neg (by simp),zero_add]
    rcases hspared with hmany' | ⟨-,hnone⟩ | hall | ⟨hzero,-⟩
    · exact absurd hmany' hmany
    · simp [packedPlans,boxed,hnone] at hb'
    · simp only [Option.map_none,Option.elim_none] at hall
      linarith
    · linarith
  | some c =>
    have hcontents := contentsWeight_nonneg hweights c.contents
    by_cases hi : i = 0
    · obtain ⟨hisOpen,hgoods⟩ := hopen c rfl hi
      have hheld : contentsWeight c.contents lines ≤ most := hlimits'.2 c rfl hisOpen
      rw [if_pos ⟨rfl,hi⟩,extra_weight]
      rcases hspared with hmany' | ⟨hnone,-⟩ | hall | ⟨hzero,hplain | hmeasured⟩
      · exact absurd hmany' hmany
      · cases hnone
      · simp only [Option.map_some,Option.elim_some] at hall
        rw [contentsWeight] at hall
        linarith
      · rw [contentsWeight] at hheld
        linarith
      · simp only [Option.map_some,Option.elim_some] at hmeasured
        linarith
    · have hgoods := hother (Or.inr hi)
      rw [if_neg (by simp [hi]),zero_add]
      rcases hspared with hmany' | ⟨hnone,-⟩ | hall | ⟨hzero,-⟩
      · exact absurd hmany' hmany
      · cases hnone
      · simp only [Option.map_some,Option.elim_some] at hall
        linarith
      · linarith

/-! ## When one can be over -/

/-- A carton high enough, with a limit its goods are just within, is taken over it by what
goes round them. -/
theorem over_open (contents : List Content) (hfew : total (toBox lines).pieces ≤ mostPieces)
    (hover : least < weightOf (toBox lines).pieces+recorded (toBox lines).loose+contentsWeight contents lines)
    (hround : 0 < recorded (toBox lines).loose ∨ (0 < weightOf (toBox lines).pieces ∧ 0 < looseIn contents lines)) :
    ∃ carton : OpenCarton, carton.contents = contents ∧ (∀ g ∈ carton.maxPayloadG, least ≤ g) ∧ ∀ objective,
      ¬∀ b ∈ (arrange lines [] (some carton) objective).boxes, ∀ most, Limits lines (some carton) b most → b.weightG ≤ most := by
  have hboth := (grams_toBox hweights).pieces
  have halready := (grams_alreadyIn hweights contents).pieces
  set together := ((alreadyIn contents lines).pieces++(toBox lines).pieces).foldl addTo [] with htogether
  have hweight : weightOf together = weightOf (alreadyIn contents lines).pieces+weightOf (toBox lines).pieces := by
    rw [htogether,weightOf_together,weightOf_append]
  have hgrams : ∀ e ∈ together, 0 ≤ e.kind.weight := by
    intro e he
    rcases mem_together he with hnil | hmem
    · simp at hnil
    · obtain ⟨e',he',hkind⟩ := List.mem_map.mp hmem
      rw [← hkind]
      exact (List.mem_append.mp he').elim (halready e') (hboth e')
  obtain ⟨size,-,htakes⟩ := exists_taking hgrams
  set most := max least (max (weightOf together) (contentsWeight contents lines)) with hmost
  have hleft := htakes (some most) fun g hg => by
    obtain rfl := Option.some.inj hg
    exact (le_max_left _ _).trans (le_max_right _ _)
  refine ⟨⟨0,"1","",size,some most,none,contents⟩,rfl,fun g hg => ?_,fun objective hall => ?_⟩
  · obtain rfl := Option.some.inj hg
    exact le_max_left _ _
  set carton : OpenCarton := ⟨0,"1","",size,some most,none,contents⟩ with hcarton
  have hrest : (fillOpen carton lines (toBox lines).pieces).rest = [] := by
    change ((pack (dims size) together (some most)).left.map _).filter _ = []
    rw [hleft]
    rfl
  have hplans : (packedPlans lines [] (some carton) objective).1 = [(fillOpen carton lines (toBox lines).pieces).plan] := by
    simp only [packedPlans,boxed,hrest,if_true]
  have hgoods : (fillOpen carton lines (toBox lines).pieces).plan.weightG = weightOf together := by
    rw [fillOpen_weight]
    have hkept := weigh_kept (pack_kept (dims size) together (some most))
    rw [hleft] at hkept
    exact (add_zero _).symm.trans hkept
  obtain ⟨b,hb,hpreset,-,hover'⟩ := arrange_one hfew hplans
  have hle := hall b hb most ⟨hpreset ▸ rfl,fun c hc _ => by
    obtain rfl := Option.some.inj hc
    exact (le_max_right _ _).trans (le_max_right _ _)⟩
  rw [hover',hgoods,extra_weight,Option.isSome_some,if_pos rfl] at hle
  have hloose := recorded_nonneg (grams_toBox hweights).loose
  have hextra := looseIn_nonneg hweights contents
  have hplain := weightOf_nonneg hboth
  have hcontents : contentsWeight contents lines = weightOf (alreadyIn contents lines).pieces+looseIn contents lines := rfl
  rcases le_max_iff.mp hle with h | h
  · linarith
  · rcases le_max_iff.mp h with h | h
    · rcases hround with hpos | ⟨-,hpos⟩ <;> linarith
    · rcases hround with hpos | ⟨hpos,-⟩ <;> linarith

/-- And so is a box. -/
theorem over_boxed (hfew : total (toBox lines).pieces ≤ mostPieces) (hsome : (toBox lines).pieces ≠ [])
    (hover : least < weightOf (toBox lines).pieces+recorded (toBox lines).loose) (hround : 0 < recorded (toBox lines).loose) :
    ∃ preset : Preset, (∀ g ∈ preset.maxPayloadG, least ≤ g) ∧ ∀ objective,
      ¬∀ b ∈ (arrange lines [preset] none objective).boxes, ∀ most, Limits lines none b most → b.weightG ≤ most := by
  obtain ⟨hsized,hgrams,-,-⟩ := grams_toBox hweights
  obtain ⟨size,-,htakes⟩ := exists_taking hgrams
  set most := max least (weightOf (toBox lines).pieces) with hmost
  have hleft := htakes (some most) fun g hg => by
    obtain rfl := Option.some.inj hg
    exact le_max_right _ _
  refine ⟨⟨0,"",some size,true,some most,none⟩,fun g hg => ?_,fun objective hall => ?_⟩
  · obtain rfl := Option.some.inj hg
    exact le_max_left _ _
  set box : Box := ⟨0,"",size,true,some most,none⟩ with hbox
  have hplans : (packedPlans lines [⟨0,"",some size,true,some most,none⟩] none objective).1 =
      [plan box (packBox box (toBox lines).pieces).layers] := by
    have hboxes : boxesOf [⟨0,"",some size,true,some most,none⟩] = [box] := rfl
    simp only [packedPlans,boxed,hboxes,if_neg hsome,@best_taking (toBox lines).pieces hsized hsome box hleft objective,List.nil_append]
  have hgoods : (plan box (packBox box (toBox lines).pieces).layers).weightG = weightOf (toBox lines).pieces := by
    have hkept := weigh_kept (pack_kept (dims size) (toBox lines).pieces (some most))
    rw [hleft] at hkept
    exact (add_zero _).symm.trans hkept
  obtain ⟨b,hb,hpreset,-,hover'⟩ := arrange_one hfew hplans
  have hle := hall b hb most ⟨hpreset ▸ rfl,by simp⟩
  rw [hover',hgoods,Option.isSome_none,if_neg Bool.false_ne_true,zero_add] at hle
  rcases le_max_iff.mp hle with h | h <;> linarith

end

def kilo : BenchLine := ⟨1,7,"KILO",1,[⟨.each,1,false,false,some ⟨100,100,100⟩,false,some 1000⟩]⟩

def strap (g : ℚ) : BenchLine := ⟨2,8,"STRAP",1,[⟨.each,1,false,false,none,true,some g⟩]⟩

def forOneKilo (most : ℚ) : Preset := ⟨5,"Small",some ⟨200,200,200⟩,true,some most,none⟩

def fewest : Objective := ⟨fun parcels => parcels.length⟩

end Packing
end Spork
