import Spork.Packing.Weights

/-! What a suggested box weighs by the record: no more than it may as it is packed, and
what goes in round the goods is on top of that. -/
namespace Spork
namespace Packing

/-- The boxes a workspace lets be chosen, the smallest first. -/
def boxesOf (presets : List Preset) : List Box :=
  (presets.filterMap Preset.box).insertionSort fun a b => volume (dims a.size) ≤ volume (dims b.size)

/-- What goes into boxes of what is left to pack. -/
def toBox (lines : List BenchLine) : Split := split (lines.map fun l => (l,l.remaining)) false

/-- What is in the open carton already, as it goes into a box. -/
def alreadyIn (contents : List Content) (lines : List BenchLine) : Split := split (unitsIn contents [] lines) true

/-- What of it lies round the rest, or was never measured, by the record. -/
def looseIn (contents : List Content) (lines : List BenchLine) : ℚ :=
  recorded (alreadyIn contents lines).loose+recorded (alreadyIn contents lines).unmeasured

/-- All of it, by the record. -/
def contentsWeight (contents : List Content) (lines : List BenchLine) : ℚ :=
  weightOf (alreadyIn contents lines).pieces+looseIn contents lines

/-- The plans before anything loose goes round the goods in them, and what is loose in the
open carton. -/
def packedPlans (lines : List BenchLine) (presets : List Preset) (carton : Option OpenCarton)
    (objective : Objective) : List BoxPlan × List Aside :=
  let b := boxed lines (boxesOf presets) carton objective (toBox lines).pieces
  (b.1,b.2.1)

/-- A box for which the record's limit counts: one with a limit, which what is in the open
carton already is within. -/
def Limits (lines : List BenchLine) (carton : Option OpenCarton) (b : BoxPlan) (most : ℚ) : Prop :=
  b.preset.maxPayloadG = some most ∧ ∀ c ∈ carton, b.carton.isSome = true → contentsWeight c.contents lines ≤ most

/-! ## As packed -/

/-- A plan's goods weigh what it says, and no more than its box may. -/
structure Affordable (b : BoxPlan) : Prop where
  within : ∀ most ∈ b.preset.maxPayloadG, 0 ≤ most → b.weightG ≤ most

theorem pack_affordable (size : Dims) (pieces : List Left) {maxWeight : Option ℚ} {most : ℚ} (hmost : maxWeight = some most)
    (hnonneg : 0 ≤ most) : weigh (placements (pack size pieces maxWeight).layers) ≤ most := by
  obtain ⟨left,used,-,-,htakes⟩ := pack_run size pieces maxWeight
  have hwithin := htakes.within most hmost hnonneg
  have hused := htakes.used
  simp only [zero_add] at hused hwithin
  rwa [← hused]

theorem plan_affordable (box : Box) (rest : List Left) : Affordable (plan box (packBox box rest).layers) :=
  ⟨fun _ hmost hnonneg => pack_affordable _ _ hmost hnonneg⟩

variable {boxes : List Box} {b : BoxPlan}

/-- A plan of a box that is offered, filled with something. -/
def Offered (boxes : List Box) (b : BoxPlan) : Prop := ∃ box ∈ boxes, ∃ rest, b = plan box (packBox box rest).layers

theorem smallestTaking_mem {rest : List Left} {box : Box} {p : Packed} (h : smallestTaking rest boxes = some (box,p)) :
    box ∈ boxes := by
  induction boxes with
  | nil => cases h
  | cons c boxes ih =>
    simp only [smallestTaking] at h
    split_ifs at h
    · exact List.mem_cons_of_mem c (ih h)
    · cases h
      exact List.mem_cons_self
    · exact List.mem_cons_of_mem c (ih h)

theorem takingMost_mem {rest : List Left} {box : Box} {p : Packed} (h : takingMost rest boxes = some (box,p)) :
    box ∈ boxes := by
  suffices hloop : ∀ (tried : List Box) (acc : ℤ × Option (Box × Packed)), (∀ c ∈ tried, c ∈ boxes) →
      (∀ c q, acc.2 = some (c,q) → c ∈ boxes) → ∀ c q, (tried.foldl (takeMore rest) acc).2 = some (c,q) → c ∈ boxes from
    hloop boxes (0,none) (fun _ hc => hc) (by simp) box p h
  intro tried
  induction tried with
  | nil => exact fun acc _ hacc => hacc
  | cons c tried ih =>
    intro acc htried hacc
    refine ih _ (fun d hd => htried d (List.mem_cons_of_mem c hd)) fun d q hdq => ?_
    simp only [takeMore] at hdq
    split_ifs at hdq
    · cases hdq
      exact htried c List.mem_cons_self
    · exact hacc d q hdq

theorem greedyFrom_offered (more : ℕ) (plans : List BoxPlan) (rest : List Left) (h : ∀ b ∈ plans, Offered boxes b) :
    ∀ b ∈ (greedyFrom boxes more plans rest).plans, Offered boxes b := by
  induction more generalizing plans rest with
  | zero => exact h
  | succ more ih =>
    simp only [greedyFrom]
    split_ifs
    · exact h
    · split
      · exact h
      · rename_i box p hchosen
        refine ih _ _ fun b hb => ?_
        rcases List.mem_append.mp hb with hb | hb
        · exact h b hb
        · rw [List.mem_singleton.mp hb]
          rcases Option.or_eq_some_iff.mp hchosen with hsmallest | ⟨-,hmost⟩
          · exact ⟨box,smallestTaking_mem hsmallest,rest,by rw [smallestTaking_some hsmallest]⟩
          · exact ⟨box,takingMost_mem hmost,rest,by rw [takingMost_some hmost]⟩

theorem uniformFrom_offered {box : Box} (hbox : box ∈ boxes) (more : ℕ) (plans : List BoxPlan) (rest : List Left)
    (h : ∀ b ∈ plans, Offered boxes b) : ∀ b ∈ (uniformFrom box more plans rest).plans, Offered boxes b := by
  induction more generalizing plans rest with
  | zero => exact h
  | succ more ih =>
    simp only [uniformFrom]
    split_ifs
    · exact h
    · exact h
    · refine ih _ _ fun b hb => ?_
      rcases List.mem_append.mp hb with hb | hb
      · exact h b hb
      · exact ⟨box,hbox,rest,List.mem_singleton.mp hb⟩

theorem best_offered (pieces : List Left) (objective : Objective) :
    ∀ b ∈ (best pieces boxes objective).plans, Offered boxes b := by
  rcases best_mem pieces boxes objective with h | ⟨box,hbox,h⟩
  · rw [h]
    exact greedyFrom_offered 50 [] pieces (by simp)
  · rw [h]
    exact uniformFrom_offered hbox 50 [] pieces (by simp)

theorem weigh_bare (ps qs : List Placement) (h : ps.map Placement.bare = qs.map Placement.bare) : weigh ps = weigh qs := by
  have hbare (rs : List Placement) : weigh rs = ((rs.map Placement.bare).map fun p => p.kind.weight).sum := by
    rw [List.map_map]
    rfl
  rw [hbare,hbare,h]

/-- The open carton's goods, too, are within its limit. -/
theorem fillOpen_affordable (carton : OpenCarton) (lines : List BenchLine) (remaining : List Left) :
    Affordable (fillOpen carton lines remaining).plan := by
  refine ⟨fun most hmost hnonneg => ?_⟩
  have hpack := pack_affordable (dims carton.size) (((split (unitsIn carton.contents [] lines) true).pieces++remaining).foldl
    addTo []) hmost hnonneg
  have hmarks := (markLayers_spec (counts (split (unitsIn carton.contents [] lines) true).pieces)
    (pack (dims carton.size) (((split (unitsIn carton.contents [] lines) true).pieces++remaining).foldl addTo [])
      carton.maxPayloadG).layers).1
  exact (weigh_bare _ _ hmarks).trans_le hpack

theorem packedPlans_affordable (lines : List BenchLine) (presets : List Preset) (carton : Option OpenCarton)
    (objective : Objective) : ∀ b ∈ (packedPlans lines presets carton objective).1, Affordable b ∧
      (b.preset ∈ boxesOf presets ∨ ∃ c ∈ carton, b.preset.maxPayloadG = c.maxPayloadG) := by
  have hoffered (b : BoxPlan) (h : Offered (boxesOf presets) b) : Affordable b ∧
      (b.preset ∈ boxesOf presets ∨ ∃ c ∈ carton, b.preset.maxPayloadG = c.maxPayloadG) := by
    obtain ⟨box,hbox,rest,rfl⟩ := h
    exact ⟨plan_affordable box rest,Or.inl hbox⟩
  cases carton with
  | none =>
    simp only [packedPlans,boxed]
    split
    · simp
    · intro b hb
      rw [List.nil_append] at hb
      exact hoffered b (best_offered _ objective b hb)
  | some c =>
    have hopen : ∀ b ∈ [(fillOpen c lines (toBox lines).pieces).plan], Affordable b ∧
        (b.preset ∈ boxesOf presets ∨ ∃ c' ∈ some c, b.preset.maxPayloadG = c'.maxPayloadG) := by
      intro b hb
      rw [List.mem_singleton.mp hb]
      exact ⟨fillOpen_affordable c lines _,Or.inr ⟨c,rfl,rfl⟩⟩
    simp only [packedPlans,boxed]
    split
    · exact hopen
    · intro b hb
      rcases List.mem_append.mp hb with hb | hb
      · exact hopen b hb
      · exact hoffered b (best_offered _ objective b hb)

/-! ## With what goes round -/

theorem putRound_eq (things : List Aside) (b : BoxPlan) : (putRound things b).weightG = b.weightG+recorded things ∧
    (putRound things b).preset = b.preset ∧ (putRound things b).carton = b.carton := by
  show (putRound things b).weightG = ({b with loose := b.loose++things} : BoxPlan).weightG+recorded things ∧
    (putRound things b).preset = ({b with loose := b.loose++things} : BoxPlan).preset ∧
    (putRound things b).carton = ({b with loose := b.loose++things} : BoxPlan).carton
  rw [putRound]
  generalize ({b with loose := b.loose++things} : BoxPlan) = b'
  induction things generalizing b' with
  | nil => exact ⟨(add_zero _).symm,rfl,rfl⟩
  | cons a things ih =>
    rw [List.foldl_cons]
    obtain ⟨hweight,hpreset,hcarton⟩ := ih _
    have hcons : recorded (a :: things) = a.weightG.getD 0+recorded things := rfl
    rw [hweight,hpreset,hcarton,hcons]
    cases a.weightG with
    | none => exact ⟨by simp,rfl,rfl⟩
    | some g => exact ⟨by simp [add_assoc],rfl,rfl⟩

/-- A plan with things put round its goods where a test is met. -/
theorem modify_weight {plans : List BoxPlan} {things : List Aside} {i j : ℕ} {b : BoxPlan}
    (h : (plans.modify i (putRound things))[j]? = some b) : ∃ b', plans[j]? = some b' ∧ b.preset = b'.preset ∧
      b.carton = b'.carton ∧ b.weightG = b'.weightG+if i = j then recorded things else 0 := by
  rw [List.getElem?_modify] at h
  obtain ⟨b',hb',rfl⟩ := Option.map_eq_some_iff.mp h
  obtain ⟨hweight,hpreset,hcarton⟩ := putRound_eq things b'
  refine ⟨b',hb',?_⟩
  by_cases hij : i = j
  · simp only [hij,if_true]
    exact ⟨hpreset,hcarton,hweight⟩
  · simp [hij]

/-- What a plan weighs with what goes round its goods. -/
theorem goRound_weight {carton : Option OpenCarton} {extra loose : List Aside} {plans : List BoxPlan} {i : ℕ} {b : BoxPlan}
    (h : (goRound carton extra loose plans)[i]? = some b) : ∃ b', plans[i]? = some b' ∧ b.preset = b'.preset ∧
      b.carton = b'.carton ∧ b.weightG = b'.weightG+((if carton.isSome ∧ i = 0 then recorded extra else 0)+
        if roomiest plans = some i then recorded loose else 0) := by
  rw [goRound] at h
  have hfirst : ∀ {b : BoxPlan}, (if carton.isSome then plans.modify 0 (putRound extra) else plans)[i]? = some b →
      ∃ b', plans[i]? = some b' ∧ b.preset = b'.preset ∧ b.carton = b'.carton ∧
        b.weightG = b'.weightG+if carton.isSome ∧ i = 0 then recorded extra else 0 := by
    intro b hb
    cases carton with
    | none => exact ⟨b,hb,rfl,rfl,by simp⟩
    | some c =>
      obtain ⟨b',hb',hpreset,hcarton,hweight⟩ := modify_weight hb
      exact ⟨b',hb',hpreset,hcarton,by simpa [eq_comm] using hweight⟩
  cases hroom : roomiest plans with
  | none =>
    rw [hroom] at h
    obtain ⟨b',hb',hpreset,hcarton,hweight⟩ := hfirst h
    exact ⟨b',hb',hpreset,hcarton,by simpa using hweight⟩
  | some j =>
    rw [hroom] at h
    obtain ⟨b₁,hb₁,hpreset₁,hcarton₁,hweight₁⟩ := modify_weight h
    obtain ⟨b',hb',hpreset,hcarton,hweight⟩ := hfirst hb₁
    refine ⟨b',hb',hpreset₁.trans hpreset,hcarton₁.trans hcarton,?_⟩
    simp only [hweight₁,hweight,add_assoc,Option.some.injEq]

theorem goRound_length (carton : Option OpenCarton) (extra loose : List Aside) (plans : List BoxPlan) :
    (goRound carton extra loose plans).length = plans.length := by
  have h := congrArg List.length (goRound_layers carton extra loose plans)
  rwa [List.length_map,List.length_map] at h

theorem arrange_boxes (lines : List BenchLine) (presets : List Preset) (carton : Option OpenCarton) (objective : Objective) :
    (arrange lines presets carton objective).boxes = if total (toBox lines).pieces > mostPieces then [] else
      goRound carton (packedPlans lines presets carton objective).2 (toBox lines).loose
        (packedPlans lines presets carton objective).1 := by
  by_cases hmany : total (toBox lines).pieces > mostPieces
  · rw [if_pos hmany]
    exact congrArg Arrangement.boxes (if_pos hmany)
  · rw [if_neg hmany]
    exact congrArg Arrangement.boxes (if_neg hmany)

end Packing
end Spork
