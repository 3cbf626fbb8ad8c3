import Spork.Drag.Sound
import Spork.Lib.Fallible
import Spork.Packing.Payload

/-! A drop leaves a plan the board keeps, and so does how to go back. -/
namespace Spork
namespace Drag

open Packing (Uuid Box AsIs Objective BoxPlan arrange boxesOf)

/-- The screen as the server reads it: a preset is a pallet by its type, a pallet has no size
goods are fitted in, a pallet's type stays on file while a plan names it, and a carton has a
row. -/
structure Reads (decks : Uuid → Prop) (screen : BenchScreen) : Prop where
  decked : ∀ p ∈ screen.presets, (p.deck.isSome ↔ decks p.id)
  sized : ∀ p ∈ screen.presets, p.size.isSome → p.deck = none
  on_file : ∀ pp ∈ screen.plan, ∀ t, pp.packageTypeId = some t → decks t → ∃ p ∈ screen.presets, p.id = t
  rows : ∀ c ∈ screen.cartons, Named c.id

variable {decks : Uuid → Prop} {screen : BenchScreen} {newId : ℕ → Id} {d d' : Dropping}

/-! ## The boxes a drop plans -/

theorem Reads.box (h : Reads decks screen) {p : ScreenPreset} (hp : p ∈ screen.presets) (hsize : p.size.isSome) :
    ¬decks p.id := by
  intro hdeck
  have hdeck := (h.decked p hp).mpr hdeck
  rw [h.sized p hp hsize] at hdeck
  cases hdeck

theorem Reads.boxesOf (h : Reads decks screen) {b : Box} (hb : b ∈ boxesOf (screen.presets.map ScreenPreset.toPreset)) :
    ¬decks b.id := by
  rw [Packing.boxesOf] at hb
  obtain ⟨preset,hpreset,hbox⟩ := List.mem_filterMap.mp ((List.perm_insertionSort _ _).mem_iff.mp hb)
  obtain ⟨p,hp,rfl⟩ := List.mem_map.mp hpreset
  rw [Packing.Preset.box] at hbox
  split at hbox
  · obtain ⟨size,hsize,rfl⟩ := Option.map_eq_some_iff.mp hbox
    exact h.box hp (by rw [hsize]; rfl)
  · cases hbox

/-- The suggestion's boxes are no pallets. -/
theorem Reads.arranged (h : Reads decks screen) {lines : List Packing.BenchLine} {objective : Objective} {b : BoxPlan}
    (hb : b ∈ (arrange lines (screen.presets.map ScreenPreset.toPreset) none objective).boxes) : ¬decks b.preset.id := by
  obtain ⟨i,hi⟩ := List.getElem?_of_mem hb
  rw [Packing.arrange_boxes] at hi
  split at hi
  · simp at hi
  · obtain ⟨b',hb',hpreset,-⟩ := Packing.goRound_weight hi
    rcases (Packing.packedPlans_affordable _ _ _ _ b' (List.mem_of_getElem? hb')).2 with hoffered | ⟨c,hc,-⟩
    · rw [hpreset]
      exact h.boxesOf hoffered
    · cases hc

theorem Reads.chosen (h : Reads decks screen) {objective : Objective} {named : Option Uuid} {a : Asked} {box : Box}
    (hbox : chosenBox screen objective named a = some box) : ¬decks box.id := by
  rw [chosenBox,Option.or_eq_some_iff] at hbox
  rcases hbox with hnamed | ⟨-,harranged⟩
  · obtain ⟨p,hp,hsized⟩ := Option.bind_eq_some_iff.mp hnamed
    obtain ⟨id,-,hfind⟩ := Option.bind_eq_some_iff.mp hp
    obtain ⟨size,hsize,rfl⟩ := Option.map_eq_some_iff.mp hsized
    exact h.box (List.mem_of_find?_eq_some hfind) (by rw [hsize]; rfl)
  · obtain ⟨b,hb,rfl⟩ := Option.map_eq_some_iff.mp harranged
    exact h.arranged (List.mem_of_mem_head? hb)

/-! ## What keys keep -/

/-- What a drop has come to so far: a plan the board keeps, its parcels those there were, of
the types they were, and new ones, and its pallets with it. -/
structure Fine (decks : Uuid → Prop) (before : List PlannedParcel) (newId : ℕ → Id) (d : Dropping) : Prop where
  sound : Sound decks d.plan
  parcels : ∀ pp ∈ d.plan, (∃ pp₀ ∈ before, pp₀.id = pp.id ∧ pp₀.packageTypeId = pp.packageTypeId) ∨
    ∃ i < d.taken, pp.id = newId i
  pallets : ∀ q, HasPallet decks before q → HasPallet decks d.plan q

variable {before : List PlannedParcel}

theorem Fine.congr (h : Fine decks before newId d) (hplan : d'.plan = d.plan) (htaken : d'.taken = d.taken) :
    Fine decks before newId d' := by
  refine ⟨hplan ▸ h.sound,?_,hplan ▸ h.pallets⟩
  rw [hplan,htaken]
  exact h.parcels

theorem Fine.map (h : Fine decks before newId d) {f : PlannedParcel → PlannedParcel} (hid : ∀ pp, (f pp).id = pp.id)
    (htype : ∀ pp, (f pp).packageTypeId = pp.packageTypeId) (hwell : ∀ pp ∈ d.plan, Well decks (f pp))
    (hon : ∀ pp ∈ d.plan, ∀ q, (f pp).onParcelId = some q → HasPallet decks d.plan q) (hplan : d'.plan = d.plan.map f)
    (htaken : d'.taken = d.taken) : Fine decks before newId d' := by
  refine ⟨hplan ▸ h.sound.map hid htype hwell hon,?_,fun q hq => hplan ▸ (h.pallets q hq).map hid htype⟩
  rw [hplan,htaken]
  intro pp' hpp'
  obtain ⟨pp,hpp,rfl⟩ := List.mem_map.mp hpp'
  rw [hid,htype]
  exact h.parcels pp hpp

/-- New lines in some parcels, and no more. -/
theorem Fine.mapLines (h : Fine decks before newId d) {f : PlannedParcel → PlannedParcel}
    (hsame : ∀ pp, f pp = pp ∨ ∃ line n, f pp = withLine pp line n ∨ f pp = {withLine pp line n with placedByHand := true})
    (hplan : d'.plan = d.plan.map f) (htaken : d'.taken = d.taken) : Fine decks before newId d' := by
  have hlike : ∀ pp, (f pp).id = pp.id ∧ (f pp).packageTypeId = pp.packageTypeId ∧ (f pp).onParcelId = pp.onParcelId ∧
      (Well decks pp → Well decks (f pp)) := by
    intro pp
    rcases hsame pp with heq | ⟨line,n,heq | heq⟩
    · rw [heq]
      exact ⟨rfl,rfl,rfl,id⟩
    · rw [heq]
      exact ⟨rfl,rfl,rfl,fun hw => withLine_well hw line n⟩
    · rw [heq]
      exact ⟨rfl,rfl,rfl,fun hw => (withLine_well hw line n).byHand⟩
  refine h.map (fun pp => (hlike pp).1) (fun pp => (hlike pp).2.1) (fun pp hpp => (hlike pp).2.2.2 (h.sound.well pp hpp))
    (fun pp hpp q hq => ?_) hplan htaken
  rw [(hlike pp).2.2.1] at hq
  exact h.sound.planned pp hpp q hq

/-- A new id not taken so far is on no parcel. -/
theorem Fine.unused (h : Fine decks before newId d) (hfresh : Fresh before newId) {n : ℕ} (hn : d.taken ≤ n) :
    newId n ∉ idsOf d.plan := by
  intro hin
  obtain ⟨pp,hpp,hid⟩ := List.mem_map.mp hin
  rcases h.parcels pp hpp with ⟨pp₀,hpp₀,hsame,-⟩ | ⟨i,hi,hnew⟩
  · exact hfresh.unused n (List.mem_map.mpr ⟨pp₀,hpp₀,hsame.trans hid⟩)
  · have heq := hfresh.apart (hnew.symm.trans hid)
    omega

/-- So many new parcels, each under the next new id. -/
theorem Fine.append (h : Fine decks before newId d) (hfresh : Fresh before newId) {n : ℕ} {g : ℕ → PlannedParcel}
    (hid : ∀ i, (g i).id = newId (d.taken+i)) (hwell : ∀ i, Well decks (g i))
    (hon : ∀ i q, (g i).onParcelId = some q → HasPallet decks d.plan q) (hplan : d'.plan = d.plan++(List.range n).map g)
    (htaken : d'.taken = d.taken+n) : Fine decks before newId d' := by
  refine ⟨?_,?_,fun q hq => hplan ▸ (h.pallets q hq).append _⟩
  · rw [hplan]
    refine h.sound.append ?_ ?_ ?_ ?_
    · rw [idsOf,List.map_map]
      refine List.nodup_range.map fun i j hij => ?_
      have hsame : newId (d.taken+i) = newId (d.taken+j) := ((hid i).symm.trans hij).trans (hid j)
      have heq := hfresh.apart hsame
      omega
    · intro pp hpp
      obtain ⟨i,-,rfl⟩ := List.mem_map.mp hpp
      rw [hid]
      exact h.unused hfresh (Nat.le_add_right _ _)
    · intro pp hpp
      obtain ⟨i,-,rfl⟩ := List.mem_map.mp hpp
      exact hwell i
    · intro pp hpp q hq
      obtain ⟨i,-,rfl⟩ := List.mem_map.mp hpp
      exact hon i q hq
  · rw [hplan,htaken]
    intro pp hpp
    rcases List.mem_append.mp hpp with hpp | hpp
    · rcases h.parcels pp hpp with hwas | ⟨i,hi,hnew⟩
      · exact Or.inl hwas
      · exact Or.inr ⟨i,by omega,hnew⟩
    · obtain ⟨i,hi,rfl⟩ := List.mem_map.mp hpp
      exact Or.inr ⟨d.taken+i,by have := List.mem_range.mp hi; omega,hid i⟩

/-- A new parcel with nothing in it. -/
theorem Fine.new (h : Fine decks before newId d) (hfresh : Fresh before newId) {t : Uuid}
    (hplan : d'.plan = d.plan++[newParcel (newId d.taken) (some t)]) (htaken : d'.taken = d.taken+1) :
    Fine decks before newId d' :=
  @Fine.append decks newId d d' before h hfresh 1 (fun i => newParcel (newId (d.taken+i)) (some t)) (fun _ => rfl)
    (fun i => newParcel_well (hfresh.rows _) t) (fun i q hq => by cases hq) (by simpa using hplan) htaken

section Keys

variable (hsound : Sound decks screen.plan) (hreads : Reads decks screen) (hfresh : Fresh screen.plan newId)

include hfresh in
/-- A new box planned, or the one there was. -/
theorem startBox_fine (h : Fine decks screen.plan newId d) (box : Box) :
    Fine decks screen.plan newId (startBox newId box d).2 := by
  rw [startBox]
  split
  · exact h
  · exact h.new hfresh rfl rfl

/-- Goods put in, or taken from one parcel for another. -/
theorem putIn_fine (h : Fine decks before newId d) (a : Asked) (into : Option BoardParcel) (id : Id) (box : Box) :
    Fine decks before newId (putIn a into id box d) := by
  simp only [putIn]
  split
  · exact h
  · split
    · split
      · exact h.congr rfl rfl
      · split
        · refine h.mapLines (fun pp => ?_) rfl rfl
          split
          · exact Or.inr ⟨_,_,Or.inl rfl⟩
          · exact Or.inl rfl
        · exact h.congr rfl rfl
    · refine h.mapLines (fun pp => ?_) rfl rfl
      split
      · exact Or.inr ⟨_,_,Or.inr rfl⟩
      · split
        · exact Or.inr ⟨_,_,Or.inl rfl⟩
        · exact Or.inl rfl

theorem ontoBench_fine (h : Fine decks before newId d) {a : Asked} (hd : ontoBench a d = .ok d') :
    Fine decks before newId d' := by
  simp only [ontoBench] at hd
  split at hd
  · cases hd
    exact h
  · split at hd
    · split at hd
      · cases hd
      · cases hd
        exact h.congr rfl rfl
    · split at hd
      · cases hd
        refine h.mapLines (fun pp => ?_) rfl rfl
        split
        · exact Or.inr ⟨_,_,Or.inl rfl⟩
        · exact Or.inl rfl
      · cases hd
        exact h

variable {objective : Objective} {target : Target} {how : HowMany}

include hfresh in
theorem dropGoods_fine (h : Fine decks screen.plan newId d) {a : Asked}
    (hd : dropGoods screen (boardOf screen) objective target newId a d = .ok d') : Fine decks screen.plan newId d' := by
  cases target with
  | bench => exact ontoBench_fine h hd
  | newBox named =>
    simp only [dropGoods] at hd
    split at hd
    · split at hd
      · cases hd
      · cases hd
        exact h
    · cases hd
      exact putIn_fine (startBox_fine hfresh h _) _ _ _ _
  | newPallet => cases hd
  | parcel id =>
    simp only [dropGoods] at hd
    split at hd
    · cases hd
    · split_ifs at hd
      split at hd
      · cases hd
      · cases hd
        exact putIn_fine h _ _ _ _
  | other => cases hd

/-! ## A parcel dropped -/

omit newId d d' in
/-- A made parcel on the board is a carton's. -/
theorem board_made {p : BoardParcel} (hp : p ∈ (boardOf screen).parcels) (hmade : p.made = true) :
    ∃ c ∈ screen.cartons, p = madeParcel screen c := by
  simp only [boardOf,List.mem_append] at hp
  rcases hp with (hp | hp) | hp
  · obtain ⟨c,hc,rfl⟩ := List.mem_map.mp hp
    exact ⟨c,hc,rfl⟩
  · obtain ⟨pp,-,rfl⟩ := List.mem_map.mp hp
    rw [plannedParcel] at hmade
    split at hmade <;> cases hmade
  · obtain ⟨a,-,hshown⟩ := List.mem_filterMap.mp hp
    obtain ⟨line,-,rfl⟩ := Option.map_eq_some_iff.mp hshown
    cases hmade

include hreads in
/-- A planned parcel shows as a pallet just when it is of a pallet's type. -/
theorem kind_pallet {pp : PlannedParcel} (hpp : pp ∈ screen.plan) (hwell : Well decks pp) :
    (plannedParcel screen pp).kind = .pallet ↔ OfPallet decks pp := by
  rw [plannedParcel]
  split
  · rename_i as line units has hline
    refine ⟨fun hkind => (by cases hkind),?_⟩
    rintro ⟨t,ht,-⟩
    rcases hwell.kind with ⟨-,hnone⟩ | ⟨hnone,-⟩
    · rw [hnone] at has
      cases has
    · rw [hnone] at ht
      cases ht
  · have hkind : (plannedBox screen pp).kind = .pallet ↔
        ((screen.presets.find? fun p => some p.id = pp.packageTypeId).bind ScreenPreset.deck).isSome := by
      simp only [plannedBox]
      split <;> simp_all
    rw [hkind]
    constructor
    · intro hdeck
      cases hfind : screen.presets.find? fun p => some p.id = pp.packageTypeId with
      | none =>
        rw [hfind] at hdeck
        cases hdeck
      | some p =>
        rw [hfind] at hdeck
        have htype : some p.id = pp.packageTypeId := by simpa using List.find?_some hfind
        exact ⟨p.id,htype.symm,(hreads.decked p (List.mem_of_find?_eq_some hfind)).mp hdeck⟩
    · rintro ⟨t,ht,hdeck⟩
      obtain ⟨p,hp,hpt⟩ := hreads.on_file pp hpp t ht hdeck
      cases hfind : screen.presets.find? fun p => some p.id = pp.packageTypeId with
      | none => exact absurd (by rw [hpt,ht]; simp) (List.find?_eq_none.mp hfind p hp)
      | some q =>
        have htype : some q.id = pp.packageTypeId := by simpa using List.find?_some hfind
        obtain rfl : q.id = t := Option.some.inj (htype.trans ht)
        exact (hreads.decked q (List.mem_of_find?_eq_some hfind)).mpr hdeck

/-- Where a parcel is dropped: a pallet made, or one of the plan. -/
structure Standing (decks : Uuid → Prop) (pallet : Onto) (d : Dropping) : Prop where
  made : pallet.made = true → Named pallet.id
  planned : pallet.made = false → HasPallet decks d.plan pallet.id

omit newId in
theorem Standing.congr {pallet : Onto} (h : Standing decks pallet d) (hplan : d'.plan = d.plan) : Standing decks pallet d' :=
  ⟨h.made,fun hmade => hplan ▸ h.planned hmade⟩

include hsound hreads hfresh in
theorem ontoPallet_fine (h : Fine decks screen.plan newId d) {moving : BoardParcel} {pallet : Onto}
    (hd : ontoPallet screen (boardOf screen) target newId moving d = .ok (pallet,d')) :
    Fine decks screen.plan newId d' ∧ Standing decks pallet d' := by
  cases target with
  | newPallet =>
    simp only [ontoPallet] at hd
    split at hd
    · cases hd
    · rename_i p hp
      cases hd
      refine ⟨h.new hfresh rfl rfl,fun hmade => (by cases hmade),fun _ => ?_⟩
      have hdeck : p ∈ screen.presets ∧ p.deck.isSome := by
        rw [palletPreset,Option.or_eq_some_iff] at hp
        rcases hp with hp | ⟨-,hp⟩
        · have hboth := List.find?_some hp
          simp only [Bool.and_eq_true] at hboth
          exact ⟨List.mem_of_find?_eq_some hp,hboth.1⟩
        · exact ⟨List.mem_of_find?_eq_some hp,by simpa using List.find?_some hp⟩
      exact ⟨_,List.mem_append_right _ (List.mem_singleton.mpr rfl),rfl,p.id,rfl,(hreads.decked p hdeck.1).mp hdeck.2⟩
  | parcel id =>
    simp only [ontoPallet] at hd
    split at hd
    · cases hd
    · rename_i onto hfind
      split at hd
      · cases hd
      · cases hd
        obtain ⟨hfind,hkind⟩ := Option.filter_eq_some_iff.mp hfind
        have hmem : onto ∈ (boardOf screen).parcels := List.mem_of_find?_eq_some hfind
        refine ⟨h,fun hmade => ?_,fun hmade => ?_⟩
        · obtain ⟨c,hc,rfl⟩ := board_made hmem hmade
          exact hreads.rows c hc
        · rcases board_parcels hmem with ⟨hmade',-⟩ | ⟨-,pp,hpp,rfl⟩ | ⟨-,-,a,line,rfl,-⟩
          · change onto.made = false at hmade
            rw [hmade'] at hmade
            cases hmade
          · have hpallet := (kind_pallet hreads hpp (hsound.well pp hpp)).mp (by simpa using hkind)
            exact h.pallets _ ⟨pp,hpp,(plannedParcel_id screen pp).1.symm,hpallet⟩
          · simp [asIsParcel] at hkind
  | bench => cases hd
  | newBox named => cases hd
  | other => cases hd

include hsound hreads hfresh in
/-- A parcel of the plan that is no pallet is none with the drops so far. -/
theorem not_pallet (h : Fine decks screen.plan newId d) {moving : BoardParcel} (hmoving : moving ∈ (boardOf screen).parcels)
    (hkind : moving.kind ≠ .pallet) (hplanned : moving.planned.isSome) {pp : PlannedParcel} (hpp : pp ∈ d.plan)
    (hid : pp.id = moving.id) : ¬OfPallet decks pp := by
  rcases board_parcels hmoving with ⟨-,hnone⟩ | ⟨-,pp₁,hpp₁,rfl⟩ | ⟨-,hnone,-⟩
  · rw [hnone] at hplanned
    cases hplanned
  · rw [(plannedParcel_id screen pp₁).1] at hid
    rcases h.parcels pp hpp with ⟨pp₀,hpp₀,hsame,htype⟩ | ⟨i,-,hnew⟩
    · obtain rfl : pp₀ = pp₁ := List.inj_on_of_nodup_map hsound.distinct hpp₀ hpp₁ (hsame.trans hid)
      rintro ⟨t,ht,hdeck⟩
      exact hkind ((kind_pallet hreads hpp₁ (hsound.well pp₀ hpp₁)).mpr ⟨t,htype.trans ht,hdeck⟩)
    · exact absurd (List.mem_map.mpr ⟨pp₁,hpp₁,hid.symm.trans hnew⟩) (hfresh.unused i)
  · rw [hnone] at hplanned
    cases hplanned

omit newId d' in
/-- A thing as it is planned onto a pallet is a parcel as the board plans one. -/
theorem plannedOnto_well {id : Id} (hid : Named id) {a : AsIs} (hper : 0 < a.per) {config : Option Uuid}
    (hconfig : a.level = .each → config = none) {pallet : Onto} (hpallet : Standing decks pallet d) :
    Well decks (plannedOnto id a config pallet) where
  row := hid
  package := by
    intro q hq
    simp only [plannedOnto] at hq
    split at hq
    · rename_i hmade
      cases hq
      exact hpallet.made hmade
    · cases hq
  kind := Or.inr ⟨rfl,_,rfl,hconfig⟩
  one_pallet := by
    simp only [plannedOnto]
    split
    · exact Or.inl rfl
    · exact Or.inr rfl
  spot := rfl
  lines := ⟨List.nodup_singleton _,by simpa [plannedOnto] using hper⟩
  flat := by
    rintro ⟨t,ht,-⟩
    cases ht

include hsound hreads hfresh in
theorem putOn_fine (h : Fine decks screen.plan newId d) {moving : BoardParcel} (hmoving : moving ∈ (boardOf screen).parcels)
    (hkind : moving.kind ≠ .pallet) {pallet : Onto} (hpallet : Standing decks pallet d) (going : ℤ) :
    Fine decks screen.plan newId (putOn newId moving going pallet d) := by
  rw [putOn]
  split
  · refine h.congr ?_ ?_
    · dsimp only
      split <;> rfl
    · dsimp only
      split <;> rfl
  · rename_i hmade
    split
    · rename_i hplanned
      refine h.map (fun pp => ?_) (fun pp => ?_) (fun pp hpp => ?_) (fun pp hpp q hq => ?_) rfl rfl
      · split <;> rfl
      · split <;> rfl
      · have hwell := h.sound.well pp hpp
        split
        · rename_i hid
          refine ⟨hwell.row,fun q hq => ?_,hwell.kind,?_,rfl,⟨hwell.lines.once,hwell.lines.some_⟩,fun hof => ?_⟩
          · dsimp only at hq
            split at hq
            · rename_i hpm
              cases hq
              exact hpallet.made hpm
            · cases hq
          · dsimp only
            split
            · exact Or.inl rfl
            · exact Or.inr rfl
          · exact absurd (show OfPallet decks pp from hof) (not_pallet hsound hreads hfresh h hmoving hkind hplanned hpp hid)
        · exact hwell
      · split at hq
        · dsimp only at hq
          split at hq
          · cases hq
          · rename_i hpm
            cases hq
            exact hpallet.planned (by simpa using hpm)
        · exact h.sound.planned pp hpp q hq
    · rename_i hplanned
      split
      · exact h
      · rename_i a ha
        have hper : 0 < a.per := by
          rcases board_parcels hmoving with ⟨hm,-⟩ | ⟨-,pp,-,rfl⟩ | ⟨-,-,a',line,rfl,-,-,-,hper⟩
          · exact absurd hm hmade
          · rw [(plannedParcel_id screen pp).2] at hplanned
            simp at hplanned
          · cases ha
            exact hper
        refine @Fine.append decks newId d _ screen.plan h hfresh going.toNat (fun i => plannedOnto (newId (d.taken+i)) a
          (if a.level = .each then none else moving.goods.head?.bind fun g => g.line.ownCarton) pallet) (fun i => rfl)
          (fun i => plannedOnto_well (hfresh.rows _) hper (fun heach => if_pos heach) hpallet) (fun i q hq => ?_) rfl rfl
        simp only [plannedOnto] at hq
        split at hq
        · cases hq
        · rename_i hpm
          cases hq
          exact hpallet.planned (by simpa using hpm)

include hsound hreads hfresh in
theorem dropParcel_fine (h : Fine decks screen.plan newId d) {moving : BoardParcel} (hmoving : moving ∈ (boardOf screen).parcels)
    (hd : dropParcel screen (boardOf screen) target how newId moving d = .ok d') : Fine decks screen.plan newId d' := by
  rw [dropParcel] at hd
  split at hd
  · cases hd
  · rename_i hkind
    split at hd
    · split at hd
      · cases hd
        exact h
      · split at hd
        · cases hd
          exact h.congr rfl rfl
        · cases hd
          refine h.map (fun pp => ?_) (fun pp => ?_) (fun pp hpp => ?_) (fun pp hpp q hq => ?_) rfl rfl
          · split <;> rfl
          · split <;> rfl
          · have hwell := h.sound.well pp hpp
            split
            · exact ⟨hwell.row,fun q hq => (by cases hq),hwell.kind,Or.inl rfl,rfl,⟨hwell.lines.once,hwell.lines.some_⟩,
                fun hof => ⟨rfl,rfl,(hwell.flat hof).2.2⟩⟩
            · exact hwell
          · split at hq
            · cases hq
            · exact h.sound.planned pp hpp q hq
    · obtain ⟨⟨pallet,d₁⟩,honto,hd⟩ := Fallible.bind_ok_iff.mp hd
      obtain ⟨h₁,hpallet⟩ := ontoPallet_fine hsound hreads hfresh h honto
      dsimp only at hd
      split_ifs at hd
      all_goals
        cases hd
        refine putOn_fine hsound hreads hfresh ?_ hmoving hkind ?_ _
        · exact h₁.congr rfl rfl
        · exact hpallet.congr rfl

/-! ## A drop -/

include hsound hreads hfresh in
theorem drops_fine {keys : List Thing} (h : Fine decks screen.plan newId d)
    (hd : keys.foldlM (dropKey screen (boardOf screen) objective target how newId) d = .ok d') :
    Fine decks screen.plan newId d' := by
  induction keys generalizing d with
  | nil =>
    cases hd
    exact h
  | cons key keys ih =>
    rw [List.foldlM_cons] at hd
    obtain ⟨d₁,hkey,hd⟩ := Fallible.bind_ok_iff.mp hd
    refine ih ?_ hd
    cases key with
    | goods line parcel =>
      simp only [dropKey] at hkey
      split at hkey
      · cases hkey
        exact h
      · exact dropGoods_fine hfresh h hkey
    | parcel id =>
      simp only [dropKey] at hkey
      split at hkey
      · cases hkey
        exact h
      · rename_i moving hfind
        exact dropParcel_fine hsound hreads hfresh h (List.mem_of_find?_eq_some hfind) hkey

include hsound in
theorem noneDropped_fine : Fine decks screen.plan newId (noneDropped (boardOf screen)) := by
  have hplan : (noneDropped (boardOf screen)).plan = screen.plan := planOf_boardOf screen
  refine ⟨hplan ▸ hsound,fun pp hpp => Or.inl ⟨pp,hplan ▸ hpp,rfl,rfl⟩,fun q hq => hplan ▸ hq⟩

include hsound hreads hfresh in
/-- The plan a drop makes, and the one it would go back to, are plans the board keeps. -/
theorem dropOn_sound {keys : List Thing} {o : Outcome}
    (h : dropOn screen (boardOf screen) objective target how newId keys = .ok o) :
    (∀ next, o.plan = some next → Sound decks next) ∧ ∀ next, o.undo.plan = some next → Sound decks next := by
  obtain ⟨d,hd,ho⟩ := Fallible.bind_ok_iff.mp h
  have hfine := drops_fine hsound hreads hfresh (noneDropped_fine hsound) hd
  split at ho
  · cases ho
  · cases ho
    constructor
    · intro next hnext
      dsimp only at hnext
      split at hnext
      · cases hnext
        exact hfine.sound
      · cases hnext
    · intro next hnext
      dsimp only at hnext
      split at hnext
      · cases hnext
        rw [planOf_boardOf]
        exact afresh_sound hsound ⟨fun i j hij => by have := hfresh.apart hij; omega,fun n => hfresh.unused _,
          fun n => hfresh.rows _⟩ d.made
      · cases hnext

end Keys

end Drag
end Spork
