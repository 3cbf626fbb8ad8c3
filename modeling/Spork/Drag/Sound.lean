import Spork.Drag.Holding
import Spork.Drag.NewBoxes
import Spork.Drag.Suggest

/-! What every plan of the board keeps: one parcel an id, each a box or a thing as it is, and
the planned pallets on nothing, placed by hand. A drop keeps it. -/
namespace Spork
namespace Drag

open Packing (Uuid Box AsIs Objective BoxPlan arrange)

/-- A parcel that has a row, or will. -/
def Named (id : Id) : Prop := ∃ n, id = .row n

section Sound

variable (decks : Uuid → Prop)

/-- A parcel of a preset with a deck. -/
def OfPallet (pp : PlannedParcel) : Prop := ∃ t, pp.packageTypeId = some t ∧ decks t

/-- The plan has a pallet of an id. -/
def HasPallet (plan : List PlannedParcel) (id : Id) : Prop := ∃ pp ∈ plan, pp.id = id ∧ OfPallet decks pp

/-- A parcel as the board plans one. -/
structure Well (pp : PlannedParcel) : Prop where
  row : Named pp.id
  package : ∀ q, pp.onPackageId = some q → Named q
  kind : pp.packageTypeId.isSome ∧ pp.asIs = none ∨
    pp.packageTypeId = none ∧ ∃ a, pp.asIs = some a ∧ (a.level = .each → a.configId = none)
  one_pallet : pp.onParcelId = none ∨ pp.onPackageId = none
  spot : pp.spot = none
  lines : Planned pp
  flat : OfPallet decks pp → pp.onParcelId = none ∧ pp.onPackageId = none ∧ pp.placedByHand = true

/-- A plan as the board keeps it: what a parcel goes on, where planned, is a pallet of the
plan. -/
structure Sound (plan : List PlannedParcel) : Prop where
  distinct : (idsOf plan).Nodup
  well : ∀ pp ∈ plan, Well decks pp
  planned : ∀ pp ∈ plan, ∀ q, pp.onParcelId = some q → HasPallet decks plan q

end Sound

variable {decks : Uuid → Prop} {plan more : List PlannedParcel} {f : PlannedParcel → PlannedParcel}

theorem sound_nil : Sound decks [] := ⟨List.nodup_nil,by simp,by simp⟩

theorem HasPallet.map {q : Id} (h : HasPallet decks plan q) (hid : ∀ pp, (f pp).id = pp.id)
    (htype : ∀ pp, (f pp).packageTypeId = pp.packageTypeId) : HasPallet decks (plan.map f) q := by
  obtain ⟨pp,hpp,rfl,t,ht,hdeck⟩ := h
  exact ⟨f pp,List.mem_map_of_mem hpp,hid pp,t,(htype pp).trans ht,hdeck⟩

theorem HasPallet.append {q : Id} (h : HasPallet decks plan q) (more : List PlannedParcel) :
    HasPallet decks (plan++more) q := by
  obtain ⟨pp,hpp,hq⟩ := h
  exact ⟨pp,List.mem_append_left more hpp,hq⟩

/-- A change to parcels that leaves their ids and types keeps a plan, where what they are on
is there. -/
theorem Sound.map (h : Sound decks plan) (hid : ∀ pp, (f pp).id = pp.id)
    (htype : ∀ pp, (f pp).packageTypeId = pp.packageTypeId) (hwell : ∀ pp ∈ plan, Well decks (f pp))
    (hon : ∀ pp ∈ plan, ∀ q, (f pp).onParcelId = some q → HasPallet decks plan q) : Sound decks (plan.map f) := by
  refine ⟨?_,?_,?_⟩
  · have hids : idsOf (plan.map f) = idsOf plan := by
      rw [idsOf,List.map_map]
      exact List.map_congr_left fun pp _ => hid pp
    rw [hids]
    exact h.distinct
  · intro pp' hpp'
    obtain ⟨pp,hpp,rfl⟩ := List.mem_map.mp hpp'
    exact hwell pp hpp
  · intro pp' hpp' q hq
    obtain ⟨pp,hpp,rfl⟩ := List.mem_map.mp hpp'
    exact (hon pp hpp q hq).map hid htype

/-- New parcels keep a plan, where what they are on is there. -/
theorem Sound.append (h : Sound decks plan) (hids : (idsOf more).Nodup) (hnew : ∀ pp ∈ more, pp.id ∉ idsOf plan)
    (hwell : ∀ pp ∈ more, Well decks pp) (hon : ∀ pp ∈ more, ∀ q, pp.onParcelId = some q → HasPallet decks plan q) :
    Sound decks (plan++more) := by
  refine ⟨?_,?_,?_⟩
  · rw [idsOf,List.map_append,List.nodup_append']
    refine ⟨h.distinct,hids,fun id hid hid' => ?_⟩
    obtain ⟨pp,hpp,rfl⟩ := List.mem_map.mp hid'
    exact hnew pp hpp hid
  · intro pp hpp
    rcases List.mem_append.mp hpp with hpp | hpp
    · exact h.well pp hpp
    · exact hwell pp hpp
  · intro pp hpp q hq
    rcases List.mem_append.mp hpp with hpp | hpp
    · exact (h.planned pp hpp q hq).append more
    · exact (hon pp hpp q hq).append more

/-- Parcels dropped from a plan keep it, where what those left are on is left. -/
theorem Sound.filter (h : Sound decks plan) {p : PlannedParcel → Bool}
    (hleft : ∀ pp ∈ plan, p pp → ∀ q, pp.onParcelId = some q → ∀ r ∈ plan, r.id = q → OfPallet decks r → p r) :
    Sound decks (plan.filter p) := by
  refine ⟨h.distinct.sublist (List.filter_sublist.map _),fun pp hpp => h.well pp (List.mem_of_mem_filter hpp),?_⟩
  intro pp hpp q hq
  obtain ⟨hpp,hp⟩ := List.mem_filter.mp hpp
  obtain ⟨r,hr,hid,hpallet⟩ := h.planned pp hpp q hq
  exact ⟨r,List.mem_filter.mpr ⟨hr,hleft pp hpp hp q hq r hr hid hpallet⟩,hid,hpallet⟩

/-! ## One parcel -/

theorem withLine_well {pp : PlannedParcel} (h : Well decks pp) (line : Uuid) (n : ℤ) : Well decks (withLine pp line n) :=
  ⟨h.row,h.package,h.kind,h.one_pallet,h.spot,withLine_planned h.lines line n,h.flat⟩

/-- Placed by hand it is one still. -/
theorem Well.byHand {pp : PlannedParcel} (h : Well decks pp) : Well decks {pp with placedByHand := true} :=
  ⟨h.row,h.package,h.kind,h.one_pallet,h.spot,⟨h.lines.once,h.lines.some_⟩,fun hpallet =>
    ⟨(h.flat hpallet).1,(h.flat hpallet).2.1,rfl⟩⟩

theorem newParcel_well {id : Id} (hid : Named id) (t : Uuid) : Well decks (newParcel id (some t)) where
  row := hid
  package := by
    intro q hq
    cases hq
  kind := Or.inl ⟨rfl,rfl⟩
  one_pallet := Or.inl rfl
  spot := rfl
  lines := ⟨List.nodup_nil,by simp [newParcel]⟩
  flat := fun _ => ⟨rfl,rfl,rfl⟩

/-! ## Ids -/

/-- Ids that are new to a plan, each once. -/
structure Fresh (plan : List PlannedParcel) (newId : ℕ → Id) : Prop where
  apart : Function.Injective newId
  unused : ∀ n, newId n ∉ idsOf plan
  rows : ∀ n, Named (newId n)

variable {made : List Id} {newId : ℕ → Id}

/-- A renamed parcel's id, and one that was not. -/
def again (made : List Id) (newId : ℕ → Id) (id : Id) : Id :=
  ((made.zip ((List.range made.length).map newId)).reverse.lookup id).getD id

theorem afresh_eq (plan : List PlannedParcel) (made : List Id) (newId : ℕ → Id) : afresh plan made newId =
    plan.map fun pp => {pp with id := again made newId pp.id, onParcelId := pp.onParcelId.map (again made newId)} := rfl

/-- What an id becomes is itself, or a new id that no other becomes. -/
theorem again_cases (made : List Id) (newId : ℕ → Id) (id : Id) : again made newId id = id ∨
    ∃ i, made[i]? = some id ∧ again made newId id = newId i := by
  cases hfind : (made.zip ((List.range made.length).map newId)).reverse.lookup id with
  | none => exact Or.inl (by rw [again,hfind]; rfl)
  | some new =>
    right
    obtain ⟨xs,ys,hsplit,-⟩ := List.lookup_eq_some_iff.mp hfind
    have hmem : (id,new) ∈ (made.zip ((List.range made.length).map newId)).reverse := by
      rw [hsplit]
      simp
    obtain ⟨i,hi⟩ := List.getElem?_of_mem (List.mem_reverse.mp hmem)
    rw [List.getElem?_zip_eq_some] at hi
    obtain ⟨hmade,hnew⟩ := hi
    have hlt : i < made.length := (List.getElem?_eq_some_iff.mp hmade).1
    rw [List.getElem?_map,List.getElem?_range hlt] at hnew
    cases hnew
    exact ⟨i,hmade,by rw [again,hfind]; rfl⟩

theorem again_inj (hfresh : Fresh plan newId) {a b : Id} (ha : a ∈ idsOf plan) (hb : b ∈ idsOf plan)
    (h : again made newId a = again made newId b) : a = b := by
  rcases again_cases made newId a with hsame | ⟨i,hi,hnew⟩
  · rcases again_cases made newId b with hsame' | ⟨j,hj,hnew'⟩
    · rw [hsame,hsame'] at h
      exact h
    · rw [hsame,hnew'] at h
      exact absurd (h ▸ ha) (hfresh.unused j)
  · rcases again_cases made newId b with hsame' | ⟨j,hj,hnew'⟩
    · rw [hnew,hsame'] at h
      exact absurd (h ▸ hb) (hfresh.unused i)
    · rw [hnew,hnew'] at h
      rw [hfresh.apart h] at hi
      exact Option.some.inj (hi.symm.trans hj)

/-- A plan again under new ids is one the board keeps. -/
theorem afresh_sound (h : Sound decks plan) (hfresh : Fresh plan newId) (made : List Id) :
    Sound decks (afresh plan made newId) := by
  rw [afresh_eq]
  refine ⟨?_,?_,?_⟩
  · have hids : idsOf (plan.map fun pp => {pp with id := again made newId pp.id, onParcelId := pp.onParcelId.map (again made newId)}) =
        (idsOf plan).map (again made newId) := by
      rw [idsOf,idsOf,List.map_map,List.map_map]
      rfl
    rw [hids]
    exact h.distinct.map_on fun a ha b hb hab => again_inj hfresh ha hb hab
  · intro pp' hpp'
    obtain ⟨pp,hpp,rfl⟩ := List.mem_map.mp hpp'
    have hwell := h.well pp hpp
    refine ⟨?_,hwell.package,hwell.kind,?_,hwell.spot,⟨hwell.lines.once,hwell.lines.some_⟩,fun hpallet => ?_⟩
    · change Named (again made newId pp.id)
      rcases again_cases made newId pp.id with hsame | ⟨i,-,hnew⟩
      · rw [hsame]
        exact hwell.row
      · rw [hnew]
        exact hfresh.rows i
    · exact hwell.one_pallet.imp_left fun hnone => by rw [hnone]; rfl
    · obtain ⟨hnone,hrest⟩ := hwell.flat hpallet
      exact ⟨by rw [hnone]; rfl,hrest⟩
  · intro pp' hpp' q hq
    obtain ⟨pp,hpp,rfl⟩ := List.mem_map.mp hpp'
    obtain ⟨q₀,hq₀,rfl⟩ := Option.map_eq_some_iff.mp hq
    obtain ⟨r,hr,hid,hpallet⟩ := h.planned pp hpp q₀ hq₀
    exact ⟨_,List.mem_map_of_mem hr,congrArg (again made newId) hid,hpallet⟩

end Drag
end Spork
