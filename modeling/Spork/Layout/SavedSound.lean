import Spork.Layout.Saved

/-! Whatever is saved, in whatever order, a site's layout stays sound: names apart, no place
inside itself or a place that is gone, no two bins in one cell, and each bin of a place with a
pattern in the cell the pattern spells it in. -/
namespace Spork
namespace Layout
namespace Edit

variable {rows places : List Row} {bins : List Bin} {plan : Plan} {e : LayoutEdit}

theorem Bins.spotted {ss : List SpotAdded} (h : Bins bins) (hheld : Held places bins)
    (hlocs : (ss.map SpotAdded.locationId).Nodup) (hapart : Apart (places++ss.map (spotRow bins))) :
    Bins (bins.map (Edit.spotted ss)) := by
  induction ss generalizing places bins with
  | nil =>
    have hsame : bins.map (Edit.spotted []) = bins := List.map_id' bins
    rwa [hsame]
  | cons s ss ih =>
    have hleft : Apart (places++[spotRow bins s]) := by
      rw [List.map_cons,List.append_cons] at hapart
      exact hapart.of_append
    have hcode : ∀ t, codeOf (OneByOne.put Bin.id SpotAdded.locationId Edit.seatSpot bins s) t = codeOf bins t :=
      codeOf_map (fun b => by split <;> rfl) fun b => by split <;> rfl
    have hlater := ih (h.seatSpot hheld (apart_concat.mp hleft).2.1) (hheld.seatSpot s) (List.nodup_cons.mp hlocs).2 (by
      rw [spotRow_congr hcode,List.append_assoc]
      exact hapart)
    rw [OneByOne.put,List.map_map] at hlater
    rwa [List.map_congr_left fun b _ => OneByOne.written_cons seatSpot_id hlocs b]

/-- A bin in a cell is on no spot. -/
theorem moved_of_seated (h : Bins plan.bins) (ho : Once e) (hspots : ∀ s ∈ e.spots, SpotAllowed plan.places plan.bins s) {b : Bin}
    (hb : b ∈ plan.bins) (hseated : b.cell ≠ none) : moved plan e b = turned plan.places e.changed b := by
  refine OneByOne.written_of_not_mem fun hmem => hseated ?_
  obtain ⟨s,hs,hloc⟩ := List.mem_map.mp hmem
  rw [turned_id ho.changed] at hloc
  obtain ⟨b',hb',hid,-,hwaits,-⟩ := (hspots s hs).waiting
  rwa [List.inj_on_of_nodup_map h.ids hb' hb (hid.trans hloc)] at hwaits

/-- An edit numbers a place from its other end. -/
def Turns (plan : Plan) (e : LayoutEdit) (place : Uuid) : Prop :=
  ∃ c ∈ e.changed, c.placeId = place ∧ ∃ was, byId plan.places place = some was ∧ endOf c was ≠ was.grid.fromRight

theorem written_turned (h : Sound plan) (ho : Once e) {q : Row} (hq : q ∈ plan.places) (hturns : Turns plan e q.id) :
    (written e.changed q).grid = q.grid.mirrored := by
  obtain ⟨c,hc,hid,was,hwas,hend⟩ := hturns
  obtain rfl : q = was := Option.some.inj ((byId_of_mem h.ids hq).symm.trans hwas)
  rw [written,OneByOne.written_of_mem ho.changed hc hid.symm]
  show ({q.grid with fromRight := endOf c q} : Grid) = q.grid.mirrored
  rw [endOf_ne hend]
  rfl

theorem written_still (h : Sound plan) (ho : Once e) {q : Row} (hq : q ∈ plan.places) (hstill : ¬Turns plan e q.id) :
    (written e.changed q).grid = q.grid := by
  by_cases hchanged : q.id ∈ e.changed.map PlaceChanged.placeId
  · obtain ⟨c,hc,hid⟩ := List.mem_map.mp hchanged
    rw [written,OneByOne.written_of_mem ho.changed hc hid.symm]
    show ({q.grid with fromRight := endOf c q} : Grid) = q.grid
    rw [not_not.mp fun hend => hstill ⟨c,hc,hid,q,byId_of_mem h.ids hq,hend⟩]
  · rw [written,OneByOne.written_of_not_mem hchanged]

/-- A bin in a place numbered from its other end goes to the mirror of its cell. -/
theorem turned_turned (h : Sound plan) (ho : Once e) {q : Row} (hq : q ∈ plan.places) (hturns : Turns plan e q.id) {b : Bin}
    (hin : b.place = some q.id) : turned plan.places e.changed b = turnRound q b := by
  obtain ⟨c,hc,hid,was,hwas,hend⟩ := hturns
  obtain rfl : q = was := Option.some.inj ((byId_of_mem h.ids hq).symm.trans hwas)
  have hsome : (e.changed.map fun c => some c.placeId).Nodup := by
    have := ho.changed.map (Option.some_injective Uuid)
    rwa [List.map_map] at this
  rw [turned,OneByOne.written_of_mem hsome hc (hin.trans (congrArg some hid.symm)),turnBy,hid,hwas]
  exact if_pos hend

/-- Any other bin stays. -/
theorem turned_still (ho : Once e) {b : Bin} (hstill : ∀ p ∈ b.place, ¬Turns plan e p) : turned plan.places e.changed b = b := by
  obtain heq | ⟨c,hc,hin,heq⟩ := turned_eq plan.places ho.changed b
  · exact heq
  · rw [heq,turnBy]
    split
    · rfl
    · rename_i was hwas
      exact if_neg fun hend => hstill c.placeId hin ⟨c,hc,rfl,was,hwas,hend⟩

/-- Turned round twice, a bin is back. -/
theorem turnRound_turnRound {r r' : Row} (hid : r'.id = r.id) (hgrid : r'.grid = r.grid.mirrored) (b : Bin) :
    turnRound r' (turnRound r b) = b := by
  by_cases hin : b.place = some r.id
  · obtain ⟨cell,hcell⟩ := exists_cell hin
    rw [turnRound_of_in hcell,turnRound_of_in (by rw [hid]),hid,hgrid,Grid.mirrored_mirror,Grid.mirror_mirror,← hcell]
  · rw [turnRound_of_not_in hin,turnRound_of_not_in (by rwa [hid])]

@[simp] theorem written_pattern {cs : List PlaceChanged} (r : Row) : (written cs r).pattern = r.pattern := by
  rw [written,OneByOne.written]
  split <;> rfl

theorem made_pattern {r : Row} (hr : r ∈ madeRows plan e) : r.pattern = none := by
  rcases List.mem_append.mp hr with hadded | hspot
  · obtain ⟨a,-,rfl⟩ := List.mem_map.mp hadded
    rfl
  · obtain ⟨s,-,rfl⟩ := List.mem_map.mp hspot
    rfl

/-- A place that was there and is not removed is there still. -/
theorem stays (plan : Plan) (e : LayoutEdit) {id : Uuid} (hid : id ∈ plan.places.map Row.id) (hkept : id ∉ e.removed) :
    id ∈ (leaves plan e).places.map Row.id := by
  obtain ⟨q,hq,rfl⟩ := List.mem_map.mp hid
  refine List.mem_map.mpr ⟨written e.changed q,mem_without.mpr ⟨?_,?_⟩,written_id q⟩
  · exact List.mem_append_left _ (List.mem_map_of_mem hq)
  · rwa [written_id]

namespace Accepted

variable (h : Sound plan) (ha : Accepted plan e)
include h ha

theorem left_spelled (ho : Once e) {r : Row} (hr : r ∈ (leaves plan e).places) : Spelled (leaves plan e).bins r := by
  obtain ⟨hdrawn,-⟩ := mem_without.mp hr
  intro b' hb' cell hcell s hs pattern hparse
  obtain ⟨b,hb,rfl⟩ := List.mem_map.mp hb'
  rcases List.mem_append.mp hdrawn with hwas | hmade
  · obtain ⟨q,hq,rfl⟩ := List.mem_map.mp hwas
    rw [written_id] at hcell
    rw [written_pattern] at hs
    have hin : b.place = some q.id := (moved_in_iff ho h.bins ha.allowed.spots ha.apart (List.mem_map_of_mem hq) hb).mp
      (by rw [Bin.place,hcell]; rfl)
    obtain ⟨cell₀,hcell₀⟩ := exists_cell hin
    obtain ⟨hgrid,hrender⟩ := h.spelled q hq b hb cell₀ hcell₀ s hs pattern hparse
    have hmoved := moved_of_seated h.bins ho ha.allowed.spots hb (by rw [hcell₀]; exact Option.some_ne_none _)
    rw [hmoved] at hcell ⊢
    by_cases hturns : Turns plan e q.id
    · rw [turned_turned h ho hq hturns hin] at hcell ⊢
      rw [turnRound_of_in hcell₀] at hcell
      cases hcell
      rw [written_turned h ho hq hturns,Grid.cells_mirrored,Grid.mirror_mem_cells,Pattern.render_mirror,turnRound_code]
      exact ⟨hgrid,hrender⟩
    · have hstill : ∀ p ∈ b.place, ¬Turns plan e p := fun p hp => by
        rw [hin] at hp
        cases hp
        exact hturns
      rw [turned_still ho hstill] at hcell ⊢
      rw [hcell₀] at hcell
      cases hcell
      rw [written_still h ho hq hturns]
      exact ⟨hgrid,hrender⟩
  · rw [made_pattern hmade] at hs
    cases hs

/-- How far down each place is, with what is made below all that was there. -/
theorem left_nested : ∃ rank : Uuid → ℕ, ∀ p ∈ (leaves plan e).places, ∀ q ∈ p.parentId, rank q < rank p.id := by
  obtain ⟨rank,hrank⟩ := h.nested
  let deepest := (plan.places.map fun r => rank r.id).sum
  have hle : ∀ q ∈ plan.places.map Row.id, rank q ≤ deepest := by
    intro q hq
    obtain ⟨r,hr,rfl⟩ := List.mem_map.mp hq
    exact List.single_le_sum (fun _ _ => Nat.zero_le _) _ (List.mem_map.mpr ⟨r,hr,rfl⟩)
  refine ⟨fun id => if id ∈ plan.places.map Row.id then rank id else deepest+1,fun p hp q hq => ?_⟩
  obtain ⟨hdrawn,-⟩ := mem_without.mp hp
  rcases List.mem_append.mp hdrawn with hwas | hmade
  · obtain ⟨r,hr,rfl⟩ := List.mem_map.mp hwas
    rw [written_parentId] at hq
    rw [written_id]
    simp only [if_pos (h.inside r hr q hq),if_pos (List.mem_map_of_mem (f := Row.id) hr)]
    exact hrank r hr q hq
  · have hfresh : p.id ∉ plan.places.map Row.id := fun hid => by
      obtain ⟨r,hr,heq⟩ := List.mem_map.mp hid
      exact made_fresh ha.apart hmade hr heq.symm
    have hwas := made_onSite ha.allowed hmade hq
    simp only [if_pos hwas,if_neg hfresh]
    exact Nat.lt_succ_of_le (hle q hwas)

/-- A save that goes through leaves a sound layout. -/
theorem sound (ho : Once e) : Sound (leaves plan e) := by
  have hsub : (leaves plan e).places.Sublist (drawn plan e) := List.filter_sublist
  have hbins : Bins ((leaves plan e).bins) := by
    have hcode : ∀ s, codeOf (plan.bins.map (turned plan.places e.changed)) s = codeOf plan.bins s :=
      codeOf_map (turned_id ho.changed) (turned_code ho.changed)
    have hall := (h.bins.turned ho.changed).spotted (held_turned h ho) ha.bins (by
      rw [spotRow_congr hcode,← drawn_eq]
      exact ha.apart)
    rwa [List.map_map] at hall
  refine ⟨(hsub.map Row.id).nodup ha.apart.ids,(hsub.map Row.called).nodup ha.apart.names,?_,ha.left_nested h,hbins,?_,
    fun r hr => ha.left_spelled h ho hr⟩
  · intro p hp q hq
    obtain ⟨hdrawn,hkept⟩ := mem_without.mp hp
    rcases List.mem_append.mp hdrawn with hwas | hmade
    · obtain ⟨r,hr,rfl⟩ := List.mem_map.mp hwas
      rw [written_parentId] at hq
      rw [written_id] at hkept
      refine stays plan e (h.inside r hr q hq) fun hgone => hkept ?_
      exact (ha.allowed.removes q hgone).whole r hr hq
    · exact stays plan e (made_onSite ha.allowed hmade hq) (ha.inside p hmade q hq)
  · intro b' hb' p hp
    obtain ⟨b,hb,rfl⟩ := List.mem_map.mp hb'
    obtain heq | ⟨s,hs,-,heq⟩ := moved_place plan ho b
    · rw [heq] at hp
      exact stays plan e (h.held b hb p hp) fun hgone => (ha.allowed.removes p hgone).empty b hb hp
    · rw [heq] at hp
      cases hp
      have hmem : spotRow plan.bins s ∈ madeRows plan e := List.mem_append_right _ (List.mem_map_of_mem hs)
      refine List.mem_map.mpr ⟨spotRow plan.bins s,mem_without.mpr ⟨List.mem_append_right _ hmem,fun hgone => ?_⟩,rfl⟩
      obtain ⟨q,hq,hid⟩ := List.mem_map.mp (ha.allowed.removes _ hgone).there
      exact made_fresh ha.apart hmem hq hid.symm

end Accepted

end Edit
end Layout
end Spork
