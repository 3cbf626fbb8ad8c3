import Spork.Layout.Removed

/-! A save of the plan editor as a whole: it goes through exactly when each thing it asks is
allowed by itself, names are free as they are given, and what is drawn before anything is
removed has no two places of one name in one place. -/
namespace Spork
namespace Layout
namespace Edit

/-- Each list of an edit names a place at most once. -/
structure Once (e : LayoutEdit) : Prop where
  changed : (e.changed.map PlaceChanged.placeId).Nodup
  added : (e.added.map PlaceAdded.placeId).Nodup
  removed : e.removed.Nodup
  spots : (e.spots.map SpotAdded.placeId).Nodup

/-- The places an edit makes. -/
def madeRows (plan : Plan) (e : LayoutEdit) : List Row := e.added.map addedRow++e.spots.map (spotRow plan.bins)

/-- The places of an edit before any is removed. -/
def drawn (plan : Plan) (e : LayoutEdit) : List Row := plan.places.map (written e.changed)++madeRows plan e

/-- A bin as an edit leaves it. -/
def moved (plan : Plan) (e : LayoutEdit) (b : Bin) : Bin := spotted e.spots (turned plan.places e.changed b)

/-- The history of an edit. -/
def records (plan : Plan) (e : LayoutEdit) : List PlaceChange :=
  e.changed.map (recordChanged plan.places)++(e.added.map recordAdded++
    (e.spots.map (recordSpot plan.bins)++(gone plan.places e.removed).map recordRemoved))

/-- What an edit that goes through leaves. -/
def leaves (plan : Plan) (e : LayoutEdit) : Plan :=
  ⟨without e.removed (drawn plan e),plan.bins.map (moved plan e),plan.changes++records plan e⟩

/-- Each thing an edit asks is allowed by itself. -/
structure Allowed (plan : Plan) (e : LayoutEdit) : Prop where
  changes : ∀ c ∈ e.changed, ∃ was, byId plan.places c.placeId = some was ∧ ChangeAllowed plan.bins c was
  adds : ∀ a ∈ e.added, AddAllowed plan.places a
  spots : ∀ s ∈ e.spots, SpotAllowed plan.places plan.bins s
  removes : ∀ id ∈ e.removed, RemoveAllowed plan.places plan.bins e.removed id

/-- When an edit goes through. -/
structure Accepted (plan : Plan) (e : LayoutEdit) : Prop where
  allowed : Allowed plan e
  renames : Goes plan.places e.changed
  bins : (e.spots.map SpotAdded.locationId).Nodup
  apart : Apart (drawn plan e)
  /-- Nothing is made inside a place removed. -/
  inside : ∀ r ∈ madeRows plan e, ∀ p ∈ r.parentId, p ∉ e.removed

variable {rows places : List Row} {bins : List Bin} {plan out : Plan} {cs : List PlaceChanged} {e : LayoutEdit}

/-! ## Changes -/

@[simp] theorem written_id (r : Row) : (written cs r).id = r.id := OneByOne.id_written write_id r

theorem written_ids (places : List Row) : (places.map (written cs)).map Row.id = places.map Row.id := by
  rw [List.map_map]
  exact List.map_congr_left fun r _ => written_id r

@[simp] theorem written_parentId (r : Row) : (written cs r).parentId = r.parentId := by
  rw [written,OneByOne.written]
  split <;> rfl

theorem Apart.nodup (h : Apart places) : places.Nodup := h.ids.of_map

theorem Apart.iff : Apart places ↔ (places.map Row.id).Nodup ∧ OneByOne.Apart Row.id Row.called places := by
  constructor
  · refine fun h => ⟨h.ids,fun r hr q hq hne hcalled => hne ?_⟩
    rw [List.inj_on_of_nodup_map h.names hq hr hcalled]
  · rintro ⟨hids,hnames⟩
    refine ⟨hids,hids.of_map.map_on fun r hr q hq hcalled => ?_⟩
    by_contra hne
    exact hnames r hr q hq (fun hid => hne (List.inj_on_of_nodup_map hids hq hr hid).symm) hcalled.symm

/-- Changes that go through leave no two places of one name in one place. -/
theorem Apart.written (h : Apart places) (hcs : (cs.map PlaceChanged.placeId).Nodup) (hgoes : Goes places cs) :
    Apart (places.map (Edit.written cs)) := by
  have hnames := hgoes.apart write_id (Apart.iff.mp h).2
  rw [OneByOne.foldl_put write_id hcs] at hnames
  exact Apart.iff.mpr ⟨by rw [written_ids]; exact h.ids,hnames⟩

/-- A bin's turn as its own place's change has it. -/
theorem turned_eq (rows : List Row) (hcs : (cs.map PlaceChanged.placeId).Nodup) (b : Bin) :
    turned rows cs b = b ∨ ∃ c ∈ cs, b.place = some c.placeId ∧ turned rows cs b = turnBy rows c b := by
  have hsome : (cs.map fun c => some c.placeId).Nodup := by
    have := hcs.map (Option.some_injective Uuid)
    rwa [List.map_map] at this
  by_cases h : b.place ∈ cs.map fun c => some c.placeId
  · obtain ⟨c,hc,heq⟩ := List.mem_map.mp h
    exact Or.inr ⟨c,hc,heq.symm,OneByOne.written_of_mem hsome hc heq.symm⟩
  · exact Or.inl (OneByOne.written_of_not_mem h)

section
variable (hcs : (cs.map PlaceChanged.placeId).Nodup)
include hcs

theorem turned_id (b : Bin) : (turned rows cs b).id = b.id := by
  obtain heq | ⟨c,-,-,heq⟩ := turned_eq rows hcs b <;> simp [heq]

theorem turned_code (b : Bin) : (turned rows cs b).code = b.code := by
  obtain heq | ⟨c,-,-,heq⟩ := turned_eq rows hcs b <;> simp [heq]

theorem turned_active (b : Bin) : (turned rows cs b).active = b.active := by
  obtain heq | ⟨c,-,-,heq⟩ := turned_eq rows hcs b <;> simp [heq]

theorem turned_place (b : Bin) : (turned rows cs b).place = b.place := by
  obtain heq | ⟨c,-,-,heq⟩ := turned_eq rows hcs b <;> simp [heq]

theorem turned_cell_none {b : Bin} : (turned rows cs b).cell = none ↔ b.cell = none := by
  have hplace : (turned rows cs b).place = b.place := turned_place hcs b
  rw [Bin.place,Bin.place] at hplace
  rw [← Option.map_eq_none_iff (f := Prod.fst),hplace,Option.map_eq_none_iff]

theorem spotAllowed_turned {s : SpotAdded} : SpotAllowed rows (bins.map (turned rows cs)) s ↔ SpotAllowed rows bins s := by
  have hwaits : (∃ b ∈ bins.map (turned rows cs), b.id = s.locationId ∧ b.active = true ∧ b.cell = none ∧ NameCk b.code) ↔
      ∃ b ∈ bins, b.id = s.locationId ∧ b.active = true ∧ b.cell = none ∧ NameCk b.code := by
    simp only [List.mem_map,exists_exists_and_eq_and,turned_id hcs,turned_active hcs,turned_cell_none hcs,turned_code hcs]
  exact ⟨fun h => ⟨hwaits.mp h.waiting,h.onSite,h.sized⟩,fun h => ⟨hwaits.mpr h.waiting,h.onSite,h.sized⟩⟩

end

theorem Bins.turned (h : Bins bins) (hcs : (cs.map PlaceChanged.placeId).Nodup) : Bins (bins.map (Edit.turned rows cs)) := by
  have hsome : (cs.map fun c => some c.placeId).Nodup := by
    have := hcs.map (Option.some_injective Uuid)
    rwa [List.map_map] at this
  rw [← OneByOne.foldl_put turnBy_place hsome]
  clear hsome hcs
  induction cs generalizing bins with
  | nil => exact h
  | cons c cs ih =>
    rw [List.foldl_cons,put_turnBy]
    exact ih h.turnBy

/-! ## The edit as a whole -/

theorem mem_without {removed : List Uuid} {r : Row} : r ∈ without removed places ↔ r ∈ places ∧ r.id ∉ removed := by
  simp [without]

theorem drawn_eq : drawn plan e = plan.places.map (written e.changed)++e.added.map addedRow++e.spots.map (spotRow plan.bins) :=
  (List.append_assoc ..).symm

/-- A bin a change leaves is in a place that is there still. -/
theorem held_turned (h : Sound plan) (ho : Once e) :
    Held (plan.places.map (written e.changed)++e.added.map addedRow) (plan.bins.map (turned plan.places e.changed)) := by
  intro b' hb' p hp
  obtain ⟨b,hb,rfl⟩ := List.mem_map.mp hb'
  rw [turned_place ho.changed] at hp
  rw [List.map_append,written_ids]
  exact List.mem_append_left _ (h.held b hb p hp)

/-- Nothing made has an id that was there. -/
theorem made_fresh (h : Apart (drawn plan e)) {r q : Row} (hr : r ∈ madeRows plan e) (hq : q ∈ plan.places) : r.id ≠ q.id := by
  have hids := h.ids
  rw [drawn,List.map_append,List.map_map] at hids
  intro heq
  refine (List.nodup_append.mp hids).2.2 _ (List.mem_map_of_mem hq) _ (List.mem_map_of_mem hr) ?_
  simp [heq]

/-- What is made is inside places that were there. -/
theorem made_onSite (h : Allowed plan e) {r : Row} (hr : r ∈ madeRows plan e) {p : Uuid} (hp : p ∈ r.parentId) :
    p ∈ plan.places.map Row.id := by
  rcases List.mem_append.mp hr with hadded | hspot
  · obtain ⟨a,ha,rfl⟩ := List.mem_map.mp hadded
    exact byId_isSome_iff.mp ((h.adds a ha).onSite p hp)
  · obtain ⟨s,hs,rfl⟩ := List.mem_map.mp hspot
    exact byId_isSome_iff.mp ((h.spots s hs).onSite p hp)

/-- A place drawn is in the place it was in, when it was there. -/
theorem drawn_parentId (h : Apart (drawn plan e)) {r q : Row} (hr : r ∈ drawn plan e) (hq : q ∈ plan.places) (hid : r.id = q.id) :
    r.parentId = q.parentId := by
  have hmem : written e.changed q ∈ drawn plan e := List.mem_append_left _ (List.mem_map_of_mem hq)
  rw [List.inj_on_of_nodup_map h.ids hr hmem (hid.trans (written_id q).symm),written_parentId]

/-- No place drawn is inside itself. -/
theorem drawn_not_own (h : Sound plan) (hallowed : Allowed plan e) (hapart : Apart (drawn plan e)) {r : Row}
    (hr : r ∈ drawn plan e) : r.parentId ≠ some r.id := by
  obtain ⟨rank,hrank⟩ := h.nested
  intro hown
  rcases List.mem_append.mp hr with hwas | hmade
  · obtain ⟨q,hq,rfl⟩ := List.mem_map.mp hwas
    rw [written_parentId,written_id] at hown
    exact absurd (hrank q hq q.id hown) (lt_irrefl _)
  · obtain ⟨q,hq,hid⟩ := List.mem_map.mp (made_onSite hallowed hmade hown)
    exact made_fresh hapart hmade hq hid.symm

/-- Where the edit leaves a bin. -/
theorem moved_place (plan : Plan) (ho : Once e) (b : Bin) : (moved plan e b).place = b.place ∨
    ∃ s ∈ e.spots, b.id = s.locationId ∧ (moved plan e b).place = some s.placeId := by
  rw [moved,spotted,OneByOne.written]
  split
  · exact Or.inl (turned_place ho.changed b)
  · rename_i s hfind
    refine Or.inr ⟨s,List.mem_of_find?_eq_some hfind,?_,rfl⟩
    have hid : s.locationId = (turned plan.places e.changed b).id := by simpa using List.find?_some hfind
    rw [hid,turned_id ho.changed]

/-- No bin is in a place that was there but those that were in it. -/
theorem moved_in_iff (ho : Once e) (hbins : Bins plan.bins) (hspots : ∀ s ∈ e.spots, SpotAllowed plan.places plan.bins s)
    (hapart : Apart (drawn plan e)) {id : Uuid} (hid : id ∈ plan.places.map Row.id) {b : Bin} (hb : b ∈ plan.bins) :
    (moved plan e b).place = some id ↔ b.place = some id := by
  obtain heq | ⟨s,hs,hloc,heq⟩ := moved_place plan ho b
  · rw [heq]
  · obtain ⟨b',hb',hid',-,hwaits,-⟩ := (hspots s hs).waiting
    obtain rfl : b' = b := List.inj_on_of_nodup_map hbins.ids hb' hb (hid'.trans hloc.symm)
    obtain ⟨q,hq,rfl⟩ := List.mem_map.mp hid
    have hmade : spotRow plan.bins s ∈ madeRows plan e := List.mem_append_right _ (List.mem_map_of_mem hs)
    refine iff_of_false (fun hin => ?_) fun hin => ?_
    · rw [heq] at hin
      exact made_fresh hapart hmade hq (Option.some.inj hin)
    · rw [Bin.place,hwaits] at hin
      cases hin

/-- The removals of an edit go through where nothing is made inside a place removed. -/
theorem removals_iff (h : Sound plan) (ho : Once e) (hallowed : Allowed plan e) (hapart : Apart (drawn plan e))
    {changes : List PlaceChange} : (gone plan.places e.removed).foldlM remove ⟨drawn plan e,plan.bins.map (moved plan e),changes⟩ =
        .ok out ↔ (∀ r ∈ madeRows plan e, ∀ p ∈ r.parentId, p ∉ e.removed) ∧
      out = ⟨without e.removed (drawn plan e),plan.bins.map (moved plan e),
        changes++(gone plan.places e.removed).map recordRemoved⟩ := by
  have hids := gone_ids h.ids fun id hid => (hallowed.removes id hid).there
  have hleft : without ((gone plan.places e.removed).map Row.id) (drawn plan e) = without e.removed (drawn plan e) :=
    List.filter_congr fun r _ => decide_eq_decide.mpr (not_congr hids.mem_iff)
  have hfirst : (gone plan.places e.removed).Pairwise fun p q =>
      ∀ r ∈ drawn plan e, r.id = q.id → r.parentId ≠ some p.id := by
    refine (gone_inside_first h).imp_of_mem fun {p q} _ hq hpq r hr hid => ?_
    rwa [drawn_parentId hapart hr ((mem_gone h.ids).mp hq).1 hid]
  have hempty : ∀ g ∈ gone plan.places e.removed, ∀ b ∈ plan.bins.map (moved plan e), b.place ≠ some g.id := by
    intro g hg b' hb' hin
    obtain ⟨b,hb,rfl⟩ := List.mem_map.mp hb'
    obtain ⟨hmem,hid⟩ := (mem_gone h.ids).mp hg
    exact (hallowed.removes g.id hid).empty b hb
      ((moved_in_iff ho h.bins hallowed.spots hapart (List.mem_map_of_mem hmem) hb).mp hin)
  rw [removes_iff hfirst fun r hr => drawn_not_own h hallowed hapart hr,hleft]
  constructor
  · rintro ⟨-,hinside,rfl⟩
    refine ⟨fun r hr p hp hgone => ?_,rfl⟩
    obtain ⟨g,hg,rfl⟩ := List.mem_map.mp (hids.mem_iff.mpr hgone)
    obtain ⟨q,hq,hid⟩ := List.mem_map.mp (hinside g hg r (List.mem_append_right _ hr) hp)
    exact made_fresh hapart hr ((mem_gone h.ids).mp hq).1 hid.symm
  · rintro ⟨hinside,rfl⟩
    refine ⟨hempty,fun g hg r hr hin => hids.mem_iff.mpr ?_,rfl⟩
    obtain ⟨-,hid⟩ := (mem_gone h.ids).mp hg
    rcases List.mem_append.mp hr with hwas | hmade
    · obtain ⟨q,hq,rfl⟩ := List.mem_map.mp hwas
      rw [written_parentId] at hin
      rw [written_id]
      exact (hallowed.removes g.id hid).whole q hq hin
    · exact absurd hid (hinside r hmade g.id hin)

/-- Whether a save goes through, and what it leaves. -/
theorem editLayout_iff {version : List Row → String} (h : Sound plan) (ho : Once e) : editLayout version plan e = .ok out ↔
    version plan.places = e.version ∧ Accepted plan e ∧ out = leaves plan e := by
  have hplaces : Apart plan.places := ⟨h.ids,h.names⟩
  have hcode : ∀ s, codeOf (plan.bins.map (turned plan.places e.changed)) s = codeOf plan.bins s :=
    codeOf_map (turned_id ho.changed) (turned_code ho.changed)
  have hturned : (plan.bins.map (turned plan.places e.changed)).map (spotted e.spots) = plan.bins.map (moved plan e) :=
    List.map_map
  -- what the spots do to what they find
  have hspotsIff (hapart : Apart (plan.places.map (written e.changed)++e.added.map addedRow)) (left : Plan) :=
    @spots_iff plan.places ⟨plan.places.map (written e.changed)++e.added.map addedRow,
      plan.bins.map (turned plan.places e.changed),
      plan.changes++e.changed.map (recordChanged plan.places)++e.added.map recordAdded⟩ left e.spots
      (h.bins.turned ho.changed) hapart (held_turned h ho)
  simp only [spotAllowed_turned ho.changed,spotRow_congr hcode,recordSpot_congr hcode,hturned,← drawn_eq] at hspotsIff
  have hremovable (hspots : ∀ s ∈ e.spots, SpotAllowed plan.places plan.bins s) (hapart : Apart (drawn plan e)) :
      (∀ id ∈ e.removed, removable plan.places (plan.bins.map (moved plan e)) e.removed id = .ok ()) ↔
        ∀ id ∈ e.removed, RemoveAllowed plan.places plan.bins e.removed id := by
    refine forall₂_congr fun id _ => ?_
    rw [removable_iff]
    have hempty (hid : id ∈ plan.places.map Row.id) :
        (∀ b ∈ plan.bins.map (moved plan e), b.place ≠ some id) ↔ ∀ b ∈ plan.bins, b.place ≠ some id := by
      rw [List.forall_mem_map]
      exact forall₂_congr fun b hb => not_congr (moved_in_iff ho h.bins hspots hapart hid hb)
    exact ⟨fun hr => ⟨hr.there,(hempty hr.there).mp hr.empty,hr.whole⟩,
      fun hr => ⟨hr.there,(hempty hr.there).mpr hr.empty,hr.whole⟩⟩
  have hrecords : plan.changes++records plan e = plan.changes++e.changed.map (recordChanged plan.places)++
      e.added.map recordAdded++e.spots.map (recordSpot plan.bins)++(gone plan.places e.removed).map recordRemoved := by
    simp only [records,List.append_assoc]
  have hspelled : ∀ c ∈ e.changed, ∀ r ∈ plan.places, r.id = c.placeId → Spelled plan.bins r := fun _ _ r hr _ => h.spelled r hr
  rw [editLayout,leaves,hrecords]
  simp only [Fallible.bind_ok_iff,Unique.exists_iff,PUnit.default_eq_unit,refuseIf_iff,not_not,
    changes_iff ho.changed h.bins hspelled]
  refine and_congr_right fun _ => ?_
  constructor
  · rintro ⟨_,⟨hchanges,hgoes,rfl⟩,_,hadded,_,hspotted,hremoved,hgone⟩
    obtain ⟨hadds,hmade,rfl⟩ := (adds_iff (hplaces.written ho.changed hgoes)).mp hadded
    obtain ⟨hspots,hlocs,hapart,rfl⟩ := (hspotsIff hmade _).mp hspotted
    have hallowed : Allowed plan e :=
      ⟨hchanges,hadds,hspots,(hremovable hspots hapart).mp (Fallible.each_ok.mp hremoved)⟩
    obtain ⟨hinside,rfl⟩ := (removals_iff h ho hallowed hapart).mp hgone
    exact ⟨⟨hallowed,hgoes,hlocs,hapart,hinside⟩,rfl⟩
  · rintro ⟨ha,rfl⟩
    have hmade : Apart (plan.places.map (written e.changed)++e.added.map addedRow) := by
      have hapart := ha.apart
      rw [drawn_eq] at hapart
      exact hapart.of_append
    refine ⟨_,⟨ha.allowed.changes,ha.renames,rfl⟩,
      _,(adds_iff (hplaces.written ho.changed ha.renames)).mpr ⟨ha.allowed.adds,hmade,rfl⟩,
      _,(hspotsIff hmade _).mpr ⟨ha.allowed.spots,ha.bins,ha.apart,rfl⟩,?_,?_⟩
    · exact Fallible.each_ok.mpr ((hremovable ha.allowed.spots ha.apart).mpr ha.allowed.removes)
    · exact (removals_iff h ho ha.allowed ha.apart).mpr ⟨ha.inside,rfl⟩

end Edit
end Layout
end Spork
