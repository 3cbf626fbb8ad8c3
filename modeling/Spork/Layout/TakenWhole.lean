import Spork.Layout.SavedSound
import Spork.Lib.GroupBy

/-! Whether a save of the plan editor is taken as a whole: in any order of its lists, whenever
the layout it asks for is one that can be kept. -/
namespace Spork
namespace Layout
namespace Edit

/-- The same edit with each of its lists in another order. -/
structure Reordered (e e' : LayoutEdit) : Prop where
  version : e'.version = e.version
  changed : e.changed.Perm e'.changed
  added : e.added.Perm e'.added
  removed : e.removed.Perm e'.removed
  spots : e.spots.Perm e'.spots

/-- Both are accepted and leave one layout, or both refused. -/
def SameOutcome : Except ApiError Plan → Except ApiError Plan → Prop
  | .ok a, .ok b => a.places.Perm b.places ∧ a.bins = b.bins
  | .error _, .error _ => True
  | _, _ => False

/-- The places of the layout an edit asks for. -/
def asked (plan : Plan) (e : LayoutEdit) : List Row := without e.removed (drawn plan e)

/-- Each thing an edit asks is allowed on its own, and no two places of what it asks for share
a name in one place. -/
structure Asked (plan : Plan) (e : LayoutEdit) : Prop where
  allowed : Allowed plan e
  fresh : ∀ r ∈ madeRows plan e, r.id ∉ plan.places.map Row.id
  names : ((asked plan e).map Row.called).Nodup

def keptOf (places : List Row) (id : Uuid) : Option Kept := (byId places id).map asKept

/-- Records that go from one state of a place to another, each from where the last left it. -/
def Chain : Option Kept → List PlaceChange → Option Kept → Prop
  | before, [], after => before = after
  | before, r :: rs, after => r.before = before ∧ Chain r.after rs after

/-- An edit is taken as a whole. -/
structure TakenWhole (version : List Row → String) (plan : Plan) (e : LayoutEdit) : Prop where
  anyOrder : ∀ e', Reordered e e' → SameOutcome (editLayout version plan e) (editLayout version plan e')
  accepted : Asked plan e → ∃ out, editLayout version plan e = .ok out
  untouched : ∀ out, editLayout version plan e = .ok out →
    ∀ r ∈ plan.places, r.id ∉ e.changed.map PlaceChanged.placeId → r.id ∉ e.removed → r ∈ out.places
  stays : ∀ out, editLayout version plan e = .ok out → ∀ b ∈ plan.bins, b.id ∉ e.spots.map SpotAdded.locationId →
    (∀ p ∈ b.place, ¬Turns plan e p) → b ∈ out.bins
  turns : ∀ out, editLayout version plan e = .ok out → ∀ r ∈ plan.places, Turns plan e r.id →
    ∀ b ∈ plan.bins, b.place = some r.id → turnRound r b ∈ out.bins
  spelled : ∀ out, editLayout version plan e = .ok out → ∀ r ∈ out.places, Spelled out.bins r
  again : ∀ out, editLayout version plan e = .ok out → ∀ e' out', Once e' → editLayout version out e' = .ok out' →
    ∀ p, Turns plan e p → Turns out e' p → ∀ b ∈ plan.bins, b.place = some p → b ∈ out'.bins
  history : ∀ out, editLayout version plan e = .ok out → ∃ more, out.changes = plan.changes++more ∧
    ∀ id, Chain (keptOf plan.places id) (more.filter fun r => r.placeId = id) (keptOf out.places id)
  refused : (∀ out, editLayout version plan e ≠ .ok out) → save version plan e = plan

/-- Nothing an edit asks is in the way of another thing it asks: no changed place gets a name
that a place it changes or removes has; nothing is made in, or called what is called, a place
it removes; what it makes has ids and bins of its own; and a place it changes and removes is
changed to what it was. -/
structure Plain (plan : Plan) (e : LayoutEdit) : Prop where
  renamed : ∀ c ∈ e.changed, ∀ r ∈ plan.places, r.id = c.placeId → ∀ q ∈ plan.places, q.id ≠ c.placeId →
    q.id ∈ e.changed.map PlaceChanged.placeId ∨ q.id ∈ e.removed → q.called ≠ (write c r).called
  made : ∀ r ∈ madeRows plan e, ∀ q ∈ plan.places, q.id ∈ e.removed → r.called ≠ q.called ∧ r.parentId ≠ some q.id
  ids : ((madeRows plan e).map Row.id).Nodup
  bins : (e.spots.map SpotAdded.locationId).Nodup
  kept : ∀ c ∈ e.changed, c.placeId ∈ e.removed → ∀ r ∈ plan.places, r.id = c.placeId → asKept (write c r) = asKept r

variable {version : List Row → String} {plan out : Plan} {e e' : LayoutEdit}

/-! ## In another order -/

theorem Reordered.symm (h : Reordered e e') : Reordered e' e :=
  ⟨h.version.symm,h.changed.symm,h.added.symm,h.removed.symm,h.spots.symm⟩

theorem Once.reordered (ho : Once e) (h : Reordered e e') : Once e' :=
  ⟨(h.changed.map _).nodup_iff.mp ho.changed,(h.added.map _).nodup_iff.mp ho.added,h.removed.nodup_iff.mp ho.removed,
    (h.spots.map _).nodup_iff.mp ho.spots⟩

theorem Reordered.made (h : Reordered e e') : (madeRows plan e).Perm (madeRows plan e') :=
  (h.added.map _).append (h.spots.map _)

theorem Reordered.drawn (h : Reordered e e') (ho : Once e) : (drawn plan e).Perm (Edit.drawn plan e') := by
  refine List.Perm.append (List.Perm.of_eq ?_) h.made
  rw [Edit.written,OneByOne.written_perm h.changed ho.changed]

theorem Reordered.without (h : Reordered e e') (places : List Row) :
    Edit.without e.removed places = Edit.without e'.removed places :=
  List.filter_congr fun _ _ => decide_eq_decide.mpr (not_congr h.removed.mem_iff)

theorem Reordered.asked (h : Reordered e e') (ho : Once e) : (asked plan e).Perm (Edit.asked plan e') := by
  rw [Edit.asked,h.without]
  exact (h.drawn ho).filter _

theorem Allowed.reordered (ha : Allowed plan e) (h : Reordered e e') : Allowed plan e' := by
  refine ⟨fun c hc => ha.changes c (h.changed.mem_iff.mpr hc),fun a hadd => ha.adds a (h.added.mem_iff.mpr hadd),
    fun s hs => ha.spots s (h.spots.mem_iff.mpr hs),fun id hid => ?_⟩
  obtain ⟨hthere,hempty,hwhole⟩ := ha.removes id (h.removed.mem_iff.mpr hid)
  exact ⟨hthere,hempty,fun p hp hin => h.removed.mem_iff.mp (hwhole p hp hin)⟩

theorem Asked.reordered (ha : Asked plan e) (h : Reordered e e') (ho : Once e) : Asked plan e' :=
  ⟨ha.allowed.reordered h,fun r hr => ha.fresh r (h.made.mem_iff.mpr hr),
    ((h.asked ho).map _).nodup_iff.mp ha.names⟩

theorem Plain.reordered (hp : Plain plan e) (h : Reordered e e') : Plain plan e' := by
  refine ⟨fun c hc r hr hid q hq hne hnamed => ?_,fun r hr q hq hgone => ?_,(h.made.map _).nodup_iff.mp hp.ids,
    (h.spots.map _).nodup_iff.mp hp.bins,fun c hc hgone => ?_⟩
  · refine hp.renamed c (h.changed.mem_iff.mpr hc) r hr hid q hq hne ?_
    exact hnamed.imp ((h.changed.map _).mem_iff.mpr) h.removed.mem_iff.mpr
  · exact hp.made r (h.made.mem_iff.mpr hr) q hq (h.removed.mem_iff.mpr hgone)
  · exact hp.kept c (h.changed.mem_iff.mpr hc) (h.removed.mem_iff.mpr hgone)

/-- Accepted in two orders, an edit leaves one layout. -/
theorem leaves_reordered (h : Reordered e e') (ho : Once e) (ha : Accepted plan e) :
    (leaves plan e).places.Perm (leaves plan e').places ∧ (leaves plan e).bins = (leaves plan e').bins := by
  refine ⟨h.asked ho,?_⟩
  have hsome : (e.changed.map fun c => some c.placeId).Nodup := by
    have := ho.changed.map (Option.some_injective Uuid)
    rwa [List.map_map] at this
  have hmoved : moved plan e = moved plan e' := by
    funext b
    rw [moved,moved,turned,OneByOne.written_perm (h.changed) hsome,spotted,OneByOne.written_perm h.spots ha.bins]
  show plan.bins.map (moved plan e) = plan.bins.map (moved plan e')
  rw [hmoved]

/-! ## Accepted -/

/-- An edit that is accepted asks for a layout that can be kept. -/
theorem Accepted.asked (ha : Accepted plan e) : Asked plan e := by
  refine ⟨ha.allowed,fun r hr hid => ?_,(List.filter_sublist.map Row.called).nodup ha.apart.names⟩
  obtain ⟨q,hq,heq⟩ := List.mem_map.mp hid
  exact made_fresh ha.apart hr hq heq.symm

/-- A place that is removed is called what it was when it goes. -/
theorem Plain.removed_called (hp : Plain plan e) (ho : Once e) {r : Row} (hr : r ∈ plan.places) (hgone : r.id ∈ e.removed) :
    (written e.changed r).called = r.called := by
  by_cases hchanged : r.id ∈ e.changed.map PlaceChanged.placeId
  · obtain ⟨c,hc,hid⟩ := List.mem_map.mp hchanged
    rw [written,OneByOne.written_of_mem ho.changed hc hid.symm]
    have hkept := hp.kept c hc (hid ▸ hgone) r hr hid.symm
    exact Prod.ext rfl (congrArg Kept.name hkept)
  · rw [written,OneByOne.written_of_not_mem hchanged]

/-- Nothing that is drawn is called what a place that is removed is. -/
theorem Plain.apart_removed (h : Sound plan) (hp : Plain plan e) (ho : Once e) {r : Row} (hr : r ∈ plan.places)
    (hgone : r.id ∈ e.removed) {q : Row} (hq : q ∈ drawn plan e) (hne : q.id ≠ r.id) : q.called ≠ r.called := by
  rcases List.mem_append.mp hq with hwas | hmade
  · obtain ⟨q₀,hq₀,rfl⟩ := List.mem_map.mp hwas
    rw [written_id] at hne
    by_cases hchanged : q₀.id ∈ e.changed.map PlaceChanged.placeId
    · obtain ⟨c,hc,hid⟩ := List.mem_map.mp hchanged
      rw [written,OneByOne.written_of_mem ho.changed hc hid.symm]
      exact (hp.renamed c hc q₀ hq₀ hid.symm r hr (fun heq => hne (heq.trans hid).symm) (Or.inr hgone)).symm
    · rw [written,OneByOne.written_of_not_mem hchanged]
      exact fun hcalled => hne (congrArg Row.id (List.inj_on_of_nodup_map h.names hq₀ hr hcalled))
  · exact (hp.made q hmade r hr hgone).1

/-- What is drawn of a plain edit that asks for a layout that can be kept has no two places of
one name in one place. -/
theorem Plain.apart (h : Sound plan) (hp : Plain plan e) (ho : Once e) (ha : Asked plan e) : Apart (drawn plan e) := by
  refine Apart.iff.mpr ⟨?_,fun r hr q hq hne => ?_⟩
  · rw [drawn,List.map_append,written_ids]
    refine List.nodup_append.mpr ⟨h.ids,hp.ids,fun i hi j hj hij => ?_⟩
    obtain ⟨r,hr,rfl⟩ := List.mem_map.mp hj
    exact ha.fresh r hr (hij ▸ hi)
  · -- a place removed, as it is drawn, is called what it was
    have hgone {r : Row} (hr : r ∈ drawn plan e) (hgone : r.id ∈ e.removed) :
        ∃ r₀ ∈ plan.places, r₀.id = r.id ∧ r.called = r₀.called := by
      rcases List.mem_append.mp hr with hwas | hmade
      · obtain ⟨r₀,hr₀,rfl⟩ := List.mem_map.mp hwas
        rw [written_id] at hgone ⊢
        exact ⟨r₀,hr₀,rfl,hp.removed_called ho hr₀ hgone⟩
      · exact absurd (ha.allowed.removes r.id hgone).there (ha.fresh r hmade)
    by_cases hr' : r.id ∈ e.removed
    · obtain ⟨r₀,hr₀,hid,hcalled⟩ := hgone hr hr'
      rw [hcalled]
      exact hp.apart_removed h ho hr₀ (hid ▸ hr') hq (hid ▸ hne)
    · by_cases hq' : q.id ∈ e.removed
      · obtain ⟨q₀,hq₀,hid,hcalled⟩ := hgone hq hq'
        rw [hcalled]
        exact (hp.apart_removed h ho hq₀ (hid ▸ hq') hr (hid ▸ hne.symm)).symm
      · intro hcalled
        refine hne (congrArg Row.id ?_)
        exact List.inj_on_of_nodup_map ha.names (mem_without.mpr ⟨hq,hq'⟩) (mem_without.mpr ⟨hr,hr'⟩) hcalled

/-- A plain edit that asks for a layout that can be kept is accepted. -/
theorem Plain.accepted (h : Sound plan) (hp : Plain plan e) (ho : Once e) (ha : Asked plan e) : Accepted plan e := by
  have hapart := hp.apart h ho ha
  refine ⟨ha.allowed,?_,hp.bins,hapart,fun r hr p hin hgone => ?_⟩
  · refine OneByOne.goes_of_apart write_id ho.changed (Apart.iff.mp hapart.of_append).2 fun c hc r hr hid q hq hne hnamed => ?_
    exact hp.renamed c hc r hr hid q hq hne (Or.inl hnamed)
  · obtain ⟨q,hq,rfl⟩ := List.mem_map.mp (ha.allowed.removes p hgone).there
    exact (hp.made r hr q hq hgone).2 hin

/-! ## The history -/

theorem keptOf_of_mem {places : List Row} (hids : (places.map Row.id).Nodup) {r : Row} (hr : r ∈ places) :
    keptOf places r.id = some (asKept r) := by
  rw [keptOf,byId_of_mem hids hr]
  rfl

theorem keptOf_none {places : List Row} {id : Uuid} (hid : id ∉ places.map Row.id) : keptOf places id = none := by
  have hnone : byId places id = none := Option.isNone_iff_eq_none.mp (by
    rw [← Option.not_isSome,Bool.not_eq_true',Bool.eq_false_iff]
    exact fun hsome => hid (byId_isSome_iff.mp hsome))
  rw [keptOf,hnone]
  rfl

/-- A list's records of a place, where it has no two of one. -/
theorem records_of {α : Type} (key : α → Uuid) (write : α → PlaceChange) (hplace : ∀ a, (write a).placeId = key a) {l : List α}
    (hkeys : (l.map key).Nodup) (id : Uuid) : ((l.map write).filter fun r => r.placeId = id) = [] ∧ id ∉ l.map key ∨
      ∃ a ∈ l, key a = id ∧ ((l.map write).filter fun r => r.placeId = id) = [write a] := by
  have hfilter : ((l.map write).filter fun r => r.placeId = id) = (l.filter fun a => key a = id).map write := by
    rw [List.filter_map]
    simp only [Function.comp_def,hplace]
  rw [hfilter]
  by_cases hid : id ∈ l.map key
  · obtain ⟨a,ha,rfl⟩ := List.mem_map.mp hid
    exact Or.inr ⟨a,ha,rfl,by rw [GroupBy.filter_keyed hkeys ha]; rfl⟩
  · refine Or.inl ⟨?_,hid⟩
    rw [List.filter_eq_nil_iff.mpr fun a ha heq => hid (List.mem_map.mpr ⟨a,ha,by simpa using heq⟩)]
    rfl

/-- The records of what an edit makes. -/
theorem made_records (plan : Plan) (ho : Once e) (hids : ((madeRows plan e).map Row.id).Nodup) (id : Uuid) :
    ((e.added.map recordAdded++e.spots.map (recordSpot plan.bins)).filter fun r => r.placeId = id) = [] ∧
        id ∉ (madeRows plan e).map Row.id ∨
      ∃ r ∈ madeRows plan e, r.id = id ∧ ∃ bin, ((e.added.map recordAdded++e.spots.map (recordSpot plan.bins)).filter
        fun r => r.placeId = id) = [⟨id,.added,none,some (asKept r),bin⟩] := by
  have hadded : (e.added.map addedRow).map Row.id = e.added.map PlaceAdded.placeId := List.map_map
  have hspots : (e.spots.map (spotRow plan.bins)).map Row.id = e.spots.map SpotAdded.placeId := List.map_map
  rw [madeRows,List.map_append,hadded,hspots] at hids
  rw [List.filter_append,madeRows,List.map_append,hadded,hspots,List.mem_append,not_or]
  obtain ⟨hnone,hnot⟩ | ⟨a,ha,rfl,hone⟩ := records_of PlaceAdded.placeId recordAdded (fun _ => rfl) ho.added id
  · rw [hnone,List.nil_append]
    obtain ⟨hnone',hnot'⟩ | ⟨s,hs,rfl,hone'⟩ := records_of SpotAdded.placeId (recordSpot plan.bins) (fun _ => rfl) ho.spots id
    · exact Or.inl ⟨hnone',hnot,hnot'⟩
    · exact Or.inr ⟨spotRow plan.bins s,List.mem_append_right _ (List.mem_map_of_mem hs),rfl,_,hone'⟩
  · obtain ⟨hnone',-⟩ | ⟨s,hs,hid,-⟩ := records_of SpotAdded.placeId (recordSpot plan.bins) (fun _ => rfl) ho.spots a.placeId
    · rw [hone,hnone',List.append_nil]
      exact Or.inr ⟨addedRow a,List.mem_append_left _ (List.mem_map_of_mem ha),rfl,none,rfl⟩
    · exact absurd hid.symm ((List.nodup_append.mp hids).2.2 _ (List.mem_map_of_mem ha) _ (List.mem_map_of_mem hs))

theorem recordChanged_eq (h : Sound plan) {c : PlaceChanged} {q : Row} (hq : q ∈ plan.places) (hid : c.placeId = q.id) :
    recordChanged plan.places c = ⟨q.id,.changed,some (asKept q),some (asKept (write c q)),none⟩ := by
  rw [recordChanged,hid,byId_of_mem h.ids hq]
  rfl

/-- The records of a place that was there: what it is changed to and that it is removed. -/
theorem place_records (h : Sound plan) (ho : Once e) (ha : Accepted plan e) {q : Row} (hq : q ∈ plan.places) :
    ((records plan e).filter fun r => r.placeId = q.id) =
      ((e.changed.map (recordChanged plan.places)).filter fun r => r.placeId = q.id)++
        (if q.id ∈ e.removed then [recordRemoved q] else []) := by
  have hgoneIds : ((gone plan.places e.removed).map Row.id).Nodup :=
    (gone_ids h.ids fun id hid => (ha.allowed.removes id hid).there).nodup_iff.mpr ho.removed
  have hids : ((madeRows plan e).map Row.id).Nodup := by
    have hall := ha.apart.ids
    rw [drawn,List.map_append] at hall
    exact (List.nodup_append.mp hall).2.1
  have hmade : ((e.added.map recordAdded++e.spots.map (recordSpot plan.bins)).filter fun r => r.placeId = q.id) = [] := by
    obtain ⟨hnone,-⟩ | ⟨r,hr,hid,-⟩ := made_records plan ho hids q.id
    · exact hnone
    · exact absurd hid (made_fresh ha.apart hr hq)
  have hremoved : ((gone plan.places e.removed).map recordRemoved).filter (fun r => r.placeId = q.id) =
      if q.id ∈ e.removed then [recordRemoved q] else [] := by
    split
    · rename_i hgone
      obtain ⟨-,hnot⟩ | ⟨g,hg,hid,hone⟩ := records_of Row.id recordRemoved (fun _ => rfl) hgoneIds q.id
      · exact absurd (List.mem_map_of_mem ((mem_gone h.ids).mpr ⟨hq,hgone⟩)) hnot
      · rw [hone,List.inj_on_of_nodup_map h.ids ((mem_gone h.ids).mp hg).1 hq hid]
    · rename_i hkept
      obtain ⟨hnone,-⟩ | ⟨g,hg,hid,-⟩ := records_of Row.id recordRemoved (fun _ => rfl) hgoneIds q.id
      · exact hnone
      · exact absurd (hid ▸ ((mem_gone h.ids).mp hg).2) hkept
  rw [records,List.filter_append,← List.append_assoc,List.filter_append,hmade,List.nil_append,hremoved]

/-- The history of an edit that is accepted goes, place by place, from what was there to what is
left, when none is changed to another and removed. -/
theorem records_chain (h : Sound plan) (ho : Once e) (ha : Accepted plan e)
    (hkept : ∀ c ∈ e.changed, c.placeId ∈ e.removed → ∀ r ∈ plan.places, r.id = c.placeId → asKept (write c r) = asKept r)
    (id : Uuid) :
    Chain (keptOf plan.places id) ((records plan e).filter fun r => r.placeId = id) (keptOf (leaves plan e).places id) := by
  have hleft := (ha.sound h ho).ids
  by_cases hid : id ∈ plan.places.map Row.id
  · obtain ⟨q,hq,rfl⟩ := List.mem_map.mp hid
    have hdrawn : written e.changed q ∈ drawn plan e := List.mem_append_left _ (List.mem_map_of_mem hq)
    have hstays (hkeep : q.id ∉ e.removed) :
        keptOf (leaves plan e).places q.id = some (asKept (written e.changed q)) := by
      have hmem : written e.changed q ∈ (leaves plan e).places := mem_without.mpr ⟨hdrawn,by rwa [written_id]⟩
      have heq := keptOf_of_mem hleft hmem
      rwa [written_id] at heq
    have hgoes (hgone : q.id ∈ e.removed) : keptOf (leaves plan e).places q.id = none := by
      refine keptOf_none fun hmem => ?_
      obtain ⟨r,hr,heq⟩ := List.mem_map.mp hmem
      exact (mem_without.mp hr).2 (heq ▸ hgone)
    rw [place_records h ho ha hq,keptOf_of_mem h.ids hq]
    obtain ⟨hnone,hnot⟩ | ⟨c,hc,hplace,hone⟩ :=
      records_of PlaceChanged.placeId (recordChanged plan.places) (fun _ => rfl) ho.changed q.id
    · rw [hnone,List.nil_append]
      split
      · rename_i hgone
        rw [hgoes hgone]
        exact ⟨rfl,rfl⟩
      · rename_i hkeep
        rw [hstays hkeep,written,OneByOne.written_of_not_mem hnot]
        rfl
    · rw [hone,recordChanged_eq h hq hplace]
      have hwritten : written e.changed q = write c q := OneByOne.written_of_mem ho.changed hc hplace.symm
      split
      · rename_i hgone
        rw [hgoes hgone]
        exact ⟨rfl,congrArg some (hkept c hc (hplace ▸ hgone) q hq hplace.symm).symm,rfl⟩
      · rename_i hkeep
        rw [hstays hkeep,hwritten]
        exact ⟨rfl,rfl⟩
  · have hchanged : ((e.changed.map (recordChanged plan.places)).filter fun r => r.placeId = id) = [] := by
      refine List.filter_eq_nil_iff.mpr fun r hr heq => hid ?_
      obtain ⟨c,hc,rfl⟩ := List.mem_map.mp hr
      obtain ⟨was,hwas,-⟩ := ha.allowed.changes c hc
      obtain ⟨hmem,hplace⟩ := byId_mem hwas
      have hsame : c.placeId = id := of_decide_eq_true heq
      exact List.mem_map.mpr ⟨was,hmem,hplace.trans hsame⟩
    have hgone : ((gone plan.places e.removed).map recordRemoved).filter (fun r => r.placeId = id) = [] := by
      refine List.filter_eq_nil_iff.mpr fun r hr heq => hid ?_
      obtain ⟨g,hg,rfl⟩ := List.mem_map.mp hr
      have hsame : g.id = id := of_decide_eq_true heq
      exact hsame ▸ List.mem_map_of_mem ((mem_gone h.ids).mp hg).1
    have hids : ((madeRows plan e).map Row.id).Nodup := by
      have hall := ha.apart.ids
      rw [drawn,List.map_append] at hall
      exact (List.nodup_append.mp hall).2.1
    rw [records,List.filter_append,hchanged,List.nil_append,← List.append_assoc,List.filter_append,hgone,List.append_nil,
      keptOf_none hid]
    obtain ⟨hnone,hnot⟩ | ⟨r,hr,rfl,bin,hone⟩ := made_records plan ho hids id
    · rw [hnone]
      refine (keptOf_none fun hmem => ?_).symm
      obtain ⟨r,hr,rfl⟩ := List.mem_map.mp hmem
      rcases List.mem_append.mp (mem_without.mp hr).1 with hwas | hmade
      · obtain ⟨q,hq,rfl⟩ := List.mem_map.mp hwas
        exact hid (by rw [written_id]; exact List.mem_map_of_mem hq)
      · exact hnot (List.mem_map_of_mem hmade)
    · have hmem : r ∈ (leaves plan e).places := by
        refine mem_without.mpr ⟨List.mem_append_right _ hr,fun hremoved => hid (ha.allowed.removes r.id hremoved).there⟩
      rw [hone,keptOf_of_mem hleft hmem]
      exact ⟨rfl,rfl⟩

/-! ## Taken as a whole -/

/-- Where an edit leaves a bin of a place it numbers from its other end. -/
theorem Accepted.moved_turned (h : Sound plan) (ho : Once e) (ha : Accepted plan e) {r : Row} (hr : r ∈ plan.places)
    (hturns : Turns plan e r.id) {b : Bin} (hb : b ∈ plan.bins) (hin : b.place = some r.id) : moved plan e b = turnRound r b := by
  have hseated : b.cell ≠ none := by
    obtain ⟨cell,hcell⟩ := exists_cell hin
    rw [hcell]
    exact Option.some_ne_none _
  rw [moved_of_seated h.bins ho ha.allowed.spots hb hseated,turned_turned h ho hr hturns hin]

/-- A place numbered from its other end by one edit and again by a later one has its bins back. -/
theorem Accepted.turned_back (h : Sound plan) (ho : Once e) (ha : Accepted plan e) (ho' : Once e')
    (ha' : Accepted (leaves plan e) e') {place : Uuid} (hturns : Turns plan e place) (hturns' : Turns (leaves plan e) e' place)
    {b : Bin} (hb : b ∈ plan.bins) (hin : b.place = some place) : moved (leaves plan e) e' (moved plan e b) = b := by
  obtain ⟨-,-,-,r,hfound,-⟩ := id hturns
  obtain ⟨-,-,-,r',hfound',-⟩ := id hturns'
  obtain ⟨hr,rfl⟩ := byId_mem hfound
  obtain ⟨hr',hid⟩ := byId_mem hfound'
  have hsame : r' = written e.changed r :=
    List.inj_on_of_nodup_map ha.apart.ids (mem_without.mp hr').1 (List.mem_append_left _ (List.mem_map_of_mem hr))
      (hid.trans (written_id r).symm)
  have hmoved := ha.moved_turned h ho hr hturns hb hin
  rw [ha'.moved_turned (ha.sound h ho) ho' hr' (hid ▸ hturns') (List.mem_map_of_mem hb) (by rw [hmoved,turnRound_place,hin,hid]),
    hmoved]
  exact turnRound_turnRound hid (by rw [hsame,written_turned h ho hr hturns]) b

theorem sameOutcome_of {x y : Except ApiError Plan} (hok : (∃ a, x = .ok a) ↔ ∃ b, y = .ok b)
    (hboth : ∀ a b, x = .ok a → y = .ok b → a.places.Perm b.places ∧ a.bins = b.bins) : SameOutcome x y := by
  cases x with
  | ok a =>
    obtain ⟨b,rfl⟩ := hok.mp ⟨a,rfl⟩
    exact hboth a b rfl rfl
  | error why =>
    cases y with
    | error why' => trivial
    | ok b =>
      obtain ⟨a,ha⟩ := hok.mpr ⟨b,rfl⟩
      exact (Fallible.error_ne_ok ha).elim

section
variable (h : Sound plan) (ho : Once e) (hversion : version plan.places = e.version)
include h ho hversion

theorem goes_iff : editLayout version plan e = .ok out ↔ Accepted plan e ∧ out = leaves plan e := by
  rw [editLayout_iff h ho]
  exact and_iff_right hversion

/-- An edit whose every order is accepted is plain. -/
theorem TakenWhole.plain (ht : TakenWhole version plan e) (ha : Asked plan e) : Plain plan e := by
  obtain ⟨out,hout⟩ := ht.accepted ha
  obtain ⟨haccepted,rfl⟩ := (goes_iff h ho hversion).mp hout
  have hany {e' : LayoutEdit} (he' : Reordered e e') : Accepted plan e' := by
    have hsame := ht.anyOrder e' he'
    rw [hout] at hsame
    cases hleft : editLayout version plan e' with
    | error why =>
      rw [hleft] at hsame
      exact hsame.elim
    | ok left => exact ((goes_iff h (ho.reordered he') (hversion.trans he'.version.symm)).mp hleft).1
  have hkept : ∀ c ∈ e.changed, c.placeId ∈ e.removed → ∀ r ∈ plan.places, r.id = c.placeId →
      asKept (write c r) = asKept r := by
    intro c hc hgone r hr hid
    obtain ⟨more,hmore,hchain⟩ := ht.history _ hout
    have hrecords := hchain r.id
    rw [← List.append_cancel_left hmore,place_records h ho haccepted hr,if_pos (hid ▸ hgone),keptOf_of_mem h.ids hr] at hrecords
    obtain ⟨-,hnot⟩ | ⟨c',hc',hplace,hone⟩ :=
      records_of PlaceChanged.placeId (recordChanged plan.places) (fun _ => rfl) ho.changed r.id
    · exact absurd (hid ▸ List.mem_map_of_mem hc) hnot
    · obtain rfl : c' = c := List.inj_on_of_nodup_map ho.changed hc' hc (hplace.trans hid)
      rw [hone,recordChanged_eq h hr hplace] at hrecords
      exact (Option.some.inj hrecords.2.1).symm
  refine ⟨fun c hc r hr hid q hq hne _ => ?_,fun r hr q hq hgone => ⟨fun hcalled => ?_,fun hin => ?_⟩,?_,haccepted.bins,hkept⟩
  · -- with the change first, every other place is as it was read
    obtain ⟨before,after,hsplit⟩ := List.append_of_mem hc
    have hfirst : Reordered e {e with changed := c :: (before++after)} :=
      ⟨rfl,hsplit ▸ List.perm_middle,.refl _,.refl _,.refl _⟩
    exact (hany hfirst).renames.1 r hr hid q hq hne
  · have hdrawn : written e.changed q ∈ drawn plan e := List.mem_append_left _ (List.mem_map_of_mem hq)
    have hsame : (written e.changed q).called = q.called := by
      by_cases hchanged : q.id ∈ e.changed.map PlaceChanged.placeId
      · obtain ⟨c,hc,hid⟩ := List.mem_map.mp hchanged
        rw [written,OneByOne.written_of_mem ho.changed hc hid.symm]
        exact Prod.ext rfl (congrArg Kept.name (hkept c hc (hid ▸ hgone) q hq hid.symm))
      · rw [written,OneByOne.written_of_not_mem hchanged]
    have heq := List.inj_on_of_nodup_map haccepted.apart.names (List.mem_append_right _ hr) hdrawn (hcalled.trans hsame.symm)
    exact made_fresh haccepted.apart hr hq ((congrArg Row.id heq).trans (written_id q))
  · exact haccepted.inside r hr q.id hin hgone
  · have hids := haccepted.apart.ids
    rw [drawn,List.map_append] at hids
    exact (List.nodup_append.mp hids).2.1

/-- An edit that is plain if what it asks for can be kept is taken as a whole. -/
theorem TakenWhole.of_plain (hplain : Asked plan e → Plain plan e) : TakenWhole version plan e := by
  have hasked {out : Plan} (hout : editLayout version plan e = .ok out) : Accepted plan e ∧ out = leaves plan e :=
    (goes_iff h ho hversion).mp hout
  have haccepted (ha : Asked plan e) : Accepted plan e := (hplain ha).accepted h ho ha
  refine ⟨fun e' he' => ?_,fun ha => ⟨_,(goes_iff h ho hversion).mpr ⟨haccepted ha,rfl⟩⟩,?_,?_,?_,?_,?_,?_,?_⟩
  · have ho' := ho.reordered he'
    have hversion' : version plan.places = e'.version := hversion.trans he'.version.symm
    refine sameOutcome_of ⟨?_,?_⟩ ?_
    · rintro ⟨out,hout⟩
      have ha := (hasked hout).1.asked
      refine ⟨_,(goes_iff h ho' hversion').mpr ⟨?_,rfl⟩⟩
      exact ((hplain ha).reordered he').accepted h ho' (ha.reordered he' ho)
    · rintro ⟨out,hout⟩
      have ha := ((goes_iff h ho' hversion').mp hout).1.asked.reordered he'.symm ho'
      exact ⟨_,(goes_iff h ho hversion).mpr ⟨haccepted ha,rfl⟩⟩
    · intro out out' hout hout'
      obtain ⟨ha,rfl⟩ := hasked hout
      obtain ⟨-,rfl⟩ := (goes_iff h ho' hversion').mp hout'
      exact leaves_reordered he' ho ha
  · intro out hout r hr hchanged hremoved
    obtain ⟨-,rfl⟩ := hasked hout
    have hsame : written e.changed r = r := OneByOne.written_of_not_mem hchanged
    refine mem_without.mpr ⟨List.mem_append_left _ (List.mem_map.mpr ⟨r,hr,hsame⟩),hremoved⟩
  · intro out hout b hb hspot hstill
    obtain ⟨-,rfl⟩ := hasked hout
    have hturned := turned_still ho hstill
    refine List.mem_map.mpr ⟨b,hb,?_⟩
    rw [moved,hturned]
    exact OneByOne.written_of_not_mem hspot
  · intro out hout r hr hturns b hb hin
    obtain ⟨ha,rfl⟩ := hasked hout
    exact List.mem_map.mpr ⟨b,hb,ha.moved_turned h ho hr hturns hb hin⟩
  · intro out hout r hr
    obtain ⟨ha,rfl⟩ := hasked hout
    exact ha.left_spelled h ho hr
  · intro out hout e' out' ho' hout' p hturns hturns' b hb hin
    obtain ⟨ha,rfl⟩ := hasked hout
    obtain ⟨-,ha',rfl⟩ := (editLayout_iff (ha.sound h ho) ho').mp hout'
    exact List.mem_map.mpr ⟨moved plan e b,List.mem_map_of_mem hb,ha.turned_back h ho ho' ha' hturns hturns' hb hin⟩
  · intro out hout
    obtain ⟨ha,rfl⟩ := hasked hout
    exact ⟨records plan e,rfl,records_chain h ho ha (hplain ha.asked).kept⟩
  · intro hrefused
    rw [save]
    cases hleft : editLayout version plan e with
    | error why => rfl
    | ok left => exact absurd hleft (hrefused left)

/-- An edit is taken as a whole exactly when, if what it asks for can be kept, it is plain. -/
theorem takenWhole_iff : TakenWhole version plan e ↔ (Asked plan e → Plain plan e) :=
  ⟨fun ht ha => ht.plain h ho hversion ha,fun hplain => .of_plain h ho hversion hplain⟩

end

/-- Two racks side by side, the first of three bays with a bin at each end. -/
def twoRacks : Plan :=
  ⟨[⟨1,none,"A1",true,⟨0,0,0,2,1,2,0⟩,none,{Grid.single with bays := 3},some "R-{bay}",1⟩,
      made 2 none "A2" true ⟨3,0,0,2,1,2,0⟩],
    [⟨10,"R-1",true,some (1,⟨1,1,1,1,1⟩)⟩,⟨11,"R-3",true,some (1,⟨3,1,1,1,1⟩)⟩],[]⟩

/-- What the two racks are called, and which end the first is numbered from, changed. -/
def callRacks (first second : String) (fromRight : Option Bool) : LayoutEdit :=
  ⟨"1",[⟨1,first,true,⟨0,0,0,2,1,2,0⟩,fromRight⟩,⟨2,second,true,⟨3,0,0,2,1,2,0⟩,none⟩],[],[],[]⟩

theorem once_callRacks (first second : String) (fromRight : Option Bool) : Once (callRacks first second fromRight) :=
  ⟨by simp [callRacks],List.nodup_nil,List.nodup_nil,List.nodup_nil⟩

/-- The first rack's pattern, parsed. -/
def rackPattern : Pattern := ⟨[.text "R-".toList,.field .bay .plain]⟩

theorem parse_rack : Pattern.parse "R-{bay}".toList = .ok rackPattern := by decide +kernel

theorem sound_twoRacks : Sound twoRacks := by
  refine ⟨by decide,by decide,?_,⟨fun _ => 0,?_⟩,⟨by decide,by decide,by decide⟩,by decide,?_⟩
  · intro p hp q hq
    simp only [twoRacks,List.mem_cons,List.not_mem_nil,or_false] at hp
    rcases hp with rfl | rfl <;> cases hq
  · intro p hp q hq
    simp only [twoRacks,List.mem_cons,List.not_mem_nil,or_false] at hp
    rcases hp with rfl | rfl <;> cases hq
  · intro p hp b hb cell hcell s hs pattern hpattern
    simp only [twoRacks,List.mem_cons,List.not_mem_nil,or_false] at hp hb
    rcases hp with rfl | rfl
    · cases hs
      obtain rfl : rackPattern = pattern := Except.ok.inj (parse_rack.symm.trans hpattern)
      rcases hb with rfl | rfl <;> cases hcell <;> decide +kernel
    · cases hs

/-- Numbered from its other end, the first rack's pattern names both its bins. -/
theorem renumbers_rack : ∀ r ∈ twoRacks.places, r.id = 1 → Renumbers twoRacks.bins r := by
  intro r hr hid
  simp only [twoRacks,List.mem_cons,List.not_mem_nil,or_false] at hr
  rcases hr with rfl | rfl
  · refine Or.inr ⟨_,rackPattern,[(⟨1,1,1,1,1⟩,"R-3".toList),(⟨2,1,1,1,1⟩,"R-2".toList),(⟨3,1,1,1,1⟩,"R-1".toList)],rfl,
      parse_rack,by decide +kernel,by decide +kernel⟩
  · cases hid

theorem allowed_callRacks {first second : String} {fromRight : Option Bool} (hfirst : trimmed first ≠ "")
    (hsecond : trimmed second ≠ "") : Allowed twoRacks (callRacks first second fromRight) := by
  have hrack {c : PlaceChanged} {was : Row} (hname : trimmed c.name ≠ "") (hsized : Sized c.box) (hbare : was.outline = none)
      (hone : was.grid.sides = 1) (hend : endOf c was ≠ was.grid.fromRight → Renumbers twoRacks.bins was) :
      ChangeAllowed twoRacks.bins c was := by
    refine ⟨hname,hsized,fun hout => absurd hbare hout,fun hsides => ?_,hend⟩
    rw [hone] at hsides
    cases hsides
  refine ⟨fun c hc => ?_,fun a ha => absurd ha List.not_mem_nil,fun s hs => absurd hs List.not_mem_nil,
    fun id hid => absurd hid List.not_mem_nil⟩
  simp only [callRacks,List.mem_cons,List.not_mem_nil,or_false] at hc
  rcases hc with rfl | rfl
  · exact ⟨_,rfl,hrack hfirst (by norm_num [Sized]) rfl rfl fun _ => renumbers_rack _ List.mem_cons_self rfl⟩
  · exact ⟨_,rfl,hrack hsecond (by norm_num [Sized]) rfl rfl fun hturn => absurd rfl hturn⟩

/-- Two racks trade names: what is asked for can be kept, and it is refused. -/
theorem not_takenWhole_trade : Sound twoRacks ∧ Once (callRacks "A2" "A1" none) ∧
    Asked twoRacks (callRacks "A2" "A1" none) ∧ ¬TakenWhole (fun _ => "1") twoRacks (callRacks "A2" "A1" none) := by
  have ho := once_callRacks "A2" "A1" none
  have hasked : Asked twoRacks (callRacks "A2" "A1" none) :=
    ⟨allowed_callRacks (by decide) (by decide),fun r hr => absurd hr List.not_mem_nil,by decide⟩
  refine ⟨sound_twoRacks,ho,hasked,fun ht => ?_⟩
  obtain ⟨out,hout⟩ := ht.accepted hasked
  have hfree := ((editLayout_iff sound_twoRacks ho).mp hout).2.1.renames.1
  exact hfree _ List.mem_cons_self rfl _ (List.mem_cons_of_mem _ List.mem_cons_self) (by decide) (by decide)

/-- Each called by a name no rack had, and the first numbered from its other end, the edit is
taken as a whole. -/
theorem takenWhole_callRacks : TakenWhole (fun _ => "1") twoRacks (callRacks "B1" "B2" (some true)) := by
  refine (takenWhole_iff sound_twoRacks (once_callRacks "B1" "B2" (some true)) rfl).mpr fun _ =>
    ⟨?_,fun r hr => absurd hr List.not_mem_nil,List.nodup_nil,List.nodup_nil,fun c _ hgone => absurd hgone List.not_mem_nil⟩
  intro c hc r hr _ q hq _ _
  have hnames : ∀ c ∈ (callRacks "B1" "B2" (some true)).changed, ∀ q ∈ twoRacks.places, q.name ≠ trimmed c.name := by
    decide
  exact fun hcalled => hnames c hc q hq (congrArg Prod.snd hcalled)

end Edit
end Layout
end Spork
