import Spork.Refile.FileAgain

/-! What a card's copy adds and what it leaves: the events, figures and photographs there
were stay as they were, and each mirror leads where the event it mirrors does. -/
namespace Spork
namespace Refile

/-- Ids drawn once, and the foreign keys of the tables. -/
structure Log.Sound (g : Log) : Prop where
  eventIds : (g.events.map Event.id).Nodup
  figureIds : (g.figures.map Figure.id).Nodup
  eventsDrawn : ∀ e ∈ g.events, e.id < g.drawn
  figuresDrawn : ∀ o ∈ g.figures, o.id < g.drawn
  eventActs : ∀ e ∈ g.events, e.act ∈ g.acts
  derived : ∀ e ∈ g.events, ∀ s ∈ e.derivedFrom, s < g.drawn
  figureEvent : ∀ o ∈ g.figures, ∃ e ∈ g.events, e.id = o.event ∧ e.observable = o.observable ∧
    e.observedAt = o.observedAt
  imageEvent : ∀ i ∈ g.images, ∃ e ∈ g.events, e.id = i.event
  retracts : ∀ o ∈ g.figures, ∀ s ∈ o.retracts, s < g.drawn
  corrects : ∀ o ∈ g.figures, ∀ s ∈ o.corrects, s < g.drawn
  moved : ∀ m ∈ g.moves, m.image < g.drawn

theorem Log.Sound.event_unique {g : Log} (h : g.Sound) {e d : Event} (he : e ∈ g.events) (hd : d ∈ g.events)
    (hid : e.id = d.id) : e = d := List.inj_on_of_nodup_map h.eventIds he hd hid

theorem Log.Sound.figure_unique {g : Log} (h : g.Sound) {o p : Figure} (ho : o ∈ g.figures) (hp : p ∈ g.figures)
    (hid : o.id = p.id) : o = p := List.inj_on_of_nodup_map h.figureIds ho hp hid

theorem SameRecords.sound {g g' : Log} (h : SameRecords g g') (hg : g.Sound) : g'.Sound := by
  obtain ⟨-,hevents,hfigures,-,himages,-,hmoves,hdrawn,hacts⟩ := h
  constructor
  · exact hevents ▸ hg.eventIds
  · exact hfigures ▸ hg.figureIds
  · rw [hevents]
    exact fun e he => (hg.eventsDrawn e he).trans_le hdrawn
  · rw [hfigures]
    exact fun o ho => (hg.figuresDrawn o ho).trans_le hdrawn
  · rw [hevents]
    exact fun e he => hacts _ (hg.eventActs e he)
  · rw [hevents]
    exact fun e he s hs => (hg.derived e he s hs).trans_le hdrawn
  · rw [hevents,hfigures]
    exact hg.figureEvent
  · rw [hevents,himages]
    exact hg.imageEvent
  · rw [hfigures]
    exact fun o ho s hs => (hg.retracts o ho s hs).trans_le hdrawn
  · rw [hfigures]
    exact fun o ho s hs => (hg.corrects o ho s hs).trans_le hdrawn
  · rw [hmoves]
    exact fun m hm => (hg.moved m hm).trans_le hdrawn

/-! ## Mirrors and copies -/

variable {g : Log} {r : Refiling}

@[simp] theorem length_mirrors : (g.mirrors r).length = (g.sources r).length := length_numbered

theorem mem_mirrors_iff {m : Event} : m ∈ g.mirrors r ↔
    ∃ i, ∃ h : i < (g.sources r).length, m = g.mirror r (g.drawn+i) (g.sources r)[i] := mem_numbered_iff

/-- A mirror, and the event it mirrors. -/
theorem mirror_source {m : Event} (h : m ∈ g.mirrors r) : ∃ e ∈ g.sources r, m.derivedFrom = some e.id := by
  obtain ⟨i,hi,rfl⟩ := mem_mirrors_iff.mp h
  exact ⟨_,List.getElem_mem hi,rfl⟩

theorem mirror_of_source {e : Event} (h : e ∈ g.sources r) : ∃ m ∈ g.mirrors r, m.derivedFrom = some e.id := by
  obtain ⟨i,hi,rfl⟩ := List.mem_iff_getElem.mp h
  exact ⟨_,mem_mirrors_iff.mpr ⟨i,hi,rfl⟩,rfl⟩

theorem mirror_facts {m : Event} (h : m ∈ g.mirrors r) :
    m.observable = r.target ∧ m.act = r.ev.act ∧ g.drawn ≤ m.id ∧ m.id < g.drawn+(g.mirrors r).length := by
  obtain ⟨i,hi,rfl⟩ := mem_mirrors_iff.mp h
  refine ⟨rfl,rfl,Nat.le_add_right _ i,?_⟩
  rw [length_mirrors]
  exact Nat.add_lt_add_left hi g.drawn

theorem mirrors_nodup : ((g.mirrors r).map Event.id).Nodup := by
  rw [Log.mirrors,map_numbered fun _ _ => rfl]
  exact List.nodup_range'

theorem source_facts {e : Event} (h : e ∈ g.sources r) :
    e ∈ g.events ∧ e.observable.OnCard r.fromItem r.was ∧ g.Showing e := by
  obtain ⟨he,hall⟩ := List.mem_filter.mp h
  obtain ⟨hcard,hshow,-⟩ := of_decide_eq_true hall
  exact ⟨he,hcard,hshow⟩

/-- Where each event is mirrored once, a mirror is told by what it mirrors. -/
theorem mirror_unique (hg : g.Sound) {m m' : Event} (hm : m ∈ g.mirrors r) (hm' : m' ∈ g.mirrors r)
    (h : m.derivedFrom = m'.derivedFrom) : m = m' := by
  obtain ⟨i,hi,rfl⟩ := mem_mirrors_iff.mp hm
  obtain ⟨j,hj,rfl⟩ := mem_mirrors_iff.mp hm'
  have hnodup : (g.sources r).Nodup := hg.eventIds.of_map.filter _
  have hsource : (g.sources r)[i] = (g.sources r)[j] :=
    hg.event_unique (source_facts (List.getElem_mem hi)).1 (source_facts (List.getElem_mem hj)).1 (Option.some.inj h)
  obtain rfl : i = j := hnodup.getElem_inj_iff.mp hsource
  rfl

theorem mirror_observedAt (hg : g.Sound) {e m : Event} (he : e ∈ g.events) (hm : m ∈ g.mirrors r)
    (h : m.derivedFrom = some e.id) : m.observedAt = e.observedAt := by
  obtain ⟨i,hi,rfl⟩ := mem_mirrors_iff.mp hm
  rw [← hg.event_unique (source_facts (List.getElem_mem hi)).1 he (Option.some.inj h)]
  rfl

/-- The log with its mirrors. -/
abbrev Log.mirrored (g : Log) (r : Refiling) : Log := g.putEvents (g.mirrors r)

theorem mirrored_ids (hg : g.Sound) : ((g.mirrored r).events.map Event.id).Nodup := by
  change ((g.events++g.mirrors r).map Event.id).Nodup
  rw [List.map_append,List.nodup_append]
  refine ⟨hg.eventIds,mirrors_nodup,fun a ha b hb heq => ?_⟩
  obtain ⟨e,he,rfl⟩ := List.mem_map.mp ha
  obtain ⟨m,hm,rfl⟩ := List.mem_map.mp hb
  have hold := hg.eventsDrawn e he
  exact (hold.trans_le (mirror_facts hm).2.2.1).ne heq

theorem mem_toCopy_iff {p : Figure × Event} : p ∈ g.toCopy r ↔
    p.1 ∈ g.figures ∧ p.2 ∈ g.events ∧ g.Live p.1 ∧ p.2.derivedFrom = some p.1.event ∧ p.2.act = r.ev.act ∧
      p.2.observable = r.target := by
  obtain ⟨o,m⟩ := p
  simp only [Log.toCopy,List.mem_flatMap,List.mem_map,List.mem_filter,decide_eq_true_eq,Prod.mk.injEq]
  constructor
  · rintro ⟨o,ho,m,⟨hm,hall⟩,rfl,rfl⟩
    exact ⟨ho,hm,hall⟩
  · rintro ⟨ho,hm,hall⟩
    exact ⟨o,ho,m,⟨hm,hall⟩,rfl,rfl⟩

theorem nodup_toCopy (hfigures : g.figures.Nodup) (hevents : g.events.Nodup) : (g.toCopy r).Nodup := by
  refine List.nodup_flatMap.mpr ⟨fun o _ => ?_,?_⟩
  · exact (hevents.filter _).map fun m m' h => (Prod.mk.inj h).2
  · refine hfigures.imp fun hne p hp hq => hne ?_
    obtain ⟨m,-,rfl⟩ := List.mem_map.mp hp
    obtain ⟨m',-,heq⟩ := List.mem_map.mp hq
    exact (Prod.mk.inj heq).1.symm

/-- Nothing of the act is on the card it files on yet. -/
def Log.Untouched (g : Log) (r : Refiling) : Prop := ∀ e ∈ g.events, e.act = r.ev.act → e.observable ≠ r.target

theorem mem_toCopy_mirrored_iff (h : g.Untouched r) {p : Figure × Event} : p ∈ (g.mirrored r).toCopy r ↔
    p.1 ∈ g.figures ∧ g.Live p.1 ∧ p.2 ∈ g.mirrors r ∧ p.2.derivedFrom = some p.1.event := by
  rw [mem_toCopy_iff]
  constructor
  · rintro ⟨ho,hm,hlive,hfrom,hact,htarget⟩
    rcases List.mem_append.mp hm with hold | hnew
    · exact absurd htarget (h _ hold hact)
    · exact ⟨ho,hlive,hnew,hfrom⟩
  · rintro ⟨ho,hlive,hm,hfrom⟩
    obtain ⟨htarget,hact,-⟩ := mirror_facts hm
    exact ⟨ho,List.mem_append_right _ hm,hlive,hfrom,hact,htarget⟩

/-- A copy, the figure it copies and the mirror it is in. -/
structure CopyIn (g : Log) (r : Refiling) (o : Figure) (m : Event) (o' : Figure) : Prop where
  mem : o ∈ g.figures
  live : g.Live o
  mirror : m ∈ g.mirrors r
  derived : m.derivedFrom = some o.event
  drawn : g.drawn ≤ o'.id
  copy : o' = copyInto o'.id (o,m)

theorem mem_copies (h : g.Untouched r) {o' : Figure} (ho' : o' ∈ (g.mirrored r).copies r) :
    ∃ o m, CopyIn g r o m o' := by
  obtain ⟨i,hi,rfl⟩ := mem_numbered_iff.mp ho'
  obtain ⟨ho,hlive,hm,hfrom⟩ := (mem_toCopy_mirrored_iff h).mp (List.getElem_mem hi)
  refine ⟨_,_,ho,hlive,hm,hfrom,?_,rfl⟩
  exact le_trans (Nat.le_add_right g.drawn _) (Nat.le_add_right _ i)

theorem copy_of_live (h : g.Untouched r) {o : Figure} {m : Event} (ho : o ∈ g.figures) (hlive : g.Live o)
    (hm : m ∈ g.mirrors r) (hfrom : m.derivedFrom = some o.event) :
    ∃ o' ∈ (g.mirrored r).copies r, CopyIn g r o m o' := by
  have hp : (o,m) ∈ (g.mirrored r).toCopy r := (mem_toCopy_mirrored_iff h).mpr ⟨ho,hlive,hm,hfrom⟩
  obtain ⟨i,hi,heq⟩ := List.mem_iff_getElem.mp hp
  refine ⟨_,mem_numbered_iff.mpr ⟨i,hi,rfl⟩,ho,hlive,hm,hfrom,?_,by rw [heq]; rfl⟩
  exact le_trans (Nat.le_add_right g.drawn _) (Nat.le_add_right _ i)

/-- A figure is copied once into a mirror. -/
theorem copy_unique (hg : g.Sound) (h : g.Untouched r) {p q : Figure} (hp : p ∈ (g.mirrored r).copies r)
    (hq : q ∈ (g.mirrored r).copies r) (hevent : p.event = q.event) (hfrom : p.copiedFrom = q.copiedFrom) : p = q := by
  obtain ⟨i,hi,rfl⟩ := mem_numbered_iff.mp hp
  obtain ⟨j,hj,rfl⟩ := mem_numbered_iff.mp hq
  have hids := mirrored_ids (r := r) hg
  have hnodup : ((g.mirrored r).toCopy r).Nodup := nodup_toCopy hg.figureIds.of_map hids.of_map
  obtain ⟨ho,-,hm,-⟩ := (mem_toCopy_mirrored_iff h).mp (List.getElem_mem hi)
  obtain ⟨ho',-,hm',-⟩ := (mem_toCopy_mirrored_iff h).mp (List.getElem_mem hj)
  have hfigure := hg.figure_unique ho ho' (Option.some.inj hfrom)
  have hmirror := List.inj_on_of_nodup_map mirrors_nodup hm hm' hevent
  obtain rfl : i = j := hnodup.getElem_inj_iff.mp (Prod.ext hfigure hmirror)
  rfl

theorem copies_nodup : (((g.mirrored r).copies r).map Figure.id).Nodup := by
  rw [Log.copies,map_numbered fun _ _ => rfl]
  exact List.nodup_range'

/-! ## Photographs filed again -/

/-- The mirror a photograph is filed in. -/
def mirrorOf (mirrored : List Event) (i : Image) : Option Event := mirrored.find? fun m => m.derivedFrom = some i.event

/-- What filing photographs in their mirrors adds, so many of them, and what it leaves. -/
structure PhotosFiled (mirrored : List Event) (images : List Image) (g g' : Log) (n : ℕ) : Prop where
  items : g'.items = g.items
  packs : g'.packs = g.packs
  events : g'.events = g.events
  figures : g'.figures = g.figures
  moves : g'.moves = g.moves
  drawn : g.drawn ≤ g'.drawn
  acts : ∀ a ∈ g.acts, a ∈ g'.acts
  images : ∃ new, g'.images = g.images++new ∧ new.length = n ∧
    (∀ i ∈ new, g.drawn ≤ i.id ∧ ∃ m ∈ mirrored, i.event = m.id) ∧
    ∀ i ∈ images, ∀ m ∈ mirrorOf mirrored i, ∃ j ∈ new, j.event = m.id

theorem PhotosFiled.none (mirrored : List Event) (g : Log) : PhotosFiled mirrored [] g g 0 :=
  ⟨rfl,rfl,rfl,rfl,rfl,le_rfl,fun _ h => h,[],by simp,rfl,by simp,by simp⟩

theorem PhotosFiled.trans {mirrored : List Event} {xs ys : List Image} {g g' g'' : Log} {n k : ℕ}
    (h : PhotosFiled mirrored xs g g' n) (h' : PhotosFiled mirrored ys g' g'' k) :
    PhotosFiled mirrored (xs++ys) g g'' (n+k) where
  items := h'.items.trans h.items
  packs := h'.packs.trans h.packs
  events := h'.events.trans h.events
  figures := h'.figures.trans h.figures
  moves := h'.moves.trans h.moves
  drawn := h.drawn.trans h'.drawn
  acts a ha := h'.acts a (h.acts a ha)
  images := by
    obtain ⟨new,himages,hlength,hnew,hall⟩ := h.images
    obtain ⟨new',himages',hlength',hnew',hall'⟩ := h'.images
    refine ⟨new++new',by rw [himages',himages,List.append_assoc],by simp [hlength,hlength'],?_,?_⟩
    · intro i hi
      rcases List.mem_append.mp hi with hi | hi
      · exact hnew i hi
      · obtain ⟨hdrawn,hm⟩ := hnew' i hi
        exact ⟨h.drawn.trans hdrawn,hm⟩
    · intro i hi m hm
      rcases List.mem_append.mp hi with hi | hi
      · obtain ⟨j,hj,heq⟩ := hall i hi m hm
        exact ⟨j,List.mem_append_left _ hj,heq⟩
      · obtain ⟨j,hj,heq⟩ := hall' i hi m hm
        exact ⟨j,List.mem_append_right _ hj,heq⟩

variable (rank : Uuid → ℕ)

theorem claimed_acts (g : Log) (act a : Act) (ha : a ∈ g.acts) : a ∈ (g.claimed act).acts := by
  unfold Log.claimed Log.claim
  split_ifs
  · exact ha
  · exact List.mem_append_left _ ha

theorem claimed_eq (g : Log) (act : Act) : g.claimed act = {g with acts := (g.claimed act).acts} := by
  unfold Log.claimed Log.claim
  split_ifs <;> rfl

/-- A cut put on again is all that is added. -/
theorem cutAgain_eq (g : Log) (r : Refiling) (old new : Uuid) :
    ∃ acts cuts drawn, g.cutAgain rank r old new = {g with acts := acts, cuts := cuts, drawn := drawn} ∧
      g.drawn ≤ drawn ∧ ∀ a ∈ g.acts, a ∈ acts := by
  unfold Log.cutAgain
  split
  · exact ⟨g.acts,g.cuts,g.drawn,rfl,le_rfl,fun _ h => h⟩
  · dsimp only
    rw [claimed_eq]
    exact ⟨_,_,_,rfl,Nat.le_succ g.drawn,fun a ha => claimed_acts g _ a ha⟩

theorem fileImage_copied (hcopy : r.filing = .copy) (mirrored : List Event) (st : Log × Filed) (i : Image) :
    ∃ n, PhotosFiled mirrored [i] st.1 (fileImage rank r mirrored st i).1 n ∧
      (fileImage rank r mirrored st i).2.length = st.2.length+n := by
  have hnot : r.filing ≠ .move := by rw [hcopy]; decide
  cases hm : mirrorOf mirrored i with
  | none =>
    have hsame : fileImage rank r mirrored st i = st := by
      unfold mirrorOf at hm
      rw [fileImage,hm]
    rw [hsame]
    exact ⟨0,⟨rfl,rfl,rfl,rfl,rfl,le_rfl,fun _ h => h,[],by simp,rfl,by simp,by simp [hm]⟩,rfl⟩
  | some m =>
    have hput : ∃ j : Image, ∃ k, j.id = st.1.drawn ∧ j.event = m.id ∧ fileImage rank r mirrored st i =
        ((st.1.putImage j).cutAgain rank r i.id st.1.drawn,k :: st.2) := by
      unfold mirrorOf at hm
      refine ⟨⟨st.1.drawn,m.id,i.face,i.digest,i.capturedAt,i.sameAs.map fun s => (st.2.get s).getD s⟩,
        (i.id,st.1.drawn),rfl,rfl,?_⟩
      rw [fileImage,hm]
      simp only [if_neg hnot]
    obtain ⟨j,k,hid,hevent,heq⟩ := hput
    obtain ⟨acts,cuts,drawn,hcut,hdrawn,hacts⟩ := cutAgain_eq rank (st.1.putImage j) r i.id st.1.drawn
    rw [heq,hcut]
    refine ⟨1,⟨rfl,rfl,rfl,rfl,rfl,(Nat.le_succ _).trans hdrawn,hacts,[j],rfl,rfl,?_,?_⟩,rfl⟩
    · intro n hn
      rw [List.mem_singleton.mp hn]
      exact ⟨hid.ge,m,List.mem_of_find?_eq_some hm,hevent⟩
    · intro n hn m' hm'
      rw [List.mem_singleton.mp hn,hm] at hm'
      cases hm'
      exact ⟨j,List.mem_singleton_self j,hevent⟩

theorem fileImages_copied (hcopy : r.filing = .copy) (mirrored : List Event) (images : List Image) (st : Log × Filed) :
    ∃ n, PhotosFiled mirrored images st.1 (images.foldl (fileImage rank r mirrored) st).1 n ∧
      (images.foldl (fileImage rank r mirrored) st).2.length = st.2.length+n := by
  induction images generalizing st with
  | nil => exact ⟨0,PhotosFiled.none mirrored st.1,rfl⟩
  | cons i images ih =>
    obtain ⟨n,hone,hlength⟩ := fileImage_copied rank hcopy mirrored st i
    obtain ⟨k,hrest,hlength'⟩ := ih (fileImage rank r mirrored st i)
    refine ⟨n+k,hone.trans hrest,?_⟩
    rw [List.foldl_cons,hlength',hlength,Nat.add_assoc]

/-! ## A card copied -/

/-- What copying a card adds, and what it leaves. -/
structure Copied (r : Refiling) (g g' : Log) (n : Counted) : Prop where
  items : g'.items = g.items
  packs : g'.packs = g.packs
  moves : g'.moves = g.moves
  acts : ∀ a ∈ g.acts, a ∈ g'.acts
  drawn : (g.mirrored r).drawn+((g.mirrored r).copies r).length ≤ g'.drawn
  events : g'.events = g.events++g.mirrors r
  figures : g'.figures = g.figures++(g.mirrored r).copies r
  images : ∃ new, g'.images = g.images++new ∧ new.length = n.photos ∧
    (∀ i ∈ new, g.drawn ≤ i.id ∧ ∃ m ∈ g.mirrors r, i.event = m.id) ∧
    ∀ i ∈ g.images, g.Unmoved i → ∀ m ∈ g.mirrors r, m.derivedFrom = some i.event → ∃ j ∈ new, j.event = m.id
  counted : n.figures = ((g.mirrored r).copies r).length

theorem mem_inOrder_iff {item : Uuid} {level : Level} {i : Image} : i ∈ inOrder rank g item level ↔
    i ∈ g.images ∧ g.Unmoved i ∧ ∃ e ∈ g.events, e.id = i.event ∧ e.observable.OnCard item level := by
  simp only [inOrder,List.mem_insertionSort,Log.unmovedOn,List.mem_map,List.mem_flatMap,List.mem_filter,decide_eq_true_eq]
  constructor
  · rintro ⟨p,⟨j,hj,e,⟨he,hevent,hcard,hunmoved⟩,rfl⟩,rfl⟩
    exact ⟨hj,hunmoved,e,he,hevent,hcard⟩
  · rintro ⟨hi,hunmoved,e,he,hevent,hcard⟩
    exact ⟨(i,e),⟨i,hi,e,⟨he,hevent,hcard,hunmoved⟩,rfl⟩,rfl⟩

/-- The mirror of a photograph's event is the one it is filed in. -/
theorem mirrorOf_eq_some (hg : g.Sound) {m : Event} {i : Image} (hm : m ∈ g.mirrors r)
    (h : m.derivedFrom = some i.event) : mirrorOf (g.mirrors r) i = some m := by
  cases hfind : mirrorOf (g.mirrors r) i with
  | none => exact absurd h (by simpa using List.find?_eq_none.mp hfind m hm)
  | some m' =>
    have hm' : m' ∈ g.mirrors r := List.mem_of_find?_eq_some hfind
    have h' : m'.derivedFrom = some i.event := by simpa using List.find?_some hfind
    rw [mirror_unique hg hm' hm (h'.trans h.symm)]

theorem fileAgain_copied (hg : g.Sound) (hcopy : r.filing = .copy) :
    Copied r g (fileAgain rank g r).1 (fileAgain rank g r).2 := by
  have hnot : r.filing ≠ .move := by rw [hcopy]; decide
  have hfile : fileAgain rank g r =
      (let h := (g.mirrored r).putFigures ((g.mirrored r).copies r)
       let out := (inOrder rank h r.fromItem r.was).foldl (fileImage rank r (g.mirrors r)) (h,[])
       (out.1,⟨((g.mirrored r).copies r).length,out.2.length⟩)) := by
    rw [fileAgain]
    simp only [if_neg hnot]
  obtain ⟨n,hphotos,hlength⟩ := fileImages_copied rank hcopy (g.mirrors r)
    (inOrder rank ((g.mirrored r).putFigures ((g.mirrored r).copies r)) r.fromItem r.was)
    ((g.mirrored r).putFigures ((g.mirrored r).copies r),[])
  obtain ⟨new,himages,hnew,hmirrors,hall⟩ := hphotos.images
  rw [hfile]
  refine ⟨hphotos.items,hphotos.packs,hphotos.moves,hphotos.acts,hphotos.drawn,hphotos.events,hphotos.figures,⟨new,himages,?_,?_,?_⟩,rfl⟩
  · rw [hnew]
    simpa using hlength.symm
  · intro i hi
    obtain ⟨hdrawn,hm⟩ := hmirrors i hi
    exact ⟨le_trans (Nat.le_add_right _ _) (le_trans (Nat.le_add_right _ _) hdrawn),hm⟩
  · intro i hi hunmoved m hm hfrom
    obtain ⟨e,he,hid⟩ := mirror_source hm
    obtain ⟨hmem,hcard,-⟩ := source_facts he
    refine hall i ((mem_inOrder_iff rank).mpr ⟨hi,hunmoved,e,List.mem_append_left _ hmem,?_,hcard⟩) m (mirrorOf_eq_some hg hm hfrom)
    exact Option.some.inj (hid.symm.trans hfrom)

namespace Copied

variable {g' : Log} {n : Counted} (h : Copied r g g' n) (hg : g.Sound) (hnew : g.Untouched r)
include h

theorem mem_events {e : Event} (he : e ∈ g.events) : e ∈ g'.events := by
  rw [h.events]
  exact List.mem_append_left _ he

theorem mem_figures {o : Figure} (ho : o ∈ g.figures) : o ∈ g'.figures := by
  rw [h.figures]
  exact List.mem_append_left _ ho

theorem drawn_le : g.drawn ≤ g'.drawn :=
  le_trans (Nat.le_add_right _ _) (le_trans (Nat.le_add_right _ _) h.drawn)

theorem copy_drawn {o : Figure} (ho : o ∈ (g.mirrored r).copies r) : g.drawn ≤ o.id ∧ o.id < g'.drawn := by
  obtain ⟨i,hi,rfl⟩ := mem_numbered_iff.mp ho
  refine ⟨le_trans (Nat.le_add_right _ _) (Nat.le_add_right _ i),lt_of_lt_of_le ?_ h.drawn⟩
  rw [Log.copies,length_numbered]
  exact Nat.add_lt_add_left hi _

theorem mirror_drawn {m : Event} (hm : m ∈ g.mirrors r) : g.drawn ≤ m.id ∧ m.id < g'.drawn := by
  obtain ⟨-,-,hle,hlt⟩ := mirror_facts hm
  exact ⟨hle,lt_of_lt_of_le hlt (le_trans (Nat.le_add_right _ _) h.drawn)⟩

theorem live_iff (o : Figure) : g'.Live o ↔ g.Live o := by
  have hlink : ∀ c ∈ (g.mirrored r).copies r, c.retracts = none ∧ c.corrects = none := by
    intro c hc
    obtain ⟨i,hi,rfl⟩ := mem_numbered_iff.mp hc
    exact ⟨rfl,rfl⟩
  unfold Log.Live
  rw [h.figures]
  constructor
  · rintro ⟨hnone,hretracts,hcorrects⟩
    exact ⟨hnone,fun c hc => hretracts c (List.mem_append_left _ hc),fun c hc => hcorrects c (List.mem_append_left _ hc)⟩
  · rintro ⟨hnone,hretracts,hcorrects⟩
    refine ⟨hnone,fun c hc => ?_,fun c hc => ?_⟩
    · rcases List.mem_append.mp hc with hc | hc
      · exact hretracts c hc
      · rw [(hlink c hc).1]
        exact (Option.some_ne_none o.id).symm
    · rcases List.mem_append.mp hc with hc | hc
      · exact hcorrects c hc
      · rw [(hlink c hc).2]
        exact (Option.some_ne_none o.id).symm

include hg in
/-- A copy is live. -/
theorem live_copy {o : Figure} (ho : o ∈ (g.mirrored r).copies r) : g'.Live o := by
  rw [h.live_iff]
  have hdrawn := (h.copy_drawn ho).1
  obtain ⟨i,hi,rfl⟩ := mem_numbered_iff.mp ho
  refine ⟨rfl,fun c hc heq => ?_,fun c hc heq => ?_⟩
  · exact absurd (hg.retracts c hc _ heq) (not_lt.mpr hdrawn)
  · exact absurd (hg.corrects c hc _ heq) (not_lt.mpr hdrawn)

theorem unmoved_iff (i : Image) : g'.Unmoved i ↔ g.Unmoved i := by
  unfold Log.Unmoved
  rw [h.moves]

include hg in
theorem unmoved_new {i : Image} (hi : g.drawn ≤ i.id) : g'.Unmoved i := by
  rw [h.unmoved_iff]
  intro m hm heq
  exact absurd (hg.moved m hm) (by rw [heq]; exact not_lt.mpr hi)

include hg in
/-- A mirror is not among the events there were. -/
theorem mirror_apart {e m : Event} (he : e ∈ g.events) (hm : m ∈ g.mirrors r) : m.id ≠ e.id := fun heq =>
  absurd (hg.eventsDrawn e he) (by rw [← heq]; exact not_lt.mpr (h.mirror_drawn hm).1)

include hg hnew in
/-- An event there was has on it what it had. -/
theorem showing_iff {e : Event} (he : e ∈ g.events) : g'.Showing e ↔ g.Showing e := by
  obtain ⟨new,himages,-,hmirrors,-⟩ := h.images
  constructor
  · rintro (⟨o,ho,hevent,hlive⟩ | ⟨i,hi,hevent,hunmoved⟩)
    · rw [h.figures] at ho
      rcases List.mem_append.mp ho with ho | ho
      · exact Or.inl ⟨o,ho,hevent,(h.live_iff o).mp hlive⟩
      · obtain ⟨p,m,hcopy⟩ := mem_copies hnew ho
        refine absurd ?_ (h.mirror_apart hg he hcopy.mirror)
        rw [← hevent,hcopy.copy]
        rfl
    · rw [himages] at hi
      rcases List.mem_append.mp hi with hi | hi
      · exact Or.inr ⟨i,hi,hevent,(h.unmoved_iff i).mp hunmoved⟩
      · obtain ⟨-,m,hm,heq⟩ := hmirrors i hi
        exact absurd (heq.symm.trans hevent) (h.mirror_apart hg he hm)
  · rintro (⟨o,ho,hevent,hlive⟩ | ⟨i,hi,hevent,hunmoved⟩)
    · exact Or.inl ⟨o,h.mem_figures ho,hevent,(h.live_iff o).mpr hlive⟩
    · refine Or.inr ⟨i,?_,hevent,(h.unmoved_iff i).mpr hunmoved⟩
      rw [himages]
      exact List.mem_append_left _ hi

include hg hnew in
/-- A mirror has on it what it mirrors. -/
theorem mirror_showing {m : Event} (hm : m ∈ g.mirrors r) : g'.Showing m := by
  obtain ⟨new,himages,-,hmirrors,hall⟩ := h.images
  obtain ⟨e,he,hfrom⟩ := mirror_source hm
  rcases (source_facts he).2.2 with ⟨o,ho,hevent,hlive⟩ | ⟨i,hi,hevent,hunmoved⟩
  · obtain ⟨o',ho',hcopy⟩ := copy_of_live hnew ho hlive hm (by rw [hfrom,hevent])
    refine Or.inl ⟨o',?_,by rw [hcopy.copy]; rfl,h.live_copy hg ho'⟩
    rw [h.figures]
    exact List.mem_append_right _ ho'
  · obtain ⟨j,hj,hin⟩ := hall i hi hunmoved m hm (by rw [hfrom,hevent])
    refine Or.inr ⟨j,?_,hin,h.unmoved_new hg (hmirrors j hj).1⟩
    rw [himages]
    exact List.mem_append_right _ hj

include hg in
theorem firstEvent_eq {e : Event} (he : e ∈ g.events) : g'.firstEvent e.id = g.firstEvent e.id := by
  rw [Log.firstEvent,h.events]
  exact Origin.origin_append_of_apart fun m hm => h.mirror_apart hg he hm

include hg in
/-- A mirror leads where what it mirrors does. -/
theorem firstEvent_mirror {e m : Event} (he : e ∈ g.events) (hm : m ∈ g.mirrors r) (hfrom : m.derivedFrom = some e.id) :
    g'.firstEvent m.id = g.firstEvent e.id := by
  rw [Log.firstEvent,h.events]
  exact Origin.origin_append_linked mirrors_nodup hm hfrom fun q hq => h.mirror_apart hg he hq

include hg in
theorem recorded_eq {o : Figure} (ho : o ∈ g.figures) : g'.recorded o.id = g.recorded o.id := by
  rw [Log.recorded,h.figures]
  refine Origin.origin_append_of_apart fun c hc heq => ?_
  exact absurd (hg.figuresDrawn o ho) (by rw [← heq]; exact not_lt.mpr (h.copy_drawn hc).1)

include hg in
/-- A copy is of the figure recorded that what it copies is. -/
theorem recorded_copy {o o' : Figure} (ho : o ∈ g.figures) (ho' : o' ∈ (g.mirrored r).copies r)
    (hfrom : o'.copiedFrom = some o.id) : g'.recorded o'.id = g.recorded o.id := by
  rw [Log.recorded,h.figures]
  refine Origin.origin_append_linked copies_nodup ho' hfrom fun c hc heq => ?_
  exact absurd (hg.figuresDrawn o ho) (by rw [← heq]; exact not_lt.mpr (h.copy_drawn hc).1)

theorem mem_events_iff {e : Event} : e ∈ g'.events ↔ e ∈ g.events ∨ e ∈ g.mirrors r := by
  rw [h.events,List.mem_append]

theorem mem_figures_iff {o : Figure} : o ∈ g'.figures ↔ o ∈ g.figures ∨ o ∈ (g.mirrored r).copies r := by
  rw [h.figures,List.mem_append]

include hg hnew in
theorem sound (hact : r.ev.act ∈ g.acts) : g'.Sound where
  eventIds := by
    rw [h.events]
    exact mirrored_ids hg
  figureIds := by
    rw [h.figures,List.map_append,List.nodup_append]
    refine ⟨hg.figureIds,copies_nodup,fun a ha b hb heq => ?_⟩
    obtain ⟨o,ho,rfl⟩ := List.mem_map.mp ha
    obtain ⟨c,hc,rfl⟩ := List.mem_map.mp hb
    exact ((hg.figuresDrawn o ho).trans_le (h.copy_drawn hc).1).ne heq
  eventsDrawn e he := by
    rcases h.mem_events_iff.mp he with he | he
    · exact (hg.eventsDrawn e he).trans_le h.drawn_le
    · exact (h.mirror_drawn he).2
  figuresDrawn o ho := by
    rcases h.mem_figures_iff.mp ho with ho | ho
    · exact (hg.figuresDrawn o ho).trans_le h.drawn_le
    · exact (h.copy_drawn ho).2
  eventActs e he := by
    rcases h.mem_events_iff.mp he with he | he
    · exact h.acts _ (hg.eventActs e he)
    · rw [(mirror_facts he).2.1]
      exact h.acts _ hact
  derived e he s hs := by
    rcases h.mem_events_iff.mp he with he | he
    · exact (hg.derived e he s hs).trans_le h.drawn_le
    · obtain ⟨d,hd,hfrom⟩ := mirror_source he
      rw [hfrom] at hs
      cases hs
      exact (hg.eventsDrawn d (source_facts hd).1).trans_le h.drawn_le
  figureEvent o ho := by
    rcases h.mem_figures_iff.mp ho with ho | ho
    · obtain ⟨e,he,hall⟩ := hg.figureEvent o ho
      exact ⟨e,h.mem_events he,hall⟩
    · obtain ⟨p,m,hcopy⟩ := mem_copies hnew ho
      rw [hcopy.copy]
      exact ⟨m,h.mem_events_iff.mpr (Or.inr hcopy.mirror),rfl,rfl,rfl⟩
  imageEvent i hi := by
    obtain ⟨new,himages,-,hmirrors,-⟩ := h.images
    rw [himages] at hi
    rcases List.mem_append.mp hi with hi | hi
    · obtain ⟨e,he,hid⟩ := hg.imageEvent i hi
      exact ⟨e,h.mem_events he,hid⟩
    · obtain ⟨-,m,hm,heq⟩ := hmirrors i hi
      exact ⟨m,h.mem_events_iff.mpr (Or.inr hm),heq.symm⟩
  retracts o ho s hs := by
    rcases h.mem_figures_iff.mp ho with ho | ho
    · exact (hg.retracts o ho s hs).trans_le h.drawn_le
    · obtain ⟨p,m,hcopy⟩ := mem_copies hnew ho
      rw [hcopy.copy] at hs
      cases hs
  corrects o ho s hs := by
    rcases h.mem_figures_iff.mp ho with ho | ho
    · exact (hg.corrects o ho s hs).trans_le h.drawn_le
    · obtain ⟨p,m,hcopy⟩ := mem_copies hnew ho
      rw [hcopy.copy] at hs
      cases hs
  moved m hm := by
    rw [h.moves] at hm
    exact (hg.moved m hm).trans_le h.drawn_le

/-- With nothing to mirror nothing is added. -/
theorem nothing (hnone : g.sources r = []) (hnew : g.Untouched r) :
    n = ⟨0,0⟩ ∧ g'.events = g.events ∧ g'.figures = g.figures ∧ g'.images = g.images := by
  have hmirrors : g.mirrors r = [] := by
    rw [Log.mirrors,hnone]
    rfl
  have hcopies : (g.mirrored r).copies r = [] := by
    refine List.eq_nil_iff_forall_not_mem.mpr fun o ho => ?_
    obtain ⟨p,m,hcopy⟩ := mem_copies hnew ho
    have hm := hcopy.mirror
    rw [hmirrors] at hm
    cases hm
  obtain ⟨new,himages,hlength,hin,-⟩ := h.images
  obtain rfl : new = [] := by
    refine List.eq_nil_iff_forall_not_mem.mpr fun i hi => ?_
    obtain ⟨-,m,hm,-⟩ := hin i hi
    rw [hmirrors] at hm
    cases hm
  have hfigures := h.counted
  rw [hcopies] at hfigures
  refine ⟨?_,by rw [h.events,hmirrors,List.append_nil],by rw [h.figures,hcopies,List.append_nil],by rw [himages,List.append_nil]⟩
  cases n
  simp_all

end Copied

end Refile
end Spork
