import Spork.Refile.Copied
import Spork.Refile.Matching

/-! What runs of matches bring: a card matched holds a copy of every figure of the other's,
and where no match files again what its card has already, none holds one figure twice and
matching again brings nothing. -/
namespace Spork
namespace Refile

open Requests

/-- One figure copied into another. -/
def CopyOf (o o' : Figure) : Prop :=
  o'.copiedFrom = some o.id ∧ o'.metric = o.metric ∧ o'.reading = o.reading ∧ o'.observedAt = o.observedAt

instance (o o' : Figure) : Decidable (CopyOf o o') := inferInstanceAs (Decidable (_ ∧ _))

/-- Every figure live on one item's card has a copy live on the same card of another. -/
def Brought (g : Log) (fromItem item : Uuid) (level : Level) : Prop :=
  ∀ o ∈ g.liveOn fromItem level, ∃ o' ∈ g.liveOn item level, CopyOf o o'

instance (g : Log) (fromItem item : Uuid) (level : Level) : Decidable (Brought g fromItem item level) :=
  inferInstanceAs (Decidable (∀ o ∈ g.liveOn fromItem level, _))

/-- No card holds two live figures of one and the same recorded figure. -/
def NoneTwice (g : Log) : Prop :=
  ∀ o ∈ g.figures, ∀ o' ∈ g.figures, g.Live o → g.Live o' → o.observable.item = o'.observable.item →
    o.observable.level = o'.observable.level → g.recorded o.id = g.recorded o'.id → o = o'

instance (g : Log) : Decidable (NoneTwice g) := inferInstanceAs (Decidable (∀ o ∈ g.figures, _))

/-- A card with two live figures copied from one and the same recorded figure. -/
def CopiedTwice (g : Log) : Prop :=
  ∃ o ∈ g.figures, ∃ o' ∈ g.figures, g.Live o ∧ g.Live o' ∧ o.observable.item = o'.observable.item ∧
    o.observable.level = o'.observable.level ∧ o.copiedFrom.isSome ∧ o'.copiedFrom.isSome ∧
      g.recorded o.id = g.recorded o'.id ∧ o ≠ o'

instance (g : Log) : Decidable (CopiedTwice g) := inferInstanceAs (Decidable (∃ o ∈ g.figures, _))

theorem NoneTwice.not_copiedTwice {g : Log} (h : NoneTwice g) : ¬CopiedTwice g := by
  rintro ⟨o,ho,o',ho',hlive,hlive',hitem,hlevel,-,-,hsame,hne⟩
  exact hne (h o ho o' ho' hlive hlive' hitem hlevel hsame)

def styleOf (g : Log) (item : Uuid) : Option Uuid := (g.items.find? fun i => i.id = item).bind Item.style

/-- What requests find before any of them: nothing that is live was filed on another card,
or is there twice. -/
structure Log.Begun (g : Log) : Prop where
  sound : g.Sound
  unfiled : ∀ e ∈ g.events, g.Showing e → ∀ d ∈ g.events, d.derivedFrom ≠ some e.id
  alone : ∀ e ∈ g.events, ∀ d ∈ g.events, g.Showing e → g.Showing d → g.firstEvent e.id = g.firstEvent d.id → e = d
  once : ∀ o ∈ g.figures, ∀ p ∈ g.figures, g.Live o → g.Live p → g.recorded o.id = g.recorded p.id → o = p

/-- Where nothing was filed from anywhere, everything is there once. -/
theorem begun_of_underived {g : Log} (hg : g.Sound) (hevents : ∀ e ∈ g.events, e.derivedFrom = none)
    (hfigures : ∀ o ∈ g.figures, o.copiedFrom = none) : g.Begun where
  sound := hg
  unfiled e _ _ d hd := by
    rw [hevents d hd]
    exact (Option.some_ne_none e.id).symm
  alone e he d hd _ _ hfirst := by
    rw [Log.firstEvent,Log.firstEvent,Origin.origin_of_unlinked hevents,Origin.origin_of_unlinked hevents] at hfirst
    exact hg.event_unique he hd hfirst
  once o ho p hp _ _ hsame := by
    rw [Log.recorded,Log.recorded,Origin.origin_of_unlinked hfigures,Origin.origin_of_unlinked hfigures] at hsame
    exact hg.figure_unique ho hp hsame

/-- What a run keeps, from where it began. -/
structure Kept (g₀ g : Log) : Prop where
  sound : g.Sound
  items : g.items = g₀.items
  still : ∀ s ∈ g₀.events, s ∈ g.events ∧ (g₀.Showing s → g.Showing s) ∧ g.firstEvent s.id = g₀.firstEvent s.id
  filed : ∀ e ∈ g.events, g.Showing e → ∀ d ∈ g.events, d.derivedFrom = some e.id →
    g.Showing d ∧ g.firstEvent d.id = g.firstEvent e.id ∧
      ∀ o ∈ g.figures, o.event = e.id → g.Live o → ∃ p ∈ g.figures, p.event = d.id ∧ g.Live p ∧ CopyOf o p
  alone : ∀ e ∈ g.events, ∀ d ∈ g.events, g.Showing e → g.Showing d → e.observable.item = d.observable.item →
    e.observable.level = d.observable.level → g.firstEvent e.id = g.firstEvent d.id → e = d
  roots : ∀ e ∈ g.events, g.Showing e → ∃ s ∈ g₀.events, g₀.Showing s ∧ s.observable.level = e.observable.level ∧
    styleOf g₀ s.observable.item = styleOf g₀ e.observable.item ∧ g.firstEvent e.id = g₀.firstEvent s.id
  copied : ∀ o ∈ g.figures, g.Live o → ∃ s ∈ g₀.figures, g₀.Live s ∧ g.recorded o.id = g₀.recorded s.id ∧
    g.firstEvent o.event = g₀.firstEvent s.event
  within : ∀ o ∈ g.figures, ∀ p ∈ g.figures, g.Live o → g.Live p → o.event = p.event →
    g.recorded o.id = g.recorded p.id → o = p

theorem kept_start {g : Log} (h : g.Begun) : Kept g g where
  sound := h.sound
  items := rfl
  still _ hs := ⟨hs,id,rfl⟩
  filed e he hshow d hd hfrom := absurd hfrom (h.unfiled e he hshow d hd)
  alone e he d hd hshow hshow' _ _ := h.alone e he d hd hshow hshow'
  roots e he hshow := ⟨e,he,hshow,rfl,rfl,rfl⟩
  copied o ho hlive := ⟨o,ho,hlive,rfl,rfl⟩
  within o ho p hp hlive hlive' _ := h.once o ho p hp hlive hlive'

/-- Case packs are nothing to it. -/
theorem Kept.same {g₀ g g' : Log} (hk : Kept g₀ g) (h : SameRecords g g') : Kept g₀ g' := by
  have hsound := h.sound hk.sound
  obtain ⟨hitems,hevents,hfigures,haccepted,himages,hcuts,hmoves,-,-⟩ := h
  cases g
  cases g'
  dsimp only at hitems hevents hfigures haccepted himages hcuts hmoves
  subst hitems hevents hfigures haccepted himages hcuts hmoves
  exact ⟨hsound,hk.items,hk.still,hk.filed,hk.alone,hk.roots,hk.copied,hk.within⟩

/-- A live figure's event has something on it. -/
theorem event_of_live {g : Log} (hg : g.Sound) {o : Figure} (ho : o ∈ g.figures) (hlive : g.Live o) :
    ∃ e ∈ g.events, e.id = o.event ∧ e.observable = o.observable ∧ g.Showing e := by
  obtain ⟨e,he,hid,hcard,-⟩ := hg.figureEvent o ho
  exact ⟨e,he,hid,hcard,Or.inl ⟨o,ho,hid.symm,hlive⟩⟩

theorem Kept.noneTwice {g₀ g : Log} (h₀ : g₀.Begun) (hk : Kept g₀ g) : NoneTwice g := by
  intro o ho p hp hlive hlive' hitem hlevel hsame
  obtain ⟨s,hs,hslive,hrecorded,hfirst⟩ := hk.copied o ho hlive
  obtain ⟨t,ht,htlive,hrecorded',hfirst'⟩ := hk.copied p hp hlive'
  obtain ⟨e,he,hid,hcard,hshow⟩ := event_of_live hk.sound ho hlive
  obtain ⟨d,hd,hid',hcard',hshow'⟩ := event_of_live hk.sound hp hlive'
  obtain rfl : s = t := h₀.once s hs t ht hslive htlive (by rw [← hrecorded,← hrecorded',hsame])
  obtain rfl : e = d := by
    apply hk.alone e he d hd hshow hshow'
    · rw [hcard,hcard',hitem]
    · rw [hcard,hcard',hlevel]
    · rw [hid,hid',hfirst,hfirst']
  exact hk.within o ho p hp hlive hlive' (hid.symm.trans hid') hsame

/-! ## One card copied -/

/-- Nothing filed leads where something on the card it goes to does already. -/
def OnlyNewTo (g : Log) (r : Refiling) : Prop :=
  ∀ e ∈ g.sources r, ∀ d ∈ g.events, d.observable.OnCard r.target.item r.target.level → g.Showing d →
    g.firstEvent d.id ≠ g.firstEvent e.id

instance (g : Log) (r : Refiling) : Decidable (OnlyNewTo g r) := inferInstanceAs (Decidable (∀ e ∈ g.sources r, _))

section
variable {g₀ g g' : Log} {r : Refiling} {n : Counted}

/-- An event with something on it that was there before, or a mirror. -/
theorem Copied.showing_cases (h : Copied r g g' n) (hg : g.Sound) (hnew : g.Untouched r) {e : Event} (he : e ∈ g'.events)
    (hshow : g'.Showing e) : (e ∈ g.events ∧ g.Showing e) ∨ e ∈ g.mirrors r := by
  rcases h.mem_events_iff.mp he with he | he
  · exact Or.inl ⟨he,(h.showing_iff hg hnew he).mp hshow⟩
  · exact Or.inr he

theorem Copied.live_cases (h : Copied r g g' n) {o : Figure} (ho : o ∈ g'.figures) (hlive : g'.Live o) :
    (o ∈ g.figures ∧ g.Live o) ∨ o ∈ (g.mirrored r).copies r := by
  rcases h.mem_figures_iff.mp ho with ho | ho
  · exact Or.inl ⟨ho,(h.live_iff o).mp hlive⟩
  · exact Or.inr ho

/-- A figure there was is in no mirror. -/
theorem Copied.figure_apart (h : Copied r g g' n) (hg : g.Sound) {o : Figure} {m : Event} (ho : o ∈ g.figures)
    (hm : m ∈ g.mirrors r) : o.event ≠ m.id := by
  obtain ⟨e,he,hid,-⟩ := hg.figureEvent o ho
  rw [← hid]
  exact (h.mirror_apart hg he hm).symm

theorem Kept.filed_copy (hk : Kept g₀ g) (h : Copied r g g' n) (hnew : g.Untouched r) :
    ∀ e ∈ g'.events, g'.Showing e → ∀ d ∈ g'.events, d.derivedFrom = some e.id →
      g'.Showing d ∧ g'.firstEvent d.id = g'.firstEvent e.id ∧
        ∀ o ∈ g'.figures, o.event = e.id → g'.Live o → ∃ p ∈ g'.figures, p.event = d.id ∧ g'.Live p ∧ CopyOf o p := by
  have hg := hk.sound
  intro e he hshow d hd hfrom
  -- nothing mirrors a mirror yet
  obtain ⟨he,hshow⟩ : e ∈ g.events ∧ g.Showing e := by
    rcases h.showing_cases hg hnew he hshow with hold | hm
    · exact hold
    · have hdrawn := (h.mirror_drawn hm).1
      rcases h.mem_events_iff.mp hd with hd | hd
      · exact absurd (hg.derived d hd _ hfrom) (not_lt.mpr hdrawn)
      · obtain ⟨s,hs,heq⟩ := mirror_source hd
        exact absurd (Option.some.inj (hfrom.symm.trans heq)) (h.mirror_apart hg (source_facts hs).1 hm)
  have hfigures : ∀ o ∈ g'.figures, o.event = e.id → g'.Live o → o ∈ g.figures ∧ g.Live o := by
    intro o ho hevent hlive
    rcases h.live_cases ho hlive with hold | hcopy
    · exact hold
    · obtain ⟨p,m,hin⟩ := mem_copies hnew hcopy
      refine absurd ?_ (h.mirror_apart hg he hin.mirror)
      rw [← hevent,hin.copy]
      rfl
  rw [h.firstEvent_eq hg he]
  rcases h.mem_events_iff.mp hd with hd | hd
  · obtain ⟨hshow',hfirst,hall⟩ := hk.filed e he hshow d hd hfrom
    refine ⟨(h.showing_iff hg hnew hd).mpr hshow',by rw [h.firstEvent_eq hg hd,hfirst],fun o ho hevent hlive => ?_⟩
    obtain ⟨ho,hlive⟩ := hfigures o ho hevent hlive
    obtain ⟨p,hp,hin,hplive,hcopy⟩ := hall o ho hevent hlive
    exact ⟨p,h.mem_figures hp,hin,(h.live_iff p).mpr hplive,hcopy⟩
  · refine ⟨h.mirror_showing hg hnew hd,h.firstEvent_mirror hg he hd hfrom,fun o ho hevent hlive => ?_⟩
    obtain ⟨ho,hlive⟩ := hfigures o ho hevent hlive
    obtain ⟨p,hp,hcopy⟩ := copy_of_live hnew ho hlive hd (by rw [hfrom,hevent])
    refine ⟨p,h.mem_figures_iff.mpr (Or.inr hp),by rw [hcopy.copy]; rfl,h.live_copy hg hp,?_⟩
    -- the times of a figure and its event are one
    obtain ⟨e',he',hid,-,hat⟩ := hg.figureEvent o ho
    obtain rfl : e' = e := hg.event_unique he' he (hid.trans hevent)
    rw [hcopy.copy]
    exact ⟨rfl,rfl,rfl,(mirror_observedAt hg he hd hfrom).trans hat⟩

theorem Kept.alone_copy (hk : Kept g₀ g) (h : Copied r g g' n) (hnew : g.Untouched r) (honly : OnlyNewTo g r) :
    ∀ e ∈ g'.events, ∀ d ∈ g'.events, g'.Showing e → g'.Showing d → e.observable.item = d.observable.item →
      e.observable.level = d.observable.level → g'.firstEvent e.id = g'.firstEvent d.id → e = d := by
  have hg := hk.sound
  -- what was there and a mirror lead to different events
  have hapart : ∀ e ∈ g.events, g.Showing e → ∀ m ∈ g.mirrors r, e.observable.item = m.observable.item →
      e.observable.level = m.observable.level → g'.firstEvent e.id ≠ g'.firstEvent m.id := by
    intro e he hshow m hm hitem hlevel
    obtain ⟨s,hs,hfrom⟩ := mirror_source hm
    rw [h.firstEvent_eq hg he,h.firstEvent_mirror hg (source_facts hs).1 hm hfrom]
    rw [(mirror_facts hm).1] at hitem hlevel
    exact honly s hs e he ⟨hitem,hlevel⟩ hshow
  intro e he d hd hshow hshow' hitem hlevel hfirst
  rcases h.showing_cases hg hnew he hshow with ⟨he,hshow⟩ | hm
  · rcases h.showing_cases hg hnew hd hshow' with ⟨hd,hshow'⟩ | hm'
    · rw [h.firstEvent_eq hg he,h.firstEvent_eq hg hd] at hfirst
      exact hk.alone e he d hd hshow hshow' hitem hlevel hfirst
    · exact absurd hfirst (hapart e he hshow d hm' hitem hlevel)
  · rcases h.showing_cases hg hnew hd hshow' with ⟨hd,hshow'⟩ | hm'
    · exact absurd hfirst.symm (hapart d hd hshow' e hm hitem.symm hlevel.symm)
    · obtain ⟨s,hs,hfrom⟩ := mirror_source hm
      obtain ⟨t,ht,hfrom'⟩ := mirror_source hm'
      obtain ⟨hs,hcard,hshow⟩ := source_facts hs
      obtain ⟨ht,hcard',hshow'⟩ := source_facts ht
      rw [h.firstEvent_mirror hg hs hm hfrom,h.firstEvent_mirror hg ht hm' hfrom'] at hfirst
      obtain rfl : s = t :=
        hk.alone s hs t ht hshow hshow' (hcard.1.trans hcard'.1.symm) (hcard.2.trans hcard'.2.symm) hfirst
      exact mirror_unique hg hm hm' (hfrom.trans hfrom'.symm)

/-- A card copied that brings only what is new keeps all of it. -/
theorem Kept.copy (hk : Kept g₀ g) (h : Copied r g g' n) (hnew : g.Untouched r) (hact : r.ev.act ∈ g.acts)
    (honly : OnlyNewTo g r) (hlevel : r.target.level = r.was) (hstyle : styleOf g₀ r.target.item = styleOf g₀ r.fromItem) :
    Kept g₀ g' where
  sound := h.sound hk.sound hnew hact
  items := h.items.trans hk.items
  still s hs := by
    obtain ⟨hmem,hshow,hfirst⟩ := hk.still s hs
    exact ⟨h.mem_events hmem,fun hs => (h.showing_iff hk.sound hnew hmem).mpr (hshow hs),
      (h.firstEvent_eq hk.sound hmem).trans hfirst⟩
  filed := hk.filed_copy h hnew
  alone := hk.alone_copy h hnew honly
  roots e he hshow := by
    rcases h.showing_cases hk.sound hnew he hshow with ⟨he,hshow⟩ | hm
    · rw [h.firstEvent_eq hk.sound he]
      exact hk.roots e he hshow
    · obtain ⟨d,hd,hfrom⟩ := mirror_source hm
      obtain ⟨hd,hcard,hshow⟩ := source_facts hd
      obtain ⟨s,hs,hshows,hslevel,hsstyle,hfirst⟩ := hk.roots d hd hshow
      rw [(mirror_facts hm).1,h.firstEvent_mirror hk.sound hd hm hfrom,hlevel,hstyle]
      exact ⟨s,hs,hshows,hslevel.trans hcard.2,by rw [hsstyle,hcard.1],hfirst⟩
  copied o ho hlive := by
    rcases h.live_cases ho hlive with ⟨ho,hlive⟩ | hc
    · obtain ⟨e,he,hid,-⟩ := hk.sound.figureEvent o ho
      rw [h.recorded_eq hk.sound ho,← hid,h.firstEvent_eq hk.sound he,hid]
      exact hk.copied o ho hlive
    · obtain ⟨p,m,hcopy⟩ := mem_copies hnew hc
      obtain ⟨e,he,hid,-⟩ := hk.sound.figureEvent p hcopy.mem
      have hevent : o.event = m.id := by
        rw [hcopy.copy]
        rfl
      have hfrom : o.copiedFrom = some p.id := by
        rw [hcopy.copy]
        rfl
      have hderived : m.derivedFrom = some e.id := by rw [hcopy.derived,hid]
      rw [h.recorded_copy hk.sound hcopy.mem hc hfrom,hevent,h.firstEvent_mirror hk.sound he hcopy.mirror hderived,hid]
      exact hk.copied p hcopy.mem hcopy.live
  within o ho p hp hlive hlive' hevent hsame := by
    rcases h.live_cases ho hlive with ⟨ho,hlive⟩ | hc
    · rcases h.live_cases hp hlive' with ⟨hp,hlive'⟩ | hc'
      · rw [h.recorded_eq hk.sound ho,h.recorded_eq hk.sound hp] at hsame
        exact hk.within o ho p hp hlive hlive' hevent hsame
      · obtain ⟨q,m,hcopy⟩ := mem_copies hnew hc'
        refine absurd ?_ (h.figure_apart hk.sound ho hcopy.mirror)
        rw [hevent,hcopy.copy]
        rfl
    · obtain ⟨q,m,hcopy⟩ := mem_copies hnew hc
      have hfrom : o.copiedFrom = some q.id := by
        rw [hcopy.copy]
        rfl
      have hin : o.event = m.id := by
        rw [hcopy.copy]
        rfl
      rcases h.live_cases hp hlive' with ⟨hp,hlive'⟩ | hc'
      · exact absurd (hevent.symm.trans hin) (h.figure_apart hk.sound hp hcopy.mirror)
      · obtain ⟨q',m',hcopy'⟩ := mem_copies hnew hc'
        have hfrom' : p.copiedFrom = some q'.id := by
          rw [hcopy'.copy]
          rfl
        have hin' : p.event = m'.id := by
          rw [hcopy'.copy]
          rfl
        obtain rfl : m = m' := List.inj_on_of_nodup_map mirrors_nodup hcopy.mirror hcopy'.mirror
          (hin.symm.trans (hevent.trans hin'))
        rw [h.recorded_copy hk.sound hcopy.mem hc hfrom,h.recorded_copy hk.sound hcopy'.mem hc' hfrom'] at hsame
        obtain rfl : q = q' := hk.within q hcopy.mem q' hcopy'.mem hcopy.live hcopy'.live
          (Option.some.inj (hcopy.derived.symm.trans hcopy'.derived)) hsame
        exact copy_unique hk.sound hnew hc hc' hevent (hfrom.trans hfrom'.symm)

/-- What is on one item's card has been filed on the same card of another. -/
def Passed (g : Log) (fromItem item : Uuid) (level : Level) : Prop :=
  ∀ e ∈ g.events, e.observable.OnCard fromItem level → g.Showing e →
    ∃ d ∈ g.events, d.derivedFrom = some e.id ∧ d.observable.OnCard item level

/-- What has been filed has its figures there. -/
theorem Kept.brought (hk : Kept g₀ g) {fromItem item : Uuid} {level : Level} (h : Passed g fromItem item level) :
    Brought g fromItem item level := by
  intro o ho
  obtain ⟨hmem,hall⟩ := List.mem_filter.mp ho
  obtain ⟨hcard,hlive⟩ := of_decide_eq_true hall
  obtain ⟨e,he,hid,hobservable,hshow⟩ := event_of_live hk.sound hmem hlive
  obtain ⟨d,hd,hfrom,hon⟩ := h e he (by rw [hobservable]; exact hcard) hshow
  obtain ⟨p,hp,hin,hplive,hcopy⟩ := (hk.filed e he hshow d hd hfrom).2.2 o hmem hid.symm hlive
  obtain ⟨d',hd',hid',hobservable',-⟩ := hk.sound.figureEvent p hp
  obtain rfl : d' = d := hk.sound.event_unique hd' hd (hid'.trans hin)
  refine ⟨p,List.mem_filter.mpr ⟨hp,decide_eq_true ⟨?_,hplive⟩⟩,hcopy⟩
  rw [← hobservable']
  exact hon

/-- The card copied has been filed. -/
theorem Copied.passed (h : Copied r g g' n) (hg : g.Sound) (hnew : g.Untouched r) (hlevel : r.target.level = r.was)
    (hitem : r.target.item ≠ r.fromItem) : Passed g' r.fromItem r.target.item r.was := by
  intro e he hcard hshow
  rcases h.showing_cases hg hnew he hshow with ⟨he,hshow⟩ | hm
  · by_cases hs : e ∈ g.sources r
    · obtain ⟨m,hm,hfrom⟩ := mirror_of_source hs
      refine ⟨m,h.mem_events_iff.mpr (Or.inr hm),hfrom,?_⟩
      rw [(mirror_facts hm).1]
      exact ⟨rfl,hlevel⟩
    · -- it was filed there before
      obtain ⟨d,hd,hfrom,htarget⟩ : ∃ d ∈ g.events, d.derivedFrom = some e.id ∧ d.observable = r.target := by
        by_contra hnone
        exact hs (List.mem_filter.mpr ⟨he,decide_eq_true ⟨hcard,hshow,fun hall => hnone hall.2⟩⟩)
      refine ⟨d,h.mem_events hd,hfrom,?_⟩
      rw [htarget]
      exact ⟨rfl,hlevel⟩
  · rw [(mirror_facts hm).1] at hcard
    exact absurd hcard.1 hitem

/-- Another card copied to the same item leaves what was filed filed. -/
theorem Copied.still_passed (h : Copied r g g' n) (hg : g.Sound) (hnew : g.Untouched r) {fromItem item : Uuid}
    {level : Level} (hitem : r.target.item ≠ fromItem) (hpassed : Passed g fromItem item level) :
    Passed g' fromItem item level := by
  intro e he hcard hshow
  rcases h.showing_cases hg hnew he hshow with ⟨he,hshow⟩ | hm
  · obtain ⟨d,hd,hall⟩ := hpassed e he hcard hshow
    exact ⟨d,h.mem_events hd,hall⟩
  · rw [(mirror_facts hm).1] at hcard
    exact absurd hcard.1 hitem

end

end Refile
end Spork
