import Spork.Refile.MatchedAgain

/-! Runs of matches whose every match brings only what is new: nothing it files on a card
comes from an event something there comes from already, and no card it files on is named
twice. -/
namespace Spork
namespace Refile

open Requests

variable (rank : Uuid → ℕ)

/-- An event has been filed on the observable the match would file it on. -/
def FiledAlready (g : Log) (m : Match) (level : Level) (e : Event) : Prop :=
  ∃ d ∈ g.events, d.derivedFrom = some e.id ∧ cardOf rank g m.item level m.ev.submittedAt = .ok d.observable

instance (g : Log) (m : Match) (level : Level) (e : Event) : Decidable (FiledAlready rank g m level e) :=
  inferInstanceAs (Decidable (∃ d ∈ g.events, _))

/-- Each event on the cards named has been filed where it would be, or else its card is
named once and nothing on the card it goes to comes from where it does. -/
def Clear (g : Log) (m : Match) (levels : List Level) : Prop :=
  ∀ l ∈ levels, ∀ e ∈ g.events, e.observable.OnCard m.fromItem l → g.Showing e →
    FiledAlready rank g m l e ∨ (levels.count l = 1 ∧
      ∀ d ∈ g.events, d.observable.OnCard m.item l → g.Showing d → g.firstEvent d.id ≠ g.firstEvent e.id)

instance (g : Log) (m : Match) (levels : List Level) : Decidable (Clear rank g m levels) :=
  inferInstanceAs (Decidable (∀ l ∈ levels, _))

/-- What a request must meet: a replay does nothing, and a case pack copies nothing. -/
def FilesOnlyNew (g : Log) : Request → Prop
  | .matching m => m.ev.act ∈ g.acts ∨ Clear rank g m m.levels
  | .carton _ => True

instance (g : Log) : ∀ q, Decidable (FilesOnlyNew rank g q)
  | .matching m => inferInstanceAs (Decidable (m.ev.act ∈ g.acts ∨ _))
  | .carton _ => .isTrue trivial

/-! ## One card of a match -/

section
variable {rank} {g₀ g g' : Log} {m : Match} {l : Level} {ls : List Level} {target : Observable} {n : Counted}

theorem accepted_eq_some {α : Type*} {x : Except ApiError (α × Log)} (h : (x.map Prod.snd).toOption = some g') :
    ∃ out, x = .ok out ∧ out.2 = g' := by
  cases x with
  | error e => cases h
  | ok out => exact ⟨out,rfl,Option.some.inj h⟩

/-- The card found is the item's at the level. -/
theorem cardOf_onCard {item : Uuid} {moment : ℤ} (h : cardOf rank g item l moment = .ok target) :
    target.item = item ∧ target.level = l := by
  unfold cardOf at h
  split_ifs at h with heach
  · cases h
    exact ⟨rfl,heach.symm⟩
  · split at h
    · cases h
    · cases h
      exact ⟨rfl,rfl⟩

theorem cardOf_congr (h : g'.packs = g.packs) (item : Uuid) (moment : ℤ) :
    cardOf rank g' item l moment = cardOf rank g item l moment := by
  unfold cardOf inForce
  rw [h]

/-- Nothing of the match is on the cards still to come. -/
def Ahead (g : Log) (m : Match) (ls : List Level) : Prop := ∀ e ∈ g.events, e.act = m.ev.act → e.observable.level ∉ ls

theorem Ahead.untouched (h : Ahead g m (l :: ls)) (hcard : cardOf rank g m.item l m.ev.submittedAt = .ok target) :
    g.Untouched (m.refiling target l) := by
  intro e he hact heq
  have heq : e.observable = target := heq
  refine h e he hact ?_
  rw [heq,(cardOf_onCard hcard).2]
  exact List.mem_cons_self

/-- What a match takes of a card was not filed where it goes. -/
theorem source_unfiled {e : Event} (he : e ∈ g.sources (m.refiling target l))
    (hcard : cardOf rank g m.item l m.ev.submittedAt = .ok target) : ¬FiledAlready rank g m l e := by
  rintro ⟨d,hd,hfrom,htarget⟩
  obtain ⟨-,hall⟩ := List.mem_filter.mp he
  refine (of_decide_eq_true hall).2.2 ⟨rfl,d,hd,hfrom,?_⟩
  exact Except.ok.inj (htarget.symm.trans hcard)

theorem Clear.onlyNewTo (h : Clear rank g m (l :: ls)) (hcard : cardOf rank g m.item l m.ev.submittedAt = .ok target) :
    OnlyNewTo g (m.refiling target l) := by
  obtain ⟨hitem,hlevel⟩ := cardOf_onCard hcard
  intro e he d hd hon hshow
  obtain ⟨hmem,hfrom,hshow'⟩ := source_facts he
  rcases h l List.mem_cons_self e hmem hfrom hshow' with hfiled | ⟨-,hapart⟩
  · exact absurd hfiled (source_unfiled he hcard)
  · exact hapart d hd ⟨hon.1.trans hitem,hon.2.trans hlevel⟩ hshow

/-- A card named again takes nothing. -/
theorem Clear.named_again (h : Clear rank g m (l :: ls)) (hl : l ∈ ls)
    (hcard : cardOf rank g m.item l m.ev.submittedAt = .ok target) : g.sources (m.refiling target l) = [] := by
  refine List.eq_nil_iff_forall_not_mem.mpr fun e he => ?_
  obtain ⟨hmem,hfrom,hshow⟩ := source_facts he
  rcases h l List.mem_cons_self e hmem hfrom hshow with hfiled | ⟨honce,-⟩
  · exact source_unfiled he hcard hfiled
  · rw [List.count_cons_self] at honce
    exact absurd hl (List.count_eq_zero.mp (Nat.succ.inj honce))

/-- The cards still to come are as clear as they were. -/
theorem Clear.after (h : Clear rank g m (l :: ls)) (hg : g.Sound) (hnew : g.Untouched (m.refiling target l))
    (hcard : cardOf rank g m.item l m.ev.submittedAt = .ok target) (hapart : m.item ≠ m.fromItem)
    (hc : Copied (m.refiling target l) g g' n) : Clear rank g' m ls := by
  obtain ⟨hitem,hlevel⟩ := cardOf_onCard hcard
  intro l' hl' e he hon hshow
  -- a mirror is on the item's card, not on the other's
  obtain ⟨he,hshow⟩ : e ∈ g.events ∧ g.Showing e := by
    rcases hc.showing_cases hg hnew he hshow with hold | hm
    · exact hold
    · have hobservable : e.observable = target := (mirror_facts hm).1
      rw [hobservable] at hon
      exact absurd (hitem.symm.trans hon.1) hapart
  rcases h l' (List.mem_cons_of_mem l hl') e he hon hshow with ⟨d,hd,hfrom,hthere⟩ | ⟨honce,hclear⟩
  · refine Or.inl ⟨d,hc.mem_events hd,hfrom,?_⟩
    rw [cardOf_congr hc.packs]
    exact hthere
  · have hne : l ≠ l' := by
      rintro rfl
      rw [List.count_cons_self] at honce
      exact absurd hl' (List.count_eq_zero.mp (Nat.succ.inj honce))
    rw [List.count_cons_of_ne hne] at honce
    refine Or.inr ⟨honce,fun d hd hcarded hshowing => ?_⟩
    rcases hc.showing_cases hg hnew hd hshowing with ⟨hd,hshowing⟩ | hm
    · rw [hc.firstEvent_eq hg hd,hc.firstEvent_eq hg he]
      exact hclear d hd hcarded hshowing
    · have hobservable : d.observable = target := (mirror_facts hm).1
      rw [hobservable] at hcarded
      exact absurd (hlevel.symm.trans hcarded.2) hne

theorem Ahead.after (h : Ahead g m (l :: ls)) (hc : Copied (m.refiling target l) g g' n)
    (hcard : cardOf rank g m.item l m.ev.submittedAt = .ok target) (hnone : l ∈ ls → g.sources (m.refiling target l) = []) :
    Ahead g' m ls := by
  intro e he hact
  rcases hc.mem_events_iff.mp he with he | hm
  · exact fun hin => h e he hact (List.mem_cons_of_mem l hin)
  · have hobservable : e.observable = target := (mirror_facts hm).1
    rw [hobservable,(cardOf_onCard hcard).2]
    intro hl
    obtain ⟨s,hs,-⟩ := mirror_source hm
    rw [hnone hl] at hs
    cases hs

/-- A card with nothing live on it has no event with anything on it. -/
theorem holds_of_showing (hg : g.Sound) {item : Uuid} {e : Event} (he : e ∈ g.events) (hcard : e.observable.OnCard item l)
    (hshow : g.Showing e) : g.holds item l = true := by
  rw [Log.holds_iff]
  rcases hshow with ⟨o,ho,hevent,hlive⟩ | ⟨i,hi,hevent,hunmoved⟩
  · left
    obtain ⟨e',he',hid,hobservable,-⟩ := hg.figureEvent o ho
    obtain rfl : e' = e := hg.event_unique he' he (hid.trans hevent)
    refine List.ne_nil_of_mem (a := o) (List.mem_filter.mpr ⟨ho,decide_eq_true ⟨?_,hlive⟩⟩)
    rw [← hobservable]
    exact hcard
  · right
    refine List.ne_nil_of_mem (a := (i,e)) (List.mem_flatMap.mpr ⟨i,hi,List.mem_map.mpr ⟨e,?_,rfl⟩⟩)
    exact List.mem_filter.mpr ⟨he,decide_eq_true ⟨hevent.symm,hcard,hunmoved⟩⟩

/-- What matching one card does: nothing where the other has nothing on it, else its copy. -/
theorem matchLevel_cases {st st' : Matching} (h : matchLevel rank m st l = .ok st') :
    (st.log.holds m.fromItem l = false ∧ st' = st) ∨
      ∃ target, cardOf rank st.log m.item l m.ev.submittedAt = .ok target ∧
        st' = ⟨(fileAgain rank st.log (m.refiling target l)).1,
          st.figures+(fileAgain rank st.log (m.refiling target l)).2.figures,
          st.photos+(fileAgain rank st.log (m.refiling target l)).2.photos,true⟩ := by
  unfold matchLevel at h
  split_ifs at h with hholds
  · obtain ⟨target,hcard,h⟩ := bind_ok h
    exact Or.inr ⟨target,hcard,(Except.ok.inj h).symm⟩
  · exact Or.inl ⟨by simpa using hholds,(Except.ok.inj h).symm⟩

theorem matchLevels_kept (hapart : m.item ≠ m.fromItem) (hstyle : styleOf g₀ m.item = styleOf g₀ m.fromItem)
    {st st' : Matching} (hk : Kept g₀ st.log) (hact : m.ev.act ∈ st.log.acts) (hahead : Ahead st.log m ls)
    (hclear : Clear rank st.log m ls) (h : matchLevels rank m st ls = .ok st') :
    Kept g₀ st'.log ∧ (∀ e ∈ st.log.events, e ∈ st'.log.events) ∧
      (∀ l ∈ ls, Passed st'.log m.fromItem m.item l) ∧
      ∀ l, Passed st.log m.fromItem m.item l → Passed st'.log m.fromItem m.item l := by
  induction ls generalizing st with
  | nil =>
    cases h
    exact ⟨hk,fun _ he => he,fun l hl => absurd hl List.not_mem_nil,fun _ hp => hp⟩
  | cons l ls ih =>
    obtain ⟨st₁,hone,hrest⟩ := bind_ok h
    rcases matchLevel_cases hone with ⟨hnone,rfl⟩ | ⟨target,hcard,rfl⟩
    · -- nothing on the other's card
      have hpassed : Passed st₁.log m.fromItem m.item l := fun e he hon hshow => by
        rw [holds_of_showing hk.sound he hon hshow] at hnone
        cases hnone
      have hahead' : Ahead st₁.log m ls := fun e he hact hin => hahead e he hact (List.mem_cons_of_mem l hin)
      have hclear' : Clear rank st₁.log m ls := by
        intro l' hl' e he hon hshow
        rcases hclear l' (List.mem_cons_of_mem l hl') e he hon hshow with hfiled | ⟨honce,hall⟩
        · exact Or.inl hfiled
        · refine Or.inr ⟨?_,hall⟩
          rcases eq_or_ne l l' with rfl | hne
          · rw [holds_of_showing hk.sound he hon hshow] at hnone
            cases hnone
          · rwa [List.count_cons_of_ne hne] at honce
      obtain ⟨hk',hmono,hall,hstill⟩ := ih hk hact hahead' hclear' hrest
      refine ⟨hk',hmono,fun l' hl' => ?_,hstill⟩
      rcases List.mem_cons.mp hl' with rfl | hl'
      · exact hstill l' hpassed
      · exact hall l' hl'
    · have hc := fileAgain_copied rank (r := m.refiling target l) hk.sound rfl
      have hnew := hahead.untouched hcard
      obtain ⟨hitem,hlevel⟩ := cardOf_onCard hcard
      have htarget : (m.refiling target l).target.item ≠ m.fromItem := by
        intro heq
        exact hapart (hitem.symm.trans heq)
      have hk₁ : Kept g₀ (fileAgain rank st.log (m.refiling target l)).1 :=
        hk.copy hc hnew hact (hclear.onlyNewTo hcard) hlevel ((congrArg (styleOf g₀) hitem).trans hstyle)
      have hpassed : Passed (fileAgain rank st.log (m.refiling target l)).1 m.fromItem m.item l := by
        rw [← hitem]
        exact hc.passed hk.sound hnew hlevel htarget
      obtain ⟨hk',hmono,hall,hstill⟩ := ih hk₁ (hc.acts _ hact)
        (hahead.after hc hcard fun hl => hclear.named_again hl hcard) (hclear.after hk.sound hnew hcard hapart hc) hrest
      refine ⟨hk',fun e he => hmono e (hc.mem_events he),fun l' hl' => ?_,fun l' hp => hstill l' ?_⟩
      · rcases List.mem_cons.mp hl' with rfl | hl'
        · exact hstill l' hpassed
        · exact hall l' hl'
      · exact hc.still_passed hk.sound hnew htarget hp

/-- Where everything on the cards named has been filed already, nothing is added. -/
theorem matchLevels_nothing {st st' : Matching} (hg : st.log.Sound) (hahead : Ahead st.log m ls)
    (hfiled : ∀ l ∈ ls, ∀ e ∈ st.log.events, e.observable.OnCard m.fromItem l → st.log.Showing e →
      FiledAlready rank st.log m l e) (hact : m.ev.act ∈ st.log.acts) (h : matchLevels rank m st ls = .ok st') :
    st'.figures = st.figures ∧ st'.photos = st.photos ∧ st'.log.figures = st.log.figures ∧
      st'.log.images = st.log.images := by
  induction ls generalizing st with
  | nil =>
    cases h
    exact ⟨rfl,rfl,rfl,rfl⟩
  | cons l ls ih =>
    obtain ⟨st₁,hone,hrest⟩ := bind_ok h
    rcases matchLevel_cases hone with ⟨-,rfl⟩ | ⟨target,hcard,rfl⟩
    · exact ih hg (fun e he hact hin => hahead e he hact (List.mem_cons_of_mem l hin))
        (fun l' hl' => hfiled l' (List.mem_cons_of_mem l hl')) hact hrest
    · have hc := fileAgain_copied rank (r := m.refiling target l) hg rfl
      have hnew := hahead.untouched hcard
      have hnone : st.log.sources (m.refiling target l) = [] := by
        refine List.eq_nil_iff_forall_not_mem.mpr fun e he => ?_
        obtain ⟨hmem,hon,hshow⟩ := source_facts he
        exact source_unfiled he hcard (hfiled l List.mem_cons_self e hmem hon hshow)
      obtain ⟨hn,hevents,hfigures,himages⟩ := hc.nothing hnone hnew
      have hfiled' : ∀ l' ∈ ls, ∀ e ∈ (fileAgain rank st.log (m.refiling target l)).1.events,
          e.observable.OnCard m.fromItem l' → (fileAgain rank st.log (m.refiling target l)).1.Showing e →
            FiledAlready rank (fileAgain rank st.log (m.refiling target l)).1 m l' e := by
        intro l' hl' e he hon hshow
        rw [hevents] at he
        obtain ⟨d,hd,hfrom,hthere⟩ :=
          hfiled l' (List.mem_cons_of_mem l hl') e he hon ((hc.showing_iff hg hnew he).mp hshow)
        exact ⟨d,hc.mem_events hd,hfrom,by rw [cardOf_congr hc.packs]; exact hthere⟩
      obtain ⟨hf,hp,hfigures',himages'⟩ := ih (hc.sound hg hnew hact) (hahead.after hc hcard fun _ => hnone) hfiled'
        (hc.acts _ hact) hrest
      rw [hn] at hf hp
      exact ⟨hf,hp,hfigures'.trans hfigures,himages'.trans himages⟩

/-! ## A whole match -/

theorem samePacks_facts (h : samePacks rank g m = .ok g') :
    SameRecords g g' ∧ ∀ l t, cardOf rank g m.item l m.ev.submittedAt = .ok t →
      cardOf rank g' m.item l m.ev.submittedAt = .ok t := by
  unfold samePacks at h
  split_ifs at h with heach
  · cases h
    exact ⟨SameRecords.refl g,fun _ _ h => h⟩
  · split at h
    · split_ifs at h
      cases h
      exact ⟨SameRecords.refl g,fun _ _ h => h⟩
    · next hnone =>
      obtain ⟨out,hsay,h⟩ := bind_ok h
      cases h
      refine ⟨say_sameRecords hsay,fun l t hcard => ?_⟩
      -- with no case pack of its own only its each is a card
      unfold cardOf at hcard
      split_ifs at hcard with hl
      · rw [cardOf,if_pos hl]
        exact hcard
      · rw [hnone] at hcard
        cases hcard
    · cases h
      exact ⟨SameRecords.refl g,fun _ _ h => h⟩

theorem family_style {u : Unit} (h : family g m = .ok u) : styleOf g m.item = styleOf g m.fromItem := by
  unfold family at h
  unfold styleOf
  split at h
  · cases h
  · next a ha =>
    split at h
    · cases h
    · next b hb =>
      split_ifs at h with hall
      rw [ha,hb]
      exact of_decide_eq_true (Bool.and_eq_true_iff.mp hall).2

/-- What a match that is no replay starts its copying from. -/
structure Prepared (rank : Uuid → ℕ) (g : Log) (m : Match) (g' : Log) : Prop where
  apart : m.item ≠ m.fromItem
  style : styleOf g m.item = styleOf g m.fromItem
  fresh : m.ev.act ∉ g.acts
  claimed : m.ev.act ∈ g'.acts
  same : SameRecords g g'
  cards : ∀ l t, cardOf rank g m.item l m.ev.submittedAt = .ok t → cardOf rank g' m.item l m.ev.submittedAt = .ok t

theorem prepare_cases {p : Option Log} (h : prepare rank g m = .ok p) :
    (p = none ∧ m.ev.act ∈ g.acts) ∨ ∃ g', p = some g' ∧ Prepared rank g m g' := by
  unfold prepare at h
  split_ifs at h with hlevels hitem
  obtain ⟨u,hfamily,h⟩ := bind_ok h
  split at h
  · next hclaim =>
    cases h
    unfold Log.claim at hclaim
    split_ifs at hclaim with hold
    exact Or.inl ⟨rfl,hold⟩
  · next g₁ hclaim =>
    obtain ⟨g₂,hpacks,h⟩ := bind_ok h
    cases h
    obtain ⟨hfresh,rfl⟩ := claim_eq_some hclaim
    obtain ⟨hsame,hcards⟩ := samePacks_facts hpacks
    refine Or.inr ⟨g₂,rfl,Ne.symm hitem,family_style hfamily,hfresh,?_,(claim_sameRecords hclaim).trans hsame,?_⟩
    · exact hsame.acts _ (List.mem_append_right _ (List.mem_singleton_self _))
    · exact fun l t hcard => hcards l t hcard

theorem showing_congr (h : SameRecords g g') (e : Event) : g'.Showing e ↔ g.Showing e := by
  unfold Log.Showing Log.Live Log.Unmoved
  rw [h.figures,h.images,h.moves]

theorem firstEvent_congr (h : SameRecords g g') (e : Uuid) : g'.firstEvent e = g.firstEvent e := by
  rw [Log.firstEvent,Log.firstEvent,h.events]

theorem Prepared.ahead (h : Prepared rank g m g') (hg : g.Sound) (ls : List Level) : Ahead g' m ls := by
  intro e he hact
  rw [h.same.events] at he
  exact absurd (hact ▸ hg.eventActs e he) h.fresh

theorem Prepared.filed (h : Prepared rank g m g') {e : Event} (hfiled : FiledAlready rank g m l e) :
    FiledAlready rank g' m l e := by
  obtain ⟨d,hd,hfrom,hcard⟩ := hfiled
  exact ⟨d,by rw [h.same.events]; exact hd,hfrom,h.cards l _ hcard⟩

theorem Prepared.clear (h : Prepared rank g m g') (hclear : Clear rank g m ls) : Clear rank g' m ls := by
  intro l hl e he hon hshow
  rw [h.same.events] at he ⊢
  rcases hclear l hl e he hon ((showing_congr h.same e).mp hshow) with hfiled | ⟨honce,hall⟩
  · exact Or.inl (h.filed hfiled)
  · refine Or.inr ⟨honce,fun d hd hcard hshowing => ?_⟩
    rw [firstEvent_congr h.same,firstEvent_congr h.same]
    exact hall d hd hcard ((showing_congr h.same d).mp hshowing)

/-- A match either is a replay and does nothing, or copies card by card from what was
prepared. -/
theorem matchFamily_cases {out : Refiled × Log} (h : matchFamily rank g m = .ok out) :
    (m.ev.act ∈ g.acts ∧ out = (⟨0,0,true⟩,g)) ∨ ∃ g' st, Prepared rank g m g' ∧
      matchLevels rank m ⟨g',0,0,false⟩ m.levels = .ok st ∧ out = (⟨st.figures,st.photos,false⟩,st.log) := by
  unfold matchFamily at h
  obtain ⟨p,hprepare,h⟩ := bind_ok h
  rcases prepare_cases hprepare with ⟨rfl,hold⟩ | ⟨g',rfl,hprepared⟩
  · exact Or.inl ⟨hold,(Except.ok.inj h).symm⟩
  · obtain ⟨st,hlevels,h⟩ := bind_ok h
    split_ifs at h
    exact Or.inr ⟨g',st,hprepared,hlevels,(Except.ok.inj h).symm⟩

theorem matchFamily_kept (hk : Kept g₀ g) (hok : FilesOnlyNew rank g (.matching m)) {out : Refiled × Log}
    (h : matchFamily rank g m = .ok out) :
    Kept g₀ out.2 ∧ (∀ e ∈ g.events, e ∈ out.2.events) ∧
      (m.ev.act ∉ g.acts → ∀ l ∈ m.levels, Passed out.2 m.fromItem m.item l) := by
  rcases matchFamily_cases h with ⟨hold,rfl⟩ | ⟨g',st,hp,hlevels,rfl⟩
  · exact ⟨hk,fun _ he => he,fun hfresh => absurd hold hfresh⟩
  · have hclear : Clear rank g m m.levels := hok.resolve_left hp.fresh
    have hstyle : styleOf g₀ m.item = styleOf g₀ m.fromItem := by
      have hsame := hp.style
      unfold styleOf at hsame ⊢
      rwa [hk.items] at hsame
    obtain ⟨hk',hmono,hall,-⟩ :=
      matchLevels_kept hp.apart hstyle (hk.same hp.same) hp.claimed (hp.ahead hk.sound _) (hp.clear hclear) hlevels
    refine ⟨hk',fun e he => hmono e ?_,fun _ => hall⟩
    rw [hp.same.events]
    exact he

theorem step_kept (hk : Kept g₀ g) {q : Request} (hok : FilesOnlyNew rank g q) (h : step rank g q = some g') :
    Kept g₀ g' ∧ ∀ e ∈ g.events, e ∈ g'.events := by
  cases q with
  | matching m =>
    obtain ⟨out,hout,rfl⟩ := accepted_eq_some h
    obtain ⟨hk',hmono,-⟩ := matchFamily_kept hk hok hout
    exact ⟨hk',hmono⟩
  | carton r =>
    obtain ⟨out,hout,rfl⟩ := accepted_eq_some h
    have hsame := sayCarton_sameRecords hout
    exact ⟨hk.same hsame,fun e he => by rw [hsame.events]; exact he⟩

/-- In the run a match that was no replay took what one item had at a level to another. -/
def MatchedIn (rank : Uuid → ℕ) (g₀ : Log) (qs : List Request) (fromItem item : Uuid) (level : Level) : Prop :=
  ∃ before m after g, qs = before++.matching m :: after ∧ Runs.run (step rank) g₀ before = some g ∧
    m.ev.act ∉ g.acts ∧ m.fromItem = fromItem ∧ m.item = item ∧ level ∈ m.levels

/-- What was there at the beginning and was matched is there where it was taken. -/
theorem matchedIn_passed (h₀ : g₀.Begun) {qs : List Request} (hrun : Runs.run (step rank) g₀ qs = some g)
    (hok : Runs.Meets (step rank) (FilesOnlyNew rank) g₀ qs) {fromItem item : Uuid}
    (h : MatchedIn rank g₀ qs fromItem item l) {s : Event} (hs : s ∈ g₀.events)
    (hcard : s.observable.OnCard fromItem l) (hshow : g₀.Showing s) :
    ∃ d ∈ g.events, d.derivedFrom = some s.id ∧ d.observable.OnCard item l := by
  obtain ⟨before,m,after,t,rfl,hbefore,hfresh,rfl,rfl,hl⟩ := h
  obtain ⟨hmeets,hrest⟩ := hok.append hbefore
  have hkt : Kept g₀ t := Runs.run_keeps (kept_start h₀) (fun _ _ _ hk hq hstep => (step_kept hk hq hstep).1) hmeets hbefore
  obtain ⟨t',hbefore',hafter⟩ := Runs.run_append.mp hrun
  obtain rfl : t = t' := Option.some.inj (hbefore.symm.trans hbefore')
  obtain ⟨t₁,hone,hlast⟩ := Runs.run_cons.mp hafter
  obtain ⟨out,hout,rfl⟩ := accepted_eq_some hone
  obtain ⟨hk₁,-,hpassed⟩ := matchFamily_kept hkt hrest.1 hout
  obtain ⟨hmem,hstill,-⟩ := hk₁.still s hs
  obtain ⟨d,hd,hall⟩ := hpassed hfresh l hl s hmem hcard (hstill hshow)
  have hkeep : Kept g₀ g ∧ d ∈ g.events := by
    refine @Runs.run_keeps _ _ _ _ (fun t => Kept g₀ t ∧ d ∈ t.events) _ _ _ ⟨hk₁,hd⟩ ?_ (hrest.2 _ hone) hlast
    rintro t q t' ⟨hkt,hdt⟩ hq hstep
    obtain ⟨hk',hmono⟩ := step_kept hkt hq hstep
    exact ⟨hk',hmono d hdt⟩
  exact ⟨d,hkeep.2,hall⟩

/-- Everything a match would copy has been copied, where everyone of the family with
anything was matched before and it brings only what is new. -/
theorem all_filed (h₀ : g₀.Begun) {qs : List Request} (hrun : Runs.run (step rank) g₀ qs = some g)
    (hok : Runs.Meets (step rank) (FilesOnlyNew rank) g₀ qs) (hclear : Clear rank g m m.levels)
    (hstyle : styleOf g₀ m.item = styleOf g₀ m.fromItem)
    (hall : ∀ c, c ≠ m.item → styleOf g₀ c = styleOf g₀ m.item → ∀ l ∈ m.levels, g₀.holds c l = true →
      MatchedIn rank g₀ qs c m.item l) :
    ∀ l ∈ m.levels, ∀ e ∈ g.events, e.observable.OnCard m.fromItem l → g.Showing e → FiledAlready rank g m l e := by
  have hk : Kept g₀ g := Runs.run_keeps (kept_start h₀) (fun _ _ _ hk hq hstep => (step_kept hk hq hstep).1) hok hrun
  intro l hl e he hon hshow
  refine (hclear l hl e he hon hshow).resolve_right ?_
  rintro ⟨-,hapart⟩
  obtain ⟨s,hs,hshows,hlevel,hsame,hfirst⟩ := hk.roots e he hshow
  obtain ⟨hmem,hstill,hfirst'⟩ := hk.still s hs
  have hslevel : s.observable.level = l := hlevel.trans hon.2
  by_cases hitem : s.observable.item = m.item
  · -- it was recorded on the very card
    exact hapart s hmem ⟨hitem,hslevel⟩ (hstill hshows) (hfirst'.trans hfirst.symm)
  · -- it came there from where it was recorded
    have hs' : styleOf g₀ s.observable.item = styleOf g₀ m.item := by rw [hsame,hon.1,hstyle]
    have hholds : g₀.holds s.observable.item l = true := holds_of_showing h₀.sound hs ⟨rfl,hslevel⟩ hshows
    obtain ⟨d,hd,hfrom,hcard⟩ :=
      matchedIn_passed h₀ hrun hok (hall _ hitem hs' l hl hholds) hs ⟨rfl,hslevel⟩ hshows
    obtain ⟨hshowd,hfirstd,-⟩ := hk.filed s hmem (hstill hshows) d hd hfrom
    exact hapart d hd hcard hshowd (hfirstd.trans (hfirst'.trans hfirst.symm))

end

/-- In a run whose every match brings only what is new, no card holds two live figures of
one recorded figure; after a match every figure live on a card matched has a copy live on
the same card; and a match to an item everyone of whose family was matched to it before
adds no figure and no photograph. -/
theorem matching_brings_new {g₀ g : Log} {qs : List Request} (h₀ : g₀.Begun)
    (hrun : Runs.run (step rank) g₀ qs = some g) (hok : Runs.Meets (step rank) (FilesOnlyNew rank) g₀ qs) :
    NoneTwice g ∧
    ∀ m out, matchFamily rank g m = .ok out → FilesOnlyNew rank g (.matching m) → m.ev.act ∉ g.acts →
      (∀ l ∈ m.levels, Brought out.2 m.fromItem m.item l) ∧
      ((∀ c, c ≠ m.item → styleOf g₀ c = styleOf g₀ m.item → ∀ l ∈ m.levels, g₀.holds c l = true →
          MatchedIn rank g₀ qs c m.item l) →
        out.1.figures = 0 ∧ out.1.photos = 0 ∧ out.2.figures = g.figures ∧ out.2.images = g.images) := by
  have hk : Kept g₀ g := Runs.run_keeps (kept_start h₀) (fun _ _ _ hk hq hstep => (step_kept hk hq hstep).1) hok hrun
  refine ⟨hk.noneTwice h₀,fun m out hout hnew hfresh => ⟨?_,fun hall => ?_⟩⟩
  · obtain ⟨hk',-,hpassed⟩ := matchFamily_kept hk hnew hout
    exact fun l hl => hk'.brought (hpassed hfresh l hl)
  · rcases matchFamily_cases hout with ⟨hold,-⟩ | ⟨g',st,hp,hlevels,rfl⟩
    · exact absurd hold hfresh
    · have hstyle : styleOf g₀ m.item = styleOf g₀ m.fromItem := by
        have hsame := hp.style
        unfold styleOf at hsame ⊢
        rwa [hk.items] at hsame
      have hfiled := all_filed h₀ hrun hok (hnew.resolve_left hfresh) hstyle hall
      have hfiled' : ∀ l ∈ m.levels, ∀ e ∈ g'.events, e.observable.OnCard m.fromItem l → g'.Showing e →
          FiledAlready rank g' m l e := by
        intro l hl e he hon hshow
        rw [hp.same.events] at he
        exact hp.filed (hfiled l hl e he hon ((showing_congr hp.same e).mp hshow))
      obtain ⟨hfigures,hphotos,hf,hi⟩ :=
        matchLevels_nothing (hp.same.sound hk.sound) (hp.ahead hk.sound _) hfiled' hp.claimed hlevels
      exact ⟨hfigures,hphotos,hf.trans hp.same.figures,hi.trans hp.same.images⟩

/-! ## A family of three -/

/-- Three of a family, the first weighed and photographed. -/
def oneWeighed : Log where
  items := [⟨1,some 9⟩,⟨2,some 9⟩,⟨3,some 9⟩]
  packs := []
  acts := [.sent 0]
  events := [⟨10,.sent 0,⟨1,.each,none⟩,5,5,7,none,.keyed,.keyed,none,none⟩]
  figures := [⟨20,10,⟨1,.each,none⟩,5,.sent 0,30,⟨some (.numeric 4),none,none,none,none⟩,none,none,none⟩]
  acceptances := []
  images := [⟨40,10,.front,"a",5,none⟩]
  cuts := []
  moves := []
  asSupplied := none
  drawn := 100

theorem oneWeighed_begun : oneWeighed.Begun := by
  refine begun_of_underived ⟨?_,?_,?_,?_,?_,?_,?_,?_,?_,?_,?_⟩ ?_ ?_ <;> decide

/-- The first to the third, round by the second and then straight. -/
def roundAndStraight : List Request :=
  [.matching ⟨2,1,[.each],⟨.sent 1,7,50,60⟩⟩,.matching ⟨3,2,[.each],⟨.sent 2,7,51,61⟩⟩,
    .matching ⟨3,1,[.each],⟨.sent 3,7,52,62⟩⟩]

/-- A card matched round and straight holds two live figures copied from one. -/
theorem copied_twice : ∃ g₀ qs g, g₀.Begun ∧ Runs.run (step id) g₀ qs = some g ∧ CopiedTwice g := by
  obtain ⟨g,hrun,htest⟩ := Runs.run_passes (fun g => decide (CopiedTwice g))
    (o := Runs.run (step id) oneWeighed roundAndStraight) (by decide +kernel)
  exact ⟨oneWeighed,roundAndStraight,g,oneWeighed_begun,hrun,of_decide_eq_true htest⟩

/-- The second matched to the first, and then again. -/
theorem matching_brings_new_again : ∃ g, Runs.run (step id) oneWeighed (roundAndStraight.take 1) = some g ∧
    NoneTwice g ∧ ∃ out, matchFamily id g ⟨2,1,[.each],⟨.sent 4,7,53,63⟩⟩ = .ok out ∧
      Brought out.2 1 2 .each ∧ out.1.figures = 0 ∧ out.1.photos = 0 := by
  obtain ⟨g,hrun,htest⟩ := Runs.run_passes (fun g => decide (FilesOnlyNew id g (.matching ⟨2,1,[.each],⟨.sent 4,7,53,63⟩⟩) ∧
      .sent 4 ∉ g.acts ∧ (matchFamily id g ⟨2,1,[.each],⟨.sent 4,7,53,63⟩⟩).isOk = true))
    (o := Runs.run (step id) oneWeighed (roundAndStraight.take 1)) (by decide +kernel)
  obtain ⟨hnew,hfresh,hok⟩ := of_decide_eq_true htest
  obtain ⟨htwice,hall⟩ := matching_brings_new id oneWeighed_begun hrun (by decide +kernel)
  cases hout : matchFamily id g ⟨2,1,[.each],⟨.sent 4,7,53,63⟩⟩ with
  | error e =>
    rw [hout] at hok
    cases hok
  | ok out =>
    obtain ⟨hbrought,hnothing⟩ := hall _ out hout hnew hfresh
    refine ⟨g,hrun,htwice,out,hout,hbrought .each (by simp),?_⟩
    have hfirst : ∀ c, c ≠ 2 → styleOf oneWeighed c = styleOf oneWeighed 2 → ∀ l ∈ [Level.each],
        oneWeighed.holds c l = true → MatchedIn id oneWeighed (roundAndStraight.take 1) c 2 l := by
      intro c _ hstyle l hl hholds
      obtain rfl := List.mem_singleton.mp hl
      -- the first is the only one with anything
      obtain rfl : c = 1 := by
        by_contra hne
        have hnone : oneWeighed.holds c .each = false := by
          simp [Log.holds,Log.firstRecorded,Log.liveOn,Log.unmovedOn,oneWeighed,Observable.OnCard,Ne.symm hne]
        rw [hnone] at hholds
        cases hholds
      exact ⟨[],_,[],oneWeighed,rfl,rfl,by decide,rfl,rfl,by simp⟩
    obtain ⟨hfigures,hphotos,-,-⟩ := hnothing hfirst
    exact ⟨hfigures,hphotos⟩

end Refile
end Spork
