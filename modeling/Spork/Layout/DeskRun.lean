import Spork.Layout.Desk
import Spork.Lib.Runs

/-! What the plan editor holds in every state it comes to, whatever is done in it, undone or done
elsewhere: what it sends can be told apart, takes away nothing that held anything, and one
undo takes one change back. -/
namespace Spork
namespace Layout
namespace Desk

open Edit (Uuid Row Bin Plan LayoutEdit)
open UndoStack (lastOf mem_lastOf length_lastOf)

/-- The editor's places, against the layout they were read from. -/
structure Drawn (view : LayoutView) (drafts : List Draft) : Prop where
  ids : (drafts.map Draft.placeId).Nodup
  read : ∀ d ∈ drafts, ∀ p ∈ draftsOf view, p.placeId = d.placeId →
    d.parentId = p.parentId ∧ d.bins = p.bins ∧ d.holds = none
  /-- One that was drawn here is in a place that is in none, and stays. -/
  made : ∀ d ∈ drafts, d.placeId ∉ view.places.map LayoutPlace.placeId →
    (∀ q ∈ d.parentId, ∃ r ∈ drafts, r.placeId = q ∧ r.parentId = none) ∧ d.bays = 1 ∧ d.fromRight = false
  gone : ∀ p ∈ draftsOf view, p.placeId ∉ drafts.map Draft.placeId → p.bins = 0 ∧ p.parentId ≠ none
  spots : (drafts.filterMap fun d => d.holds.map Prod.fst).Nodup
  named : ∀ d ∈ drafts, ∀ h ∈ d.holds, d.name = h.2
  upright : ∀ d ∈ drafts, Upright d.box

/-- What is changed of a place leaves the rest of it. -/
structure Keeps (d d' : Draft) : Prop where
  placeId : d'.placeId = d.placeId
  parentId : d'.parentId = d.parentId
  bays : d'.bays = d.bays
  bins : d'.bins = d.bins
  holds : d'.holds = d.holds
  fromRight : d'.fromRight = d.fromRight ∨ 1 < d.bays
  name : d'.name = d.name ∨ d.holds = none
  upright : Upright d.box → Upright d'.box

variable {view : LayoutView} {drafts : List Draft} {s : PlanDesk} {lower : String → String}

theorem Keeps.refl (d : Draft) : Keeps d d := ⟨rfl,rfl,rfl,rfl,rfl,Or.inl rfl,Or.inl rfl,id⟩

theorem draftsOf_ids (view : LayoutView) : (draftsOf view).map Draft.placeId = view.places.map LayoutPlace.placeId :=
  List.map_map

/-- Only the places of the layout tell. -/
theorem Drawn.congr {view' : LayoutView} (hplaces : view'.places = view.places) (h : Drawn view drafts) : Drawn view' drafts := by
  have hdrafts : draftsOf view' = draftsOf view := by
    rw [draftsOf,draftsOf,hplaces]
  refine ⟨h.ids,?_,?_,?_,h.spots,h.named,h.upright⟩
  · rw [hdrafts]
    exact h.read
  · rw [hplaces]
    exact h.made
  · rw [hdrafts]
    exact h.gone

theorem Drawn.map (h : Drawn view drafts) {f : Draft → Draft} (hf : ∀ d ∈ drafts, Keeps d (f d)) : Drawn view (drafts.map f) := by
  have hids : (drafts.map f).map Draft.placeId = drafts.map Draft.placeId := by
    rw [List.map_map]
    exact List.map_congr_left fun d hd => (hf d hd).placeId
  refine ⟨by rw [hids]; exact h.ids,?_,?_,fun p hp hgone => h.gone p hp (by rwa [hids] at hgone),?_,?_,?_⟩
  · intro d' hd' p hp hid
    obtain ⟨d,hd,rfl⟩ := List.mem_map.mp hd'
    obtain ⟨hparent,hbins,hholds⟩ := h.read d hd p hp (hid.trans (hf d hd).placeId)
    exact ⟨(hf d hd).parentId.trans hparent,(hf d hd).bins.trans hbins,(hf d hd).holds.trans hholds⟩
  · intro d' hd' hnew
    obtain ⟨d,hd,rfl⟩ := List.mem_map.mp hd'
    rw [(hf d hd).placeId] at hnew
    obtain ⟨hin,hbays,hend⟩ := h.made d hd hnew
    refine ⟨fun q hq => ?_,(hf d hd).bays.trans hbays,?_⟩
    · rw [(hf d hd).parentId] at hq
      obtain ⟨r,hr,rfl,hout⟩ := hin q hq
      exact ⟨f r,List.mem_map_of_mem hr,(hf r hr).placeId,(hf r hr).parentId.trans hout⟩
    · rcases (hf d hd).fromRight with hsame | hwide
      · exact hsame.trans hend
      · omega
  · rw [List.filterMap_map]
    have hspots : drafts.filterMap ((fun d => d.holds.map Prod.fst) ∘ f) = drafts.filterMap fun d => d.holds.map Prod.fst :=
      List.filterMap_congr fun d hd => congrArg (Option.map Prod.fst) (hf d hd).holds
    rw [hspots]
    exact h.spots
  · intro d' hd' hold hhold
    obtain ⟨d,hd,rfl⟩ := List.mem_map.mp hd'
    rw [(hf d hd).holds] at hhold
    rcases (hf d hd).name with hsame | hnone
    · exact hsame.trans (h.named d hd hold hhold)
    · rw [hnone] at hhold
      cases hhold
  · intro d' hd'
    obtain ⟨d,hd,rfl⟩ := List.mem_map.mp hd'
    exact (hf d hd).upright (h.upright d hd)

theorem Drawn.remove (h : Drawn view drafts) {placeId : Uuid}
    (hfree : ∀ d ∈ drafts, d.placeId = placeId → d.bins = 0 ∧ d.parentId ≠ none) :
    Drawn view (drafts.filter fun d => d.placeId ≠ placeId) := by
  have hsub : (drafts.filter fun d => d.placeId ≠ placeId).Sublist drafts := List.filter_sublist
  have hmem {d : Draft} : d ∈ drafts.filter (fun d => d.placeId ≠ placeId) ↔ d ∈ drafts ∧ d.placeId ≠ placeId := by
    simp
  refine ⟨(hsub.map _).nodup h.ids,fun d hd => h.read d (hsub.subset hd),fun d hd hnew => ?_,fun p hp hgone => ?_,
    (hsub.filterMap _).nodup h.spots,fun d hd => h.named d (hsub.subset hd),fun d hd => h.upright d (hsub.subset hd)⟩
  · obtain ⟨hin,hbays,hend⟩ := h.made d (hsub.subset hd) hnew
    refine ⟨fun q hq => ?_,hbays,hend⟩
    obtain ⟨r,hr,rfl,hout⟩ := hin q hq
    exact ⟨r,hmem.mpr ⟨hr,fun hid => (hfree r hr hid).2 hout⟩,rfl,hout⟩
  · by_cases hthere : p.placeId ∈ drafts.map Draft.placeId
    · obtain ⟨d,hd,hid⟩ := List.mem_map.mp hthere
      obtain ⟨hparent,hbins,-⟩ := h.read d hd p hp hid.symm
      have hplace : d.placeId = placeId := by
        by_contra hne
        exact hgone (hid ▸ List.mem_map_of_mem (hmem.mpr ⟨hd,hne⟩))
      rw [← hparent,← hbins]
      exact hfree d hd hplace
    · exact h.gone p hp hthere

/-- What a place drawn in the editor is. -/
structure Fresh (view : LayoutView) (drafts : List Draft) (d : Draft) : Prop where
  new : d.placeId ∉ drafts.map Draft.placeId
  unread : d.placeId ∉ view.places.map LayoutPlace.placeId
  parentId : d.parentId = parentId drafts
  bays : d.bays = 1
  fromRight : d.fromRight = false
  spot : ∀ h ∈ d.holds, d.name = h.2 ∧ ∀ r ∈ drafts, r.holds.map Prod.fst ≠ some h.1
  upright : Upright d.box

theorem Drawn.concat (h : Drawn view drafts) {d : Draft} (hd : Fresh view drafts d) : Drawn view (drafts++[d]) := by
  have hmem {r : Draft} : r ∈ drafts++[d] ↔ r ∈ drafts ∨ r = d := by
    rw [List.mem_append,List.mem_singleton]
  have hleft {r : Draft} (hr : r ∈ drafts) : r ∈ drafts++[d] := List.mem_append_left _ hr
  refine ⟨?_,?_,?_,fun p hp hgone => ?_,?_,?_,?_⟩
  · rw [List.map_append,List.nodup_append_comm]
    exact List.nodup_cons.mpr ⟨hd.new,h.ids⟩
  · intro r hr p hp hid
    rcases hmem.mp hr with hr | rfl
    · exact h.read r hr p hp hid
    · refine absurd ?_ hd.unread
      rw [← hid,← draftsOf_ids]
      exact List.mem_map_of_mem hp
  · intro r hr hnew
    rcases hmem.mp hr with hr | rfl
    · obtain ⟨hin,hrest⟩ := h.made r hr hnew
      refine ⟨fun q hq => ?_,hrest⟩
      obtain ⟨o,ho,hid,hout⟩ := hin q hq
      exact ⟨o,hleft ho,hid,hout⟩
    · refine ⟨fun q hq => ?_,hd.bays,hd.fromRight⟩
      rw [hd.parentId] at hq
      obtain ⟨o,ho,rfl⟩ := Option.map_eq_some_iff.mp hq
      exact ⟨o,hleft (List.mem_of_find?_eq_some ho),rfl,by simpa using List.find?_some ho⟩
  · refine h.gone p hp fun hthere => hgone ?_
    rw [List.map_append]
    exact List.mem_append_left _ hthere
  · rw [List.filterMap_append,List.nodup_append]
    refine ⟨h.spots,?_,fun a ha b hb hab => ?_⟩
    · cases hholds : d.holds <;> simp [hholds]
    · obtain ⟨r,hr,hra⟩ := List.mem_filterMap.mp ha
      obtain ⟨d',hd',hdb⟩ := List.mem_filterMap.mp hb
      obtain rfl := List.mem_singleton.mp hd'
      obtain ⟨hold,hhold,rfl⟩ := Option.map_eq_some_iff.mp hdb
      exact (hd.spot hold hhold).2 r hr (hab ▸ hra)
  · intro r hr hold hhold
    rcases hmem.mp hr with hr | rfl
    · exact h.named r hr hold hhold
    · exact (hd.spot hold hhold).1
  · intro r hr
    rcases hmem.mp hr with hr | rfl
    · exact h.upright r hr
    · exact hd.upright

/-- The layout as it is read. -/
theorem drawn_draftsOf (hids : (view.places.map LayoutPlace.placeId).Nodup) (hupright : ∀ p ∈ view.places, Upright p.box) :
    Drawn view (draftsOf view) := by
  have hnodup : ((draftsOf view).map Draft.placeId).Nodup := by
    rwa [draftsOf_ids]
  have hnone {d : Draft} (hd : d ∈ draftsOf view) : d.holds = none := by
    obtain ⟨p,-,rfl⟩ := List.mem_map.mp hd
    rfl
  refine ⟨hnodup,fun d hd p hp hid => ?_,fun d hd hnew => absurd ?_ hnew,fun p hp hgone => absurd ?_ hgone,?_,?_,?_⟩
  · obtain rfl : p = d := List.inj_on_of_nodup_map hnodup hp hd hid
    exact ⟨rfl,rfl,hnone hd⟩
  · rw [← draftsOf_ids]
    exact List.mem_map_of_mem hd
  · exact List.mem_map_of_mem hp
  · rw [List.filterMap_eq_nil_iff.mpr fun d hd => by rw [hnone hd]; rfl]
    exact List.nodup_nil
  · intro d hd hold hhold
    rw [hnone hd] at hhold
    cases hhold
  · intro d hd
    obtain ⟨p,hp,rfl⟩ := List.mem_map.mp hd
    exact hupright p hp

/-! ## The editor over any acts -/

theorem keeps_apply {c : Change} {d : Draft} (hname : ∀ next, c = .name next → d.holds = none)
    (hend : ∀ next, c = .fromRight next → 1 < d.bays) (hbox : ∀ next, c = .box next → ∀ b, Upright b → Upright (next b)) :
    Keeps d (c.apply d) := by
  cases c with
  | name next => exact ⟨rfl,rfl,rfl,rfl,rfl,Or.inl rfl,Or.inr (hname next rfl),id⟩
  | solid next => exact ⟨rfl,rfl,rfl,rfl,rfl,Or.inl rfl,Or.inl rfl,id⟩
  | fromRight next => exact ⟨rfl,rfl,rfl,rfl,rfl,Or.inr (hend next rfl),Or.inl rfl,id⟩
  | box next => exact ⟨rfl,rfl,rfl,rfl,rfl,Or.inl rfl,Or.inl rfl,hbox next rfl d.box⟩

theorem keeps_boxed {boxes : Uuid → Option (PlaceBox ℚ)} (hboxes : ∀ id, ∀ b ∈ boxes id, Upright b) (d : Draft) :
    Keeps d (boxed boxes d) := by
  refine ⟨rfl,rfl,rfl,rfl,rfl,Or.inl rfl,Or.inl rfl,fun hd => ?_⟩
  show Upright ((boxes d.placeId).getD d.box)
  cases hbox : boxes d.placeId with
  | none => exact hd
  | some b => exact hboxes d.placeId b hbox

theorem upright_zero (x y z l d h : ℚ) : Upright ⟨x,y,z,l,d,h,0⟩ := ⟨0,le_rfl,by norm_num,by norm_num⟩

/-- The editor as it stands, and as it can be undone or done again to. -/
structure Sane (s : PlanDesk) : Prop where
  opened : Drawn s.view (draftsOf s.view)
  drafts : Drawn s.view s.drafts
  past : ∀ ds ∈ s.past, Drawn s.view ds
  future : ∀ ds ∈ s.future, Drawn s.view ds
  few : s.past.length+s.future.length ≤ 100

theorem Sane.step (h : Sane s) {next : List Draft} (hnext : Drawn s.view next) : Sane (s.step next) := by
  refine ⟨h.opened,hnext,fun ds hds => ?_,fun ds hds => absurd hds List.not_mem_nil,?_⟩
  · rcases List.mem_append.mp hds with hold | hlast
    · exact h.past ds (mem_lastOf hold)
    · rw [List.mem_singleton.mp hlast]
      exact h.drafts
  · show (lastOf 99 s.past++[s.drafts]).length+0 ≤ 100
    have := length_lastOf 99 s.past
    rw [List.length_append,List.length_singleton]
    omega

theorem act_view (s : PlanDesk) (a : Act) : (s.act lower a).view.places = s.view.places ∧ (s.act lower a).view.version = s.view.version := by
  cases a with
  | placeBin =>
    simp only [PlanDesk.act]
    split <;> exact ⟨rfl,rfl⟩
  | undo =>
    simp only [PlanDesk.act]
    split <;> exact ⟨rfl,rfl⟩
  | redo =>
    simp only [PlanDesk.act]
    split <;> exact ⟨rfl,rfl⟩
  | _ => exact ⟨rfl,rfl⟩

/-- Any act the page offers leaves the editor sane. -/
theorem Sane.act (h : Sane s) {a : Act} (ha : Offered s a) : Sane (s.act lower a) := by
  cases a with
  | change placeIds next =>
    refine h.step (h.drafts.map fun d hd => ?_)
    split
    · rename_i hin
      refine keeps_apply ?_ ?_ ?_
      · rintro next rfl
        exact ha d hd hin
      · rintro next rfl
        exact ha d hd hin
      · rintro next rfl
        exact ha
    · exact Keeps.refl d
  | place boxes => exact h.step (h.drafts.map fun d _ => keeps_boxed ha d)
  | begin => exact h.step h.drafts
  | drag boxes => exact ⟨h.opened,h.drafts.map fun d _ => keeps_boxed ha d,h.past,h.future,h.few⟩
  | add preset placeId x y =>
    refine h.step (h.drafts.concat ⟨ha.1,ha.2,rfl,rfl,rfl,fun hold hhold => ?_,upright_zero ..⟩)
    cases hhold
  | placeBin location code placeId x y =>
    simp only [PlanDesk.act]
    split
    · exact h
    · rename_i hnone
      refine h.step (h.drafts.concat ⟨ha.1,ha.2,rfl,rfl,rfl,fun hold hhold => ?_,upright_zero ..⟩)
      cases hhold
      refine ⟨rfl,fun r hr heq => hnone ?_⟩
      exact List.any_eq_true.mpr ⟨r,hr,decide_eq_true heq⟩
  | remove placeId => exact h.step (h.drafts.remove ha)
  | undo =>
    simp only [PlanDesk.act]
    split
    · exact h
    · rename_i before hlast
      have hsplit : s.past = s.past.dropLast++[before] := (List.dropLast_append_getLast? before hlast).symm
      refine ⟨h.opened,h.past before (List.mem_of_getLast? hlast),fun ds hds => h.past ds (List.dropLast_subset _ hds),
        List.forall_mem_cons.mpr ⟨h.drafts,h.future⟩,?_⟩
      have hfew := h.few
      rw [hsplit,List.length_append,List.length_singleton] at hfew
      show s.past.dropLast.length+(s.future.length+1) ≤ 100
      omega
  | redo =>
    simp only [PlanDesk.act]
    split
    · exact h
    · rename_i after future hfuture
      have hfew := h.few
      have hnext := h.future
      rw [hfuture] at hfew hnext
      refine ⟨h.opened,hnext after List.mem_cons_self,?_,fun ds hds => hnext ds (List.mem_cons_of_mem _ hds),?_⟩
      · intro ds hds
        rcases List.mem_append.mp hds with hold | hlast
        · exact h.past ds hold
        · rw [List.mem_singleton.mp hlast]
          exact h.drafts
      · show (s.past++[s.drafts]).length+future.length ≤ 100
        rw [List.length_append,List.length_singleton]
        rw [List.length_cons] at hfew
        omega
  | measureInMetres =>
    have hsame {ds : List Draft} (hds : Drawn s.view ds) : Drawn {s.view with cellMm := some 1000} ds := by
      refine hds.congr ?_
      rfl
    exact ⟨hsame h.opened,hsame h.drafts,fun ds hds => hsame (h.past ds hds),fun ds hds => hsame (h.future ds hds),h.few⟩
  | discard => exact h.step h.opened

/-! ## The editor and the server over any run -/

variable {version : List Row → String} {w w' : World} {plan : Plan} {cellMm : Option ℕ}

/-- What is so in every state of the editor and the server. -/
structure Inv (version : List Row → String) (w : World) : Prop where
  plan : Kept w.plan
  read : Kept w.read
  places : w.desk.view.places = w.read.places.map (layoutPlace w.read.bins)
  version : w.desk.view.version = version w.read.places
  desk : Sane w.desk

theorem siteLayout_ids (version : List Row → String) (cellMm : Option ℕ) (plan : Plan) :
    (siteLayout version cellMm plan).places.map LayoutPlace.placeId = plan.places.map Row.id := List.map_map

theorem sane_load (version : List Row → String) (cellMm : Option ℕ) (h : Kept plan) :
    Sane (load (siteLayout version cellMm plan)) := by
  have hdrawn : Drawn (siteLayout version cellMm plan) (draftsOf (siteLayout version cellMm plan)) := by
    refine drawn_draftsOf (by rw [siteLayout_ids]; exact h.sound.ids) fun p hp => ?_
    obtain ⟨r,hr,rfl⟩ := List.mem_map.mp hp
    exact h.upright r hr
  exact ⟨hdrawn,hdrawn,fun ds hds => absurd hds List.not_mem_nil,fun ds hds => absurd hds List.not_mem_nil,Nat.zero_le _⟩

theorem inv_load (version : List Row → String) (cellMm : Option ℕ) (h : Kept plan) : Inv version (World.load version cellMm plan) :=
  ⟨h,h,rfl,rfl,sane_load version cellMm h⟩

/-! ### What a save sends -/

/-- What the editor sends: each list naming a place once, no place changed that is taken away,
and nothing taken away that held anything, or that what is made is in. -/
structure WellMade (read : Plan) (e : LayoutEdit) : Prop where
  once : Edit.Once e
  kept : ∀ c ∈ e.changed, c.placeId ∉ e.removed
  there : ∀ c ∈ e.changed, c.placeId ∈ read.places.map Row.id
  fresh : ∀ id ∈ e.added.map (·.placeId)++e.spots.map (·.placeId), id ∉ read.places.map Row.id
  empty : ∀ id ∈ e.removed, id ∈ read.places.map Row.id ∧ (∀ b ∈ read.bins, b.place ≠ some id) ∧
    ∀ p ∈ read.places, p.parentId ≠ some id
  inside : ∀ p ∈ e.added.filterMap (·.parentId)++e.spots.filterMap (·.parentId), p ∉ e.removed
  bins : (e.spots.map (·.locationId)).Nodup

section
variable (h : Inv version w)
include h

theorem Inv.read_ids : (draftsOf w.desk.view).map Draft.placeId = w.read.places.map Row.id := by
  rw [draftsOf_ids,h.places]
  exact List.map_map

/-- A place that was read, as the editor has it. -/
theorem Inv.draft_of {r : Row} (hr : r ∈ w.read.places) : ∃ p ∈ draftsOf w.desk.view, p.placeId = r.id ∧ p.parentId = r.parentId ∧
    p.name = r.name ∧ p.solid = r.solid ∧ p.box = r.box ∧ p.fromRight = r.grid.fromRight ∧
    (p.bins = 0 → (∀ b ∈ w.read.bins, b.place ≠ some r.id) ∧ ∀ q ∈ w.read.places, q.parentId ≠ some r.id) := by
  refine ⟨_,List.mem_map_of_mem (by rw [h.places]; exact List.mem_map_of_mem hr),rfl,rfl,rfl,rfl,rfl,rfl,fun hnone => ?_⟩
  obtain ⟨hbins,hchildren⟩ := Nat.add_eq_zero_iff.mp hnone
  refine ⟨fun b hb hin => ?_,fun q hq hin => ?_⟩
  · exact List.countP_eq_zero.mp hbins b hb (Edit.isIn_iff.mpr hin)
  · have hmem : r.id ∈ w.desk.view.places.filterMap LayoutPlace.parentId := by
      rw [h.places]
      exact List.mem_filterMap.mpr ⟨layoutPlace w.read.bins q,List.mem_map_of_mem hq,hin⟩
    rw [if_pos (show (layoutPlace w.read.bins r).placeId ∈ w.desk.view.places.filterMap LayoutPlace.parentId from hmem)] at hchildren
    cases hchildren

theorem Inv.was_iff {id : Uuid} {p : Draft} : was w.desk.view id = some p ↔ p ∈ draftsOf w.desk.view ∧ p.placeId = id := by
  constructor
  · intro hwas
    exact ⟨List.mem_of_find?_eq_some hwas,by simpa using List.find?_some hwas⟩
  · rintro ⟨hp,rfl⟩
    cases hwas : was w.desk.view p.placeId with
    | none => exact absurd (decide_eq_true rfl) (List.find?_eq_none.mp hwas p hp)
    | some q =>
      have hq : q.placeId = p.placeId := by simpa using List.find?_some hwas
      have hids : ((draftsOf w.desk.view).map Draft.placeId).Nodup := by
        rw [h.read_ids]
        exact h.read.sound.ids
      rw [List.inj_on_of_nodup_map hids (List.mem_of_find?_eq_some hwas) hp hq]

theorem Inv.was_isNone {id : Uuid} : (was w.desk.view id).isNone = true ↔ id ∉ w.read.places.map Row.id := by
  rw [← h.read_ids,Option.isNone_iff_eq_none,was,List.find?_eq_none]
  simp

end

/-- What a save sends of each place. -/
theorem Inv.sent (h : Inv version w) :
    (∀ c, c ∈ (changesOf w.desk.view w.desk.drafts).changed ↔ ∃ d ∈ w.desk.drafts, ∃ p ∈ draftsOf w.desk.view,
      p.placeId = d.placeId ∧ differs p d = true ∧ c = changedRow d) ∧
    (∀ a, a ∈ (changesOf w.desk.view w.desk.drafts).added ↔ ∃ d ∈ w.desk.drafts, d.placeId ∉ w.read.places.map Row.id ∧
      d.holds = none ∧ a = addedRow d) ∧
    (∀ t, t ∈ (changesOf w.desk.view w.desk.drafts).spots ↔ ∃ d ∈ w.desk.drafts, d.placeId ∉ w.read.places.map Row.id ∧
      ∃ hold, d.holds = some hold ∧ t = spotRow d hold.1) ∧
    ∀ id, id ∈ (changesOf w.desk.view w.desk.drafts).removed ↔ id ∈ w.read.places.map Row.id ∧ id ∉ w.desk.drafts.map Draft.placeId := by
  refine ⟨fun c => ?_,fun a => ?_,fun t => ?_,fun id => ?_⟩
  · simp only [changesOf,List.mem_filterMap,Option.bind_eq_some_iff,h.was_iff,Option.ite_none_right_eq_some,Option.some.injEq]
    constructor
    · rintro ⟨d,hd,p,⟨hp,hid⟩,hdiffers,rfl⟩
      exact ⟨d,hd,p,hp,hid,hdiffers,rfl⟩
    · rintro ⟨d,hd,p,hp,hid,hdiffers,rfl⟩
      exact ⟨d,hd,p,⟨hp,hid⟩,hdiffers,rfl⟩
  · simp only [changesOf,List.mem_filterMap,Option.ite_none_right_eq_some,Bool.and_eq_true,h.was_isNone,Option.isNone_iff_eq_none,
      Option.some.injEq,and_assoc,eq_comm (a := a)]
  · simp only [changesOf,List.mem_filterMap,Option.ite_none_right_eq_some,h.was_isNone,Option.map_eq_some_iff,eq_comm (a := t)]
  · simp only [changesOf,List.mem_filter,h.read_ids,decide_eq_true_eq]

/-- In every state what the editor sends is well made. -/
theorem Inv.wellMade (h : Inv version w) : WellMade w.read (changesOf w.desk.view w.desk.drafts) := by
  obtain ⟨hchanged,hadded,hspots,hremoved⟩ := h.sent
  have hdrawn := h.desk.drafts
  have hsub {α : Type} (f : Draft → Option α) (key : α → Uuid) (hkey : ∀ d a, f d = some a → key a = d.placeId) :
      ((w.desk.drafts.filterMap f).map key).Nodup := by
    have hlist : ∀ ds : List Draft, ((ds.filterMap f).map key).Sublist (ds.map Draft.placeId) := by
      intro ds
      induction ds with
      | nil => exact List.Sublist.refl _
      | cons d ds ih =>
        rw [List.filterMap_cons]
        split
        · exact ih.cons _
        · rename_i a ha
          rw [List.map_cons,List.map_cons,hkey d a ha]
          exact ih.cons_cons _
    exact (hlist _).nodup hdrawn.ids
  have hmade {d : Draft} (hd : d ∈ w.desk.drafts) (hnew : d.placeId ∉ w.read.places.map Row.id) {q : Uuid} (hq : q ∈ d.parentId) :
      q ∉ (changesOf w.desk.view w.desk.drafts).removed := by
    rw [← h.read_ids,draftsOf_ids] at hnew
    obtain ⟨r,hr,rfl,-⟩ := (hdrawn.made d hd hnew).1 q hq
    exact fun hgone => ((hremoved _).mp hgone).2 (List.mem_map_of_mem hr)
  refine ⟨⟨?_,?_,?_,?_⟩,fun c hc hgone => ?_,fun c hc => ?_,fun id hid => ?_,fun id hid => ?_,fun p hp => ?_,?_⟩
  · refine hsub _ _ fun d c hc => ?_
    obtain ⟨p,-,hp⟩ := Option.bind_eq_some_iff.mp hc
    obtain ⟨-,heq⟩ := Option.ite_none_right_eq_some.mp hp
    rw [← Option.some.inj heq]
    rfl
  · refine hsub _ _ fun d a ha => ?_
    obtain ⟨-,heq⟩ := Option.ite_none_right_eq_some.mp ha
    rw [← Option.some.inj heq]
    rfl
  · have hids := h.read.sound.ids
    rw [← h.read_ids] at hids
    exact hids.filter _
  · refine hsub _ _ fun d t ht => ?_
    obtain ⟨-,heq⟩ := Option.ite_none_right_eq_some.mp ht
    obtain ⟨hold,-,rfl⟩ := Option.map_eq_some_iff.mp heq
    rfl
  · obtain ⟨d,hd,-,-,-,-,rfl⟩ := (hchanged c).mp hc
    exact ((hremoved _).mp hgone).2 (List.mem_map_of_mem hd)
  · obtain ⟨d,hd,p,hp,hid,-,rfl⟩ := (hchanged c).mp hc
    rw [← h.read_ids]
    exact List.mem_map.mpr ⟨p,hp,hid⟩
  · rcases List.mem_append.mp hid with hid | hid
    · obtain ⟨a,ha,rfl⟩ := List.mem_map.mp hid
      obtain ⟨d,-,hnew,-,rfl⟩ := (hadded a).mp ha
      exact hnew
    · obtain ⟨t,ht,rfl⟩ := List.mem_map.mp hid
      obtain ⟨d,-,hnew,-,-,rfl⟩ := (hspots t).mp ht
      exact hnew
  · obtain ⟨hthere,hgone⟩ := (hremoved id).mp hid
    obtain ⟨r,hr,rfl⟩ := List.mem_map.mp hthere
    obtain ⟨p,hp,hplace,-,-,-,-,-,hempty⟩ := h.draft_of hr
    exact ⟨hthere,hempty (hdrawn.gone p hp (by rwa [hplace])).1⟩
  · rcases List.mem_append.mp hp with hp | hp
    · obtain ⟨a,ha,hparent⟩ := List.mem_filterMap.mp hp
      obtain ⟨d,hd,hnew,-,rfl⟩ := (hadded a).mp ha
      exact hmade hd hnew hparent
    · obtain ⟨t,ht,hparent⟩ := List.mem_filterMap.mp hp
      obtain ⟨d,hd,hnew,hold,-,rfl⟩ := (hspots t).mp ht
      exact hmade hd hnew hparent
  · have hlist : ∀ ds : List Draft, ((ds.filterMap fun d => if (was w.desk.view d.placeId).isNone then
        d.holds.map fun hold => spotRow d hold.1 else none).map (·.locationId)).Sublist (ds.filterMap fun d => d.holds.map Prod.fst) := by
      intro ds
      induction ds with
      | nil => exact List.Sublist.refl _
      | cons d ds ih =>
        rw [List.filterMap_cons,List.filterMap_cons]
        cases hholds : d.holds with
        | none => simpa using ih
        | some hold =>
          cases hnew : (was w.desk.view d.placeId).isNone with
          | false => simpa using ih.cons _
          | true =>
            have hboth := ih.cons_cons hold.1
            simpa [spotRow] using hboth
    exact (hlist _).nodup hdrawn.spots

/-! ### Any run -/

theorem upright_kept (box : PlaceBox ℚ) : Upright (Edit.kept box) :=
  ⟨Edit.roundAway box.turn%360,Int.emod_nonneg _ (by norm_num),Int.emod_lt_of_pos _ (by norm_num),rfl⟩

/-- A save, taken or refused, leaves a layout as its tables keep it. -/
theorem Kept.save (version : List Row → String) {e : LayoutEdit} (h : Kept plan) (ho : Edit.Once e) :
    Kept (Edit.save version plan e) := by
  refine ⟨Edit.save_sound version h.sound ho,fun r hr => ?_⟩
  obtain heq | ⟨-,heq⟩ := @Edit.save_cases version plan e h.sound ho
  · rw [heq] at hr
    exact h.upright r hr
  · rw [heq] at hr
    rcases List.mem_append.mp (Edit.mem_without.mp hr).1 with hwas | hmade
    · obtain ⟨q,hq,rfl⟩ := List.mem_map.mp hwas
      rw [Edit.written,OneByOne.written]
      split
      · exact h.upright q hq
      · exact upright_kept _
    · rcases List.mem_append.mp hmade with hadded | hspot
      · obtain ⟨a,-,rfl⟩ := List.mem_map.mp hadded
        exact upright_kept _
      · obtain ⟨t,-,rfl⟩ := List.mem_map.mp hspot
        exact upright_kept _

theorem Inv.step {e : Event} (h : Inv version w) (he : Fair w e) (hstep : w.step version lower e = some w') : Inv version w' := by
  cases e with
  | act a =>
    cases hstep
    obtain ⟨hplaces,hversion⟩ := @act_view lower w.desk a
    exact ⟨h.plan,h.read,hplaces.trans h.places,hversion.trans h.version,h.desk.act he⟩
  | save =>
    cases hstep
    rw [World.save]
    split
    · exact h
    · exact ⟨h.plan.save version h.wellMade.once,h.read,h.places,h.version,h.desk⟩
  | load =>
    cases hstep
    exact inv_load version w.desk.view.cellMm h.plan
  | elsewhere left =>
    cases hstep
    exact ⟨he,h.read,h.places,h.version,h.desk⟩

variable {es : List Event}

theorem inv_run (h : Kept plan) (hok : Runs.Meets (World.step version lower) Fair (World.load version cellMm plan) es)
    (hrun : Runs.run (World.step version lower) (World.load version cellMm plan) es = some w) : Inv version w :=
  Runs.run_keeps (inv_load version cellMm h) (fun _ _ _ hinv hfair hstep => hinv.step hfair hstep) hok hrun

/-- Whatever is done in the editor, undone, saved, read again or changed elsewhere, what it sends
is well made against the layout as it read it, and it keeps a hundred changes to undo and do
again at most. -/
theorem sends_wellMade (h : Kept plan) (hok : Runs.Meets (World.step version lower) Fair (World.load version cellMm plan) es)
    (hrun : Runs.run (World.step version lower) (World.load version cellMm plan) es = some w) :
    WellMade w.read (changesOf w.desk.view w.desk.drafts) ∧ w.desk.past.length+w.desk.future.length ≤ 100 :=
  have hinv := inv_run h hok hrun
  ⟨hinv.wellMade,hinv.desk.few⟩

/-- A floor of two racks, the first of three bays with a bin at each end, and a bin that waits
to be put on it. -/
def rackFloor : Plan :=
  ⟨[Edit.made 1 none "Floor" false ⟨0,0,0,20,10,3,0⟩,
      ⟨2,some 1,"A1",true,⟨0,0,0,3,1,2,0⟩,none,{Grid.single with bays := 3},some "R-{bay}",1⟩,
      Edit.made 3 (some 1) "A2" true ⟨4,0,0,3,1,2,0⟩],
    [⟨10,"R-1",true,some (2,⟨1,1,1,1,1⟩)⟩,⟨11,"R-3",true,some (2,⟨3,1,1,1,1⟩)⟩,⟨12,"S-1",true,none⟩],[]⟩

theorem kept_rackFloor : Kept rackFloor := by
  refine ⟨⟨by decide,by decide,by decide,⟨fun id => if id = 1 then 0 else 1,by decide⟩,⟨by decide,by decide,by decide⟩,
    by decide,?_⟩,?_⟩
  · intro p hp b hb cell hcell s hs pattern hpattern
    simp only [rackFloor,List.mem_cons,List.not_mem_nil,or_false] at hp hb
    rcases hp with rfl | rfl | rfl
    · cases hs
    · cases hs
      obtain rfl : Edit.rackPattern = pattern := Except.ok.inj (Edit.parse_rack.symm.trans hpattern)
      rcases hb with rfl | rfl | rfl <;> cases hcell <;> decide +kernel
    · cases hs
  · intro r hr
    simp only [rackFloor,List.mem_cons,List.not_mem_nil,or_false] at hr
    rcases hr with rfl | rfl | rfl <;> exact upright_zero ..

/-- Every layout has one fingerprint. -/
def sameVersion : List Row → String := fun _ => "1"

/-- A rack is called by another name, and that is saved and read again. Then the other is
numbered from its other end, one is added, the bin is put on the floor, the first renamed is
taken away, and that is undone and done again. -/
def drawRacks : List Event :=
  [.act (.change [3] (.name "B1")),.save,.load,.act (.change [2] (.fromRight true)),
    .act (.add ⟨"Rack",true,3,1,2⟩ 4 8 0),.act (.placeBin 12 "S-1" 5 12 0),.act (.remove 3),.act .undo,.act .redo]

def racksDrawn : World :=
  (Runs.run (World.step sameVersion id) (World.load sameVersion none rackFloor) drawRacks).getD (World.load sameVersion none rackFloor)

theorem run_drawRacks :
    Runs.run (World.step sameVersion id) (World.load sameVersion none rackFloor) drawRacks = some racksDrawn := rfl

theorem fair_drawRacks : Runs.Meets (World.step sameVersion id) Fair (World.load sameVersion none rackFloor) drawRacks := by
  refine ⟨?_,fun w hw => ?_⟩
  · show ∀ d ∈ (World.desk _).drafts, d.placeId ∈ [3] → d.holds = none
    decide +kernel
  cases hw
  refine ⟨trivial,fun w hw => ?_⟩
  cases hw
  refine ⟨trivial,fun w hw => ?_⟩
  cases hw
  refine ⟨?_,fun w hw => ?_⟩
  · show ∀ d ∈ (World.desk _).drafts, d.placeId ∈ [2] → 1 < d.bays
    decide +kernel
  cases hw
  refine ⟨?_,fun w hw => ?_⟩
  · show 4 ∉ (World.desk _).drafts.map Draft.placeId ∧ 4 ∉ (World.desk _).view.places.map LayoutPlace.placeId
    decide +kernel
  cases hw
  refine ⟨?_,fun w hw => ?_⟩
  · show 5 ∉ (World.desk _).drafts.map Draft.placeId ∧ 5 ∉ (World.desk _).view.places.map LayoutPlace.placeId
    decide +kernel
  cases hw
  refine ⟨?_,fun w hw => ?_⟩
  · show ∀ d ∈ (World.desk _).drafts, d.placeId = 3 → d.bins = 0 ∧ d.parentId ≠ none
    decide +kernel
  cases hw
  exact ⟨trivial,fun w hw => ⟨trivial,fun w hw => trivial⟩⟩

theorem sends_wellMade_racks : WellMade racksDrawn.read (changesOf racksDrawn.desk.view racksDrawn.desk.drafts) ∧
    racksDrawn.desk.past.length+racksDrawn.desk.future.length ≤ 100 :=
  sends_wellMade kept_rackFloor fair_drawRacks run_drawRacks

end Desk
end Layout
end Spork
