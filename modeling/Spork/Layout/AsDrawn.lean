import Spork.Layout.DeskRun

/-! A save of the plan editor that is taken leaves the layout as it is drawn in the editor, and
is taken as a whole unless a name goes from one place to another in it. -/
namespace Spork
namespace Layout
namespace Desk

open Edit (Uuid Row Bin Plan LayoutEdit)

/-- A box as it is drawn, but for what the editor takes for no change. -/
structure Near (a b : PlaceBox ℚ) : Prop where
  x : |a.x-b.x| < 1/10^9
  y : |a.y-b.y| < 1/10^9
  z : |a.z-b.z| < 1/10^9
  length : |a.length-b.length| < 1/10^9
  depth : |a.depth-b.depth| < 1/10^9
  height : |a.height-b.height| < 1/10^9
  turn : |a.turn-b.turn| < 1/10^9

/-- A place of the layout as the editor draws it. -/
structure DrawnAs (d : Draft) (r : Row) : Prop where
  parentId : r.parentId = d.parentId
  name : d.holds = none → Edit.trimmed r.name = Edit.trimmed (trim d.name)
  solid : r.solid = d.solid
  fromRight : r.grid.fromRight = d.fromRight
  box : Near r.box d.box

/-- The layout a save leaves, as the editor draws it: its places and no others, each bin in the
place it was in, and each bin put on the plan on the spot drawn for it, which has its name. -/
structure AsDrawn (drafts : List Draft) (plan out : Plan) : Prop where
  places : (out.places.map Row.id).Perm (drafts.map Draft.placeId)
  drawn : ∀ d ∈ drafts, ∀ r ∈ out.places, r.id = d.placeId → DrawnAs d r
  bins : List.Forall₂ Bin.Stays plan.bins out.bins
  spots : ∀ d ∈ drafts, ∀ hold ∈ d.holds, ∃ b ∈ out.bins, b.id = hold.1 ∧ b.place = some d.placeId ∧
    ∀ r ∈ out.places, r.id = d.placeId → r.name = b.code

variable {version : List Row → String} {lower : String → String} {plan out : Plan} {cellMm : Option ℕ} {w : World}
  {es : List Event}

theorem Near.refl (b : PlaceBox ℚ) : Near b b := by
  have h (n : ℚ) : |n-n| < 1/10^9 := by
    rw [sub_self,abs_zero]
    norm_num
  exact ⟨h _,h _,h _,h _,h _,h _,h _⟩

theorem sameBox_near {a b : PlaceBox ℚ} (h : sameBox a b = true) : Near a b := by
  simp only [sameBox,List.all_cons,List.all_nil,Bool.and_true,Bool.and_eq_true,decide_eq_true_eq] at h
  obtain ⟨hx,hy,hz,hl,hd,hh,ht⟩ := h
  exact ⟨hx,hy,hz,hl,hd,hh,ht⟩

/-- A turn in whole degrees is kept as it is. -/
theorem kept_upright {b : PlaceBox ℚ} (h : Upright b) : Edit.kept b = b := by
  obtain ⟨n,h0,h360,hturn⟩ := h
  have hround : Edit.roundAway b.turn = n := by
    rw [hturn,Edit.roundAway,if_pos (by exact_mod_cast h0)]
    rw [Int.floor_eq_iff]
    constructor <;> linarith
  have hmod : n%360 = n := Int.emod_eq_of_lt h0 h360
  rw [Edit.kept,hround,hmod,← hturn]

theorem trimmed_trimmed (name : String) : Edit.trimmed (Edit.trimmed name) = Edit.trimmed name := by
  simp only [Edit.trimmed,asString,String.toList_ofList]
  exact congrArg String.ofList (Text.trim_trim _ _)

section
variable (h : Inv version w)
include h

/-- The places of the layout left are those the editor has. -/
theorem Inv.left_ids (ha : Edit.Accepted w.plan (changesOf w.desk.view w.desk.drafts)) (hsame : w.plan.places = w.read.places) :
    ((Edit.leaves w.plan (changesOf w.desk.view w.desk.drafts)).places.map Row.id).Perm (w.desk.drafts.map Draft.placeId) := by
  obtain ⟨-,hadded,hspots,hremoved⟩ := h.sent
  refine (List.perm_ext_iff_of_nodup (ha.sound h.plan.sound h.wellMade.once).ids h.desk.drafts.ids).mpr fun id => ?_
  constructor
  · intro hid
    obtain ⟨r,hr,rfl⟩ := List.mem_map.mp hid
    obtain ⟨hdrawn,hkept⟩ := Edit.mem_without.mp hr
    rcases List.mem_append.mp hdrawn with hwas | hmade
    · obtain ⟨q,hq,rfl⟩ := List.mem_map.mp hwas
      by_contra hnot
      refine hkept ((hremoved _).mpr ⟨?_,hnot⟩)
      rw [Edit.written_id,← hsame]
      exact List.mem_map_of_mem hq
    · rcases List.mem_append.mp hmade with hmade | hmade
      · obtain ⟨a,ha,rfl⟩ := List.mem_map.mp hmade
        obtain ⟨d,hd,-,-,rfl⟩ := (hadded a).mp ha
        exact List.mem_map_of_mem hd
      · obtain ⟨t,ht,rfl⟩ := List.mem_map.mp hmade
        obtain ⟨d,hd,-,hold,-,rfl⟩ := (hspots t).mp ht
        exact List.mem_map_of_mem hd
  · intro hid
    obtain ⟨d,hd,rfl⟩ := List.mem_map.mp hid
    have hkept : d.placeId ∉ (changesOf w.desk.view w.desk.drafts).removed := fun hgone => ((hremoved _).mp hgone).2 hid
    by_cases hthere : d.placeId ∈ w.read.places.map Row.id
    · rw [← hsame] at hthere
      exact Edit.stays w.plan _ hthere hkept
    · cases hholds : d.holds with
      | none =>
        have hmem := (hadded _).mpr ⟨d,hd,hthere,hholds,rfl⟩
        refine List.mem_map.mpr ⟨Edit.addedRow (addedRow d),Edit.mem_without.mpr ⟨List.mem_append_right _ ?_,hkept⟩,rfl⟩
        exact List.mem_append_left _ (List.mem_map_of_mem hmem)
      | some hold =>
        have hmem := (hspots _).mpr ⟨d,hd,hthere,hold,hholds,rfl⟩
        refine List.mem_map.mpr ⟨Edit.spotRow w.plan.bins (spotRow d hold.1),
          Edit.mem_without.mpr ⟨List.mem_append_right _ ?_,hkept⟩,rfl⟩
        exact List.mem_append_right _ (List.mem_map_of_mem hmem)

/-- A place that was read is left as it is drawn. -/
theorem Inv.drawn_read (hsame : w.plan.places = w.read.places) {d : Draft} (hd : d ∈ w.desk.drafts) {q : Row} (hq : q ∈ w.plan.places)
    (hid : q.id = d.placeId) : DrawnAs d (Edit.written (changesOf w.desk.view w.desk.drafts).changed q) := by
  obtain ⟨hchanged,-,-,-⟩ := h.sent
  rw [hsame] at hq
  obtain ⟨p,hp,hplace,hparent,hname,hsolid,hbox,hend,-⟩ := h.draft_of hq
  obtain ⟨hdparent,-,hholds⟩ := h.desk.drafts.read d hd p hp (hplace.trans hid)
  have honce := h.wellMade.once.changed
  by_cases hdiffers : differs p d = true
  · have hmem := (hchanged (changedRow d)).mpr ⟨d,hd,p,hp,hplace.trans hid,hdiffers,rfl⟩
    have hwritten : Edit.written (changesOf w.desk.view w.desk.drafts).changed q = Edit.write (changedRow d) q :=
      OneByOne.written_of_mem honce hmem hid
    have hbox : Near (Edit.kept d.box) d.box := by
      rw [kept_upright (h.desk.drafts.upright d hd)]
      exact Near.refl _
    rw [hwritten]
    have hname : (Edit.write (changedRow d) q).name = Edit.trimmed (trim d.name) := rfl
    refine ⟨?_,fun _ => ?_,rfl,rfl,hbox⟩
    · rw [Edit.write_parentId,← hparent,hdparent]
    · rw [hname,trimmed_trimmed]
  · have hnot : q.id ∉ (changesOf w.desk.view w.desk.drafts).changed.map (·.placeId) := by
      intro hmem
      obtain ⟨c,hc,hcid⟩ := List.mem_map.mp hmem
      obtain ⟨d',hd',p',hp',hplace',hdiffers',rfl⟩ := (hchanged c).mp hc
      obtain rfl : d' = d := List.inj_on_of_nodup_map h.desk.drafts.ids hd' hd (hcid.trans hid)
      obtain rfl : p' = p := by
        have hwas : was w.desk.view d'.placeId = some p' := h.was_iff.mpr ⟨hp',hplace'⟩
        rw [h.was_iff.mpr ⟨hp,hplace.trans hid⟩] at hwas
        exact (Option.some.inj hwas).symm
      exact hdiffers hdiffers'
    rw [Edit.written,OneByOne.written_of_not_mem hnot]
    simp only [differs,Bool.or_eq_true,decide_eq_true_eq,Bool.not_eq_true',not_or,not_not,Bool.not_eq_false] at hdiffers
    obtain ⟨⟨⟨hsameName,hsameSolid⟩,hsameEnd⟩,hsameBox⟩ := hdiffers
    refine ⟨hparent.symm.trans hdparent.symm,fun _ => ?_,hsolid.symm.trans hsameSolid,hend.symm.trans hsameEnd,?_⟩
    · rw [← hname,hsameName]
    · rw [← hbox]
      exact sameBox_near hsameBox

end

/-- A save that is taken leaves the layout as the editor draws it. -/
theorem Inv.asDrawn (h : Inv version w) (hsame : version w.plan.places = version w.read.places → w.plan.places = w.read.places)
    (hsave : Edit.editLayout version w.plan (changesOf w.desk.view w.desk.drafts) = .ok out) :
    AsDrawn w.desk.drafts w.plan out := by
  obtain ⟨hversion,ha,rfl⟩ := (Edit.editLayout_iff h.plan.sound h.wellMade.once).mp hsave
  have hplaces := hsame (hversion.trans h.version)
  have hsound := ha.sound h.plan.sound h.wellMade.once
  obtain ⟨-,hadded,hspots,-⟩ := h.sent
  have hread : w.desk.view.places.map LayoutPlace.placeId = w.read.places.map Row.id := by
    rw [← draftsOf_ids,h.read_ids]
  have hfresh {d : Draft} (hd : d ∈ w.desk.drafts) (hnew : d.placeId ∉ w.read.places.map Row.id) : d.fromRight = false :=
    (h.desk.drafts.made d hd (by rwa [hread])).2.2
  have hbox {d : Draft} (hd : d ∈ w.desk.drafts) : Near (Edit.kept d.box) d.box := by
    rw [kept_upright (h.desk.drafts.upright d hd)]
    exact Near.refl _
  refine ⟨h.left_ids ha hplaces,fun d hd r hr hid => ?_,?_,fun d hd hold hhold => ?_⟩
  · rcases List.mem_append.mp (Edit.mem_without.mp hr).1 with hwas | hmade
    · obtain ⟨q,hq,rfl⟩ := List.mem_map.mp hwas
      rw [Edit.written_id] at hid
      exact h.drawn_read hplaces hd hq hid
    · rcases List.mem_append.mp hmade with hmade | hmade
      · obtain ⟨a,ha,rfl⟩ := List.mem_map.mp hmade
        obtain ⟨d',hd',hnew,-,rfl⟩ := (hadded a).mp ha
        obtain rfl : d' = d := List.inj_on_of_nodup_map h.desk.drafts.ids hd' hd hid
        exact ⟨rfl,fun _ => trimmed_trimmed (trim d'.name),rfl,(hfresh hd hnew).symm,hbox hd⟩
      · obtain ⟨t,ht,rfl⟩ := List.mem_map.mp hmade
        obtain ⟨d',hd',hnew,hold,hholds,rfl⟩ := (hspots t).mp ht
        obtain rfl : d' = d := List.inj_on_of_nodup_map h.desk.drafts.ids hd' hd hid
        refine ⟨rfl,fun hnone => ?_,rfl,(hfresh hd hnew).symm,hbox hd⟩
        rw [hnone] at hholds
        cases hholds
  · exact List.forall₂_map_right_iff.mpr (List.forall₂_same.mpr fun b hb => Edit.moved_stays h.plan.sound h.wellMade.once ha hb)
  · have hnew : d.placeId ∉ w.read.places.map Row.id := by
      intro hthere
      rw [← h.read_ids] at hthere
      obtain ⟨p,hp,hplace⟩ := List.mem_map.mp hthere
      rw [(h.desk.drafts.read d hd p hp hplace).2.2] at hhold
      cases hhold
    have hmem := (hspots _).mpr ⟨d,hd,hnew,hold,hhold,rfl⟩
    obtain ⟨b,hb,hloc,-,hwaits,-⟩ := (ha.allowed.spots _ hmem).waiting
    have honBin : (Edit.turned w.plan.places (changesOf w.desk.view w.desk.drafts).changed b).id = (spotRow d hold.1).locationId := by
      rw [Edit.turned_id h.wellMade.once.changed]
      exact hloc
    have hmoved : Edit.moved w.plan (changesOf w.desk.view w.desk.drafts) b = Edit.seatSpot (spotRow d hold.1)
        (Edit.turned w.plan.places (changesOf w.desk.view w.desk.drafts).changed b) :=
      OneByOne.written_of_mem ha.bins hmem honBin
    refine ⟨_,List.mem_map_of_mem hb,?_,?_,fun r hr hid => ?_⟩
    · rw [hmoved]
      exact honBin
    · rw [hmoved]
      rfl
    · have hrow : Edit.spotRow w.plan.bins (spotRow d hold.1) ∈ (Edit.leaves w.plan (changesOf w.desk.view w.desk.drafts)).places := by
        refine Edit.mem_without.mpr ⟨List.mem_append_right _ (List.mem_append_right _ (List.mem_map_of_mem hmem)),fun hgone => ?_⟩
        exact ((h.sent.2.2.2 _).mp hgone).2 (List.mem_map_of_mem hd)
      obtain rfl : r = Edit.spotRow w.plan.bins (spotRow d hold.1) := List.inj_on_of_nodup_map hsound.ids hr hrow hid
      rw [hmoved]
      show Edit.codeOf w.plan.bins (spotRow d hold.1) = (Edit.turned w.plan.places _ b).code
      rw [Edit.turned_code h.wellMade.once.changed,Edit.codeOf_eq h.plan.sound.bins hb hloc]

/-- Whatever was done in the editor before it, a save that is taken leaves the layout as the editor
draws it, where the fingerprint tells the layout from the one that was read. -/
theorem saved_as_drawn (h : Kept plan) (hok : Runs.Meets (World.step version lower) Fair (World.load version cellMm plan) es)
    (hrun : Runs.run (World.step version lower) (World.load version cellMm plan) es = some w)
    (hsame : version w.plan.places = version w.read.places → w.plan.places = w.read.places)
    (hsave : Edit.editLayout version w.plan (changesOf w.desk.view w.desk.drafts) = .ok out) :
    AsDrawn w.desk.drafts w.plan out :=
  (inv_run h hok hrun).asDrawn hsame hsave

/-- What is drawn of the racks is what the save leaves. -/
theorem saved_as_drawn_racks : ∃ out, Edit.editLayout sameVersion racksDrawn.plan
    (changesOf racksDrawn.desk.view racksDrawn.desk.drafts) = .ok out ∧ AsDrawn racksDrawn.desk.drafts racksDrawn.plan out := by
  have haccepted : (Edit.editLayout sameVersion racksDrawn.plan
      (changesOf racksDrawn.desk.view racksDrawn.desk.drafts)).isOk = true := by decide +kernel
  cases hsave : Edit.editLayout sameVersion racksDrawn.plan (changesOf racksDrawn.desk.view racksDrawn.desk.drafts) with
  | error why =>
    rw [hsave] at haccepted
    cases haccepted
  | ok out => exact ⟨out,rfl,saved_as_drawn kept_rackFloor fair_drawRacks run_drawRacks (fun _ => rfl) hsave⟩

/-! ## As a whole -/

/-- No name goes from one place to another: none changed gets the name of another that is changed
or taken away, and none made that of one taken away. -/
structure NamesApart (plan : Plan) (e : LayoutEdit) : Prop where
  changed : ∀ c ∈ e.changed, ∀ r ∈ plan.places, r.id = c.placeId → ∀ q ∈ plan.places, q.id ≠ c.placeId →
    q.id ∈ e.changed.map (·.placeId) ∨ q.id ∈ e.removed → q.called ≠ (Edit.write c r).called
  made : ∀ r ∈ Edit.madeRows plan e, ∀ q ∈ plan.places, q.id ∈ e.removed → r.called ≠ q.called

theorem Inv.plain_iff (h : Inv version w) : Edit.Plain w.plan (changesOf w.desk.view w.desk.drafts) ↔
    NamesApart w.plan (changesOf w.desk.view w.desk.drafts) := by
  obtain ⟨-,hadded,hspots,-⟩ := h.sent
  have hmade := h.wellMade
  refine ⟨fun hp => ⟨hp.renamed,fun r hr q hq hgone => (hp.made r hr q hq hgone).1⟩,fun hn => ?_⟩
  refine ⟨hn.changed,fun r hr q hq hgone => ⟨hn.made r hr q hq hgone,fun hin => ?_⟩,?_,hmade.bins,
    fun c hc hgone => absurd hgone (hmade.kept c hc)⟩
  · refine hmade.inside q.id ?_ hgone
    rcases List.mem_append.mp hr with hr | hr
    · obtain ⟨a,ha,rfl⟩ := List.mem_map.mp hr
      exact List.mem_append_left _ (List.mem_filterMap.mpr ⟨a,ha,hin⟩)
    · obtain ⟨t,ht,rfl⟩ := List.mem_map.mp hr
      exact List.mem_append_right _ (List.mem_filterMap.mpr ⟨t,ht,hin⟩)
  · have hids : (Edit.madeRows w.plan (changesOf w.desk.view w.desk.drafts)).map Row.id =
        (changesOf w.desk.view w.desk.drafts).added.map (·.placeId)++(changesOf w.desk.view w.desk.drafts).spots.map (·.placeId) := by
      rw [Edit.madeRows,List.map_append,List.map_map,List.map_map]
      rfl
    rw [hids]
    refine List.nodup_append.mpr ⟨hmade.once.added,hmade.once.spots,fun i hi j hj hij => ?_⟩
    obtain ⟨a,ha,rfl⟩ := List.mem_map.mp hi
    obtain ⟨t,ht,rfl⟩ := List.mem_map.mp hj
    obtain ⟨d,hd,-,hnone,rfl⟩ := (hadded a).mp ha
    obtain ⟨d',hd',-,hold,hsome,rfl⟩ := (hspots t).mp ht
    obtain rfl : d = d' := List.inj_on_of_nodup_map h.desk.drafts.ids hd hd' hij
    rw [hnone] at hsome
    cases hsome

/-- Against the layout it read, the editor's save is taken as a whole unless what it asks for
could be kept and has a name go from one place to another. -/
theorem desk_takenWhole (h : Kept plan) (hok : Runs.Meets (World.step version lower) Fair (World.load version cellMm plan) es)
    (hrun : Runs.run (World.step version lower) (World.load version cellMm plan) es = some w)
    (hsame : w.plan.places = w.read.places) : Edit.TakenWhole version w.plan (changesOf w.desk.view w.desk.drafts) ↔
      (Edit.Asked w.plan (changesOf w.desk.view w.desk.drafts) → NamesApart w.plan (changesOf w.desk.view w.desk.drafts)) := by
  have hinv := inv_run h hok hrun
  have hversion : version w.plan.places = (changesOf w.desk.view w.desk.drafts).version := by
    rw [hsame]
    exact hinv.version.symm
  rw [← hinv.plain_iff]
  exact ⟨fun ht ha => ht.plain hinv.plan.sound hinv.wellMade.once hversion ha,
    fun hplain => .of_plain hinv.plan.sound hinv.wellMade.once hversion hplain⟩

theorem desk_takenWhole_racks :
    Edit.TakenWhole sameVersion racksDrawn.plan (changesOf racksDrawn.desk.view racksDrawn.desk.drafts) := by
  refine (desk_takenWhole kept_rackFloor fair_drawRacks run_drawRacks rfl).mpr fun _ => ⟨?_,?_⟩
  · decide +kernel
  · decide +kernel

end Desk
end Layout
end Spork
