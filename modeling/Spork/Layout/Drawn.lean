import Spork.Layout.Editor

/-! The editor's plan: each framed place drawn once, as deep as its parents are many. -/
namespace Spork
namespace Layout
namespace Editor

variable {K N : Type*} [DecidableEq K] [Zero N] [Add N] [Sub N] [Mul N]
variable {drafts : List (Draft K N)} {t : Turning N} {m : Places K N} {frames : K → Option (Frame N)}

/-- What is drawn so far: what was seen, once each, with its frame and as deep as it is. -/
structure Good (m : Places K N) (t : Turning N) (frames : K → Option (Frame N)) (drafts : List (Draft K N))
    (st : Finset K × List (PlanShape K N)) : Prop where
  once : (st.2.map (·.placeId)).Nodup
  drawn : ∀ k, k ∈ st.2.map (·.placeId) ↔ k ∈ st.1
  right : ∀ s ∈ st.2, ∃ d ∈ drafts, ∃ f, frames d.placeId = some f ∧ s = shapeOf t f d s.nesting ∧
    ∃ ks, Forest.Line m.parentOf (some d.placeId) ks ∧ ks.length = s.nesting+1

/-- One walk, or several: what was drawn stays, and what is new has all that is inside it drawn. -/
structure Draws (m : Places K N) (t : Turning N) (frames : K → Option (Frame N)) (drafts : List (Draft K N))
    (st st' : Finset K × List (PlanShape K N)) : Prop where
  good : Good m t frames drafts st'
  kept : st.1 ⊆ st'.1
  inside : ∀ k ∈ st'.1, k ∉ st.1 → ∀ c ∈ kids drafts (some k), c.placeId ∈ st'.1

theorem Draws.refl {st : Finset K × List (PlanShape K N)} (h : Good m t frames drafts st) :
    Draws m t frames drafts st st :=
  ⟨h,fun _ hk => hk,fun _ hk hnot => absurd hk hnot⟩

theorem Draws.trans {st mid st' : Finset K × List (PlanShape K N)} (h : Draws m t frames drafts st mid)
    (h' : Draws m t frames drafts mid st') : Draws m t frames drafts st st' := by
  refine ⟨h'.good,h.kept.trans h'.kept,?_⟩
  intro k hk hnot c hc
  by_cases hmid : k ∈ mid.1
  · exact h'.kept (h.inside k hmid hnot c hc)
  · exact h'.inside k hk hmid c hc

/-- Places drawn one after the other, each drawing what it should. -/
theorem foldlM_draws {step : Finset K × List (PlanShape K N) → Draft K N → Option (Finset K × List (PlanShape K N))}
    {start : Finset K} {ds : List (Draft K N)}
    (hstep : ∀ d ∈ ds, ∀ st, Good m t frames drafts st → start ⊆ st.1 →
      ∃ st', step st d = some st' ∧ Draws m t frames drafts st st' ∧ d.placeId ∈ st'.1)
    {st : Finset K × List (PlanShape K N)} (hgood : Good m t frames drafts st) (hstart : start ⊆ st.1) :
    ∃ st', ds.foldlM step st = some st' ∧ Draws m t frames drafts st st' ∧ ∀ d ∈ ds, d.placeId ∈ st'.1 := by
  induction ds generalizing st with
  | nil => exact ⟨st,rfl,.refl hgood,fun _ hd => nomatch hd⟩
  | cons d ds ih =>
    obtain ⟨mid,hone,hdraws,hd⟩ := hstep d List.mem_cons_self st hgood hstart
    obtain ⟨st',hrest,hdraws',hall⟩ := ih (fun e he => hstep e (List.mem_cons_of_mem d he)) hdraws.good
      (hstart.trans hdraws.kept)
    refine ⟨st',by rw [List.foldlM_cons,hone]; exact hrest,hdraws.trans hdraws',?_⟩
    intro e he
    rcases List.mem_cons.mp he with rfl | hin
    · exact hdraws'.kept hd
    · exact hall e hin

/-- A place not seen, drawn. -/
theorem Good.draw {seen : Finset K} {out : List (PlanShape K N)} {d : Draft K N} {f : Frame N} {nesting : ℕ}
    {ks : List K} (h : Good m t frames drafts (seen,out)) (hd : d ∈ drafts) (hseen : d.placeId ∉ seen)
    (hf : frames d.placeId = some f) (hline : Forest.Line m.parentOf (some d.placeId) ks)
    (hlength : ks.length = nesting+1) :
    Good m t frames drafts (insert d.placeId seen,out++[shapeOf t f d nesting]) := by
  have hnot : d.placeId ∉ out.map (·.placeId) := fun hin => hseen ((h.drawn _).mp hin)
  refine ⟨?_,?_,?_⟩
  · rw [List.map_append,List.map_singleton,← List.concat_eq_append]
    exact h.once.concat hnot
  · intro k
    rw [List.map_append,List.mem_append,h.drawn,List.map_singleton,List.mem_singleton,Finset.mem_insert,
      or_comm]
    rfl
  · intro s hs
    rcases List.mem_append.mp hs with hin | hnew
    · exact h.right s hin
    · rw [List.mem_singleton.mp hnew]
      exact ⟨d,hd,f,hf,rfl,ks,hline,hlength⟩

theorem walk_draws (h : Maps m drafts)
    (hall : ∀ k ∈ m.keys, (∃ ks, Forest.Line m.parentOf (some k) ks) → (frames k).isSome = true) {n : ℕ}
    {d : Draft K N} {nesting : ℕ} {st : Finset K × List (PlanShape K N)} {ks : List K} (hd : d ∈ drafts)
    (hgood : Good m t frames drafts st) (hn : (m.keys.toFinset \ st.1).card < n)
    (hline : Forest.Line m.parentOf (some d.placeId) ks) (hlength : ks.length = nesting+1) :
    ∃ st', walk drafts t frames n d nesting st = some st' ∧ Draws m t frames drafts st st' ∧
      d.placeId ∈ st'.1 := by
  induction n generalizing d nesting st ks with
  | zero => cases hn
  | succ n ih =>
    obtain ⟨seen,out⟩ := st
    rw [walk]
    split_ifs with hseen
    · exact ⟨_,rfl,.refl hgood,hseen⟩
    have hin : d.placeId ∈ m.keys := h.mem_keys.mpr (List.mem_map_of_mem hd)
    obtain ⟨f,hf⟩ := Option.isSome_iff_exists.mp (hall d.placeId hin ⟨ks,hline⟩)
    have hdrawn := hgood.draw hd hseen hf hline hlength
    have hless := Places.card_unseen_lt (List.mem_toFinset.mpr hin) hseen
    have hstep : ∀ c ∈ kids drafts (some d.placeId), ∀ st, Good m t frames drafts st →
        insert d.placeId seen ⊆ st.1 → ∃ st', walk drafts t frames n c (nesting+1) st = some st' ∧
          Draws m t frames drafts st st' ∧ c.placeId ∈ st'.1 := by
      intro c hc st hst hsub
      obtain ⟨hc,hparent⟩ := h.mem_kids.mp hc
      have hunder : Forest.Line m.parentOf (some c.placeId) (ks++[c.placeId]) := by
        apply Forest.Line.under
        rwa [h.parentOf_of_mem hc,hparent]
      refine ih hc hst ?_ hunder (by simp [hlength])
      have hcard := Finset.card_le_card (Finset.sdiff_subset_sdiff (le_refl m.keys.toFinset) hsub)
      simp only at hn
      omega
    obtain ⟨st',hrun,hdraws,hkids⟩ := foldlM_draws hstep hdrawn fun _ hk => hk
    refine ⟨st',by rw [hf]; exact hrun,⟨hdraws.good,?_,?_⟩,hdraws.kept (Finset.mem_insert_self _ _)⟩
    · exact (Finset.subset_insert d.placeId seen).trans hdraws.kept
    · intro k hk hnot c hc
      by_cases hkd : k = d.placeId
      · subst hkd
        exact hkids c hc
      · refine hdraws.inside k hk ?_ c hc
        rw [Finset.mem_insert,not_or]
        exact ⟨hkd,hnot⟩

/-- The plan: each framed place once, and no other. -/
theorem planOf_draws (h : Maps m drafts) :
    ∃ frames shapes, framesOf drafts t = some frames ∧ planOf drafts t = some shapes ∧
      (shapes.map (·.placeId)).Nodup ∧
      (∀ k, k ∈ shapes.map (·.placeId) ↔ (frames k).isSome = true) ∧
      ∀ s ∈ shapes, ∃ d ∈ drafts, ∃ f, frames d.placeId = some f ∧ s = shapeOf t f d s.nesting ∧
        ∃ ks, Forest.Line m.parentOf (some d.placeId) ks ∧ ks.length = s.nesting+1 := by
  obtain ⟨frames,hframes,hframed,hall⟩ := framesOf_gains (t := t) h
  have hfuel := h.card_keys_lt
  have hstep : ∀ d ∈ kids drafts none, ∀ st, Good m t frames drafts st → (∅ : Finset K) ⊆ st.1 →
      ∃ st', walk drafts t frames (drafts.length+1) d 0 st = some st' ∧
        Draws m t frames drafts st st' ∧ d.placeId ∈ st'.1 := by
    intro d hd st hst _
    obtain ⟨hd,hparent⟩ := h.mem_kids.mp hd
    have hroot : Forest.Line m.parentOf (some d.placeId) [d.placeId] := by
      have htop : Forest.Line m.parentOf (m.parentOf d.placeId) [] := by
        rw [h.parentOf_of_mem hd,hparent]
        exact .top
      exact htop.under
    refine walk_draws h hall hd hst ?_ hroot rfl
    have hcard := Finset.card_le_card (Finset.sdiff_subset (s := m.keys.toFinset) (t := st.1))
    omega
  have hempty : Good m t frames drafts (∅,[]) := ⟨List.nodup_nil,by simp,by simp⟩
  obtain ⟨⟨seen,shapes⟩,hrun,hdraws,hroots⟩ := foldlM_draws hstep hempty fun _ hk => hk
  refine ⟨frames,shapes,hframes,by rw [planOf,hframes]; simp [hrun],hdraws.good.once,?_,hdraws.good.right⟩
  have hseen : ∀ {o : Option K} {ks : List K}, Forest.Line m.parentOf o ks → ∀ k ∈ o, k ∈ m.keys → k ∈ seen := by
    intro o ks hline
    induction hline with
    | top => exact fun _ hk => nomatch hk
    | @under a xs hxs ih =>
      intro k hk hin
      obtain rfl := Option.mem_some_iff.mp hk
      obtain ⟨d,hd,rfl⟩ := List.mem_map.mp (h.mem_keys.mp hin)
      have hparent := h.parentOf_of_mem hd
      cases hp : d.parentId with
      | none => exact hroots d (h.mem_kids.mpr ⟨hd,hp⟩)
      | some p =>
        have hpin : p ∈ m.keys := h.closedMap d.placeId hin p (by rw [hparent,hp]; rfl)
        have hpseen := ih p (by rw [hparent,hp]; rfl) hpin
        exact hdraws.inside p hpseen (by simp) d (h.mem_kids.mpr ⟨hd,hp⟩)
  intro k
  rw [hdraws.good.drawn]
  constructor
  · intro hk
    obtain ⟨s,hs,rfl⟩ := List.mem_map.mp ((hdraws.good.drawn k).mpr hk)
    obtain ⟨d,-,f,hf,hshape,-⟩ := hdraws.good.right s hs
    rw [hshape]
    exact Option.isSome_iff_exists.mpr ⟨f,hf⟩
  · intro hk
    obtain ⟨f,hf⟩ := Option.isSome_iff_exists.mp hk
    obtain ⟨hin,ks,hks,-⟩ := hframed k f hf
    exact hseen hks k rfl hin

/-- Whatever order the server's map is in, the editor frames the places it frames, the same
way in exact arithmetic, and draws each of them once, inside as many places as it has above it. -/
theorem editor_as_server {N : Type*} [Field N] [LinearOrder N] [IsStrictOrderedRing N] [FloorRing N]
    (sinCos : N → N × N) (drafts : List (Draft K N)) (hnodup : (drafts.map (·.placeId)).Nodup)
    (hclosed : Closed drafts) (m : Places K N) (hm : m.get = (placesOf drafts hnodup).get) :
    ∃ frames shapes, m.frames (serverTurning sinCos) = some frames ∧
      framesOf drafts (editorTurning sinCos) = some frames ∧
      planOf drafts (editorTurning sinCos) = some shapes ∧
      (shapes.map (·.placeId)).Nodup ∧
      (∀ k, k ∈ shapes.map (·.placeId) ↔ (frames k).isSome = true) ∧
      ∀ s ∈ shapes, frames s.placeId = some s.frame ∧
        (Forest.up m.parentOf s.nesting s.placeId).isSome = true ∧
        Forest.up m.parentOf (s.nesting+1) s.placeId = none := by
  have h : Maps m drafts := ⟨hnodup,hclosed,fun k => congrFun hm k⟩
  rw [editorTurning_eq]
  obtain ⟨frames,shapes,hframes,hplan,hone,hdrawn,hright⟩ := planOf_draws (t := serverTurning sinCos) h
  refine ⟨frames,shapes,?_,hframes,hplan,hone,hdrawn,?_⟩
  · rw [← framesOf_eq h,hframes]
  · intro s hs
    obtain ⟨d,-,f,hf,hshape,ks,hline,hlength⟩ := hright s hs
    have hid : s.placeId = d.placeId := by
      rw [hshape]
      rfl
    have hframe : s.frame = f := by
      rw [hshape]
      rfl
    rw [hid,hframe]
    exact ⟨hf,hline.up_isSome (by omega),hlength ▸ hline.up_length⟩

/-- A rack in a room in a building, and two places inside each other. -/
def heldDrafts : List (Draft ℕ ℚ) :=
  [⟨3,some 2,"Rack",true,⟨1,0,0,4,1,2,0⟩,none⟩,⟨8,some 9,"Near",false,⟨0,0,0,1,1,1,0⟩,none⟩,
    ⟨2,some 1,"Room",false,⟨5,5,0,9,9,3,0⟩,none⟩,⟨9,some 8,"Far",false,⟨0,0,0,1,1,1,0⟩,none⟩,
    ⟨1,none,"Building",false,⟨10,0,0,30,20,8,0⟩,none⟩]

theorem heldDrafts_nodup : (heldDrafts.map (·.placeId)).Nodup := by decide

theorem heldDrafts_as_server :
    ∃ frames shapes, (placesOf heldDrafts heldDrafts_nodup).frames (serverTurning fun _ => (0,1)) = some frames ∧
      framesOf heldDrafts (editorTurning fun _ => (0,1)) = some frames ∧
      planOf heldDrafts (editorTurning fun _ => (0,1)) = some shapes ∧
      (shapes.map (·.placeId)).Nodup ∧
      (∀ k, k ∈ shapes.map (·.placeId) ↔ (frames k).isSome = true) ∧
      ∀ s ∈ shapes, frames s.placeId = some s.frame ∧
        (Forest.up (placesOf heldDrafts heldDrafts_nodup).parentOf s.nesting s.placeId).isSome = true ∧
        Forest.up (placesOf heldDrafts heldDrafts_nodup).parentOf (s.nesting+1) s.placeId = none :=
  editor_as_server (fun _ => (0,1)) heldDrafts heldDrafts_nodup (by unfold Closed; decide) _ rfl

end Editor
end Layout
end Spork
