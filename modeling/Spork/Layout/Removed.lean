import Spork.Layout.Edited

/-! The places a save of the plan editor removes: those inside others first, so that all go
where no bin is in one and every place inside one goes too. -/
namespace Spork
namespace Layout
namespace Edit

/-- What is asked of a place removed by itself. -/
structure RemoveAllowed (rows : List Row) (bins : List Bin) (removed : List Uuid) (id : Uuid) : Prop where
  there : id ∈ rows.map Row.id
  empty : ∀ b ∈ bins, b.place ≠ some id
  whole : ∀ p ∈ rows, p.parentId = some id → p.id ∈ removed

variable {rows places : List Row} {bins : List Bin} {plan out : Plan} {removed : List Uuid}

theorem removable_iff {id : Uuid} : removable rows bins removed id = .ok () ↔ RemoveAllowed rows bins removed id := by
  have hempty : ¬bins.countP (fun b => b.isIn id) > 0 ↔ ∀ b ∈ bins, b.place ≠ some id := by
    rw [gt_iff_lt,List.countP_pos_iff,not_exists]
    refine forall_congr' fun b => ?_
    rw [not_and,isIn_iff]
  have hwhole : ¬(rows.any fun p => decide (p.parentId = some id ∧ p.id ∉ removed)) = true ↔
      ∀ p ∈ rows, p.parentId = some id → p.id ∈ removed := by
    rw [List.any_eq_true,not_exists]
    refine forall_congr' fun p => ?_
    rw [decide_eq_true_eq,not_and,not_and,not_not]
  rw [removable]
  simp only [Fallible.bind_ok_iff,Unique.exists_iff,PUnit.default_eq_unit,found_iff,refuseIf_iff,hempty,hwhole]
  constructor
  · rintro ⟨was,hwas,hnone,hall⟩
    exact ⟨byId_isSome_iff.mp (by rw [hwas]; rfl),hnone,hall⟩
  · intro h
    obtain ⟨was,hwas⟩ := Option.isSome_iff_exists.mp (byId_isSome_iff.mpr h.there)
    exact ⟨was,hwas,h.empty,h.whole⟩

/-! ## Those inside first -/

/-- The places a place is inside, by how far down each is. -/
def above (rows : List Row) (rank : Uuid → ℕ) (x : Option Uuid) : Finset Uuid :=
  (rows.map Row.id).toFinset.filter fun i => ∃ id ∈ x, rank i ≤ rank id

/-- Where no place is inside itself, a place is inside no more than all that are further up. -/
theorem climb_le (hids : (rows.map Row.id).Nodup) (hinside : ∀ p ∈ rows, ∀ q ∈ p.parentId, q ∈ rows.map Row.id)
    {rank : Uuid → ℕ} (hrank : ∀ p ∈ rows, ∀ q ∈ p.parentId, rank q < rank p.id) (n : ℕ) {x : Option Uuid}
    (hx : ∀ id ∈ x, id ∈ rows.map Row.id) : climb rows n x ≤ (above rows rank x).card := by
  induction n generalizing x with
  | zero => exact Nat.zero_le _
  | succ n ih =>
    cases x with
    | none => exact Nat.zero_le _
    | some id =>
      obtain ⟨p,hp,rfl⟩ := List.mem_map.mp (hx id rfl)
      rw [climb,byId_of_mem hids hp,Option.bind_some]
      refine (Nat.succ_le_succ (ih fun q hq => hinside p hp q hq)).trans (Finset.card_lt_card ?_)
      refine Finset.ssubset_iff_of_subset ?_ |>.mpr ⟨p.id,?_,?_⟩
      · intro i hi
        obtain ⟨hmem,q,hq,hle⟩ := Finset.mem_filter.mp hi
        exact Finset.mem_filter.mpr ⟨hmem,p.id,rfl,hle.trans (hrank p hp q hq).le⟩
      · exact Finset.mem_filter.mpr ⟨List.mem_toFinset.mpr (List.mem_map_of_mem hp),p.id,rfl,le_rfl⟩
      · intro hi
        obtain ⟨-,q,hq,hle⟩ := Finset.mem_filter.mp hi
        exact absurd hle (not_le.mpr (hrank p hp q hq))

/-- A climb that ends counts the same with more steps. -/
theorem climb_succ {n : ℕ} {x : Option Uuid} (h : climb rows n x < n) : climb rows (n+1) x = climb rows n x := by
  induction n generalizing x with
  | zero => cases h
  | succ n ih =>
    cases x with
    | none => rfl
    | some id => exact congrArg Nat.succ (ih (Nat.lt_of_succ_lt_succ h))

/-- A place is inside one more than the place it is in. -/
theorem depthOf_inside (h : Sound plan) {p q : Row} (hp : p ∈ plan.places) (hq : q.parentId = some p.id) :
    depthOf plan.places q = depthOf plan.places p+1 := by
  obtain ⟨rank,hrank⟩ := h.nested
  have hfew : climb plan.places plan.places.length p.parentId < plan.places.length := by
    calc climb plan.places plan.places.length p.parentId
        ≤ (above plan.places rank p.parentId).card := climb_le h.ids h.inside hrank _ fun id hid => h.inside p hp id hid
      _ < (plan.places.map Row.id).toFinset.card := by
        refine Finset.card_lt_card (Finset.filter_ssubset.mpr ⟨p.id,List.mem_toFinset.mpr (List.mem_map_of_mem hp),?_⟩)
        rintro ⟨id,hid,hle⟩
        exact absurd hle (not_le.mpr (hrank p hp id hid))
      _ ≤ plan.places.length := by
        simpa using (plan.places.map Row.id).toFinset_card_le
  rw [depthOf,depthOf,hq,climb,byId_of_mem h.ids hp,Option.bind_some,climb_succ hfew]

/-- The ids of the places removed. -/
theorem gone_ids (hids : (rows.map Row.id).Nodup) (hthere : ∀ id ∈ removed, id ∈ rows.map Row.id) :
    ((gone rows removed).map Row.id).Perm removed := by
  refine ((List.perm_insertionSort _ _).map Row.id).trans (List.Perm.of_eq ?_)
  induction removed with
  | nil => rfl
  | cons id removed ih =>
    obtain ⟨p,hp,rfl⟩ := List.mem_map.mp (hthere _ List.mem_cons_self)
    rw [List.filterMap_cons_some (byId_of_mem hids hp),List.map_cons,ih fun i hi => hthere i (List.mem_cons_of_mem _ hi)]

theorem mem_gone (hids : (rows.map Row.id).Nodup) {p : Row} : p ∈ gone rows removed ↔ p ∈ rows ∧ p.id ∈ removed := by
  rw [gone,(List.perm_insertionSort _ _).mem_iff,List.mem_filterMap]
  constructor
  · rintro ⟨id,hid,hfound⟩
    obtain ⟨hp,rfl⟩ := byId_mem hfound
    exact ⟨hp,hid⟩
  · rintro ⟨hp,hid⟩
    exact ⟨p.id,hid,byId_of_mem hids hp⟩

/-- No place removed is inside one removed before it. -/
theorem gone_inside_first (h : Sound plan) :
    (gone plan.places removed).Pairwise fun p q => q.parentId ≠ some p.id := by
  have hsorted : (gone plan.places removed).Pairwise fun p q => depthOf plan.places q ≤ depthOf plan.places p :=
    List.pairwise_insertionSort _ _
  refine hsorted.imp_of_mem fun {p q} hp hq hle hinside => ?_
  rw [depthOf_inside h ((mem_gone h.ids).mp hp).1 hinside] at hle
  omega

/-! ## Places removed -/

def recordRemoved (was : Row) : PlaceChange := ⟨was.id,.removed,some (asKept was),none,none⟩

/-- The places left when some are removed. -/
def without (removed : List Uuid) (places : List Row) : List Row := places.filter fun r => r.id ∉ removed

theorem deletePlace_iff {id : Uuid} {left : List Row} : deletePlace plan id = .ok left ↔
    (∀ q ∈ plan.places, q.parentId ≠ some id) ∧ (∀ b ∈ plan.bins, b.place ≠ some id) ∧ left = without [id] plan.places := by
  have hplaces : (plan.places.any fun q => decide (q.parentId = some id)) = false ↔
      ∀ q ∈ plan.places, q.parentId ≠ some id := by
    simp [List.any_eq_false]
  have hbins : (plan.bins.any fun b => decide (b.cell.map Prod.fst = some id)) = false ↔
      ∀ b ∈ plan.bins, b.place ≠ some id := by
    rw [List.any_eq_false]
    refine forall₂_congr fun b _ => ?_
    rw [decide_eq_true_eq]
    rfl
  have hleft : (plan.places.filter fun q => q.id ≠ id) = without [id] plan.places :=
    List.filter_congr fun q _ => by simp
  rw [deletePlace,hleft,← hplaces,← hbins]
  split
  · rename_i hin
    refine iff_of_false Fallible.error_ne_ok ?_
    rintro ⟨hp,hb,-⟩
    rw [hp,hb] at hin
    cases hin
  · rename_i hin
    obtain ⟨hp,hb⟩ := Bool.or_eq_false_iff.mp (Bool.eq_false_iff.mpr hin)
    rw [Except.ok.injEq,eq_comm]
    exact ⟨fun heq => ⟨hp,hb,heq⟩,fun heq => heq.2.2⟩

theorem remove_iff {was : Row} : remove plan was = .ok out ↔
    (∀ q ∈ plan.places, q.parentId ≠ some was.id) ∧ (∀ b ∈ plan.bins, b.place ≠ some was.id) ∧
      out = ⟨without [was.id] plan.places,plan.bins,plan.changes++[recordRemoved was]⟩ := by
  rw [remove]
  simp only [Fallible.bind_ok_iff,deletePlace_iff,Except.ok.injEq]
  constructor
  · rintro ⟨_,⟨hp,hb,rfl⟩,rfl⟩
    exact ⟨hp,hb,rfl⟩
  · rintro ⟨hp,hb,rfl⟩
    exact ⟨_,⟨hp,hb,rfl⟩,rfl⟩

theorem without_nil (places : List Row) : without [] places = places := by
  simp [without]

theorem without_cons (id : Uuid) (removed : List Uuid) (places : List Row) :
    without removed (without [id] places) = without (id :: removed) places := by
  rw [without,without,without,List.filter_filter]
  refine List.filter_congr fun q _ => ?_
  simp [Bool.and_comm]

/-- Places removed, no one inside one before it, go where no bin is in one and every place
inside one is one of them. -/
theorem removes_iff {gs : List Row} (hfirst : gs.Pairwise fun p q => ∀ r ∈ plan.places, r.id = q.id → r.parentId ≠ some p.id)
    (hown : ∀ r ∈ plan.places, r.parentId ≠ some r.id) : gs.foldlM remove plan = .ok out ↔
      (∀ g ∈ gs, ∀ b ∈ plan.bins, b.place ≠ some g.id) ∧
      (∀ g ∈ gs, ∀ r ∈ plan.places, r.parentId = some g.id → r.id ∈ gs.map Row.id) ∧
      out = ⟨without (gs.map Row.id) plan.places,plan.bins,plan.changes++gs.map recordRemoved⟩ := by
  induction gs generalizing plan with
  | nil =>
    rw [List.map_nil,List.map_nil,List.append_nil,without_nil]
    exact ⟨fun heq => by cases heq; exact ⟨fun _ hg => absurd hg List.not_mem_nil,fun _ hg => absurd hg List.not_mem_nil,rfl⟩,
      fun hall => by rw [hall.2.2]; rfl⟩
  | cons g gs ih =>
    obtain ⟨hg,hrest⟩ := List.pairwise_cons.mp hfirst
    have hmem {r : Row} (hr : r ∈ without [g.id] plan.places) : r ∈ plan.places ∧ r.id ≠ g.id := by
      obtain ⟨hr,hne⟩ := List.mem_filter.mp hr
      exact ⟨hr,by simpa using hne⟩
    have hmid := @ih ⟨without [g.id] plan.places,plan.bins,plan.changes++[recordRemoved g]⟩
      (hrest.imp fun hpq r hr => hpq r (hmem hr).1) fun r hr => hown r (hmem hr).1
    rw [without_cons,List.append_assoc] at hmid
    rw [List.foldlM_cons,Fallible.bind_ok_iff]
    simp only [remove_iff,List.forall_mem_cons,List.map_cons]
    constructor
    · rintro ⟨_,⟨hp,hb,rfl⟩,hlater⟩
      obtain ⟨hbins,hinside,rfl⟩ := hmid.mp hlater
      refine ⟨⟨hb,hbins⟩,⟨fun r hr hin => absurd hin (hp r hr),fun g' hg' r hr hin => ?_⟩,rfl⟩
      by_cases hid : r.id = g.id
      · rw [hid]
        exact List.mem_cons_self
      · exact List.mem_cons_of_mem _ (hinside g' hg' r (List.mem_filter.mpr ⟨hr,by simpa using hid⟩) hin)
    · rintro ⟨⟨hb,hbins⟩,⟨hp,hinside⟩,rfl⟩
      have hfree : ∀ r ∈ plan.places, r.parentId ≠ some g.id := by
        intro r hr hin
        rcases List.mem_cons.mp (hp r hr hin) with hid | hlater
        · exact hown r hr (hid ▸ hin)
        · obtain ⟨q,hq,hid⟩ := List.mem_map.mp hlater
          exact hg q hq r hr hid.symm hin
      refine ⟨_,⟨hfree,hb,rfl⟩,hmid.mpr ⟨hbins,fun g' hg' r hr hin => ?_,rfl⟩⟩
      obtain ⟨hr,hne⟩ := hmem hr
      exact (List.mem_cons.mp (hinside g' hg' r hr hin)).resolve_left hne

end Edit
end Layout
end Spork
