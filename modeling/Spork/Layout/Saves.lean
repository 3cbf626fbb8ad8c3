import Spork.Layout.TakenWhole

/-! A site's layout over any run of saves of the plan editor: it stays sound, no bin leaves the
place it is in, and the history says what each place was at each step. -/
namespace Spork
namespace Layout
namespace Edit

/-- The layout saves leave, one after another. -/
def saves (version : List Row → String) (plan : Plan) (es : List LayoutEdit) : Plan := es.foldl (save version) plan

/-- A bin later on: the same bin, in the place it was in when it was in one. -/
structure Bin.Stays (b b' : Bin) : Prop where
  id : b'.id = b.id
  code : b'.code = b.code
  active : b'.active = b.active
  place : ∀ p ∈ b.place, b'.place = some p

variable {version : List Row → String} {plan : Plan} {e : LayoutEdit} {es : List LayoutEdit}

theorem Bin.Stays.refl (b : Bin) : b.Stays b := ⟨rfl,rfl,rfl,fun _ hp => hp⟩

theorem Bin.Stays.trans {b b' b'' : Bin} (h : b.Stays b') (h' : b'.Stays b'') : b.Stays b'' :=
  ⟨h'.id.trans h.id,h'.code.trans h.code,h'.active.trans h.active,fun p hp => h'.place p (h.place p hp)⟩

theorem stays_trans {bs bs' bs'' : List Bin} (h : List.Forall₂ Bin.Stays bs bs') (h' : List.Forall₂ Bin.Stays bs' bs'') :
    List.Forall₂ Bin.Stays bs bs'' := by
  induction h generalizing bs'' with
  | nil =>
    cases h'
    exact .nil
  | cons hb _ ih =>
    cases h' with
    | cons hb' hbs' => exact .cons (hb.trans hb') (ih hbs')

/-- Records one after another. -/
theorem Chain.append {a b c : Option Kept} {rs rs' : List PlaceChange} (h : Chain a rs b) (h' : Chain b rs' c) :
    Chain a (rs++rs') c := by
  induction rs generalizing a with
  | nil =>
    obtain rfl : a = b := h
    exact h'
  | cons r rs ih => exact ⟨h.1,ih h.2⟩

/-- The last record says what a place is now. -/
theorem Chain.last {a b : Option Kept} {rs : List PlaceChange} (h : Chain a rs b) :
    b = (rs.getLast?.map PlaceChange.after).getD a := by
  induction rs generalizing a with
  | nil => exact Eq.symm h
  | cons r rs ih =>
    rw [ih h.2]
    cases rs with
    | nil => rfl
    | cons r' rs => simp [List.getLast?_cons]

/-- What a save leaves: the layout it found, or what an edit that is accepted leaves. -/
theorem save_cases (h : Sound plan) (ho : Once e) :
    save version plan e = plan ∨ Accepted plan e ∧ save version plan e = leaves plan e := by
  rw [save]
  cases hleft : editLayout version plan e with
  | error why => exact Or.inl rfl
  | ok left =>
    obtain ⟨-,haccepted,rfl⟩ := (editLayout_iff h ho).mp hleft
    exact Or.inr ⟨haccepted,rfl⟩

theorem save_sound (version : List Row → String) (h : Sound plan) (ho : Once e) : Sound (save version plan e) := by
  obtain heq | ⟨haccepted,heq⟩ := save_cases h ho
  · rwa [heq]
  · rw [heq]
    exact haccepted.sound h ho

theorem moved_stays (h : Sound plan) (ho : Once e) (ha : Accepted plan e) {b : Bin} (hb : b ∈ plan.bins) :
    b.Stays (moved plan e b) := by
  have hspot (b : Bin) : (spotted e.spots b).id = b.id ∧ (spotted e.spots b).code = b.code ∧
      (spotted e.spots b).active = b.active := by
    rw [spotted,OneByOne.written]
    split
    · exact ⟨rfl,rfl,rfl⟩
    · exact ⟨rfl,rfl,rfl⟩
  obtain ⟨hid,hcode,hactive⟩ := hspot (turned plan.places e.changed b)
  refine ⟨hid.trans (turned_id ho.changed b),hcode.trans (turned_code ho.changed b),
    hactive.trans (turned_active ho.changed b),fun p hp => ?_⟩
  have hseated : b.cell ≠ none := by
    intro hnone
    rw [Bin.place,hnone] at hp
    cases hp
  rw [moved_of_seated h.bins ho ha.allowed.spots hb hseated,turned_place ho.changed]
  exact hp

theorem save_stays (h : Sound plan) (ho : Once e) : List.Forall₂ Bin.Stays plan.bins (save version plan e).bins := by
  obtain heq | ⟨haccepted,heq⟩ := save_cases h ho
  · rw [heq]
    exact List.forall₂_same.mpr fun b _ => Bin.Stays.refl b
  · rw [heq]
    exact List.forall₂_map_right_iff.mpr (List.forall₂_same.mpr fun b hb => moved_stays h ho haccepted hb)

/-- A layout that is sound is sound after any saves, each naming a place once in each of its
lists, and no bin has left the place it was in. -/
theorem saves_keep (h : Sound plan) (hes : ∀ e ∈ es, Once e) :
    Sound (saves version plan es) ∧ List.Forall₂ Bin.Stays plan.bins (saves version plan es).bins := by
  induction es generalizing plan with
  | nil => exact ⟨h,List.forall₂_same.mpr fun b _ => Bin.Stays.refl b⟩
  | cons e es ih =>
    obtain ⟨ho,hrest⟩ := List.forall_mem_cons.mp hes
    obtain ⟨hsound,hstays⟩ := ih (save_sound version h ho) hrest
    exact ⟨hsound,stays_trans (save_stays h ho) hstays⟩

/-! ## The history over saves -/

/-- What each of some records says happened to a place, from what it was to what it is. -/
def Told (before after : List Row) (rs : List PlaceChange) : Prop :=
  ∀ id, Chain (keptOf before id) (rs.filter fun r => r.placeId = id) (keptOf after id)

theorem save_told (version : List Row → String) (h : Sound plan) (ho : Once e) (hkept : ∀ c ∈ e.changed, c.placeId ∉ e.removed) :
    ∃ more, (save version plan e).changes = plan.changes++more ∧ Told plan.places (save version plan e).places more := by
  obtain heq | ⟨haccepted,heq⟩ := save_cases h ho
  · rw [heq]
    exact ⟨[],(List.append_nil _).symm,fun id => rfl⟩
  · rw [heq]
    exact ⟨records plan e,rfl,records_chain h ho haccepted fun c hc hgone => absurd hgone (hkept c hc)⟩

/-- Over any saves that change no place they remove, the history only grows, and what it gains
tells of each place from what it was to what it is, each record from where the last left it. -/
theorem saves_told (h : Sound plan) (hes : ∀ e ∈ es, Once e ∧ ∀ c ∈ e.changed, c.placeId ∉ e.removed) :
    ∃ more, (saves version plan es).changes = plan.changes++more ∧ Told plan.places (saves version plan es).places more ∧
      ∀ id, keptOf (saves version plan es).places id =
        ((more.filter fun r => r.placeId = id).getLast?.map PlaceChange.after).getD (keptOf plan.places id) := by
  have hall : ∃ more, (saves version plan es).changes = plan.changes++more ∧
      Told plan.places (saves version plan es).places more := by
    induction es generalizing plan with
    | nil => exact ⟨[],(List.append_nil _).symm,fun id => rfl⟩
    | cons e es ih =>
      obtain ⟨⟨ho,hkept⟩,hrest⟩ := List.forall_mem_cons.mp hes
      obtain ⟨first,hfirst,htold⟩ := save_told version h ho hkept
      obtain ⟨later,hlater,htold'⟩ := ih (save_sound version h ho) hrest
      refine ⟨first++later,?_,fun id => ?_⟩
      · rw [← List.append_assoc,← hfirst]
        exact hlater
      · rw [List.filter_append]
        exact (htold id).append (htold' id)
  obtain ⟨more,hmore,htold⟩ := hall
  exact ⟨more,hmore,htold,fun id => (htold id).last⟩

/-- Two racks called by other names and one numbered from its other end, and then as they were. -/
def renamedAndBack : List LayoutEdit := [callRacks "B1" "B2" (some true),callRacks "A1" "A2" (some false)]

theorem renamedAndBack_once : ∀ e ∈ renamedAndBack, Once e ∧ ∀ c ∈ e.changed, c.placeId ∉ e.removed :=
  List.forall_mem_cons.mpr ⟨⟨once_callRacks _ _ _,fun _ _ => List.not_mem_nil⟩,
    List.forall_mem_singleton.mpr ⟨once_callRacks _ _ _,fun _ _ => List.not_mem_nil⟩⟩

theorem saves_keep_renamed : Sound (saves (fun _ => "1") twoRacks renamedAndBack) ∧
    List.Forall₂ Bin.Stays twoRacks.bins (saves (fun _ => "1") twoRacks renamedAndBack).bins :=
  saves_keep sound_twoRacks fun e he => (renamedAndBack_once e he).1

theorem saves_told_renamed : ∃ more, (saves (fun _ => "1") twoRacks renamedAndBack).changes = twoRacks.changes++more ∧
    Told twoRacks.places (saves (fun _ => "1") twoRacks renamedAndBack).places more ∧
    ∀ id, keptOf (saves (fun _ => "1") twoRacks renamedAndBack).places id =
      ((more.filter fun r => r.placeId = id).getLast?.map PlaceChange.after).getD (keptOf twoRacks.places id) :=
  saves_told sound_twoRacks renamedAndBack_once

end Edit
end Layout
end Spork
