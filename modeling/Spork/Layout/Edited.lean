import Spork.Layout.Renumber
import Spork.Lib.OneByOne

/-! What a save of the plan editor does as a whole: when it goes through, and the places, bins
and history it leaves. -/
namespace Spork
namespace Layout
namespace Edit

/-- Where a place is and what it is called there, which no two places share. -/
def Row.called (r : Row) : Option Uuid × String := (r.parentId,r.name)

/-- A site's layout as its tables keep it, each bin of a place with a pattern in the cell the
pattern spells it in. -/
structure Sound (plan : Plan) : Prop where
  ids : (plan.places.map Row.id).Nodup
  names : (plan.places.map Row.called).Nodup
  inside : ∀ p ∈ plan.places, ∀ q ∈ p.parentId, q ∈ plan.places.map Row.id
  /-- No place is inside itself. -/
  nested : ∃ rank : Uuid → ℕ, ∀ p ∈ plan.places, ∀ q ∈ p.parentId, rank q < rank p.id
  bins : Bins plan.bins
  held : ∀ b ∈ plan.bins, ∀ p ∈ b.place, p ∈ plan.places.map Row.id
  spelled : ∀ p ∈ plan.places, Spelled plan.bins p

/-! ## A place changed -/

def Sized (box : PlaceBox ℚ) : Prop := 0 < box.length ∧ 0 < box.depth ∧ 0 < box.height

/-- What is asked of a change by itself. -/
structure ChangeAllowed (bins : List Bin) (c : PlaceChanged) (was : Row) : Prop where
  named : trimmed c.name ≠ ""
  sized : Sized c.box
  outlined : was.outline ≠ none → c.box.length = was.box.length ∧ c.box.depth = was.box.depth
  solid : was.grid.sides = 2 → c.solid = true
  renumbers : endOf c was ≠ was.grid.fromRight → Renumbers bins was

/-- A bin as a change of its place leaves it. -/
def turnBy (rows : List Row) (c : PlaceChanged) (b : Bin) : Bin :=
  match byId rows c.placeId with
  | none => b
  | some was => if endOf c was ≠ was.grid.fromRight then turnRound was b else b

/-- The history of a change. -/
def recordChanged (rows : List Row) (c : PlaceChanged) : PlaceChange :=
  let was := byId rows c.placeId
  ⟨c.placeId,.changed,was.map asKept,was.map fun r => asKept (write c r),none⟩

abbrev Goes (places : List Row) (cs : List PlaceChanged) : Prop :=
  OneByOne.Goes Row.id Row.called PlaceChanged.placeId write places cs

/-- The places as changes leave them. -/
abbrev written (cs : List PlaceChanged) : Row → Row := OneByOne.written Row.id PlaceChanged.placeId write cs

/-- The bins as changes leave them. -/
abbrev turned (rows : List Row) (cs : List PlaceChanged) : Bin → Bin :=
  OneByOne.written Bin.place (fun c => some c.placeId) (turnBy rows) cs

variable {rows places : List Row} {bins : List Bin} {plan out : Plan} {c : PlaceChanged}

theorem byId_mem {id : Uuid} {r : Row} (h : byId rows id = some r) : r ∈ rows ∧ r.id = id :=
  ⟨List.mem_of_find?_eq_some h,by simpa using List.find?_some h⟩

theorem byId_of_mem (hids : (rows.map Row.id).Nodup) {r : Row} (hr : r ∈ rows) : byId rows r.id = some r := by
  cases h : byId rows r.id with
  | none => exact absurd (decide_eq_true rfl) (List.find?_eq_none.mp h r hr)
  | some q =>
    obtain ⟨hq,hid⟩ := byId_mem h
    rw [List.inj_on_of_nodup_map hids hq hr hid]

theorem byId_isSome_iff {id : Uuid} : (byId rows id).isSome = true ↔ id ∈ rows.map Row.id := by
  simp [byId,List.find?_isSome]

@[simp] theorem write_id (c : PlaceChanged) (r : Row) : (write c r).id = r.id := rfl

@[simp] theorem write_parentId (c : PlaceChanged) (r : Row) : (write c r).parentId = r.parentId := rfl

@[simp] theorem turnBy_id (c : PlaceChanged) (b : Bin) : (turnBy rows c b).id = b.id := by
  rw [turnBy]
  split
  · rfl
  · split
    · exact turnRound_id b
    · rfl

@[simp] theorem turnBy_code (c : PlaceChanged) (b : Bin) : (turnBy rows c b).code = b.code := by
  rw [turnBy]
  split
  · rfl
  · split
    · exact turnRound_code b
    · rfl

@[simp] theorem turnBy_active (c : PlaceChanged) (b : Bin) : (turnBy rows c b).active = b.active := by
  rw [turnBy]
  split
  · rfl
  · split
    · exact turnRound_active b
    · rfl

@[simp] theorem turnBy_place (c : PlaceChanged) (b : Bin) : (turnBy rows c b).place = b.place := by
  rw [turnBy]
  split
  · rfl
  · split
    · exact turnRound_place b
    · rfl

/-- A change leaves a bin of another place. -/
theorem turnBy_of_not_in {b : Bin} (h : b.place ≠ some c.placeId) : turnBy rows c b = b := by
  rw [turnBy]
  split
  · rfl
  · rename_i was hwas
    split
    · exact turnRound_of_not_in (by rwa [(byId_mem hwas).2])
    · rfl

theorem put_turnBy (rows : List Row) (c : PlaceChanged) (bins : List Bin) :
    OneByOne.put Bin.place (fun c => some c.placeId) (turnBy rows) bins c = bins.map (turnBy rows c) := by
  refine List.map_congr_left fun b _ => ?_
  split
  · rfl
  · rename_i h
    exact (turnBy_of_not_in h).symm

theorem updatePlace_iff {out : List Row} : updatePlace places c = .ok out ↔
    OneByOne.Free Row.id Row.called PlaceChanged.placeId write places c ∧
      out = OneByOne.put Row.id PlaceChanged.placeId write places c := by
  have hfree : (places.any fun r => decide (r.id = c.placeId) && nameTaken places c.placeId r.parentId (trimmed c.name)) = false ↔
      OneByOne.Free Row.id Row.called PlaceChanged.placeId write places c := by
    rw [List.any_eq_false]
    refine forall₂_congr fun r hr => ?_
    rw [Bool.and_eq_true,not_and,decide_eq_true_eq]
    refine imp_congr_right fun _ => ?_
    rw [nameTaken,List.any_eq_true,not_exists]
    refine forall_congr' fun q => ?_
    rw [not_and,decide_eq_true_eq,not_and]
    refine imp_congr_right fun _ => imp_congr_right fun _ => ?_
    rw [Row.called,Row.called,Ne,Prod.mk.injEq]
    rfl
  rw [updatePlace]
  split
  · rename_i h
    refine iff_of_false Fallible.error_ne_ok ?_
    rintro ⟨hall,-⟩
    rw [hfree.mpr hall] at h
    cases h
  · rename_i h
    rw [Except.ok.injEq,eq_comm]
    exact ⟨fun heq => ⟨hfree.mp (Bool.eq_false_iff.mpr h),heq⟩,fun heq => heq.2⟩

theorem checked_iff {box out : PlaceBox ℚ} {what : String} : checked box what = .ok out ↔ Sized box ∧ out = kept box := by
  rw [checked]
  split
  · rename_i h
    refine iff_of_false Fallible.error_ne_ok ?_
    rintro ⟨⟨hl,hd,hh⟩,-⟩
    rcases h with h | h | h
    · exact absurd hl (not_lt.mpr h)
    · exact absurd hd (not_lt.mpr h)
    · exact absurd hh (not_lt.mpr h)
  · rename_i h
    push Not at h
    rw [Except.ok.injEq,eq_comm]
    exact ⟨fun heq => ⟨h,heq⟩,fun heq => heq.2⟩

@[simp] theorem found_iff {α : Type} {o : Option α} {a : α} : found o = .ok a ↔ o = some a := by
  cases o with
  | none => exact iff_of_false Fallible.error_ne_ok (Option.some_ne_none a).symm
  | some b => exact ⟨fun h => by cases h; rfl,fun h => by cases h; rfl⟩

@[simp] theorem refuseIf_iff {p : Prop} [Decidable p] {why : String} : refuseIf p why = .ok () ↔ ¬p :=
  Fallible.refuseIf_ok

theorem endOf_ne {was : Row} (h : endOf c was ≠ was.grid.fromRight) : endOf c was = !was.grid.fromRight := by
  cases hend : endOf c was <;> cases hwas : was.grid.fromRight <;> simp_all

/-- What renumbering asks is of each bin's place and code, which a change keeps. -/
theorem renumbers_congr {bins bins' : List Bin} (h : bins'.map (fun b => (b.place,b.code)) = bins.map fun b => (b.place,b.code))
    (r : Row) : Renumbers bins' r ↔ Renumbers bins r := by
  have hall (test : Option Uuid → String → Prop) : (∀ b ∈ bins', test b.place b.code) ↔ ∀ b ∈ bins, test b.place b.code := by
    have hmap (bs : List Bin) : (∀ b ∈ bs, test b.place b.code) ↔
        ∀ t ∈ bs.map fun b => (b.place,b.code), test t.1 t.2 := by
      rw [List.forall_mem_map]
    rw [hmap,hmap,h]
  unfold Renumbers
  refine or_congr (hall fun place _ => place ≠ some r.id) ?_
  refine exists_congr fun s => exists_congr fun pattern => exists_congr fun names => ?_
  refine and_congr_right fun _ => and_congr_right fun _ => and_congr_right fun _ => ?_
  exact hall fun place code => place = some r.id → ∃ n ∈ names, n.2 = code.toList

/-- A place whose bins a change leaves is spelled as it was. -/
theorem Spelled.turnBy {r : Row} (h : Spelled bins r) (hc : c.placeId ≠ r.id) : Spelled (bins.map (turnBy rows c)) r := by
  intro b' hb' cell hcell
  obtain ⟨b,hb,rfl⟩ := List.mem_map.mp hb'
  have hplace : b.place ≠ some c.placeId := by
    have hin : (Edit.turnBy rows c b).place = some r.id := by rw [Bin.place,hcell]; rfl
    rw [turnBy_place] at hin
    rw [hin]
    exact fun heq => hc (Option.some.inj heq).symm
  rw [turnBy_of_not_in hplace] at hcell ⊢
  exact h b hb cell hcell

theorem Bins.turnBy (h : Bins bins) : Bins (bins.map (turnBy rows c)) := by
  cases hwas : byId rows c.placeId with
  | none =>
    have hsame : Edit.turnBy rows c = id := funext fun b => by rw [Edit.turnBy,hwas]; rfl
    rwa [hsame,List.map_id]
  | some was =>
    by_cases hend : endOf c was ≠ was.grid.fromRight
    · have hsame : Edit.turnBy rows c = Edit.turnRound was := funext fun b => by simp only [Edit.turnBy,hwas,if_pos hend]
      rw [hsame]
      exact h.turnRound
    · have hsame : Edit.turnBy rows c = id := funext fun b => by simp only [Edit.turnBy,hwas,if_neg hend,id]
      rwa [hsame,List.map_id]

/-- One change goes through where it is allowed by itself and the name it gives is free. -/
theorem change_iff (hbins : Bins plan.bins) (hspelled : ∀ r ∈ rows, r.id = c.placeId → Spelled plan.bins r) :
    change rows plan c = .ok out ↔ ∃ was, byId rows c.placeId = some was ∧ ChangeAllowed plan.bins c was ∧
      OneByOne.Free Row.id Row.called PlaceChanged.placeId write plan.places c ∧
      out = ⟨OneByOne.put Row.id PlaceChanged.placeId write plan.places c,
        OneByOne.put Bin.place (fun c => some c.placeId) (turnBy rows) plan.bins c,plan.changes++[recordChanged rows c]⟩ := by
  rw [change]
  simp only [Fallible.bind_ok_iff,Unique.exists_iff,PUnit.default_eq_unit,found_iff,refuseIf_iff,checked_iff,updatePlace_iff]
  refine exists_congr fun was => and_congr_right fun hwas => ?_
  obtain ⟨hmem,hid⟩ := byId_mem hwas
  have hrecord : recordChanged rows c = ⟨c.placeId,.changed,some (asKept was),some (asKept (write c was)),none⟩ := by
    rw [recordChanged,hwas]
    rfl
  have hbinsLeft : OneByOne.put Bin.place (fun c => some c.placeId) (turnBy rows) plan.bins c =
      if endOf c was ≠ was.grid.fromRight then plan.bins.map (turnRound was) else plan.bins := by
    rw [put_turnBy]
    split
    · rename_i hend
      exact List.map_congr_left fun b _ => by simp only [turnBy,hwas,if_pos hend]
    · rename_i hend
      rw [List.map_congr_left (g := id) fun b _ => by simp only [turnBy,hwas,if_neg hend,id],List.map_id]
  have houtlined : ¬(was.outline ≠ none ∧ ((kept c.box).length ≠ was.box.length ∨ (kept c.box).depth ≠ was.box.depth)) ↔
      (was.outline ≠ none → c.box.length = was.box.length ∧ c.box.depth = was.box.depth) := by
    rw [not_and,not_or,not_not,not_not]
    rfl
  have hsolid : ¬(was.grid.sides = 2 ∧ c.solid = false) ↔ (was.grid.sides = 2 → c.solid = true) := by
    rw [not_and,Bool.not_eq_false]
  have hallowed : ChangeAllowed plan.bins c was ↔ trimmed c.name ≠ "" ∧ Sized c.box ∧
      (was.outline ≠ none → c.box.length = was.box.length ∧ c.box.depth = was.box.depth) ∧
      (was.grid.sides = 2 → c.solid = true) ∧ (endOf c was ≠ was.grid.fromRight → Renumbers plan.bins was) :=
    ⟨fun h => ⟨h.named,h.sized,h.outlined,h.solid,h.renumbers⟩,fun h => ⟨h.1,h.2.1,h.2.2.1,h.2.2.2.1,h.2.2.2.2⟩⟩
  simp only [and_assoc,exists_and_left,exists_eq_left,houtlined,hsolid,hrecord,hbinsLeft,hallowed]
  refine and_congr_right fun _ => and_congr_right fun _ => and_congr_right fun _ => and_congr_right fun _ => ?_
  by_cases hend : endOf c was ≠ was.grid.fromRight
  · simp only [if_pos hend,Fallible.bind_ok_iff]
    rw [endOf_ne hend]
    simp only [renumber_iff hbins (hspelled was hmem hid)]
    constructor
    · rintro ⟨hfree,_,⟨hrenumbers,rfl⟩,heq⟩
      cases heq
      exact ⟨fun _ => hrenumbers,hfree,rfl⟩
    · rintro ⟨hrenumbers,hfree,rfl⟩
      exact ⟨hfree,_,⟨hrenumbers (endOf_ne hend ▸ hend),rfl⟩,rfl⟩
  · simp only [if_neg hend]
    constructor
    · rintro ⟨hfree,heq⟩
      cases heq
      exact ⟨fun h => absurd h hend,hfree,rfl⟩
    · rintro ⟨-,hfree,rfl⟩
      exact ⟨hfree,rfl⟩

theorem ChangeAllowed.congr {bins bins' : List Bin}
    (h : bins'.map (fun b => (b.place,b.code)) = bins.map fun b => (b.place,b.code)) {was : Row} :
    ChangeAllowed bins' c was ↔ ChangeAllowed bins c was :=
  ⟨fun hc => ⟨hc.named,hc.sized,hc.outlined,hc.solid,fun hend => (renumbers_congr h was).mp (hc.renumbers hend)⟩,
    fun hc => ⟨hc.named,hc.sized,hc.outlined,hc.solid,fun hend => (renumbers_congr h was).mpr (hc.renumbers hend)⟩⟩

/-- Changes of different places go through where each is allowed by itself and the name each
gives is free when it comes. -/
theorem changes_iff {cs : List PlaceChanged} (hcs : (cs.map PlaceChanged.placeId).Nodup) (hbins : Bins plan.bins)
    (hspelled : ∀ c ∈ cs, ∀ r ∈ rows, r.id = c.placeId → Spelled plan.bins r) :
    cs.foldlM (change rows) plan = .ok out ↔
      (∀ c ∈ cs, ∃ was, byId rows c.placeId = some was ∧ ChangeAllowed plan.bins c was) ∧ Goes plan.places cs ∧
      out = ⟨plan.places.map (written cs),plan.bins.map (turned rows cs),plan.changes++cs.map (recordChanged rows)⟩ := by
  induction cs generalizing plan with
  | nil =>
    have hplaces : plan.places.map (written []) = plan.places := List.map_id' plan.places
    have hbins : plan.bins.map (turned rows []) = plan.bins := List.map_id' plan.bins
    rw [hplaces,hbins,List.map_nil,List.append_nil]
    exact ⟨fun h => by cases h; exact ⟨fun _ hc => absurd hc List.not_mem_nil,trivial,rfl⟩,fun h => by rw [h.2.2]; rfl⟩
  | cons c cs ih =>
    obtain ⟨hc,hrest⟩ := List.nodup_cons.mp hcs
    have hturn : (plan.bins.map (turnBy rows c)).map (fun b => (b.place,b.code)) =
        plan.bins.map fun b => (b.place,b.code) := by
      rw [List.map_map]
      exact List.map_congr_left fun b _ => by simp
    have hmid := @ih ⟨OneByOne.put Row.id PlaceChanged.placeId write plan.places c,
        OneByOne.put Bin.place (fun c => some c.placeId) (turnBy rows) plan.bins c,plan.changes++[recordChanged rows c]⟩
      hrest (by rw [put_turnBy]; exact hbins.turnBy) fun d hd r hr hid => by
        rw [put_turnBy]
        refine (hspelled d (List.mem_cons_of_mem c hd) r hr hid).turnBy fun heq => hc ?_
        exact List.mem_map.mpr ⟨d,hd,hid.symm.trans heq.symm⟩
    have hplaces : (OneByOne.put Row.id PlaceChanged.placeId write plan.places c).map (written cs) =
        plan.places.map (written (c :: cs)) := by
      rw [OneByOne.put,List.map_map]
      exact List.map_congr_left fun r _ => (OneByOne.written_cons write_id hcs r).symm
    have hplaceIds : ((c :: cs).map fun c => some c.placeId).Nodup := by
      have hsome := hcs.map (Option.some_injective Uuid)
      rwa [List.map_map] at hsome
    have hbinsLeft : (OneByOne.put Bin.place (fun c => some c.placeId) (turnBy rows) plan.bins c).map (turned rows cs) =
        plan.bins.map (turned rows (c :: cs)) := by
      rw [OneByOne.put,List.map_map]
      exact List.map_congr_left fun b _ => (OneByOne.written_cons turnBy_place hplaceIds b).symm
    rw [hplaces,hbinsLeft,put_turnBy] at hmid
    simp only [ChangeAllowed.congr hturn,List.append_assoc] at hmid
    rw [List.foldlM_cons,Fallible.bind_ok_iff]
    simp only [change_iff hbins (hspelled c List.mem_cons_self),put_turnBy]
    constructor
    · rintro ⟨_,⟨was,hwas,hallowed,hfree,rfl⟩,hlater⟩
      obtain ⟨hall,hgoes,rfl⟩ := hmid.mp hlater
      exact ⟨List.forall_mem_cons.mpr ⟨⟨was,hwas,hallowed⟩,hall⟩,⟨hfree,hgoes⟩,rfl⟩
    · rintro ⟨hall,⟨hfree,hgoes⟩,rfl⟩
      obtain ⟨⟨was,hwas,hallowed⟩,hrestAllowed⟩ := List.forall_mem_cons.mp hall
      exact ⟨_,⟨was,hwas,hallowed,hfree,rfl⟩,hmid.mpr ⟨hrestAllowed,hgoes,rfl⟩⟩

/-! ## Places made -/

/-- A name that is kept has something in it that is not a space. -/
theorem nameCk_trimmed {name : String} (h : trimmed name ≠ "") : NameCk (trimmed name) := by
  have hne : trim name.toList ≠ [] := fun hnil => h (by rw [trimmed,hnil]; rfl)
  have hlast := List.rdropWhile_last_not (p := Barcodes.isWhiteSpace) (l := name.toList.dropWhile Barcodes.isWhiteSpace) hne
  refine ⟨(trim name.toList).getLast hne,?_,fun hspace => hlast ?_⟩
  · rw [trimmed,asString,String.toList_ofList]
    exact List.getLast_mem hne
  · show Barcodes.isWhiteSpace ((trim name.toList).getLast hne) = true
    rw [hspace]
    decide

/-- No two places have one id, nor one name in one place. -/
structure Apart (places : List Row) : Prop where
  ids : (places.map Row.id).Nodup
  names : (places.map Row.called).Nodup

theorem apart_concat {r : Row} : Apart (places++[r]) ↔ Apart places ∧ r.id ∉ places.map Row.id ∧
    r.called ∉ places.map Row.called := by
  have hconcat {α : Type} (f : Row → α) : ((places++[r]).map f).Nodup ↔ (places.map f).Nodup ∧ f r ∉ places.map f := by
    rw [List.map_append,List.nodup_append_comm,List.map_singleton,List.singleton_append,List.nodup_cons,and_comm]
  constructor
  · intro h
    exact ⟨⟨((hconcat Row.id).mp h.ids).1,((hconcat Row.called).mp h.names).1⟩,((hconcat Row.id).mp h.ids).2,
      ((hconcat Row.called).mp h.names).2⟩
  · rintro ⟨h,hid,hname⟩
    exact ⟨(hconcat Row.id).mpr ⟨h.ids,hid⟩,(hconcat Row.called).mpr ⟨h.names,hname⟩⟩

theorem Apart.of_append {more : List Row} (h : Apart (places++more)) : Apart places :=
  ⟨(List.nodup_append.mp (List.map_append ▸ h.ids)).1,(List.nodup_append.mp (List.map_append ▸ h.names)).1⟩

theorem insertPlace_iff (h : Apart places) {r : Row} {out : List Row} :
    insertPlace places r = .ok out ↔ NameCk r.name ∧ Apart (places++[r]) ∧ out = places++[r] := by
  have hid : (places.any fun q => decide (q.id = r.id)) = false ↔ r.id ∉ places.map Row.id := by
    simp [List.any_eq_false]
  have hname (hnew : r.id ∉ places.map Row.id) :
      nameTaken places r.id r.parentId r.name = false ↔ r.called ∉ places.map Row.called := by
    rw [nameTaken,List.any_eq_false,List.mem_map,not_exists]
    refine forall_congr' fun q => ?_
    rw [decide_eq_true_eq,not_and (a := q ∈ places)]
    refine imp_congr_right fun hq => ?_
    have hne : q.id ≠ r.id := fun heq => hnew (heq ▸ List.mem_map_of_mem hq)
    simp [hne,Row.called,Prod.ext_iff]
  rw [insertPlace,apart_concat]
  split
  · rename_i hck
    exact iff_of_false Fallible.error_ne_ok fun hall => hck hall.1
  · rename_i hck
    split
    · rename_i htaken
      refine iff_of_false Fallible.error_ne_ok ?_
      rintro ⟨-,⟨-,hnew,hfree⟩,-⟩
      rw [hid.mpr hnew,(hname hnew).mpr hfree] at htaken
      cases htaken
    · rename_i htaken
      obtain ⟨hany,hnamed⟩ := Bool.or_eq_false_iff.mp (Bool.eq_false_iff.mpr htaken)
      have hnew := hid.mp hany
      rw [Except.ok.injEq,eq_comm]
      exact ⟨fun heq => ⟨not_not.mp hck,⟨h,hnew,(hname hnew).mp hnamed⟩,heq⟩,fun hall => hall.2.2⟩

/-- What is asked of a place added by itself. -/
structure AddAllowed (rows : List Row) (a : PlaceAdded) : Prop where
  named : trimmed a.name ≠ ""
  onSite : OnSite rows a.parentId
  sized : Sized a.box

/-- A place added, as a row. -/
def addedRow (a : PlaceAdded) : Row := made a.placeId a.parentId (trimmed a.name) a.solid (kept a.box)

def recordAdded (a : PlaceAdded) : PlaceChange := ⟨a.placeId,.added,none,some (asKept (addedRow a)),none⟩

theorem add_iff (h : Apart plan.places) {a : PlaceAdded} : add rows plan a = .ok out ↔
    AddAllowed rows a ∧ Apart (plan.places++[addedRow a]) ∧
      out = ⟨plan.places++[addedRow a],plan.bins,plan.changes++[recordAdded a]⟩ := by
  have hallowed : AddAllowed rows a ↔ trimmed a.name ≠ "" ∧ OnSite rows a.parentId ∧ Sized a.box :=
    ⟨fun ha => ⟨ha.named,ha.onSite,ha.sized⟩,fun ha => ⟨ha.1,ha.2.1,ha.2.2⟩⟩
  rw [add]
  simp only [Fallible.bind_ok_iff,Unique.exists_iff,PUnit.default_eq_unit,refuseIf_iff,checked_iff,insertPlace_iff h,
    not_not,and_assoc,exists_and_left,exists_eq_left,Except.ok.injEq,hallowed]
  refine and_congr_right fun hnamed => and_congr_right fun _ => and_congr_right fun _ => ?_
  constructor
  · rintro ⟨-,hapart,rfl⟩
    exact ⟨hapart,rfl⟩
  · rintro ⟨hapart,rfl⟩
    exact ⟨nameCk_trimmed hnamed,hapart,rfl⟩

/-- Places added go through where each is allowed by itself and they leave no two of one id or
of one name in one place. -/
theorem adds_iff {as : List PlaceAdded} (h : Apart plan.places) : as.foldlM (add rows) plan = .ok out ↔
    (∀ a ∈ as, AddAllowed rows a) ∧ Apart (plan.places++as.map addedRow) ∧
      out = ⟨plan.places++as.map addedRow,plan.bins,plan.changes++as.map recordAdded⟩ := by
  induction as generalizing plan with
  | nil =>
    rw [List.map_nil,List.map_nil,List.append_nil,List.append_nil]
    exact ⟨fun heq => by cases heq; exact ⟨fun _ ha => absurd ha List.not_mem_nil,h,rfl⟩,fun hall => by rw [hall.2.2]; rfl⟩
  | cons a as ih =>
    rw [List.foldlM_cons,Fallible.bind_ok_iff]
    simp only [add_iff h,List.forall_mem_cons,List.map_cons]
    constructor
    · rintro ⟨_,⟨ha,hapart,rfl⟩,hlater⟩
      obtain ⟨hall,hleft,rfl⟩ := (ih hapart).mp hlater
      rw [List.append_assoc] at hleft
      exact ⟨⟨ha,hall⟩,hleft,by simp⟩
    · rintro ⟨⟨ha,hall⟩,hleft,rfl⟩
      have hapart : Apart (plan.places++[addedRow a]) := by
        rw [List.append_cons] at hleft
        exact hleft.of_append
      refine ⟨_,⟨ha,hapart,rfl⟩,(ih hapart).mpr ⟨hall,?_,by simp⟩⟩
      rw [List.append_assoc]
      exact hleft

/-! ## Bins put on the plan -/

/-- What is asked of a spot by itself: a bin that is on no layout, and a name its place can have. -/
structure SpotAllowed (rows : List Row) (bins : List Bin) (s : SpotAdded) : Prop where
  waiting : ∃ b ∈ bins, b.id = s.locationId ∧ b.active = true ∧ b.cell = none ∧ NameCk b.code
  onSite : OnSite rows s.parentId
  sized : Sized s.box

/-- The bin a spot is of. -/
def binOf (bins : List Bin) (s : SpotAdded) : Option Bin := bins.find? fun b => b.id = s.locationId

def codeOf (bins : List Bin) (s : SpotAdded) : String := ((binOf bins s).map Bin.code).getD ""

/-- The place of a spot, named for its bin. -/
def spotRow (bins : List Bin) (s : SpotAdded) : Row := made s.placeId s.parentId (codeOf bins s) s.solid (kept s.box)

def recordSpot (bins : List Bin) (s : SpotAdded) : PlaceChange :=
  ⟨s.placeId,.added,none,some (asKept (spotRow bins s)),some (codeOf bins s)⟩

/-- A bin on its spot. -/
def seatSpot (s : SpotAdded) (b : Bin) : Bin := {b with cell := some (s.placeId,onlyCell)}

@[simp] theorem seatSpot_id (s : SpotAdded) (b : Bin) : (seatSpot s b).id = b.id := rfl

/-- The bins as spots leave them. -/
abbrev spotted (ss : List SpotAdded) : Bin → Bin := OneByOne.written Bin.id SpotAdded.locationId seatSpot ss

theorem binOf_eq (h : Bins bins) {s : SpotAdded} {b : Bin} (hb : b ∈ bins) (hid : b.id = s.locationId) :
    binOf bins s = some b := by
  cases hfind : binOf bins s with
  | none => exact absurd (decide_eq_true hid) (List.find?_eq_none.mp hfind b hb)
  | some b' =>
    have hid' : b'.id = s.locationId := by simpa using List.find?_some hfind
    rw [List.inj_on_of_nodup_map h.ids (List.mem_of_find?_eq_some hfind) hb (hid'.trans hid.symm)]

theorem codeOf_eq (h : Bins bins) {s : SpotAdded} {b : Bin} (hb : b ∈ bins) (hid : b.id = s.locationId) :
    codeOf bins s = b.code := by
  rw [codeOf,binOf_eq h hb hid]
  rfl

/-- Each bin's place is one of the places. -/
def Held (places : List Row) (bins : List Bin) : Prop := ∀ b ∈ bins, ∀ p ∈ b.place, p ∈ places.map Row.id

theorem put_seatSpot_cells (h : Bins bins) (hheld : Held places bins) {s : SpotAdded} (hnew : s.placeId ∉ places.map Row.id) :
    ((OneByOne.put Bin.id SpotAdded.locationId seatSpot bins s).filterMap Bin.cell).Nodup := by
  have hids : bins.Pairwise fun b b' => b.id ≠ b'.id := List.pairwise_map.mp h.ids
  have hcells := (List.pairwise_filterMap.mp h.cells).and hids
  rw [OneByOne.put,List.filterMap_map]
  refine List.pairwise_filterMap.mpr (hcells.imp_of_mem fun {b b'} hb hb' hboth t ht t' ht' => ?_)
  obtain ⟨hapart,hne⟩ := hboth
  have hother {b : Bin} (hb : b ∈ bins) {t : Uuid × GridCell} (ht : b.cell = some t) : (s.placeId,onlyCell) ≠ t := by
    rintro rfl
    exact hnew (hheld b hb s.placeId (by rw [Bin.place,ht]; rfl))
  simp only [Function.comp] at ht ht'
  split_ifs at ht ht' with hs hs'
  · exact absurd (hs.trans hs'.symm) hne
  · cases ht
    exact hother hb' ht'
  · cases ht'
    exact (hother hb ht).symm
  · exact hapart t ht t' ht'

theorem Bins.seatSpot (h : Bins bins) (hheld : Held places bins) {s : SpotAdded} (hnew : s.placeId ∉ places.map Row.id) :
    Bins (OneByOne.put Bin.id SpotAdded.locationId seatSpot bins s) := by
  have hkeeps {α : Type} (f : Bin → α) (hf : ∀ b, f (Edit.seatSpot s b) = f b) :
      (OneByOne.put Bin.id SpotAdded.locationId Edit.seatSpot bins s).map f = bins.map f := by
    rw [OneByOne.put,List.map_map]
    refine List.map_congr_left fun b _ => ?_
    simp only [Function.comp]
    split
    · exact hf b
    · rfl
  refine ⟨?_,?_,put_seatSpot_cells h hheld hnew⟩
  · rw [hkeeps Bin.id fun _ => rfl]
    exact h.ids
  · rw [hkeeps Bin.code fun _ => rfl]
    exact h.codes

theorem Held.seatSpot (hheld : Held places bins) (s : SpotAdded) :
    Held (places++[spotRow bins s]) (OneByOne.put Bin.id SpotAdded.locationId seatSpot bins s) := by
  intro b' hb' p hp
  obtain ⟨b,hb,rfl⟩ := List.mem_map.mp hb'
  rw [List.map_append,List.mem_append]
  split_ifs at hp
  · cases hp
    exact Or.inr (List.mem_singleton_self _)
  · exact Or.inl (hheld b hb p hp)

theorem put_seatSpot (h : Bins bins) (hheld : Held places bins) {s : SpotAdded} (hnew : s.placeId ∉ places.map Row.id)
    {b : Bin} (hb : b ∈ bins) (hid : b.id = s.locationId) (hwaits : b.cell = none) :
    put bins [(s.locationId,s.placeId,onlyCell)] = .ok (OneByOne.put Bin.id SpotAdded.locationId seatSpot bins s) := by
  have hseat : bins.map (seatIn [(s.locationId,s.placeId,onlyCell)]) =
      OneByOne.put Bin.id SpotAdded.locationId seatSpot bins s := by
    refine List.map_congr_left fun b' hb' => ?_
    rw [seatIn]
    by_cases hs : b'.id = s.locationId
    · obtain rfl : b' = b := List.inj_on_of_nodup_map h.ids hb' hb (hs.trans hid.symm)
      rw [List.find?_cons_of_pos (by simpa using hs.symm),if_pos hs]
      simp only [if_pos hwaits,seatSpot]
    · rw [List.find?_cons_of_neg (by simpa using Ne.symm hs),if_neg hs]
      rfl
  rw [put,hseat,if_pos (put_seatSpot_cells h hheld hnew)]

theorem spot_iff (hbins : Bins plan.bins) (hapart : Apart plan.places) (hheld : Held plan.places plan.bins) {s : SpotAdded} :
    spot rows plan s = .ok out ↔ SpotAllowed rows plan.bins s ∧ Apart (plan.places++[spotRow plan.bins s]) ∧
      out = ⟨plan.places++[spotRow plan.bins s],OneByOne.put Bin.id SpotAdded.locationId seatSpot plan.bins s,
        plan.changes++[recordSpot plan.bins s]⟩ := by
  have hfound {b : Bin} : (plan.bins.find? fun b => b.id = s.locationId ∧ b.active) = some b ↔
      b ∈ plan.bins ∧ b.id = s.locationId ∧ b.active = true := by
    constructor
    · intro hfind
      exact ⟨List.mem_of_find?_eq_some hfind,by simpa using List.find?_some hfind⟩
    · rintro ⟨hb,hid,hactive⟩
      cases hfind : plan.bins.find? fun b => b.id = s.locationId ∧ b.active with
      | none => exact absurd (decide_eq_true ⟨hid,hactive⟩) (List.find?_eq_none.mp hfind b hb)
      | some b' =>
        have hid' : b'.id = s.locationId ∧ b'.active = true := by simpa using List.find?_some hfind
        rw [List.inj_on_of_nodup_map hbins.ids (List.mem_of_find?_eq_some hfind) hb (hid'.1.trans hid.symm)]
  rw [spot]
  simp only [Fallible.bind_ok_iff,Unique.exists_iff,PUnit.default_eq_unit,found_iff,refuseIf_iff,checked_iff,
    insertPlace_iff hapart,not_not,and_assoc,exists_and_left,exists_eq_left,Except.ok.injEq,hfound]
  constructor
  · rintro ⟨b,hb,hid,hactive,honSite,hsized,hck,hleft,hwaits,bins',hput,rfl⟩
    have hcode := codeOf_eq hbins hb hid
    rw [← hcode] at hleft hck ⊢
    have hnew : s.placeId ∉ plan.places.map Row.id := (apart_concat.mp hleft).2.1
    rw [put_seatSpot hbins hheld hnew hb hid hwaits] at hput
    cases hput
    exact ⟨⟨⟨b,hb,hid,hactive,hwaits,hcode ▸ hck⟩,honSite,hsized⟩,hleft,rfl⟩
  · rintro ⟨⟨⟨b,hb,hid,hactive,hwaits,hck⟩,honSite,hsized⟩,hleft,rfl⟩
    have hcode := codeOf_eq hbins hb hid
    have hnew : s.placeId ∉ plan.places.map Row.id := (apart_concat.mp hleft).2.1
    refine ⟨b,hb,hid,hactive,honSite,hsized,hck,?_,hwaits,_,put_seatSpot hbins hheld hnew hb hid hwaits,?_⟩
    · rw [← hcode]
      exact hleft
    · rw [← hcode]
      rfl

/-- A spot's code is its bin's, wherever the bin is. -/
theorem codeOf_map {f : Bin → Bin} (hid : ∀ b, (f b).id = b.id) (hcode : ∀ b, (f b).code = b.code) (s : SpotAdded) :
    codeOf (bins.map f) s = codeOf bins s := by
  have hfind : binOf (bins.map f) s = (binOf bins s).map f := by
    rw [binOf,List.find?_map]
    simp only [Function.comp_def,hid]
    rfl
  rw [codeOf,hfind,Option.map_map,codeOf]
  simp only [Function.comp_def,hcode]

theorem spotRow_congr {bins bins' : List Bin} (h : ∀ s, codeOf bins' s = codeOf bins s) : spotRow bins' = spotRow bins := by
  funext s
  rw [spotRow,h,spotRow]

theorem recordSpot_congr {bins bins' : List Bin} (h : ∀ s, codeOf bins' s = codeOf bins s) :
    recordSpot bins' = recordSpot bins := by
  funext s
  rw [recordSpot,h,spotRow_congr h,recordSpot]

/-- A bin put on a spot waits for no other. -/
theorem spotAllowed_put {s t : SpotAdded} : SpotAllowed rows (OneByOne.put Bin.id SpotAdded.locationId seatSpot bins s) t ↔
    SpotAllowed rows bins t ∧ t.locationId ≠ s.locationId := by
  constructor
  · rintro ⟨⟨b',hb',hid,hactive,hwaits,hck⟩,honSite,hsized⟩
    obtain ⟨b,hb,rfl⟩ := List.mem_map.mp hb'
    by_cases hs : b.id = s.locationId
    · rw [if_pos hs] at hwaits
      cases hwaits
    · rw [if_neg hs] at hid hactive hwaits hck
      exact ⟨⟨⟨b,hb,hid,hactive,hwaits,hck⟩,honSite,hsized⟩,fun heq => hs (hid.trans heq)⟩
  · rintro ⟨⟨⟨b,hb,hid,hactive,hwaits,hck⟩,honSite,hsized⟩,hne⟩
    have hs : b.id ≠ s.locationId := fun heq => hne (hid.symm.trans heq)
    exact ⟨⟨b,List.mem_map.mpr ⟨b,hb,if_neg hs⟩,hid,hactive,hwaits,hck⟩,honSite,hsized⟩

/-- Spots go through where each is allowed by itself, no two are of one bin, and they leave no
two places of one id or of one name in one place. -/
theorem spots_iff {ss : List SpotAdded} (hbins : Bins plan.bins) (hapart : Apart plan.places)
    (hheld : Held plan.places plan.bins) : ss.foldlM (spot rows) plan = .ok out ↔
      (∀ s ∈ ss, SpotAllowed rows plan.bins s) ∧ (ss.map SpotAdded.locationId).Nodup ∧
      Apart (plan.places++ss.map (spotRow plan.bins)) ∧ out = ⟨plan.places++ss.map (spotRow plan.bins),
        plan.bins.map (spotted ss),plan.changes++ss.map (recordSpot plan.bins)⟩ := by
  induction ss generalizing plan with
  | nil =>
    have hsame : plan.bins.map (spotted []) = plan.bins := List.map_id' plan.bins
    rw [List.map_nil,List.map_nil,List.map_nil,List.append_nil,List.append_nil,hsame]
    exact ⟨fun heq => by cases heq; exact ⟨fun _ hs => absurd hs List.not_mem_nil,List.nodup_nil,hapart,rfl⟩,
      fun hall => by rw [hall.2.2.2]; rfl⟩
  | cons s ss ih =>
    have hcode : ∀ t, codeOf (OneByOne.put Bin.id SpotAdded.locationId seatSpot plan.bins s) t = codeOf plan.bins t :=
      codeOf_map (fun b => by split <;> rfl) fun b => by split <;> rfl
    have hmid (hleft : Apart (plan.places++[spotRow plan.bins s])) :=
      @ih ⟨plan.places++[spotRow plan.bins s],OneByOne.put Bin.id SpotAdded.locationId seatSpot plan.bins s,
        plan.changes++[recordSpot plan.bins s]⟩
        (hbins.seatSpot hheld (apart_concat.mp hleft).2.1) hleft (hheld.seatSpot s)
    simp only [spotAllowed_put,spotRow_congr hcode,recordSpot_congr hcode,List.append_assoc,List.singleton_append] at hmid
    have hbinsLeft (hnodup : ((s :: ss).map SpotAdded.locationId).Nodup) :
        (OneByOne.put Bin.id SpotAdded.locationId seatSpot plan.bins s).map (spotted ss) =
          plan.bins.map (spotted (s :: ss)) := by
      rw [OneByOne.put,List.map_map]
      exact List.map_congr_left fun b _ => (OneByOne.written_cons seatSpot_id hnodup b).symm
    rw [List.foldlM_cons,Fallible.bind_ok_iff]
    simp only [spot_iff hbins hapart hheld,List.forall_mem_cons,List.map_cons]
    constructor
    · rintro ⟨_,⟨hs,hleft,rfl⟩,hlater⟩
      obtain ⟨hall,hnodup,hapart',rfl⟩ := (hmid hleft).mp hlater
      have hnew : s.locationId ∉ ss.map SpotAdded.locationId := by
        intro hmem
        obtain ⟨t,ht,heq⟩ := List.mem_map.mp hmem
        exact (hall t ht).2 heq
      have hnodup' := List.nodup_cons.mpr ⟨hnew,hnodup⟩
      exact ⟨⟨hs,fun t ht => (hall t ht).1⟩,hnodup',hapart',by rw [hbinsLeft hnodup']⟩
    · rintro ⟨⟨hs,hall⟩,hnodup,hapart',rfl⟩
      obtain ⟨hnew,hrest⟩ := List.nodup_cons.mp hnodup
      have hleft : Apart (plan.places++[spotRow plan.bins s]) := by
        rw [List.append_cons] at hapart'
        exact hapart'.of_append
      refine ⟨_,⟨hs,hleft,rfl⟩,(hmid hleft).mpr ⟨fun t ht => ⟨hall t ht,?_⟩,hrest,hapart',?_⟩⟩
      · exact fun heq => hnew (heq ▸ List.mem_map_of_mem ht)
      · rw [hbinsLeft hnodup]

end Edit
end Layout
end Spork
