import Spork.Bench.PackPlan
import Spork.Drag.DropSound
import Spork.Lib.Loop

/-! The server takes every plan the board makes: whatever is dropped, suggested, built for
another carrier or made, in any order, the plan saved next holds together. -/
namespace Spork
namespace Drag

open Packing (Uuid Level Objective BoxPlan arrange)

/-! ## A plan as it is sent -/

def rowOf : Id → Option Uuid
  | .row id => some id
  | .asIs .. => none

/-- An id that may be none, as it is sent. -/
def rowsOf : Option Id → Option (Option Uuid)
  | none => some none
  | some id => (rowOf id).map some

def levelText : Level → String
  | .each => "each"
  | .inner => "inner"
  | .carton => "carton"

/-- A planned parcel as the server reads it: its ids are ids of rows. -/
def sent (pp : PlannedParcel) : Option (PackPlan.PlannedParcel Uuid) := do
  let id ← rowOf pp.id
  let onParcel ← rowsOf pp.onParcelId
  let onPackage ← rowsOf pp.onPackageId
  return {
    id := id
    packageType := pp.packageTypeId
    asIs := pp.asIs.map fun a => ⟨a.itemId,levelText a.level,a.configId⟩
    onParcel := onParcel
    onPackage := onPackage
    spot := pp.spot.map fun s => ⟨s.x,s.y,s.z,s.turned⟩
    placedByHand := pp.placedByHand
    carrier := pp.carrierId
    lines := pp.lines.map fun l => ⟨l.lineId,l.quantity⟩ }

/-- The server takes a plan. -/
def Takes (plan : List PlannedParcel) : Prop := ∃ parcels, plan.mapM sent = some parcels ∧ PackPlan.checkPlan parcels = .ok ()

/-- A plan as it is read back: the lines of a parcel in their ids' order. -/
def readBack (plan : List PlannedParcel) : List PlannedParcel :=
  plan.map fun pp => {pp with lines := pp.lines.insertionSort fun a b => a.lineId ≤ b.lineId}

/-! ## The runs -/

/-- What the board would save next: what a drop, Suggest or another carrier makes of the plan,
and what a drop, another carrier or a parcel made would go back to. -/
inductive Saves (decks : Uuid → Prop) (plan : List PlannedParcel) : List PlannedParcel → Prop
  | drop {screen : BenchScreen} {objective : Objective} {target : Target} {how : HowMany} {newId : ℕ → Id}
      {keys : List Thing} {o : Outcome} {next : List PlannedParcel} (hplan : screen.plan = plan) (hreads : Reads decks screen)
      (hfresh : Fresh plan newId) (hdrop : dropOn screen (boardOf screen) objective target how newId keys = .ok o)
      (hnext : o.plan = some next) : Saves decks plan next
  | undoDrop {screen : BenchScreen} {objective : Objective} {target : Target} {how : HowMany} {newId : ℕ → Id}
      {keys : List Thing} {o : Outcome} {next : List PlannedParcel} (hplan : screen.plan = plan) (hreads : Reads decks screen)
      (hfresh : Fresh plan newId) (hdrop : dropOn screen (boardOf screen) objective target how newId keys = .ok o)
      (hnext : o.undo.plan = some next) : Saves decks plan next
  | suggest {screen : BenchScreen} {objective : Objective} {newId : ℕ → Id} (hplan : screen.plan = plan)
      (hreads : Reads decks screen) (hfresh : Fresh plan newId) :
      Saves decks plan (suggest screen (boardOf screen) objective newId)
  | build {screen : BenchScreen} {pallet : Id} {carrier : Uuid} {next : List PlannedParcel} (hplan : screen.plan = plan)
      (hnext : (buildFor (boardOf screen) pallet carrier).plan = some next) : Saves decks plan next
  | undoBuild {screen : BenchScreen} {pallet : Id} {carrier : Uuid} {next : List PlannedParcel} (hplan : screen.plan = plan)
      (hnext : (buildFor (boardOf screen) pallet carrier).undo.plan = some next) : Saves decks plan next
  | undoMake {screen : BenchScreen} {parcel : Id} {newId : ℕ → Id} {undo : Undo} {next : List PlannedParcel}
      (hplan : screen.plan = plan) (hfresh : Fresh plan newId) (hundo : (making screen parcel newId).2 = some undo)
      (hnext : undo.plan = some next) : Saves decks plan next

/-- The plans there can be: none at first, then what the board saves, as it is read back, and
less the rows of parcels made. -/
inductive Reachable (decks : Uuid → Prop) : List PlannedParcel → Prop
  | empty : Reachable decks []
  | saved {plan next : List PlannedParcel} : Reachable decks plan → Saves decks plan next → Reachable decks next
  | read {plan : List PlannedParcel} : Reachable decks plan → Reachable decks (readBack plan)
  | used {plan : List PlannedParcel} (package : Uuid) : Reachable decks plan → Reachable decks (usedUp plan (.row package))

variable {decks : Uuid → Prop} {plan next : List PlannedParcel} {screen : BenchScreen} {newId : ℕ → Id}

/-! ## What Suggest keeps -/

theorem holding_lines (b : BoxPlan) : ((holding b).map Prod.fst).Nodup := by
  have hkeeps : ∀ (sums : List (Uuid × ℤ)) (row : Uuid × ℤ), (sums.map Prod.fst).Nodup → ((addOf sums row).map Prod.fst).Nodup :=
    fun sums row h => (addOf_lines sums row h).1
  rw [holding]
  refine Loop.foldl_keeps (fun sums : List (Uuid × ℤ) => (sums.map Prod.fst).Nodup) ?_ fun sums a _ h => hkeeps sums _ h
  rw [placedOf,byLine]
  exact Loop.foldl_keeps (fun sums : List (Uuid × ℤ) => (sums.map Prod.fst).Nodup) List.nodup_nil fun sums row _ h =>
    hkeeps sums row h

/-- A suggested box is a parcel as the board plans one. -/
theorem suggested_well {id : Id} (hid : Named id) {b : BoxPlan} (hdeck : ¬decks b.preset.id) : Well decks (suggested id b) where
  row := hid
  package := by
    intro q hq
    cases hq
  kind := Or.inl ⟨rfl,rfl⟩
  one_pallet := Or.inl rfl
  spot := rfl
  lines := by
    constructor
    · rw [suggested,List.map_map]
      exact (holding_lines b).sublist (List.filter_sublist.map _)
    · intro l hl
      obtain ⟨r,hr,rfl⟩ := List.mem_map.mp hl
      simpa using (List.mem_filter.mp hr).2
  flat := by
    rintro ⟨t,ht,hdecked⟩
    cases ht
    exact absurd hdecked hdeck

/-- Suggest leaves a plan the board keeps: its pallets are all placed by hand. -/
theorem suggest_sound (hsound : Sound decks screen.plan) (hreads : Reads decks screen) (hfresh : Fresh screen.plan newId)
    (objective : Objective) : Sound decks (suggest screen (boardOf screen) objective newId) := by
  have hkept : Sound decks (byHand (boardOf screen)) := by
    rw [byHand,planOf_boardOf]
    exact hsound.filter fun pp _ _ q _ r hr _ hpallet => ((hsound.well r hr).flat hpallet).2.2
  refine hkept.append ?_ ?_ ?_ ?_
  · rw [idsOf,List.map_map]
    have hids : (PlannedParcel.id ∘ fun b : BoxPlan × ℕ => suggested (newId b.2) b.1) = newId ∘ Prod.snd := rfl
    rw [hids,← List.map_map,List.zipIdx_map_snd]
    exact (List.nodup_range' (h := Nat.one_pos)).map hfresh.apart
  · intro pp hpp hin
    obtain ⟨b,-,rfl⟩ := List.mem_map.mp hpp
    rw [byHand,planOf_boardOf] at hin
    exact hfresh.unused b.2 ((List.filter_sublist.map _).subset hin)
  · intro pp hpp
    obtain ⟨b,hb,rfl⟩ := List.mem_map.mp hpp
    exact suggested_well (hfresh.rows b.2) (hreads.arranged (List.fst_mem_of_mem_zipIdx hb))
  · intro pp hpp q hq
    obtain ⟨b,-,rfl⟩ := List.mem_map.mp hpp
    cases hq

/-! ## What a run keeps -/

/-- What the board saves next is a plan it keeps. -/
theorem saves_sound (h : Sound decks plan) (hsaves : Saves decks plan next) : Sound decks next := by
  cases hsaves with
  | drop hplan hreads hfresh hdrop hnext =>
    subst hplan
    exact (dropOn_sound h hreads hfresh hdrop).1 next hnext
  | undoDrop hplan hreads hfresh hdrop hnext =>
    subst hplan
    exact (dropOn_sound h hreads hfresh hdrop).2 next hnext
  | suggest hplan hreads hfresh =>
    subst hplan
    exact suggest_sound h hreads hfresh _
  | build hplan hnext =>
    subst hplan
    cases hnext
    rw [planOf_boardOf]
    refine h.map (fun pp => ?_) (fun pp => ?_) (fun pp hpp => ?_) fun pp hpp q hq => h.planned pp hpp q ?_
    · split <;> rfl
    · split <;> rfl
    · have hwell := h.well pp hpp
      split
      · exact ⟨hwell.row,hwell.package,hwell.kind,hwell.one_pallet,hwell.spot,⟨hwell.lines.once,hwell.lines.some_⟩,hwell.flat⟩
      · exact hwell
    · split at hq <;> exact hq
  | undoBuild hplan hnext =>
    subst hplan
    cases hnext
    rw [planOf_boardOf]
    exact h
  | undoMake hplan hfresh hundo hnext =>
    subst hplan
    obtain ⟨pp,-,rfl⟩ := Option.map_eq_some_iff.mp hundo
    cases hnext
    exact afresh_sound h hfresh _

/-- A plan read back is one still. -/
theorem readBack_sound (h : Sound decks plan) : Sound decks (readBack plan) := by
  refine h.map (fun pp => rfl) (fun pp => rfl) (fun pp hpp => ?_) fun pp hpp q hq => h.planned pp hpp q hq
  have hwell := h.well pp hpp
  have hperm := List.perm_insertionSort (fun a b : PlannedLine => a.lineId ≤ b.lineId) pp.lines
  exact ⟨hwell.row,hwell.package,hwell.kind,hwell.one_pallet,hwell.spot,
    ⟨(hperm.map _).nodup_iff.mpr hwell.lines.once,fun l hl => hwell.lines.some_ l (hperm.mem_iff.mp hl)⟩,hwell.flat⟩

/-- A plan whose parcel was made keeps what was on it, on the package now. -/
theorem usedUp_sound (h : Sound decks plan) (package : Uuid) : Sound decks (usedUp plan (.row package)) := by
  have hmoved : Sound decks (plan.map fun pp => if pp.onParcelId = some (.row package) then
      {pp with onParcelId := none, onPackageId := some (.row package)} else pp) := by
    refine h.map (fun pp => ?_) (fun pp => ?_) (fun pp hpp => ?_) fun pp hpp q hq => h.planned pp hpp q ?_
    · split <;> rfl
    · split <;> rfl
    · have hwell := h.well pp hpp
      split
      · rename_i hon
        refine ⟨hwell.row,fun q hq => ?_,hwell.kind,Or.inl rfl,hwell.spot,⟨hwell.lines.once,hwell.lines.some_⟩,fun hpallet => ?_⟩
        · cases hq
          exact ⟨package,rfl⟩
        · rw [(hwell.flat hpallet).1] at hon
          cases hon
      · exact hwell
    · split at hq
      · cases hq
      · exact hq
  refine hmoved.filter fun pp' hpp' _ q hq r _ hid _ => decide_eq_true fun hr => ?_
  obtain ⟨pp,-,rfl⟩ := List.mem_map.mp hpp'
  split at hq
  · cases hq
  · rename_i hon
    exact hon (hq.trans (congrArg some (hid.symm.trans hr)))

theorem reachable_sound (h : Reachable decks plan) : Sound decks plan := by
  induction h with
  | empty => exact sound_nil
  | saved _ hsaves ih => exact saves_sound ih hsaves
  | read _ ih => exact readBack_sound ih
  | used package _ ih => exact usedUp_sound ih package

/-! ## What the server checks -/

/-- The number of a row's id. -/
def Id.number : Id → Uuid
  | .row id => id
  | .asIs .. => 0

theorem rowOf_named {id : Id} (h : Named id) : rowOf id = some id.number := by
  obtain ⟨n,rfl⟩ := h
  rfl

theorem rowsOf_named {o : Option Id} (h : ∀ id, o = some id → Named id) : rowsOf o = some (o.map Id.number) := by
  cases o with
  | none => rfl
  | some id => rw [rowsOf,rowOf_named (h id rfl)]; rfl

theorem number_inj {a b : Id} (ha : Named a) (hb : Named b) (h : a.number = b.number) : a = b := by
  obtain ⟨n,rfl⟩ := ha
  obtain ⟨m,rfl⟩ := hb
  exact congrArg Id.row h

/-- A parcel as the server has it. -/
def taken (pp : PlannedParcel) : PackPlan.PlannedParcel Uuid where
  id := pp.id.number
  packageType := pp.packageTypeId
  asIs := pp.asIs.map fun a => ⟨a.itemId,levelText a.level,a.configId⟩
  onParcel := pp.onParcelId.map Id.number
  onPackage := pp.onPackageId.map Id.number
  spot := pp.spot.map fun s => ⟨s.x,s.y,s.z,s.turned⟩
  placedByHand := pp.placedByHand
  carrier := pp.carrierId
  lines := pp.lines.map fun l => ⟨l.lineId,l.quantity⟩

/-- Every parcel of a plan the board keeps can be read. -/
theorem mapM_sent (h : Sound decks plan) : plan.mapM sent = some (plan.map taken) := by
  have hread : ∀ pp ∈ plan, ∃ y, sent pp = some y ∧ y = taken pp := by
    intro pp hpp
    have hwell := h.well pp hpp
    have hon : ∀ q, pp.onParcelId = some q → Named q := by
      intro q hq
      obtain ⟨r,hr,rfl,-⟩ := h.planned pp hpp q hq
      exact (h.well r hr).row
    exact ⟨taken pp,by rw [sent,rowOf_named hwell.row,rowsOf_named hon,rowsOf_named hwell.package]; rfl,rfl⟩
  obtain ⟨ys,hys,hall⟩ := Fallible.mapM_some hread
  rw [hys]
  refine congrArg some ?_
  clear hys hread h
  induction hall with
  | nil => rfl
  | cons hy _ ih => rw [hy,ih,List.map_cons]

/-- A plan the board keeps holds together. -/
theorem holdsTogether (h : Sound decks plan) : PackPlan.HoldsTogether (plan.map taken) := by
  have hids : ((plan.map taken).map (·.id)) = (idsOf plan).map Id.number := by
    rw [List.map_map,idsOf,List.map_map]
    rfl
  have hdistinct : ((plan.map taken).map (·.id)).Nodup := by
    rw [hids]
    refine h.distinct.map_on fun a ha b hb hab => ?_
    obtain ⟨pp,hpp,rfl⟩ := List.mem_map.mp ha
    obtain ⟨pq,hpq,rfl⟩ := List.mem_map.mp hb
    exact number_inj (h.well pp hpp).row (h.well pq hpq).row hab
  refine ⟨hdistinct,?_,?_,?_,?_,?_,?_,?_⟩
  · intro p hp
    obtain ⟨pp,hpp,rfl⟩ := List.mem_map.mp hp
    rcases (h.well pp hpp).kind with ⟨htype,has⟩ | ⟨htype,a,has,heach⟩
    · exact Or.inl ⟨htype,by rw [taken,has]; rfl⟩
    · refine Or.inr ⟨htype,_,by rw [taken,has]; rfl,?_⟩
      cases hlevel : a.level with
      | each => exact Or.inl ⟨congrArg levelText hlevel,heach hlevel⟩
      | inner => exact Or.inr (Or.inl (congrArg levelText hlevel))
      | carton => exact Or.inr (Or.inr (congrArg levelText hlevel))
  · intro p hp
    obtain ⟨pp,hpp,rfl⟩ := List.mem_map.mp hp
    exact (h.well pp hpp).one_pallet.imp (fun hnone => by rw [taken,hnone]; rfl) fun hnone => by rw [taken,hnone]; rfl
  · intro p hp id hid
    obtain ⟨pp,hpp,rfl⟩ := List.mem_map.mp hp
    obtain ⟨q,hq,rfl⟩ := Option.map_eq_some_iff.mp hid
    obtain ⟨r,hr,rfl,-⟩ := h.planned pp hpp q hq
    exact List.mem_map.mpr ⟨taken r,List.mem_map_of_mem hr,rfl⟩
  · intro p hp
    obtain ⟨pp,hpp,rfl⟩ := List.mem_map.mp hp
    refine ⟨2,?_⟩
    rw [Forest.up,Forest.up,Forest.up,Option.bind_some,PackPlan.above_eq hdistinct (List.mem_map_of_mem hpp)]
    cases hon : pp.onParcelId with
    | none => rw [taken,hon]; rfl
    | some q =>
      obtain ⟨r,hr,rfl,hpallet⟩ := h.planned pp hpp q hon
      have hflat := ((h.well r hr).flat hpallet).1
      have habove := PackPlan.above_eq hdistinct (List.mem_map_of_mem hr)
      have hup : (taken pp).onParcel = some (taken r).id := by rw [taken,hon]; rfl
      rw [hup,Option.bind_some,habove,taken,hflat]
      rfl
  · intro p hp hspot
    obtain ⟨pp,hpp,rfl⟩ := List.mem_map.mp hp
    rw [taken,(h.well pp hpp).spot] at hspot
    cases hspot
  · intro p hp
    obtain ⟨pp,hpp,rfl⟩ := List.mem_map.mp hp
    rw [taken,List.map_map]
    exact (h.well pp hpp).lines.once
  · intro p hp l hl
    obtain ⟨pp,hpp,rfl⟩ := List.mem_map.mp hp
    obtain ⟨r,hr,rfl⟩ := List.mem_map.mp hl
    exact (h.well pp hpp).lines.some_ r hr

/-- From the empty plan on, the server takes every plan the board would save next. -/
theorem saves_taken (h : Reachable decks plan) (hsaves : Saves decks plan next) : Takes next := by
  have hsound := saves_sound (reachable_sound h) hsaves
  exact ⟨_,mapM_sent hsound,(holdsTogether hsound).ok⟩

/-! The rods' screen with a pallet on file: their box suggested, then dropped on a new pallet. -/

def loads (plan : List PlannedParcel) : BenchScreen :=
  {rods with
    presets := rods.presets++[{id := 9, name := "PALLET", size := none, suggested := true, maxPayloadG := none
                               tareWeightG := none, deck := some (1165,1165)}]
    plan := plan}

theorem loads_reads (plan : List PlannedParcel) : Reads (· = 9) (loads plan) where
  decked := by simp [loads,rods]
  sized := by simp [loads,rods]
  on_file := by
    rintro pp - t - rfl
    exact ⟨_,List.mem_append_right _ (List.mem_singleton.mpr rfl),rfl⟩
  rows := by simp [loads,rods]

def rodsBoxed : List PlannedParcel := suggest (loads []) (boardOf (loads [])) byParcels rodIds

theorem rodsBoxed_taken : ∃ o next, dropOn (loads rodsBoxed) (boardOf (loads rodsBoxed)) byParcels .newPallet ⟨false,none⟩
      (fun i => .row (200+i)) [.parcel (.row 100)] = .ok o ∧
    o.plan = some next ∧ idsOf next = [.row 100,.row 200] ∧ Takes next := by
  have hrun : ((dropOn (loads rodsBoxed) (boardOf (loads rodsBoxed)) byParcels .newPallet ⟨false,none⟩
      (fun i => .row (200+i)) [.parcel (.row 100)]).toOption.bind fun o => o.plan.map idsOf) =
        some [.row 100,.row 200] := by decide +kernel
  have hids : idsOf rodsBoxed = [.row 100] := by decide +kernel
  have hsuggested : Reachable (· = 9) rodsBoxed := by
    refine Reachable.empty.saved (.suggest rfl (loads_reads []) ⟨rodIds_apart,?_,fun n => ⟨_,rfl⟩⟩)
    simp [idsOf]
  have hfresh : Fresh rodsBoxed fun i => .row (200+i) := by
    refine ⟨fun i j hij => ?_,fun n hn => ?_,fun n => ⟨_,rfl⟩⟩
    · have hrow : 200+i = 200+j := Id.row.inj hij
      omega
    · rw [hids] at hn
      have hrow : 200+n = 100 := Id.row.inj (List.mem_singleton.mp hn)
      omega
  obtain ⟨o,ho,hplan⟩ := Option.bind_eq_some_iff.mp hrun
  obtain ⟨next,hnext,hparcels⟩ := Option.map_eq_some_iff.mp hplan
  have hdrop := Fallible.toOption_ok ho
  exact ⟨o,next,hdrop,hnext,hparcels,saves_taken hsuggested (.drop rfl (loads_reads rodsBoxed) hfresh hdrop hnext)⟩

end Drag
end Spork
