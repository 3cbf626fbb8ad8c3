import Spork.Acts.Adjustment
import Spork.Acts.Repacking
import Spork.Acts.Voiding

/-! Sending an act again: each handler makes its check before it claims the act, so a
replay is answered only while the check still passes. -/
namespace Spork
namespace Acts

open Ledger Packages Adjusting

/-! ## What later acts leave -/

/-- A later store: the acts recorded before are there, each with what it wrote. -/
structure Later {packages packages' : List ℕ} (s : Store packages) (s' : Store packages') : Prop where
  clientEvents : s.clientEvents ⊆ s'.clientEvents
  events : ∀ act ∈ s.clientEvents, s'.eventsOf act = s.eventsOf act
  movements : ∀ act ∈ s.clientEvents, s'.movementsOf act = s.movementsOf act

variable {packages : List ℕ}

theorem Later.refl (s : Store packages) : Later s s := ⟨fun _ h => h,fun _ _ => rfl,fun _ _ => rfl⟩

theorem Later.trans {packages' packages'' : List ℕ} {s : Store packages} {s' : Store packages'}
    {s'' : Store packages''} (h : Later s s') (h' : Later s' s'') : Later s s'' where
  clientEvents := fun _ hact => h'.clientEvents (h.clientEvents hact)
  events := fun act hact => (h'.events act (h.clientEvents hact)).trans (h.events act hact)
  movements := fun act hact => (h'.movements act (h.clientEvents hact)).trans (h.movements act hact)

/-- What changes no fact and no envelope. -/
theorem Later.of_same {s s' : Store packages} (hclient : s'.clientEvents = s.clientEvents)
    (hevents : s'.packageEvents = s.packageEvents) (hmovements : s'.stockMovements = s.stockMovements) :
    Later s s' where
  clientEvents := hclient ▸ fun _ h => h
  events act _ := by rw [Store.eventsOf,hevents]; rfl
  movements act _ := by rw [Store.movementsOf,hmovements]; rfl

/-- What writes facts under an envelope of its own only. -/
theorem Later.of_written {s s' : Store packages} {act : ℕ} (hact : act ∉ s.clientEvents)
    (hclient : s'.clientEvents = s.clientEvents++[act]) {es : List (PackageEvent packages)}
    (hevents : s'.packageEvents = s.packageEvents++es) (hes : ∀ e ∈ es, e.clientEventId = act)
    {ms : List StockMovement} (hmovements : s'.stockMovements = s.stockMovements++ms)
    (hms : ∀ m ∈ ms, m.clientEventId = act) : Later s s' where
  clientEvents := hclient ▸ List.subset_append_left _ _
  events other hother := by
    have hnone : es.filter (fun e => e.clientEventId = other) = [] :=
      List.filter_eq_nil_iff.mpr fun e he heq => hact (hes e he ▸ (of_decide_eq_true heq) ▸ hother)
    rw [Store.eventsOf,hevents,List.filter_append,hnone,List.append_nil]
    rfl
  movements other hother := by
    have hnone : ms.filter (fun m => m.clientEventId = other) = [] :=
      List.filter_eq_nil_iff.mpr fun m hm heq => hact (hms m hm ▸ (of_decide_eq_true heq) ▸ hother)
    rw [Store.movementsOf,hmovements,List.filter_append,hnone,List.append_nil]
    rfl

/-! ## Package acts -/

/-- Recorded, its event is the act's one. -/
theorem recordPackageEvent_recorded {s : Store packages} {act : ℕ} {row : NewEvent} {warnings : List String}
    {out : PackageActResponse × Store packages} (h : recordPackageEvent s act row warnings = .ok out) :
    Later s out.2 ∧ act ∈ out.2.clientEvents ∧
      out.2.eventsOf act = [(out.1.eventId,row.kind,row.packageId)] := by
  rcases recordPackageEvent_cases h with ⟨hclaimed,hsame,hevents⟩ |
    ⟨hclaimed,hclient,hmovements,hallowed,hevents,hid⟩
  · rw [hsame]
    exact ⟨Later.refl s,hclaimed,hevents⟩
  · refine ⟨Later.of_written hclaimed hclient hevents (by simp) (by rw [hmovements,List.append_nil])
      (by simp),by simp [hclient],?_⟩
    have hnone := s.eventsOf_unclaimed hclaimed
    rw [Store.eventsOf,List.map_eq_nil_iff] at hnone
    rw [Store.eventsOf,hevents,List.filter_append,hnone,hid]
    simp [NewEvent.toEvent]

/-- An act with one event of its kind and package is answered with it. -/
theorem recordPackageEvent_replay {s : Store packages} {act : ℕ} {row : NewEvent} {event : ℕ}
    (hact : act ∈ s.clientEvents) (hevents : s.eventsOf act = [(event,row.kind,row.packageId)])
    (warnings : List String) : ∃ out, recordPackageEvent s act row warnings = .ok (out,s) ∧
      out.eventId = event := by
  rw [Store.eventsOf] at hevents
  obtain ⟨e,hone,hrow⟩ := List.map_eq_singleton_iff.mp hevents
  obtain ⟨hid,hkind,hpackage⟩ : e.event.id = event ∧ e.event.kind = row.kind ∧ e.event.packageId = row.packageId := by
    simpa using hrow
  refine ⟨⟨event,warnings++[replayWarning],s.packageStatusNow row.packageId⟩,?_,rfl⟩
  simp only [recordPackageEvent,claimAct,if_pos hact,requireOnePackageEvent,hone,hkind,hpackage,hid]
  simp

/-! ## Movements -/

theorem optionalOneMovement_ok {s : Store packages} {act : ℕ} {prior : Option StockMovement}
    (h : optionalOneMovement s act = .ok prior) : s.movementsOf act = prior.toList := by
  unfold optionalOneMovement at h
  split at h
  · rename_i hnone
    cases h
    exact hnone
  · rename_i m hone
    cases h
    exact hone
  · cases h

theorem optionalOneMovement_eq {s : Store packages} {act : ℕ} {prior : Option StockMovement}
    (h : s.movementsOf act = prior.toList) : optionalOneMovement s act = .ok prior := by
  unfold optionalOneMovement
  rw [h]
  cases prior <;> rfl

/-- The one movement written under an act claimed for it. -/
theorem movementsOf_written {s s' : Store packages} {m : StockMovement}
    (hunclaimed : m.clientEventId ∉ s.clientEvents)
    (hmovements : s'.stockMovements = s.stockMovements++[m]) : s'.movementsOf m.clientEventId = [m] := by
  have hnone := s.movementsOf_unclaimed hunclaimed
  rw [Store.movementsOf] at hnone
  rw [Store.movementsOf,hmovements,List.filter_append,hnone]
  simp

theorem repack_passes {s : Store packages} {who : Caller} {minted : Minted} {body : RepackRequest}
    {out : RepackResponse × Store packages} (h : repack s who minted body = .ok out) :
    (repackProblems s body).any repackIsHard = false := by
  rw [repack] at h
  split at h
  · cases h
  · rename_i hhard
    rw [not_not,List.map_eq_nil_iff,List.filter_eq_nil_iff] at hhard
    exact List.any_eq_false.mpr hhard

/-- Recorded, its movement is the act's one, of the quantity asked for. -/
theorem repack_recorded {s : Store packages} {who : Caller} {minted : Minted} {body : RepackRequest}
    {out : RepackResponse × Store packages} (h : repack s who minted body = .ok out) :
    Later s out.2 ∧ body.clientEventId ∈ out.2.clientEvents ∧ ∃ m,
      out.2.movementsOf body.clientEventId = [m] ∧ m.movement.id = out.1.movementId ∧
        m.movement.quantity = body.quantity := by
  unfold repack at h
  dsimp only at h
  split at h
  · cases h
  · by_cases hclaimed : body.clientEventId ∈ s.clientEvents
    · simp only [claimAct,if_pos hclaimed,requireOneMovement] at h
      cases hmovements : s.movementsOf body.clientEventId with
      | nil =>
        rw [hmovements] at h
        cases h
      | cons m ms =>
        rw [hmovements] at h
        cases ms with
        | nil =>
          dsimp only [rejectQuantityMismatch] at h
          by_cases hquantity : m.movement.quantity = body.quantity
          · rw [if_neg (not_not.mpr hquantity)] at h
            cases h
            exact ⟨Later.refl s,hclaimed,m,hmovements,rfl,hquantity⟩
          · rw [if_pos hquantity] at h
            cases h
        | cons m' ms => cases h
    · simp only [claimAct,if_neg hclaimed] at h
      split at h
      · cases h
      · rename_i kind kinds hkinds
        split at h
        · cases h
        · rename_i posted hinsert
          cases h
          obtain ⟨hmovements,hclient,hevents⟩ := insertStockMovement_ok hinsert
          refine ⟨Later.of_written hclaimed hclient (hevents.trans (List.append_nil _).symm) (by simp)
            hmovements (by simp),by simp [hclient],_,movementsOf_written (s := s) hclaimed hmovements,rfl,rfl⟩

/-- An act with one movement of the quantity is answered with it while the check passes. -/
theorem repack_replay {s : Store packages} {body : RepackRequest} {m : StockMovement}
    (hpasses : (repackProblems s body).any repackIsHard = false) (hact : body.clientEventId ∈ s.clientEvents)
    (hone : s.movementsOf body.clientEventId = [m]) (hquantity : m.movement.quantity = body.quantity)
    (who : Caller) (minted : Minted) :
    ∃ out, repack s who minted body = .ok (out,s) ∧ out.movementId = m.movement.id := by
  have hhard : (repackProblems s body).filter repackIsHard = [] :=
    List.filter_eq_nil_iff.mpr (List.any_eq_false.mp hpasses)
  refine ⟨⟨m.movement.id,((repackProblems s body).filter fun p => !repackIsHard p).map RepackProblem.text++
    [replayWarning]⟩,?_,rfl⟩
  simp only [repack,hhard,claimAct,if_pos hact,requireOneMovement,hone,rejectQuantityMismatch,hquantity]
  simp

/-! ## Adjustments -/

/-- No finding still open would be closed with a movement. -/
def NothingToClose (s : Store packages) (movement : Option ℕ) (finding : Option Finding) : Prop :=
  movement = none ∨ ∀ f ∈ finding, ∀ d ∈ s.discrepancies, d.id = f.id → isOpen d = false

theorem settle_facts (s : Store packages) (movement : Option ℕ) (finding : Option Finding) :
    (settle s movement finding).2.clientEvents = s.clientEvents ∧
      (settle s movement finding).2.packageEvents = s.packageEvents ∧
      (settle s movement finding).2.stockMovements = s.stockMovements := by
  cases movement <;> cases finding <;> exact ⟨rfl,rfl,rfl⟩

theorem map_eq_self_iff {α : Type} {f : α → α} {xs : List α} : xs.map f = xs ↔ ∀ x ∈ xs, f x = x := by
  conv_lhs => rhs; rw [← List.map_id xs]
  exact List.map_inj_left

theorem settle_same_iff (s : Store packages) (movement : Option ℕ) (finding : Option Finding) :
    (settle s movement finding).2 = s ↔ NothingToClose s movement finding := by
  cases movement with
  | none => exact iff_of_true rfl (Or.inl rfl)
  | some m =>
    cases finding with
    | none => exact iff_of_true rfl (Or.inr fun f hf => nomatch hf)
    | some f =>
      have hclose : (settle s (some m) (some f)).2 = s ↔
          ∀ d ∈ s.discrepancies, closedRow m f.id d = d := by
        rw [← map_eq_self_iff]
        exact ⟨fun hsame => congrArg Store.discrepancies hsame,fun hmap => by
          show closeFinding s m f.id = s
          rw [closeFinding,hmap]⟩
      rw [hclose]
      constructor
      · refine fun hsame => Or.inr fun g hg d hd hid => ?_
        obtain rfl := Option.some.inj hg
        by_contra hopen
        have hrow := hsame d hd
        rw [closedRow,if_pos ⟨hid,by simpa using hopen⟩] at hrow
        rw [← hrow] at hopen
        exact hopen (by simp [isOpen])
      · rintro (hnone | hclosed) d hd
        · cases hnone
        · rw [closedRow,if_neg]
          rintro ⟨hid,hopen⟩
          rw [hclosed f rfl d hd hid] at hopen
          cases hopen

/-- Recorded, the movement answered with is the act's one, or it has none. -/
theorem adjustCell_recorded {s : Store packages} {who : Caller} {minted : Minted}
    {body : RecordAdjustmentRequest} {cell : StockCell} {finding : Option Finding} {warnings : List String}
    {direction : Option Direction} {out : RecordAdjustmentResponse × Store packages}
    (h : adjustCell s who minted body cell finding warnings direction = .ok out) :
    Later s out.2 ∧ (out.2.movementsOf body.clientEventId).map (fun m => m.movement.id) =
      out.1.movementId.toList := by
  unfold adjustCell at h
  cases direction with
  | none =>
    dsimp only at h
    split at h
    · cases h
    · rename_i prior hprior
      cases h
      obtain ⟨hclient,hevents,hmovements⟩ := settle_facts s (prior.map fun m => m.movement.id) finding
      refine ⟨Later.of_same hclient hevents hmovements,?_⟩
      have hone := optionalOneMovement_ok hprior
      rw [Store.movementsOf] at hone
      rw [Store.movementsOf,hmovements,hone]
      cases prior <;> rfl
  | some d =>
    by_cases hclaimed : body.clientEventId ∈ s.clientEvents
    · simp only [claimAct,if_pos hclaimed] at h
      split at h
      · cases h
      · rename_i prior hprior
        cases h
        refine ⟨Later.refl s,?_⟩
        rw [optionalOneMovement_ok hprior]
        cases prior <;> rfl
    · simp only [claimAct,if_neg hclaimed] at h
      split at h
      · cases h
      · rename_i posted hinsert
        cases h
        obtain ⟨hmovements,hclient,hevents⟩ := insertStockMovement_ok hinsert
        obtain ⟨hclient',hevents',hmovements'⟩ := settle_facts posted (some minted.id) finding
        have hwritten := hmovements'.trans hmovements
        refine ⟨Later.of_written hclaimed (hclient'.trans hclient)
          ((hevents'.trans hevents).trans (List.append_nil _).symm) (by simp) hwritten (by simp),?_⟩
        rw [movementsOf_written (s := s) hclaimed hwritten]
        cases d <;> rfl

theorem directionOf_eq_none_iff (delta : ℤ) : directionOf delta = none ↔ delta = 0 := by
  unfold directionOf
  split_ifs <;> simp_all

/-- When an adjustment that passes is answered with a movement and leaves the store. -/
theorem adjustCell_replay_iff (s : Store packages) (who : Caller) (minted : Minted)
    (body : RecordAdjustmentRequest) (cell : StockCell) (finding : Option Finding) (warnings : List String)
    (movement : Option ℕ) :
    (∃ out, adjustCell s who minted body cell finding warnings
        (directionOf (body.countedQuantity-cell.quantity)) = .ok (out,s) ∧ out.movementId = movement) ↔
      (s.movementsOf body.clientEventId).map (fun m => m.movement.id) = movement.toList ∧
        if body.countedQuantity = cell.quantity then NothingToClose s movement finding
        else body.clientEventId ∈ s.clientEvents := by
  constructor
  · rintro ⟨out,hout,rfl⟩
    have hrecorded := (adjustCell_recorded hout).2
    refine ⟨hrecorded,?_⟩
    by_cases hsame : body.countedQuantity = cell.quantity
    · rw [if_pos hsame]
      have hnone : directionOf (body.countedQuantity-cell.quantity) = none :=
        (directionOf_eq_none_iff _).mpr (by omega)
      rw [hnone,adjustCell] at hout
      split at hout
      · cases hout
      · rename_i prior hprior
        have hpair := Except.ok.inj hout
        have hstore := congrArg Prod.snd hpair
        have hanswer := congrArg (fun o => RecordAdjustmentResponse.movementId o.1) hpair
        dsimp only at hstore hanswer
        rw [settle_same_iff,hanswer] at hstore
        exact hstore
    · rw [if_neg hsame]
      by_contra hunclaimed
      -- a new act would be claimed, and its movement written
      obtain ⟨d,hd⟩ : ∃ d, directionOf (body.countedQuantity-cell.quantity) = some d :=
        Option.ne_none_iff_exists'.mp fun hnone => hsame (by have := (directionOf_eq_none_iff _).mp hnone; omega)
      rw [hd] at hout
      have hledger := adjustCell_ledger hout
      rw [if_neg hunclaimed] at hledger
      have hlength := congrArg List.length hledger
      simp at hlength
  · rintro ⟨hmovements,hcase⟩
    obtain ⟨prior,hprior,hanswer⟩ : ∃ prior : Option StockMovement,
        s.movementsOf body.clientEventId = prior.toList ∧ prior.map (fun m => m.movement.id) = movement := by
      cases movement with
      | none => exact ⟨none,List.map_eq_nil_iff.mp hmovements,rfl⟩
      | some id =>
        obtain ⟨m,hone,hid⟩ := List.map_eq_singleton_iff.mp hmovements
        exact ⟨some m,hone,congrArg some hid⟩
    by_cases hsame : body.countedQuantity = cell.quantity
    · rw [if_pos hsame] at hcase
      have hnone : directionOf (body.countedQuantity-cell.quantity) = none :=
        (directionOf_eq_none_iff _).mpr (by omega)
      have hleft := (settle_same_iff s movement finding).mpr hcase
      rw [hnone,adjustCell,optionalOneMovement_eq hprior]
      dsimp only
      rw [hanswer,hleft]
      exact ⟨_,rfl,rfl⟩
    · rw [if_neg hsame] at hcase
      obtain ⟨d,hd⟩ : ∃ d, directionOf (body.countedQuantity-cell.quantity) = some d :=
        Option.ne_none_iff_exists'.mp fun hnone => hsame (by have := (directionOf_eq_none_iff _).mp hnone; omega)
      rw [hd]
      simp only [adjustCell,claimAct,if_pos hcase,optionalOneMovement_eq hprior]
      exact ⟨_,rfl,hanswer⟩

/-! ## The same request again -/

inductive Request
  | repack (body : RepackRequest)
  | void (packageId : ℕ) (body : VoidPackageRequest)
  | contain (packageId : ℕ) (body : ContainPackageRequest)
  | adjust (body : RecordAdjustmentRequest)

/-- A request's handler: the fact it answers with, and the store it leaves. -/
def send (s : Store packages) (who : Caller) (minted : Minted) :
    Request → Except ApiError (Option ℕ × Store packages)
  | .repack body => (repack s who minted body).map fun out => (some out.1.movementId,out.2)
  | .void p body => (voidPackage s minted p body).map fun out => (some out.1.eventId,out.2)
  | .contain p body => (containPackage s who minted p body).map fun out => (some out.1.eventId,out.2)
  | .adjust body => (recordAdjustment s who minted body).map fun out => (out.1.movementId,out.2)

/-- A store, with the packages there are by then. -/
abbrev World := (packages : List ℕ) × Store packages

/-- What can happen: one of these requests is accepted, or anything else that writes no
fact under another's envelope. -/
inductive Next : World → World → Prop
  | sent {packages : List ℕ} {s : Store packages} {who : Caller} {minted : Minted} {r : Request}
      {out : Option ℕ × Store packages} (h : send s who minted r = .ok out) : Next ⟨packages,s⟩ ⟨packages,out.2⟩
  | other {w w' : World} (h : Later w.2 w'.2) : Next w w'

/-- What a request meets when it comes again: its handler's check still passes. An
adjustment that was answered with no movement has none by then, one that agrees with the
projection finds nothing to close, and one that doesn't has its envelope. -/
def Stands (s : Store packages) (who : Caller) (answer : Option ℕ) : Request → Prop
  | .repack body => (repackProblems s body).any repackIsHard = false
  | .void p _ => p ∈ packages ∧ heldUnits s.ledger p = 0 ∧ ProjectedOpen s p
  | .contain p body => (containChecked s who p body).1 = []
  | .adjust body => ∃ reason cell, AdjustmentPasses s who body reason cell ∧
      (answer = none → s.movementsOf body.clientEventId = []) ∧
      if body.countedQuantity = cell.quantity then NothingToClose s answer (findingRow s body)
      else body.clientEventId ∈ s.clientEvents

theorem map_eq_ok_iff {ε α β : Type} {r : Except ε α} {f : α → β} {b : β} :
    r.map f = .ok b ↔ ∃ a, r = .ok a ∧ f a = b := by
  cases r <;> simp [Except.map]

theorem send_later {s : Store packages} {who : Caller} {minted : Minted} {r : Request}
    {out : Option ℕ × Store packages} (h : send s who minted r = .ok out) : Later s out.2 := by
  cases r with
  | repack body =>
    obtain ⟨a,ha,rfl⟩ := map_eq_ok_iff.mp h
    exact (repack_recorded ha).1
  | void p body =>
    obtain ⟨a,ha,rfl⟩ := map_eq_ok_iff.mp h
    exact (recordPackageEvent_recorded (voidPackage_passes ha)).1
  | contain p body =>
    obtain ⟨a,ha,rfl⟩ := map_eq_ok_iff.mp h
    obtain ⟨-,warnings,hrecord⟩ := containPackage_passes ha
    exact (recordPackageEvent_recorded hrecord).1
  | adjust body =>
    obtain ⟨a,ha,rfl⟩ := map_eq_ok_iff.mp h
    obtain ⟨reason,cell,hpasses⟩ := recordAdjustment_passes ha
    obtain ⟨warnings,heq⟩ := recordAdjustment_eq hpasses minted
    exact (adjustCell_recorded (heq ▸ ha)).1

theorem later_of_reached {w w' : World} (h : Relation.ReflTransGen Next w w') : Later w.2 w'.2 := by
  induction h with
  | refl => exact Later.refl w.2
  | tail _ hnext ih =>
    cases hnext with
    | sent hsend => exact ih.trans (send_later hsend)
    | other hlater => exact ih.trans hlater

/-- A package act again, once the handler's check is out of the way. -/
theorem recordPackageEvent_again {packages' : List ℕ} {s : Store packages} {s' : Store packages'} {act : ℕ}
    {row row' : NewEvent} {warnings : List String} {out : PackageActResponse × Store packages}
    (h : recordPackageEvent s act row warnings = .ok out) (hlater : Later out.2 s')
    (hkind : row'.kind = row.kind) (hpackage : row'.packageId = row.packageId) (warnings' : List String) :
    (recordPackageEvent s' act row' warnings').map (fun o => (some o.1.eventId,o.2)) =
      .ok (some out.1.eventId,s') := by
  obtain ⟨-,hact,hevents⟩ := recordPackageEvent_recorded h
  have hevents' : s'.eventsOf act = [(out.1.eventId,row'.kind,row'.packageId)] := by
    rw [hlater.events act hact,hevents,hkind,hpackage]
  obtain ⟨again,hagain,hid⟩ := recordPackageEvent_replay (hlater.clientEvents hact) hevents' warnings'
  rw [hagain,← hid]
  rfl

/-- An accepted request that comes again, whatever was accepted meanwhile, is answered as
it was and writes nothing just when its check still passes then. -/
theorem retry_iff {s : Store packages} {who : Caller} {minted : Minted} {r : Request}
    {out : Option ℕ × Store packages} (h : send s who minted r = .ok out) {later : World}
    (hlater : Relation.ReflTransGen Next ⟨packages,out.2⟩ later) (again : Minted) :
    send later.2 who again r = .ok (out.1,later.2) ↔ Stands later.2 who out.1 r := by
  have hleft := later_of_reached hlater
  cases r with
  | repack body =>
    obtain ⟨a,ha,rfl⟩ := map_eq_ok_iff.mp h
    obtain ⟨-,hact,m,hone,hid,hquantity⟩ := repack_recorded ha
    constructor
    · intro hsend
      obtain ⟨b,hb,-⟩ := map_eq_ok_iff.mp hsend
      exact repack_passes hb
    · intro hstands
      have hone' := (hleft.movements _ hact).trans hone
      obtain ⟨b,hb,hbid⟩ := repack_replay hstands (hleft.clientEvents hact) hone' hquantity who again
      exact map_eq_ok_iff.mpr ⟨_,hb,by rw [hbid,hid]⟩
  | void p body =>
    obtain ⟨a,ha,rfl⟩ := map_eq_ok_iff.mp h
    constructor
    · intro hsend
      obtain ⟨b,hb,-⟩ := map_eq_ok_iff.mp hsend
      obtain ⟨hclear,hopen⟩ := (voidPackage_isOk _ again p body).mp (isOk_iff.mpr ⟨b,hb⟩)
      exact ⟨hclear.package,hclear.held,hopen⟩
    · rintro ⟨hp,hheld,hopen⟩
      have hact : body.clientEventId ∈ a.2.clientEvents := (recordPackageEvent_recorded (voidPackage_passes ha)).2.1
      rw [send,voidPackage_eq hp hheld hopen (Or.inl (hleft.clientEvents hact))]
      exact recordPackageEvent_again (voidPackage_passes ha) hleft (by rfl) (by rfl) []
  | contain p body =>
    obtain ⟨a,ha,rfl⟩ := map_eq_ok_iff.mp h
    obtain ⟨-,warnings,hrecord⟩ := containPackage_passes ha
    constructor
    · intro hsend
      obtain ⟨b,hb,-⟩ := map_eq_ok_iff.mp hsend
      exact (containPackage_passes hb).1
    · intro hnone
      have hnone' : (containChecked later.2 who p body).1 = [] := hnone
      rw [send,containPackage,hnone']
      exact recordPackageEvent_again hrecord hleft (by rfl) (by rfl) _
  | adjust body =>
    obtain ⟨a,ha,rfl⟩ := map_eq_ok_iff.mp h
    obtain ⟨reason,cell,hpasses⟩ := recordAdjustment_passes ha
    obtain ⟨warnings,heq⟩ := recordAdjustment_eq hpasses minted
    have hrecorded := (adjustCell_recorded (heq ▸ ha)).2
    -- a movement answered with is still the act's one
    have hmovements : (later.2.movementsOf body.clientEventId).map (fun m => m.movement.id) =
        a.1.movementId.toList ↔ (a.1.movementId = none → later.2.movementsOf body.clientEventId = []) := by
      cases hmovement : a.1.movementId with
      | none => simp
      | some id =>
        refine iff_of_true ?_ fun hnone => absurd hnone (Option.some_ne_none id)
        have hact : body.clientEventId ∈ a.2.clientEvents := by
          by_contra hunclaimed
          rw [a.2.movementsOf_unclaimed hunclaimed,hmovement] at hrecorded
          cases hrecorded
        rw [hleft.movements _ hact,hrecorded,hmovement]
    constructor
    · intro hsend
      obtain ⟨b,hb,hpair⟩ := map_eq_ok_iff.mp hsend
      obtain ⟨reason',cell',hpasses'⟩ := recordAdjustment_passes hb
      obtain ⟨warnings',heq'⟩ := recordAdjustment_eq hpasses' again
      have hanswer : b.1.movementId = a.1.movementId := congrArg Prod.fst hpair
      have hstore : b.2 = later.2 := congrArg Prod.snd hpair
      have hagain := (adjustCell_replay_iff later.2 who again body cell' _ warnings' a.1.movementId).mp
        ⟨b.1,by rw [← heq',hb,← hstore],hanswer⟩
      exact ⟨reason',cell',hpasses',hmovements.mp hagain.1,hagain.2⟩
    · rintro ⟨reason',cell',hpasses',hnone,hcase⟩
      obtain ⟨warnings',heq'⟩ := recordAdjustment_eq hpasses' again
      obtain ⟨b,hb,hanswer⟩ := (adjustCell_replay_iff later.2 who again body cell' _ warnings'
        a.1.movementId).mpr ⟨hmovements.mpr hnone,hcase⟩
      exact map_eq_ok_iff.mpr ⟨(b,later.2),heq'.trans hb,by rw [← hanswer]⟩

/-- Four of a line's units in one carton, a second carton empty beside it, and a finding
of two too many on a shelf. -/
def benched : Store [1,2] where
  clientEvents := [20,21,22]
  packageEvents := [⟨20,(⟨⟨20,0⟩,0,1,.created,none,some 11⟩ : NewEvent).toEvent (by decide)⟩,
    ⟨21,(⟨⟨21,0⟩,0,2,.created,none,some 11⟩ : NewEvent).toEvent (by decide)⟩]
  stockMovements := [⟨22,⟨1,7,5,4,none,0,nowhere,⟨none,some 1,none,some 13,some 14⟩,none⟩,some 60⟩]
  package := fun _ => ⟨7,some 3,false⟩
  table := fun _ => Row.empty
  stock := [⟨40,7,bin.cell 5,10,rfl⟩]
  adjustmentReasons := [⟨50,"world_event","found"⟩]
  discrepancies := [⟨70,7,"count_variance","open",none,0,none⟩]
  stockCounts := []
  locations := [⟨11,7⟩]
  lines := [⟨60,3,false,some 11⟩]
  event_act := by decide
  movement_act := by decide

/-- All four into the second carton. -/
def fourOver : Request := .repack ⟨60,some 1,none,some 2,none,none,4,30,1⟩

/-- The shelf at twelve, for the finding. -/
def shelfAtTwelve : Request := .adjust ⟨40,12,50,some 70,none,31,1⟩

def voidSecond : Request := .void 2 ⟨32,1,none⟩

def secondOnFirst : Request := .contain 2 ⟨1,33,1,none⟩

theorem retry_iff_contained : ∃ out, send benched ⟨7⟩ ⟨90,1⟩ secondOnFirst = .ok out ∧
    send out.2 ⟨7⟩ ⟨91,2⟩ secondOnFirst = .ok (out.1,out.2) :=
  ⟨_,rfl,(retry_iff (show send benched ⟨7⟩ ⟨90,1⟩ secondOnFirst = .ok _ from rfl)
    Relation.ReflTransGen.refl ⟨91,2⟩).mpr rfl⟩

/-- Sent again at once, or after a rebuild, a request that was accepted is refused: the
units have gone, the finding is resolved, the carton is void. -/
theorem retry_refused :
    (∃ out, send benched ⟨7⟩ ⟨90,1⟩ fourOver = .ok out ∧
      send out.2 ⟨7⟩ ⟨91,2⟩ fourOver = .error (.rejected "there is none of that line there")) ∧
    (∃ out, send benched ⟨7⟩ ⟨90,1⟩ shelfAtTwelve = .ok out ∧
      send out.2 ⟨7⟩ ⟨91,2⟩ shelfAtTwelve = .error (.rejected "the discrepancy is already resolved")) ∧
    ∃ out, send benched ⟨7⟩ ⟨90,1⟩ voidSecond = .ok out ∧
      Relation.ReflTransGen Next ⟨[1,2],out.2⟩ ⟨[1,2],out.2.rebuildPackages⟩ ∧
      send out.2.rebuildPackages ⟨7⟩ ⟨91,2⟩ voidSecond = .error (.rejected "that carton is already void") :=
  ⟨⟨_,rfl,rfl⟩,⟨_,rfl,rfl⟩,
    ⟨_,rfl,Relation.ReflTransGen.single (.other (Later.of_same rfl rfl rfl)),rfl⟩⟩

end Acts
end Spork
