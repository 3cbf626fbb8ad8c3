import Spork.Acts.Containing
import Spork.Lib.Fallible
import Spork.Lib.Runs

/-! Sealing and opening a package (`seal_package`, `open_package`): the events go into the
log by when they happened, the stamp on the package follows the order they arrive in. -/
namespace Spork
namespace Acts

open Packages

variable {packages : List ℕ}

/-- The store, and each package's `sealed_at`. -/
structure Stamped (packages : List ℕ) where
  store : Store packages
  sealedAt : ℕ → Option ℤ

/-- `ProposedSeal` and `ProposedOpen`. -/
structure Proposed where
  tenantId : ℕ
  packageId : ℕ
  source : String
  deriving DecidableEq, Repr

/-- What both handlers do once their check has passed: record the act's event, and where it
is fresh change the package's stamp. -/
def recordStamped (s : Stamped packages) (clientEventId : ℕ) (row : NewEvent) (warnings : List String)
    (stamp : Option ℤ → Option ℤ) : Except ApiError (PackageActResponse×Stamped packages) :=
  match recordPackageEvent s.store clientEventId row warnings with
  | .error e => .error e
  | .ok (answer,store) =>
    match (claimAct s.store clientEventId).1 with
    | .replay => .ok (answer,⟨store,s.sealedAt⟩)
    | .fresh => .ok (answer,⟨store,Function.update s.sealedAt row.packageId (stamp (s.sealedAt row.packageId))⟩)

/-! ## Seal -/

inductive SealProblem
  | packageNotFound
  | differentTenant
  | invalidSource
  | alreadySealed
  | unchecked (codes : List String)
  deriving DecidableEq, Repr

def SealProblem.text : SealProblem → String
  | .packageNotFound => "the package was not found"
  | .differentTenant => "the package belongs to another tenant"
  | .invalidSource => invalidSourceText
  | .alreadySealed => "the package is already sealed or despatched; a second seal event is still "++
      "recorded if you insist, but the fold will not move"
  | .unchecked codes => "sealed with "++String.intercalate ", " codes++" not checked at the bench"

def sealIsHard : SealProblem → Bool
  | .alreadySealed | .unchecked _ => false
  | _ => true

/-- `unchecked` is the codes of lines with units in it and no check. -/
def checkSeal (proposed : Proposed) (package : Option PackageRef) (unchecked : List String) :
    List SealProblem :=
  (if unchecked = [] then [] else [.unchecked unchecked])++
    (if proposed.source ∈ sources then [] else [.invalidSource])++
      match package with
      | none => [.packageNotFound]
      | some package =>
        (if package.tenantId ≠ proposed.tenantId then [.differentTenant] else [])++
          if package.status ∈ [some .sealed,some .despatched] then [.alreadySealed] else []

structure SealPackageRequest where
  clientEventId : ℕ
  occurredAt : ℤ
  source : Option String
  deriving DecidableEq, Repr

/-- A fresh seal stamps the package unless it has a stamp. -/
def sealPackage (s : Stamped packages) (who : Caller) (minted : Minted) (packageId : ℕ)
    (unchecked : List String) (body : SealPackageRequest) :
    Except ApiError (PackageActResponse×Stamped packages) :=
  let problems := checkSeal ⟨who.tenantId,packageId,body.source.getD "operator_scan"⟩
    (s.store.packageRef packageId) unchecked
  match problems.filter sealIsHard with
  | [] => recordStamped s body.clientEventId ⟨minted,body.occurredAt,packageId,.sealed,none,none⟩
      ((problems.filter (!sealIsHard ·)).map SealProblem.text) (· <|> some body.occurredAt)
  | hard => .error (.rejected (String.intercalate "; " (hard.map SealProblem.text)))

/-! ## Open -/

inductive OpenProblem
  | packageNotFound
  | differentTenant
  | invalidSource
  | terminal (status : Option Kind)
  | notSealed
  | alreadyOpen
  deriving DecidableEq, Repr

def OpenProblem.text : OpenProblem → String
  | .packageNotFound => "the package was not found"
  | .differentTenant => "the package belongs to another tenant"
  | .invalidSource => invalidSourceText
  | .terminal status => "a package in status "++statusText status++
      " cannot be opened; despatched and voided packages leave this path"
  | .notSealed => "the package is not projected as sealed; the open event is still recorded "++
      "for rework if the floor says so (D5)"
  | .alreadyOpen => "the package is already projected as opened; a second open event is still "++
      "recorded and the fold is compare-and-set (J6)"

def openIsHard : OpenProblem → Bool
  | .notSealed | .alreadyOpen => false
  | _ => true

def checkOpen (proposed : Proposed) (package : Option PackageRef) : List OpenProblem :=
  (if proposed.source ∈ sources then [] else [.invalidSource])++
    match package with
    | none => [.packageNotFound]
    | some package =>
      (if package.tenantId ≠ proposed.tenantId then [.differentTenant] else [])++
        if isTerminal package.status then [.terminal package.status]
        else if package.status = some .opened then [.alreadyOpen]
        else if package.status = some .sealed then []
        else [.notSealed]

structure OpenPackageRequest where
  clientEventId : ℕ
  occurredAt : ℤ
  source : Option String
  deriving DecidableEq, Repr

/-- A fresh open takes the stamp off. -/
def openPackage (s : Stamped packages) (who : Caller) (minted : Minted) (packageId : ℕ)
    (body : OpenPackageRequest) : Except ApiError (PackageActResponse×Stamped packages) :=
  let problems := checkOpen ⟨who.tenantId,packageId,body.source.getD "operator_scan"⟩
    (s.store.packageRef packageId)
  match problems.filter openIsHard with
  | [] => recordStamped s body.clientEventId ⟨minted,body.occurredAt,packageId,.opened,none,none⟩
      ((problems.filter (!openIsHard ·)).map OpenProblem.text) fun _ => none
  | [.packageNotFound] => .error .notFound
  | hard => .error (.rejected (String.intercalate "; " (hard.map OpenProblem.text)))

/-! ## Runs of seals and opens of one package -/

/-- A request, who sends it, and what the server gives its row. -/
inductive SealRequest
  | sealIt (who : Caller) (minted : Minted) (unchecked : List String) (body : SealPackageRequest)
  | openIt (who : Caller) (minted : Minted) (body : OpenPackageRequest)

namespace SealRequest

def clientEventId : SealRequest → ℕ
  | .sealIt _ _ _ body => body.clientEventId
  | .openIt _ _ body => body.clientEventId

/-- The row its event is, where it is recorded. -/
def row (p : ℕ) : SealRequest → NewEvent
  | .sealIt _ minted _ body => ⟨minted,body.occurredAt,p,.sealed,none,none⟩
  | .openIt _ minted body => ⟨minted,body.occurredAt,p,.opened,none,none⟩

end SealRequest

/-- The store after an accepted request. -/
def sealStep (p : ℕ) (s : Stamped packages) : SealRequest → Option (Stamped packages)
  | .sealIt who minted unchecked body => (sealPackage s who minted p unchecked body).toOption.map Prod.snd
  | .openIt who minted body => (openPackage s who minted p body).toOption.map Prod.snd

/-- The stamp is set exactly where the newest status event is a seal, and is then the time
of a seal no open is newer than. -/
structure StampAgrees (s : Stamped packages) (p : ℕ) : Prop where
  set_iff : (s.sealedAt p).isSome = true ↔ s.store.packageStatusNow p = some .sealed
  time : ∀ t ∈ s.sealedAt p, ∃ e ∈ s.store.log, e.packageId = p ∧ e.kind = .sealed ∧ e.occurredAt = t ∧
    ∀ o ∈ s.store.log, o.packageId = p → o.kind = .opened → o.key ≤ e.key

/-- Register order, as the row of a request has it. -/
def NewEvent.key (r : NewEvent) : ℤ ×ₗ ℤ ×ₗ ℕ := toLex (r.occurredAt,toLex (r.minted.recordedAt,r.minted.id))

/-- A request that would change the status is newer than every event that tells one. -/
def InTime (p : ℕ) (s : Stamped packages) (r : SealRequest) : Prop :=
  r.clientEventId ∉ s.store.clientEvents →
  ((r.row p).kind = .sealed ↔ s.store.packageStatusNow p ≠ some .sealed) →
    ∀ e ∈ winningStatus s.store.log p, e.key < (r.row p).key

theorem recordStamped_cases {s s' : Stamped packages} {act : ℕ} {row : NewEvent} {warnings : List String}
    {stamp : Option ℤ → Option ℤ} {answer : PackageActResponse}
    (h : recordStamped s act row warnings stamp = .ok (answer,s')) :
    (act ∈ s.store.clientEvents ∧ s' = s) ∨
    (act ∉ s.store.clientEvents ∧ (∃ hallowed : row.Allowed packages,
      s'.store.log = s.store.log++[row.toEvent hallowed]) ∧
      s'.sealedAt row.packageId = stamp (s.sealedAt row.packageId)) := by
  rw [recordStamped] at h
  cases hrecord : recordPackageEvent s.store act row warnings with
  | error e =>
    rw [hrecord] at h
    cases h
  | ok out =>
    rw [hrecord] at h
    rcases recordPackageEvent_cases hrecord with ⟨hclaimed,hsame,-⟩ | ⟨hnew,-,-,hallowed,hevents,-⟩
    · simp only [claimAct,if_pos hclaimed] at h
      cases h
      exact Or.inl ⟨hclaimed,by rw [hsame]⟩
    · simp only [claimAct,if_neg hnew] at h
      cases h
      exact Or.inr ⟨hnew,⟨hallowed,by simp [Store.log,hevents]⟩,Function.update_self ..⟩

theorem sealPackage_passes {s : Stamped packages} {who : Caller} {minted : Minted} {p : ℕ}
    {unchecked : List String} {body : SealPackageRequest} {out : PackageActResponse×Stamped packages}
    (h : sealPackage s who minted p unchecked body = .ok out) :
    ∃ warnings, recordStamped s body.clientEventId ⟨minted,body.occurredAt,p,.sealed,none,none⟩ warnings
      (· <|> some body.occurredAt) = .ok out := by
  rw [sealPackage] at h
  split at h
  · exact ⟨_,h⟩
  · cases h

theorem openPackage_passes {s : Stamped packages} {who : Caller} {minted : Minted} {p : ℕ}
    {body : OpenPackageRequest} {out : PackageActResponse×Stamped packages}
    (h : openPackage s who minted p body = .ok out) :
    ∃ warnings, recordStamped s body.clientEventId ⟨minted,body.occurredAt,p,.opened,none,none⟩ warnings
      (fun _ => none) = .ok out := by
  rw [openPackage] at h
  split at h
  · exact ⟨_,h⟩
  · cases h
  · cases h

instance (p : ℕ) (s : Stamped packages) (r : SealRequest) : Decidable (InTime p s r) := by
  unfold InTime
  infer_instance

/-- What a request does: nothing where it is a replay, else its event and its stamp. -/
theorem sealStep_cases {p : ℕ} {s s' : Stamped packages} {r : SealRequest} (h : sealStep p s r = some s') :
    (r.clientEventId ∈ s.store.clientEvents ∧ s' = s) ∨
    (r.clientEventId ∉ s.store.clientEvents ∧ (∃ hallowed : (r.row p).Allowed packages,
      s'.store.log = s.store.log++[(r.row p).toEvent hallowed]) ∧
      ((r.row p).kind = .sealed ∧ s'.sealedAt p = (s.sealedAt p <|> some (r.row p).occurredAt) ∨
        (r.row p).kind = .opened ∧ s'.sealedAt p = none)) := by
  cases r with
  | sealIt who minted unchecked body =>
    obtain ⟨⟨answer,t⟩,hok,rfl⟩ := Option.map_eq_some_iff.mp h
    obtain ⟨warnings,hrecord⟩ := sealPackage_passes (Fallible.toOption_ok hok)
    rcases recordStamped_cases hrecord with hsame | ⟨hnew,hlog,hstamp⟩
    · exact Or.inl hsame
    · exact Or.inr ⟨hnew,hlog,Or.inl ⟨rfl,hstamp⟩⟩
  | openIt who minted body =>
    obtain ⟨⟨answer,t⟩,hok,rfl⟩ := Option.map_eq_some_iff.mp h
    obtain ⟨warnings,hrecord⟩ := openPackage_passes (Fallible.toOption_ok hok)
    rcases recordStamped_cases hrecord with hsame | ⟨hnew,hlog,hstamp⟩
    · exact Or.inl hsame
    · exact Or.inr ⟨hnew,hlog,Or.inr ⟨rfl,hstamp⟩⟩

/-- The winner after an event that tells a status: itself where it is newer than the last. -/
theorem winningStatus_append {es : List (Event packages)} {e : Event packages} {p : ℕ} (hp : e.packageId = p)
    (htells : e.assertsStatus = true) :
    ((∀ last ∈ winningStatus es p, last.key < e.key) ∧ winningStatus (es++[e]) p = some e) ∨
    ((∃ last ∈ winningStatus es p, ¬last.key < e.key) ∧ winningStatus (es++[e]) p = winningStatus es p) := by
  have happend : winningStatus (es++[e]) p =
      (winningStatus es p).elim (some e) fun last => if last.key < e.key then some e else some last := by
    rw [winningStatus,winner,Newest.newest,List.filter_append,List.filter_cons_of_pos (by simp [hp,htells]),
      List.filter_nil,List.argmax_concat]
    change _ = ((es.filter fun e => decide (e.packageId = p) && e.assertsStatus).argmax Event.key).elim _ _
    cases (es.filter fun e => decide (e.packageId = p) && e.assertsStatus).argmax Event.key <;> rfl
  rw [happend]
  cases winningStatus es p with
  | none => exact Or.inl ⟨by simp,rfl⟩
  | some last =>
    by_cases hlater : last.key < e.key
    · exact Or.inl ⟨by simpa using hlater,if_pos hlater⟩
    · exact Or.inr ⟨⟨last,rfl,hlater⟩,if_neg hlater⟩

/-- The status after a request's event: its kind where it is newer than the last. -/
theorem packageStatusNow_append {p : ℕ} {s s' : Store packages} {e : Event packages} (hp : e.packageId = p)
    (htells : e.assertsStatus = true) (hlog : s'.log = s.log++[e]) :
    ((∀ last ∈ winningStatus s.log p, last.key < e.key) ∧ s'.packageStatusNow p = some e.kind) ∨
    ((∃ last ∈ winningStatus s.log p, ¬last.key < e.key) ∧ s'.packageStatusNow p = s.packageStatusNow p) := by
  rw [Store.packageStatusNow,hlog]
  rcases @winningStatus_append _ s.log e p hp htells with ⟨hlater,hwins⟩ | ⟨hearlier,hsame⟩
  · exact Or.inl ⟨hlater,by rw [hwins]; rfl⟩
  · exact Or.inr ⟨hearlier,by rw [hsame]; rfl⟩

/-- Every event that tells a status is older than one newer than the winner. -/
theorem key_lt_of_winner {es : List (Event packages)} {p : ℕ} {e o : Event packages}
    (h : ∀ last ∈ winningStatus es p, last.key < e.key) (ho : o ∈ es) (hp : o.packageId = p)
    (htells : o.assertsStatus = true) : o.key < e.key := by
  have hsome : (winningStatus es p).isSome = true :=
    Newest.newest_isSome_iff.mpr (List.ne_nil_of_mem (List.mem_filter.mpr ⟨ho,by simp [hp,htells]⟩))
  obtain ⟨last,hlast⟩ := Option.isSome_iff_exists.mp hsome
  exact lt_of_le_of_lt (winner_last hlast ho hp htells) (h last hlast)

/-- After a fresh seal the stamp agrees just when it was in time. -/
theorem stampAgrees_seal {p : ℕ} {s s' : Stamped packages} {e : Event packages} (hs : StampAgrees s p)
    (hp : e.packageId = p) (hkind : e.kind = .sealed) (hlog : s'.store.log = s.store.log++[e])
    (hstamp : s'.sealedAt p = (s.sealedAt p <|> some e.occurredAt)) :
    StampAgrees s' p ↔ (s.store.packageStatusNow p ≠ some .sealed →
      ∀ last ∈ winningStatus s.store.log p, last.key < e.key) := by
  have htells : e.assertsStatus = true := by simp [Event.assertsStatus,hkind]
  have hstatus := packageStatusNow_append hp htells hlog
  rw [hkind] at hstatus
  have hopen : ∀ o ∈ s'.store.log, o.kind = .opened → o ∈ s.store.log := by
    intro o ho hopened
    rw [hlog,List.mem_append,List.mem_singleton] at ho
    rcases ho with ho | rfl
    · exact ho
    · rw [hkind] at hopened
      cases hopened
  by_cases hsealed : s.store.packageStatusNow p = some .sealed
  · refine iff_of_true ⟨?_,fun t ht => ?_⟩ fun hne => absurd hsealed hne
    · have hnow : s'.store.packageStatusNow p = some .sealed := by
        rcases hstatus with ⟨-,hnow⟩ | ⟨-,hnow⟩
        · exact hnow
        · exact hnow.trans hsealed
      have hset := hs.set_iff.mpr hsealed
      obtain ⟨t,ht⟩ := Option.isSome_iff_exists.mp hset
      simp [hstamp,ht,hnow]
    · obtain ⟨t',ht'⟩ := Option.isSome_iff_exists.mp (hs.set_iff.mpr hsealed)
      rw [hstamp,ht'] at ht
      obtain rfl : t' = t := Option.some.inj ht
      obtain ⟨x,hx,hxp,hxkind,hxt,hxopen⟩ := hs.time t' ht'
      refine ⟨x,by rw [hlog]; exact List.mem_append_left _ hx,hxp,hxkind,hxt,fun o ho hop hopened => ?_⟩
      exact hxopen o (hopen o ho hopened) hop hopened
  · have hunset : s.sealedAt p = none := by
      by_contra hset
      exact hsealed (hs.set_iff.mp (Option.isSome_iff_ne_none.mpr hset))
    rw [hunset] at hstamp
    constructor
    · intro hs' _ last hlast
      rcases hstatus with ⟨hlater,-⟩ | ⟨-,hnow⟩
      · exact hlater last hlast
      · exact absurd (hnow.symm.trans (hs'.set_iff.mp (by rw [hstamp]; rfl))) hsealed
    · intro hlater
      have hlater := hlater hsealed
      have hnow : s'.store.packageStatusNow p = some .sealed := by
        rcases hstatus with ⟨-,hnow⟩ | ⟨⟨last,hlast,hearlier⟩,-⟩
        · exact hnow
        · exact absurd (hlater last hlast) hearlier
      refine ⟨by rw [hstamp,hnow]; exact iff_of_true rfl rfl,fun t ht => ?_⟩
      rw [hstamp] at ht
      obtain rfl : e.occurredAt = t := Option.some.inj ht
      refine ⟨e,by simp [hlog],hp,hkind,rfl,fun o ho hop hopened => ?_⟩
      have htold : o.assertsStatus = true := by simp [Event.assertsStatus,hopened]
      exact (key_lt_of_winner hlater (hopen o ho hopened) hop htold).le

/-- After a fresh open the stamp agrees just when it was in time. -/
theorem stampAgrees_open {p : ℕ} {s s' : Stamped packages} {e : Event packages}
    (hp : e.packageId = p) (hkind : e.kind = .opened) (hlog : s'.store.log = s.store.log++[e])
    (hstamp : s'.sealedAt p = none) :
    StampAgrees s' p ↔ (s.store.packageStatusNow p = some .sealed →
      ∀ last ∈ winningStatus s.store.log p, last.key < e.key) := by
  have htells : e.assertsStatus = true := by simp [Event.assertsStatus,hkind]
  have hstatus := packageStatusNow_append hp htells hlog
  rw [hkind] at hstatus
  have hagrees : StampAgrees s' p ↔ s'.store.packageStatusNow p ≠ some .sealed := by
    constructor
    · intro hs' hnow
      have hset := hs'.set_iff.mpr hnow
      rw [hstamp] at hset
      cases hset
    · intro hne
      refine ⟨by simp [hstamp,hne],fun t ht => ?_⟩
      rw [hstamp] at ht
      cases ht
  rw [hagrees]
  rcases hstatus with ⟨hlater,hnow⟩ | ⟨⟨last,hlast,hearlier⟩,hnow⟩
  · refine iff_of_true ?_ fun _ => hlater
    rw [hnow]
    decide
  · rw [hnow]
    constructor
    · intro hne hsealed
      exact absurd hsealed hne
    · intro hlater hsealed
      exact hearlier (hlater hsealed last hlast)

/-- After an accepted request the stamp agrees with the log just when it was in time. -/
theorem stampAgrees_step {p : ℕ} {s s' : Stamped packages} {r : SealRequest} (hs : StampAgrees s p)
    (h : sealStep p s r = some s') : StampAgrees s' p ↔ InTime p s r := by
  rcases sealStep_cases h with ⟨hclaimed,rfl⟩ | ⟨hnew,⟨hallowed,hlog⟩,hstamp⟩
  · exact iff_of_true hs fun hnew => absurd hclaimed hnew
  · have hp : ((r.row p).toEvent hallowed).packageId = p := by cases r <;> rfl
    rw [InTime,forall_prop_of_true hnew]
    rcases hstamp with ⟨hkind,hstamp⟩ | ⟨hkind,hstamp⟩
    · rw [stampAgrees_seal hs hp hkind hlog hstamp]
      simp only [hkind,true_iff]
      rfl
    · rw [stampAgrees_open hp hkind hlog hstamp]
      simp only [hkind,reduceCtorEq,false_iff,not_not]
      rfl

/-- In a run of seals and opens the stamp agrees with the log after every one just when no
request that changes the status comes later than a newer event. -/
theorem seal_stamp_iff {p : ℕ} {s s' : Stamped packages} {rs : List SealRequest} (hs : StampAgrees s p)
    (hrun : Runs.run (sealStep p) s rs = some s') :
    Runs.Meets (sealStep p) (InTime p) s rs ↔
      ∀ before rest t, rs = before++rest → Runs.run (sealStep p) s before = some t → StampAgrees t p :=
  @Runs.meets_iff_always _ _ (sealStep p) (InTime p) (fun _ => True) _ _ _ (StampAgrees · p) trivial hs
    (fun _ _ _ _ hgood hstep => ⟨trivial,stampAgrees_step hgood hstep⟩) hrun

theorem nothing_moved : ∀ m ∈ ([] : List StockMovement), m.clientEventId ∈ ([] : List ℕ) := by decide

/-- A carton nobody has sealed yet. -/
def freshCarton : Stamped [1] where
  store :=
    {clientEvents := []
     packageEvents := []
     stockMovements := []
     package := fun _ => ⟨7,none,false⟩
     table := fun _ => Row.empty
     stock := []
     adjustmentReasons := []
     discrepancies := []
     stockCounts := []
     locations := []
     lines := []
     event_act := by decide
     movement_act := nothing_moved}
  sealedAt := fun _ => none

theorem freshCarton_agrees : StampAgrees freshCarton 1 :=
  ⟨by decide,fun t ht => by cases ht⟩

/-- It is sealed at two. -/
def sealedAtTwo : SealRequest := .sealIt ⟨7⟩ ⟨1,10⟩ [] ⟨20,2,none⟩

/-- It is opened at a time, which arrives after the seal. -/
def openedAt (t : ℤ) : SealRequest := .openIt ⟨7⟩ ⟨2,11⟩ ⟨21,t,none⟩

theorem opened_after : (Runs.run (sealStep 1) freshCarton [sealedAtTwo,openedAt 3]).isSome = true ∧
    ∀ before rest t, [sealedAtTwo,openedAt 3] = before++rest →
      Runs.run (sealStep 1) freshCarton before = some t → StampAgrees t 1 := by
  obtain ⟨s',hrun,-⟩ := Runs.run_passes (fun _ => true)
    (by decide : (Runs.run (sealStep 1) freshCarton [sealedAtTwo,openedAt 3]).any (fun _ => true) = true)
  refine ⟨by rw [hrun]; rfl,?_⟩
  exact (seal_stamp_iff freshCarton_agrees hrun).mp (by decide)

/-- An open from before the seal, heard of after it: the stamp is off, the status sealed. -/
theorem opened_before : ¬∀ before rest t, [sealedAtTwo,openedAt 1] = before++rest →
    Runs.run (sealStep 1) freshCarton before = some t → StampAgrees t 1 := by
  intro h
  obtain ⟨t,hrun,htest⟩ := Runs.run_passes
    (fun s : Stamped [1] => decide (s.sealedAt 1 = none ∧ s.store.packageStatusNow 1 = some .sealed))
    (by decide : (Runs.run (sealStep 1) freshCarton [sealedAtTwo,openedAt 1]).any _ = true)
  obtain ⟨hunset,hsealed⟩ := of_decide_eq_true htest
  have hset := (h _ [] t (List.append_nil _).symm hrun).set_iff.mpr hsealed
  rw [hunset] at hset
  cases hset

end Acts
end Spork
