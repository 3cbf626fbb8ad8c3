import Spork.Acts.Store

/-! Placing a package and nesting it under another (`packages.rs`, `place_package` and
`contain_package`): the checks, the walks up and down the nesting as it is now, and the
one way a package act is recorded. -/
namespace Spork
namespace Acts

open Packages

variable {packages : List ℕ}

def sources : List String := ["operator_scan","label","asn","derived","correction","keyed"]

def kindText : Kind → String
  | .created => "created"
  | .placed => "placed"
  | .contained => "contained"
  | .observed => "observed"
  | .identified => "identified"
  | .sealed => "sealed"
  | .opened => "opened"
  | .relabelled => "relabelled"
  | .despatched => "despatched"
  | .voided => "voided"

/-- A package as a check reads it: what is projected of it. -/
structure PackageRef where
  id : ℕ
  tenantId : ℕ
  status : Option Kind
  resolvedLocationId : Option ℕ
  parentPackageId : Option ℕ
  deriving DecidableEq, Repr

def Store.packageRef (s : Store packages) (p : ℕ) : Option PackageRef :=
  if p ∈ packages then
    some ⟨p,(s.package p).tenantId,(s.table p).status,(s.table p).resolvedLocationId,
      (s.table p).parentPackageId⟩
  else none

instance lawfulStatus : LawfulBEq (Option Kind) := inferInstance

/-- A status that ends a package: it left, or it was voided. -/
def isTerminal (status : Option Kind) : Bool := status ∈ [some .despatched,some .voided]

/-! ## Recording a package act -/

structure PackageActResponse where
  eventId : ℕ
  warnings : List String
  packageStatusLedger : Option Kind
  deriving DecidableEq, Repr

/-- What the handlers of package acts do once their check has passed: claim the act and
insert its event, or answer with the event it wrote before. -/
def recordPackageEvent (s : Store packages) (clientEventId : ℕ) (row : NewEvent) (warnings : List String) :
    Except ApiError (PackageActResponse × Store packages) :=
  match claimAct s clientEventId with
  | (.replay,s) =>
    match requireOnePackageEvent s clientEventId with
    | .error e => .error e
    | .ok prior =>
      if prior.kind ≠ row.kind ∨ prior.packageId ≠ row.packageId then
        .error (.rejected "client_event already recorded a different package act")
      else .ok (⟨prior.id,warnings++[replayWarning],s.packageStatusNow row.packageId⟩,s)
  | (.fresh,s) =>
    match insertPackageEvent s clientEventId row with
    | .error e => .error e
    | .ok s => .ok (⟨row.minted.id,warnings,s.packageStatusNow row.packageId⟩,s)

/-- The act is new and its row one the table takes, or it wrote one event, of the same kind
and package. -/
def ActClear (s : Store packages) (clientEventId : ℕ) (row : NewEvent) : Prop :=
  if clientEventId ∈ s.clientEvents then
    ∃ e, s.packageEvents.filter (fun e => e.clientEventId = clientEventId) = [e] ∧
      e.event.kind = row.kind ∧ e.event.packageId = row.packageId
  else row.Allowed packages

/-- Whether a package act is recorded, or answered, is a matter of its envelope alone. -/
theorem recordPackageEvent_isOk (s : Store packages) (clientEventId : ℕ) (row : NewEvent)
    (warnings : List String) :
    (recordPackageEvent s clientEventId row warnings).isOk = true ↔ ActClear s clientEventId row := by
  unfold recordPackageEvent claimAct ActClear
  by_cases hclaimed : clientEventId ∈ s.clientEvents
  · simp only [if_pos hclaimed,requireOnePackageEvent]
    cases hevents : s.packageEvents.filter fun e => e.clientEventId = clientEventId with
    | nil => simp [Except.isOk,Except.toBool]
    | cons e es =>
      cases es with
      | nil =>
        by_cases hsame : e.event.kind = row.kind ∧ e.event.packageId = row.packageId
        · simp [Except.isOk,Except.toBool,hsame]
        · have hdiffers : e.event.kind ≠ row.kind ∨ e.event.packageId ≠ row.packageId := by
            rw [← not_and_or]
            exact hsame
          simp [Except.isOk,Except.toBool,hdiffers,hsame]
      | cons e' es => simp [Except.isOk,Except.toBool]
  · simp only [if_neg hclaimed,insertPackageEvent]
    by_cases hallowed : row.Allowed packages <;> simp [hallowed,hclaimed,Except.isOk,Except.toBool]

/-- A recorded package act: written before, and the store as it was, or written now under
its own envelope. -/
theorem recordPackageEvent_cases {s : Store packages} {act : ℕ} {row : NewEvent} {warnings : List String}
    {out : PackageActResponse × Store packages} (h : recordPackageEvent s act row warnings = .ok out) :
    (act ∈ s.clientEvents ∧ out.2 = s ∧ s.eventsOf act = [(out.1.eventId,row.kind,row.packageId)]) ∨
    (act ∉ s.clientEvents ∧ out.2.clientEvents = s.clientEvents++[act] ∧
      out.2.stockMovements = s.stockMovements ∧ ∃ hallowed : row.Allowed packages,
        out.2.packageEvents = s.packageEvents++[⟨act,row.toEvent hallowed⟩] ∧
        out.1.eventId = row.minted.id) := by
  unfold recordPackageEvent claimAct at h
  by_cases hclaimed : act ∈ s.clientEvents
  · simp only [if_pos hclaimed,requireOnePackageEvent] at h
    refine Or.inl ⟨hclaimed,?_⟩
    cases hevents : s.packageEvents.filter fun e => e.clientEventId = act with
    | nil =>
      rw [hevents] at h
      cases h
    | cons e es =>
      rw [hevents] at h
      cases es with
      | nil =>
        dsimp only at h
        split at h
        · cases h
        · rename_i hsame
          cases h
          have hpair := not_or.mp hsame
          simp only [Store.eventsOf,hevents,List.map_cons,List.map_nil,not_not.mp hpair.1,not_not.mp hpair.2,
            and_self]
      | cons e' es => cases h
  · simp only [if_neg hclaimed,insertPackageEvent] at h
    refine Or.inr ⟨hclaimed,?_⟩
    by_cases hallowed : row.Allowed packages
    · rw [dif_pos ⟨hallowed,by simp⟩] at h
      cases h
      exact ⟨rfl,rfl,hallowed,rfl,rfl⟩
    · rw [dif_neg fun hand => hallowed hand.1] at h
      cases h

/-- Accepted, the log has the act's event last, or is as it was. -/
theorem recordPackageEvent_log {s : Store packages} {act : ℕ} {row : NewEvent} {warnings : List String}
    {out : PackageActResponse × Store packages} (h : recordPackageEvent s act row warnings = .ok out) :
    out.2.log = s.log ∨ ∃ hallowed : row.Allowed packages, out.2.log = s.log++[row.toEvent hallowed] := by
  rcases recordPackageEvent_cases h with ⟨-,hsame,-⟩ | ⟨-,-,-,hallowed,hevents,-⟩
  · exact Or.inl (by rw [hsame])
  · exact Or.inr ⟨hallowed,by simp [Store.log,hevents]⟩

/-- Movements are nothing to a package act. -/
theorem recordPackageEvent_ledger {s : Store packages} {act : ℕ} {row : NewEvent} {warnings : List String}
    {out : PackageActResponse × Store packages} (h : recordPackageEvent s act row warnings = .ok out) :
    out.2.ledger = s.ledger := by
  rcases recordPackageEvent_cases h with ⟨-,hsame,-⟩ | ⟨-,-,hmovements,-⟩
  · rw [hsame]
  · rw [Store.ledger,hmovements]
    rfl

/-! ## Place -/

structure ProposedPlace where
  tenantId : ℕ
  packageId : ℕ
  locationId : ℕ
  source : String
  deriving DecidableEq, Repr

inductive PlaceProblem
  | packageNotFound
  | locationNotFound
  | differentTenant
  | invalidSource
  | alreadyThere
  | alreadyTerminal (status : Option Kind)
  deriving DecidableEq, Repr

def statusText (status : Option Kind) : String := (status.map kindText).getD ""

def invalidSourceText : String :=
  "source must be one of operator_scan, label, asn, derived, correction, keyed"

def PlaceProblem.text : PlaceProblem → String
  | .packageNotFound => "the package was not found"
  | .locationNotFound => "the location was not found"
  | .differentTenant => "the package or location belongs to another tenant"
  | .invalidSource => invalidSourceText
  | .alreadyThere => "the package is already projected at that location; the place event is still "++
      "recorded and the fold is compare-and-set (J6)"
  | .alreadyTerminal status => "a package in status "++statusText status++
      " cannot be placed; despatched and voided packages leave this path"

/-- Check a place: the problems that block, and those that travel with success. -/
def checkPlace (proposed : ProposedPlace) (package : Option PackageRef) (location : Option LocationRef) :
    List PlaceProblem × List PlaceProblem :=
  let source := if proposed.source ∈ sources then [] else [.invalidSource]
  match package, location with
  | none, _ => (source++[.packageNotFound],[])
  | some _, none => (source++[.locationNotFound],[])
  | some package, some location =>
    (source++
      (if package.tenantId ≠ proposed.tenantId ∨ location.tenantId ≠ proposed.tenantId then
        [.differentTenant] else [])++
      (if isTerminal package.status then [.alreadyTerminal package.status] else []),
      if package.resolvedLocationId = some proposed.locationId then [.alreadyThere] else [])

structure PlacePackageRequest where
  locationId : ℕ
  clientEventId : ℕ
  occurredAt : ℤ
  source : Option String
  deriving DecidableEq, Repr

def placePackage (s : Store packages) (who : Caller) (minted : Minted) (packageId : ℕ)
    (body : PlacePackageRequest) : Except ApiError (PackageActResponse × Store packages) :=
  let checked := checkPlace ⟨who.tenantId,packageId,body.locationId,body.source.getD "operator_scan"⟩
    (s.packageRef packageId) (s.locations.find? fun l => l.id = body.locationId)
  match checked.1 with
  | [] => recordPackageEvent s body.clientEventId
      ⟨minted,body.occurredAt,packageId,.placed,none,some body.locationId⟩ (checked.2.map PlaceProblem.text)
  | hard => if hard = [.packageNotFound] ∨ hard = [.locationNotFound] then .error .notFound
      else .error (.rejected (String.intercalate "; " (hard.map PlaceProblem.text)))

/-! ## Contain -/

structure ProposedContain where
  tenantId : ℕ
  packageId : ℕ
  parentPackageId : ℕ
  source : String
  deriving DecidableEq, Repr

inductive ContainProblem
  | packageNotFound
  | parentNotFound
  | differentTenant
  | invalidSource
  | selfParent
  | alreadyTerminal (which : String) (status : Option Kind)
  | alreadyContained
  | loop
  | tooDeep (levels : ℕ)
  | intoSealed
  | otherOrder
  | openOnBreakdown
  deriving DecidableEq, Repr

/-- What a containment would make, read from the events now. -/
structure Nesting where
  /-- The parent is the package, or is in or on it. -/
  loops : Bool
  /-- The packages in the deepest chain it would make, the outermost counted. -/
  levels : ℕ
  parentSealed : Bool
  childSealed : Bool
  parentBreaksDown : Bool
  /-- The parent is an order's and the package another order's. -/
  otherOrder : Bool
  deriving DecidableEq, Repr

/-- A wrap, a pallet and a carton: three packages in a chain at most. -/
def mostLevels : ℕ := 3

def ContainProblem.text : ContainProblem → String
  | .packageNotFound => "the package was not found"
  | .parentNotFound => "the parent package was not found"
  | .differentTenant => "the package or parent belongs to another tenant"
  | .invalidSource => invalidSourceText
  | .selfParent => "a package cannot be contained in itself"
  | .alreadyTerminal which status => "the "++which++" is in status "++statusText status++
      "; despatched and voided packages cannot change containment on this path"
  | .alreadyContained => "the package is already projected under that parent; the contain event "++
      "is still recorded and the fold is compare-and-set (J6)"
  | .loop => "it would be inside itself: the parent is in or on it"
  | .tooDeep levels => toString levels++" deep: a wrap, a pallet and a carton is the most (D24)"
  | .intoSealed => "onto a sealed pallet: open it first"
  | .otherOrder => "the pallet is another order's"
  | .openOnBreakdown => "an open carton on a breakdown pallet: seal and label it first"

/-- What blocks a contain once both packages are there, its source and itself apart. -/
def containHard (proposed : ProposedContain) (package parent : PackageRef) (nesting : Nesting) :
    List ContainProblem :=
  (if package.tenantId ≠ proposed.tenantId ∨ parent.tenantId ≠ proposed.tenantId then
    [.differentTenant] else [])++
  (if isTerminal package.status then [.alreadyTerminal "package" package.status] else [])++
  (if isTerminal parent.status then [.alreadyTerminal "parent" parent.status] else [])++
  (if nesting.loops ∧ proposed.packageId ≠ proposed.parentPackageId then [.loop] else [])++
  (if nesting.levels > mostLevels then [.tooDeep nesting.levels] else [])

def containSoft (proposed : ProposedContain) (package : PackageRef) (nesting : Nesting) :
    List ContainProblem :=
  (if package.parentPackageId = some proposed.parentPackageId then [.alreadyContained] else [])++
  (if nesting.parentSealed then [.intoSealed] else [])++
  (if nesting.otherOrder ∧ !nesting.parentBreaksDown then [.otherOrder] else [])++
  (if nesting.parentBreaksDown ∧ !nesting.childSealed then [.openOnBreakdown] else [])

/-- Check a contain: the problems that block, and those that travel with success. -/
def checkContain (proposed : ProposedContain) (package parent : Option PackageRef) (nesting : Nesting) :
    List ContainProblem × List ContainProblem :=
  let first := (if proposed.source ∈ sources then [] else [.invalidSource])++
    (if proposed.packageId = proposed.parentPackageId then [.selfParent] else [])
  match package, parent with
  | none, _ => (first++[.packageNotFound],[])
  | some _, none => (first++[.parentNotFound],[])
  | some package, some parent =>
    (first++containHard proposed package parent nesting,containSoft proposed package nesting)

section
variable (s : Store packages)

/-- The rows each turn of the walk up adds: the parent, then what each is in or on. -/
def upTurn (parent : ℕ) : ℕ → List (ℕ × ℕ)
  | 0 => [(parent,1)]
  | turn+1 => (upTurn parent turn).filterMap fun u =>
    if u.2 < 16 then (s.packageParentNow u.1).map fun q => (q,u.2+1) else none

/-- The rows each turn of the walk down adds: the package, then what is in or on each. -/
def downTurn (child : ℕ) : ℕ → List (ℕ × ℕ)
  | 0 => [(child,1)]
  | turn+1 => ((downTurn child turn).flatMap fun d =>
    ((s.log.filter fun e => e.parentPackageId = some d.1 ∧ e.kind.assertsPlacement ∧
      s.packageParentNow e.packageId = some d.1 ∧ d.2 < 16).map fun e => (e.packageId,d.2+1))).dedup

/-- All rows: past the sixteenth turn none is added. -/
def walk (turns : ℕ → List (ℕ × ℕ)) : List (ℕ × ℕ) := (List.range 16).flatMap turns

def deepest (rows : List (ℕ × ℕ)) : ℕ := (rows.map Prod.snd).foldr max 0

/-- What putting a package in or on another would make, from the events now. -/
def nesting (child parent : ℕ) : Nesting :=
  let up := walk (upTurn s parent)
  let there := decide (child ∈ packages ∧ parent ∈ packages)
  ⟨up.any fun u => u.1 = child,
    deepest up+deepest (walk (downTurn s child)),
    there && decide (s.packageStatusNow parent = some .sealed),
    there && decide (s.packageStatusNow child = some .sealed),
    there && (s.package parent).breaksDown,
    there && decide ((s.package parent).fulfilmentId ≠ none ∧
      (s.package child).fulfilmentId ≠ (s.package parent).fulfilmentId)⟩

end

structure ContainPackageRequest where
  parentPackageId : ℕ
  clientEventId : ℕ
  occurredAt : ℤ
  source : Option String
  deriving DecidableEq, Repr

/-- The check of a contain, as the handler makes it. -/
def containChecked (s : Store packages) (who : Caller) (packageId : ℕ) (body : ContainPackageRequest) :
    List ContainProblem × List ContainProblem :=
  checkContain ⟨who.tenantId,packageId,body.parentPackageId,body.source.getD "operator_scan"⟩
    (s.packageRef packageId) (s.packageRef body.parentPackageId)
    (nesting s packageId body.parentPackageId)

def containPackage (s : Store packages) (who : Caller) (minted : Minted) (packageId : ℕ)
    (body : ContainPackageRequest) : Except ApiError (PackageActResponse × Store packages) :=
  let checked := containChecked s who packageId body
  match checked.1 with
  | [] => recordPackageEvent s body.clientEventId
      ⟨minted,body.occurredAt,packageId,.contained,some body.parentPackageId,none⟩
      (checked.2.map ContainProblem.text)
  | hard => if hard = [.packageNotFound] ∨ hard = [.parentNotFound] then .error .notFound
      else .error (.rejected (String.intercalate "; " (hard.map ContainProblem.text)))

theorem placePackage_passes {s : Store packages} {who : Caller} {minted : Minted} {packageId : ℕ}
    {body : PlacePackageRequest} {out : PackageActResponse × Store packages}
    (h : placePackage s who minted packageId body = .ok out) :
    ∃ warnings, recordPackageEvent s body.clientEventId
      ⟨minted,body.occurredAt,packageId,.placed,none,some body.locationId⟩ warnings = .ok out := by
  unfold placePackage at h
  simp only at h
  split at h
  · exact ⟨_,h⟩
  · split at h <;> cases h

theorem containPackage_passes {s : Store packages} {who : Caller} {minted : Minted} {packageId : ℕ}
    {body : ContainPackageRequest} {out : PackageActResponse × Store packages}
    (h : containPackage s who minted packageId body = .ok out) :
    (containChecked s who packageId body).1 = [] ∧ ∃ warnings, recordPackageEvent s body.clientEventId
      ⟨minted,body.occurredAt,packageId,.contained,some body.parentPackageId,none⟩ warnings = .ok out := by
  unfold containPackage at h
  simp only at h
  split at h
  · rename_i hnone
    exact ⟨hnone,_,h⟩
  · split at h <;> cases h

/-- Nothing is against a contain but what may be projected of the two packages. -/
structure NestingClear (s : Store packages) (who : Caller) (packageId : ℕ)
    (body : ContainPackageRequest) : Prop where
  source : body.source.getD "operator_scan" ∈ sources
  not_itself : packageId ≠ body.parentPackageId
  package : packageId ∈ packages
  parent : body.parentPackageId ∈ packages
  tenant : (s.package packageId).tenantId = who.tenantId ∧
    (s.package body.parentPackageId).tenantId = who.tenantId
  loops : (nesting s packageId body.parentPackageId).loops = false
  levels : (nesting s packageId body.parentPackageId).levels ≤ mostLevels

/-- Neither package is projected to have left or been voided. -/
def ProjectedGoing (s : Store packages) (packageId parentPackageId : ℕ) : Prop :=
  isTerminal (s.table packageId).status = false ∧ isTerminal (s.table parentPackageId).status = false

theorem containChecked_nil_iff (s : Store packages) (who : Caller) (packageId : ℕ)
    (body : ContainPackageRequest) : (containChecked s who packageId body).1 = [] ↔
      NestingClear s who packageId body ∧ ProjectedGoing s packageId body.parentPackageId := by
  unfold containChecked checkContain Store.packageRef
  by_cases hpackage : packageId ∈ packages
  · by_cases hparent : body.parentPackageId ∈ packages
    · simp only [if_pos hpackage,if_pos hparent,List.append_eq_nil_iff,containHard,ite_eq_left_iff,
        ite_eq_right_iff,List.cons_ne_nil,imp_false,not_not,not_or,not_and,Bool.not_eq_true,not_lt,
        ProjectedGoing]
      constructor
      · rintro ⟨⟨hsource,hself⟩,⟨⟨⟨htenant,hstatus⟩,hparentStatus⟩,hloop⟩,hlevels⟩
        exact ⟨⟨hsource,hself,hpackage,hparent,htenant,by simpa [hself] using hloop,hlevels⟩,
          hstatus,hparentStatus⟩
      · rintro ⟨hclear,hstatus,hparentStatus⟩
        exact ⟨⟨hclear.source,hclear.not_itself⟩,⟨⟨⟨hclear.tenant,hstatus⟩,hparentStatus⟩,
          fun hloops => absurd (hclear.loops.symm.trans hloops) (by simp)⟩,hclear.levels⟩
    · simp only [if_pos hpackage,if_neg hparent,List.append_eq_nil_iff,List.cons_ne_nil,and_false,false_iff]
      exact fun hand => hparent hand.1.parent
  · simp only [if_neg hpackage,List.append_eq_nil_iff,List.cons_ne_nil,and_false,false_iff]
    exact fun hand => hpackage hand.1.package

theorem isOk_iff {ε α : Type} {r : Except ε α} : r.isOk = true ↔ ∃ out, r = .ok out := by
  cases r <;> simp [Except.isOk,Except.toBool]

/-- When a contain is accepted. -/
theorem containPackage_isOk (s : Store packages) (who : Caller) (minted : Minted) (packageId : ℕ)
    (body : ContainPackageRequest) : (containPackage s who minted packageId body).isOk = true ↔
      (NestingClear s who packageId body ∧ ActClear s body.clientEventId
        ⟨minted,body.occurredAt,packageId,.contained,some body.parentPackageId,none⟩) ∧
      ProjectedGoing s packageId body.parentPackageId := by
  rw [and_right_comm,← containChecked_nil_iff]
  constructor
  · intro h
    obtain ⟨out,hout⟩ := isOk_iff.mp h
    obtain ⟨hnone,warnings,hrecord⟩ := containPackage_passes hout
    exact ⟨hnone,(recordPackageEvent_isOk s _ _ warnings).mp (isOk_iff.mpr ⟨out,hrecord⟩)⟩
  · rintro ⟨hnone,hact⟩
    rw [containPackage,hnone]
    exact (recordPackageEvent_isOk s _ _ _).mpr hact

end Acts
end Spork
