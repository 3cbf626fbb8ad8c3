import Spork.Acts.Adjusting
import Spork.Packages.Projection

/-! What the handlers of acts read and write, of one tenant as its scope sees it, and the
act envelope (`client_events.rs`): an act's facts are written once, by whoever claims its
id. -/
namespace Spork
namespace Acts

open Ledger Packages Adjusting

/-- A row of `package`, without its projected columns. -/
structure PackageRow where
  tenantId : ℕ
  fulfilmentId : Option ℕ
  breaksDown : Bool
  deriving DecidableEq, Repr

/-- A row of `package_event`, and the act that recorded it. -/
structure PackageEvent (packages : List ℕ) where
  clientEventId : ℕ
  event : Event packages
  deriving DecidableEq

/-- A row of `stock_movement`, and the act that recorded it. -/
structure StockMovement where
  clientEventId : ℕ
  movement : Movement
  fulfilmentLineId : Option ℕ
  deriving DecidableEq, Repr

structure LocationRef where
  id : ℕ
  tenantId : ℕ
  deriving DecidableEq, Repr

structure StockCount where
  id : ℕ
  stockId : ℕ
  deriving DecidableEq, Repr

structure Discrepancy where
  id : ℕ
  tenantId : ℕ
  kind : String
  state : String
  stockCountId : Option ℕ
  detectedAt : ℤ
  resolvingMovementId : Option ℕ
  deriving DecidableEq, Repr

/-- An order's line, with its order's state and its site's bench. -/
structure FulfilmentLine where
  id : ℕ
  fulfilmentId : ℕ
  cancelled : Bool
  packLocation : Option ℕ
  deriving DecidableEq, Repr

/-- The rows there are. A fact names an act there is an envelope of. -/
structure Store (packages : List ℕ) where
  /-- The ids of the acts there are envelopes of. -/
  clientEvents : List ℕ
  packageEvents : List (PackageEvent packages)
  stockMovements : List StockMovement
  package : ℕ → PackageRow
  table : Table
  stock : List StockCell
  adjustmentReasons : List AdjustmentReason
  discrepancies : List Discrepancy
  stockCounts : List StockCount
  locations : List LocationRef
  lines : List FulfilmentLine
  event_act : ∀ e ∈ packageEvents, e.clientEventId ∈ clientEvents
  movement_act : ∀ m ∈ stockMovements, m.clientEventId ∈ clientEvents

inductive ApiError
  | notFound
  | rejected (text : String)
  /-- A constraint of a table refused the row. -/
  | database
  deriving DecidableEq, Repr

/-- Who sends a request, as the session has it. -/
structure Caller where
  tenantId : ℕ
  deriving DecidableEq, Repr

/-- What the server gives a new row. -/
structure Minted where
  id : ℕ
  recordedAt : ℤ
  deriving DecidableEq, Repr

variable {packages : List ℕ}

namespace Store

def log (s : Store packages) : List (Event packages) := s.packageEvents.map PackageEvent.event

def ledger (s : Store packages) : List Movement := s.stockMovements.map StockMovement.movement

/-- The store after the package projection's rebuild. -/
def rebuildPackages (s : Store packages) : Store packages :=
  {s with table := (projectionPackageRebuild s.log s.table).1}

/-- A package's parent now: what its newest placement names. -/
def packageParentNow (s : Store packages) (p : ℕ) : Option ℕ :=
  (winningPlacement s.log p).bind Event.parentPackageId

/-- A package's status now, from its events. -/
def packageStatusNow (s : Store packages) (p : ℕ) : Option Kind :=
  (winningStatus s.log p).map Event.kind

/-- What an act wrote of package events: id, kind and package of each. -/
def eventsOf (s : Store packages) (act : ℕ) : List (ℕ × Kind × ℕ) :=
  (s.packageEvents.filter fun e => e.clientEventId = act).map fun e =>
    (e.event.id,e.event.kind,e.event.packageId)

/-- What an act wrote of movements. -/
def movementsOf (s : Store packages) (act : ℕ) : List StockMovement :=
  s.stockMovements.filter fun m => m.clientEventId = act

/-- An act nobody claimed wrote nothing. -/
theorem eventsOf_unclaimed {s : Store packages} {act : ℕ} (h : act ∉ s.clientEvents) : s.eventsOf act = [] := by
  rw [eventsOf,List.map_eq_nil_iff,List.filter_eq_nil_iff]
  intro e he heq
  have hact : e.clientEventId = act := by simpa using heq
  exact h (hact ▸ s.event_act e he)

theorem movementsOf_unclaimed {s : Store packages} {act : ℕ} (h : act ∉ s.clientEvents) :
    s.movementsOf act = [] := by
  rw [movementsOf,List.filter_eq_nil_iff]
  intro m hm heq
  have hact : m.clientEventId = act := by simpa using heq
  exact h (hact ▸ s.movement_act m hm)

end Store

/-! ## The act envelope -/

def replayWarning : String := "replay of an existing client_event; no new facts were written"

inductive ActInsert
  | fresh | replay
  deriving DecidableEq, Repr

/-- Insert the act envelope, or detect that it already exists. -/
def claimAct (s : Store packages) (clientEventId : ℕ) : ActInsert × Store packages :=
  if clientEventId ∈ s.clientEvents then (.replay,s)
  else (.fresh,{s with
    clientEvents := s.clientEvents++[clientEventId]
    event_act := fun e he => List.mem_append_left _ (s.event_act e he)
    movement_act := fun m hm => List.mem_append_left _ (s.movement_act m hm)})

/-- One movement for an act, if it wrote one. -/
def optionalOneMovement (s : Store packages) (clientEventId : ℕ) :
    Except ApiError (Option StockMovement) :=
  match s.movementsOf clientEventId with
  | [] => .ok none
  | [m] => .ok (some m)
  | _ => .error (.rejected
      "client_event owns multiple stock_movement rows; ambiguous replay for this endpoint")

/-- One movement for an act, or an error. -/
def requireOneMovement (s : Store packages) (clientEventId : ℕ) : Except ApiError StockMovement :=
  match s.movementsOf clientEventId with
  | [] => .error (.rejected
      "client_event exists but no stock_movement was recorded; incomplete act")
  | [m] => .ok m
  | _ => .error (.rejected
      "client_event owns multiple stock_movement rows; ambiguous replay for this endpoint")

/-- One package event for an act, or an error. -/
def requireOnePackageEvent (s : Store packages) (clientEventId : ℕ) :
    Except ApiError (Event packages) :=
  match s.packageEvents.filter fun e => e.clientEventId = clientEventId with
  | [] => .error (.rejected
      "client_event exists but no package_event was recorded; incomplete act")
  | [e] => .ok e.event
  | _ => .error (.rejected
      "client_event owns multiple package_event rows; ambiguous replay for this endpoint")

def rejectQuantityMismatch (prior requested : ℤ) : Except ApiError Unit :=
  if prior ≠ requested then .error (.rejected ("client_event already recorded quantity "++toString prior++
    "; this request has "++toString requested))
  else .ok ()

/-! ## Rows written -/

/-- The columns of a new package event. -/
structure NewEvent where
  minted : Minted
  occurredAt : ℤ
  packageId : ℕ
  kind : Kind
  parentPackageId : Option ℕ
  locationId : Option ℕ
  deriving DecidableEq, Repr

/-- What the table's constraints ask of it. -/
def NewEvent.Allowed (packages : List ℕ) (r : NewEvent) : Prop :=
  r.packageId ∈ packages ∧ (∀ q ∈ r.parentPackageId, q ∈ packages) ∧
    (r.kind.assertsPlacement = true → r.parentPackageId.isSome ≠ r.locationId.isSome) ∧
      r.parentPackageId ≠ some r.packageId

instance (r : NewEvent) : Decidable (r.Allowed packages) := by
  unfold NewEvent.Allowed
  infer_instance

def NewEvent.toEvent (r : NewEvent) (h : r.Allowed packages) : Event packages where
  id := r.minted.id
  occurredAt := r.occurredAt
  recordedAt := r.minted.recordedAt
  packageId := r.packageId
  kind := r.kind
  parentPackageId := r.parentPackageId
  locationId := r.locationId
  sscc := none
  barcode := none
  there := h.1
  parent_there := h.2.1
  holder := h.2.2.1
  not_own_parent := h.2.2.2

/-- Insert a package event. -/
def insertPackageEvent (s : Store packages) (clientEventId : ℕ) (r : NewEvent) :
    Except ApiError (Store packages) :=
  if h : r.Allowed packages ∧ clientEventId ∈ s.clientEvents then
    .ok {s with
      packageEvents := s.packageEvents++[⟨clientEventId,r.toEvent h.1⟩]
      event_act := fun e he => (List.mem_append.mp he).elim (s.event_act e)
        fun hnew => (List.mem_singleton.mp hnew) ▸ h.2}
  else .error .database

/-- Insert a movement. -/
def insertStockMovement (s : Store packages) (m : StockMovement) : Except ApiError (Store packages) :=
  if h : m.clientEventId ∈ s.clientEvents then
    .ok {s with
      stockMovements := s.stockMovements++[m]
      movement_act := fun r hr => (List.mem_append.mp hr).elim (s.movement_act r)
        fun hnew => (List.mem_singleton.mp hnew) ▸ h}
  else .error .database

/-- The store after a request: one refused is rolled back. -/
def after {α : Type} (s : Store packages) : Except ApiError (α × Store packages) → Store packages
  | .ok out => out.2
  | .error _ => s

/-- A package's parent after an event: what the event names, if it is the newest
placement, and otherwise what it was. -/
theorem packageParentNow_append {s s' : Store packages} {e : Event packages} (h : s'.log = s.log++[e]) :
    s'.packageParentNow = s.packageParentNow ∨ (e.kind.assertsPlacement = true ∧
      s'.packageParentNow = Function.update s.packageParentNow e.packageId e.parentPackageId) := by
  have hparent (p : ℕ) : s'.packageParentNow p = (winningPlacement (s.log++[e]) p).bind Event.parentPackageId :=
    h ▸ rfl
  have hother {p : ℕ} (hp : e.packageId ≠ p) : s'.packageParentNow p = s.packageParentNow p := by
    rcases winner_append (fun e => e.kind.assertsPlacement) s.log e p with hsame | ⟨heq,-⟩
    · rw [hparent,winningPlacement,hsame]
      rfl
    · exact absurd heq hp
  rcases winner_append (fun e => e.kind.assertsPlacement) s.log e e.packageId with hsame | ⟨-,hplaces,hwins⟩
  · refine Or.inl (funext fun p => ?_)
    by_cases hp : e.packageId = p
    · rw [hparent,← hp,winningPlacement,hsame]
      rfl
    · exact hother hp
  · refine Or.inr ⟨hplaces,funext fun p => ?_⟩
    by_cases hp : p = e.packageId
    · rw [hparent,hp,winningPlacement,hwins,Function.update_self]
      rfl
    · rw [hother (Ne.symm hp),Function.update_of_ne hp]

end Acts
end Spork
