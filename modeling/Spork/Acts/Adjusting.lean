import Spork.Ledger.StockFold

/-! Adjusting a cell of stock to a count (`adjusting.rs`): what is wrong with a proposed
adjustment, and which way it moves the ledger. -/
namespace Spork
namespace Adjusting

open Ledger

/-- A row of `stock`: a cell of one holder, and what the last fold found there. -/
structure StockCell where
  id : ℕ
  tenantId : ℕ
  cell : Cell
  quantity : ℤ
  holder : numNonnulls [cell.holderLocationId,cell.holderPackageId] = 1
  deriving DecidableEq

structure AdjustmentReason where
  id : ℕ
  /-- `record_error` or `world_event`. -/
  class_ : String
  code : String
  deriving DecidableEq, Repr

/-- A finding, with the cell its count is of. -/
structure Finding where
  id : ℕ
  tenantId : ℕ
  kind : String
  state : String
  countStockId : Option ℕ
  deriving DecidableEq, Repr

structure ProposedAdjustment where
  tenantId : ℕ
  stockId : ℕ
  countedQuantity : ℤ
  reason : AdjustmentReason
  discrepancyId : Option ℕ
  deriving DecidableEq, Repr

inductive Problem
  | cellNotFound
  | differentTenant
  | cellHasNoHolder
  | negativeCount
  | zeroVariance (quantity : ℤ)
  | recordErrorReason (code : String)
  | unknownReasonClass (class_ : String)
  | missingReason
  | findingNotFound
  | findingWrongTenant
  | findingAlreadyResolved
  | findingUnexpectedKind (kind : String)
  | findingIsNetSuites (kind : String)
  | findingCellMismatch
  | noFindingLinked
  deriving DecidableEq, Repr

/-- What the answer tells of a problem. -/
def Problem.text : Problem → String
  | .cellNotFound => "the stock cell was not found"
  | .differentTenant => "the stock cell belongs to another tenant"
  | .cellHasNoHolder => "the stock cell has no holder"
  | .negativeCount => "a counted quantity cannot be negative"
  | .zeroVariance quantity => "counted quantity equals system quantity ("++toString quantity++
      "); no adjustment movement"
  | .recordErrorReason code => "adjustment reason "++code++" is a record_error; reverse a prior movement via "++
      "/corrections instead of posting an inventory adjust"
  | .unknownReasonClass class_ => "unknown adjustment_reason class "++class_
  | .missingReason => "an adjustment requires an adjustment_reason"
  | .findingNotFound => "the discrepancy was not found"
  | .findingWrongTenant => "the discrepancy belongs to another tenant"
  | .findingAlreadyResolved => "the discrepancy is already resolved"
  | .findingUnexpectedKind kind => "resolving discrepancy kind "++kind++
      "; count_variance is the usual target"
  | .findingIsNetSuites kind => "a "++kind++" finding is about NetSuite's inventory balance, which Spork "++
      "does not adjust: put it right in NetSuite, then accept the finding (D215)"
  | .findingCellMismatch => "the finding's stock_count is for a different cell than this adjustment"
  | .noFindingLinked => "no discrepancy_id: ledger will move without resolving a finding (D8 prefers "++
      "/counts first)"

def isHard : Problem → Bool
  | .zeroVariance _ | .findingUnexpectedKind _ | .noFindingLinked => false
  | _ => true

/-- Which way the ledger is written once the check passes. -/
inductive Direction
  | increase (quantity : ℤ)
  | decrease (quantity : ℤ)
  deriving DecidableEq, Repr

/-- Whether a finding is about NetSuite's report. -/
def isNetsuites (kind : String) : Bool := kind ∈ ["not_in_listed_bin","found_in_unlisted_bin"]

/-- What is wrong with the finding an adjustment names. -/
def checkFinding (proposed : ProposedAdjustment) : Option Finding → List Problem
  | none => [.findingNotFound]
  | some f =>
    (if f.tenantId ≠ proposed.tenantId then [.findingWrongTenant] else [])++
    (if f.state = "resolved" ∨ f.state = "accepted" then [.findingAlreadyResolved] else [])++
    (if isNetsuites f.kind then [.findingIsNetSuites f.kind]
      else if f.kind ≠ "count_variance" then [.findingUnexpectedKind f.kind] else [])++
    match f.countStockId with
    | none => []
    | some stock => if stock ≠ proposed.stockId then [.findingCellMismatch] else []

/-- What is wrong before the quantities are looked at. -/
def checkFirst (proposed : ProposedAdjustment) (cell : Option StockCell) (finding : Option Finding) :
    List Problem :=
  (if proposed.countedQuantity < 0 then [.negativeCount] else [])++
  (if proposed.reason.class_ = "world_event" then []
    else if proposed.reason.class_ = "record_error" then [.recordErrorReason proposed.reason.code]
    else [.unknownReasonClass proposed.reason.class_])++
  (if proposed.discrepancyId.isSome then checkFinding proposed finding else [.noFindingLinked])++
  match cell with
  | none => [.cellNotFound]
  | some cell =>
    (if cell.tenantId ≠ proposed.tenantId then [.differentTenant] else [])++
    (if cell.cell.holderLocationId.isNone ∧ cell.cell.holderPackageId.isNone then [.cellHasNoHolder]
      else [])

/-- The direction of a difference. -/
def directionOf (delta : ℤ) : Option Direction :=
  if delta = 0 then none else if delta > 0 then some (.increase delta) else some (.decrease (-delta))

def check (proposed : ProposedAdjustment) (cell : Option StockCell) (finding : Option Finding) :
    List Problem × Option Direction :=
  let problems := checkFirst proposed cell finding
  match cell with
  | none => (problems,none)
  | some cell =>
    if problems.any isHard then (problems,none)
    else
      let delta := proposed.countedQuantity-cell.quantity
      (if delta = 0 then problems++[.zeroVariance cell.quantity] else problems,directionOf delta)

/-- Without a hard problem there is a cell, of the tenant's, and the direction is that of
the difference. -/
theorem check_passes {proposed : ProposedAdjustment} {cell : Option StockCell} {finding : Option Finding}
    (h : (check proposed cell finding).1.any isHard = false) :
    ∃ c, cell = some c ∧ c.tenantId = proposed.tenantId ∧
      (check proposed cell finding).2 = directionOf (proposed.countedQuantity-c.quantity) := by
  cases cell with
  | none =>
    have hhard : (checkFirst proposed none finding).any isHard = true := by
      simp [checkFirst,isHard]
    rw [show (check proposed none finding).1 = checkFirst proposed none finding from rfl,hhard] at h
    cases h
  | some c =>
    have hfirst : (checkFirst proposed (some c) finding).any isHard = false := by
      by_contra hhard
      rw [Bool.not_eq_false] at hhard
      rw [check,if_pos hhard] at h
      rw [hhard] at h
      cases h
    refine ⟨c,rfl,?_,?_⟩
    · by_contra hne
      simp [checkFirst,hne,isHard] at hfirst
    · rw [check,if_neg (by simp [hfirst])]

end Adjusting
end Spork
