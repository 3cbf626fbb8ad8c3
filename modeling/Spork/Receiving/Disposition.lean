import Spork.Lib.Double
import Spork.Receiving.Plan
import Spork.Policy.Clamps
import Spork.Acts.Store

/-! What a receiving policy decides about a counted line, and which policy that is
(`receiving.rs`, `disposition` and `resolve_receiving_policy`). -/
namespace Spork
namespace Receiving

open Policy Acts

/-- A receiving policy version, as it was resolved and clamped. -/
structure ReceivingPolicy where
  version : ℕ
  /-- None when the version states no over-delivery bound. -/
  toleranceOverPct : Option ℚ
  requireLot : Bool
  deriving DecidableEq, Repr

/-- A line as counted at the dock, in base units. -/
structure CountedLine where
  expectedQuantity : ℤ
  quantity : ℤ
  hasLot : Bool
  deriving DecidableEq, Repr

inductive DiscrepancyKind
  | overReceipt | lotMissing | policyAmbiguous
  deriving DecidableEq, Repr

def DiscrepancyKind.asStr : DiscrepancyKind → String
  | .overReceipt => "over_receipt"
  | .lotMissing => "lot_missing"
  | .policyAmbiguous => "policy_ambiguous"

/-- What the policy decided, and which version decided it. -/
structure Disposition where
  receivingPolicyId : ℕ
  accept : Bool
  raised : Option DiscrepancyKind
  deriving DecidableEq, Repr

/-- What is over is within what a percentage of the promise allows, in doubles. -/
def within (pct : ℚ) (expected overBy : ℤ) : Bool :=
  Double.nearest overBy ≤ Double.nearest (Double.nearest (Double.nearest expected*pct)/100)

/-- A quantity is over the promise by more than is tolerated: where no bound is stated, by
anything at all. -/
def overReceipt (tolerance : Option ℚ) (expected quantity : ℤ) : Bool :=
  expected < quantity ∧ !tolerance.any fun pct => within pct expected (quantity-expected)

/-- Decide a line against a resolved receiving policy. -/
def disposition (policy : ReceivingPolicy) (line : CountedLine) : Disposition :=
  if policy.requireLot ∧ !line.hasLot then ⟨policy.version,false,some .lotMissing⟩
  else if overReceipt policy.toleranceOverPct line.expectedQuantity line.quantity then
    ⟨policy.version,true,some .overReceipt⟩
  else ⟨policy.version,true,none⟩

/-- What is accepted is a finding exactly when it is over by itself. -/
theorem disposition_raised {policy : ReceivingPolicy} {line : CountedLine}
    (h : (disposition policy line).accept = true) : (disposition policy line).raised =
      if overReceipt policy.toleranceOverPct line.expectedQuantity line.quantity then some .overReceipt
      else none := by
  unfold disposition at *
  split at h
  · cases h
  · next hlot =>
    rw [if_neg hlot]
    split <;> rfl

example : overReceipt (some 10) 100 108 = false ∧ overReceipt (some 10) 100 125 = true ∧
    overReceipt none 100 101 = true ∧ overReceipt none 100 100 = false := by decide +kernel

/-! ## The policy that governs -/

/-- A row of `receiving_policy`: a version, and when it is in force. -/
structure PolicyVersion where
  id : ℕ
  policyBindingId : ℕ
  effectiveFrom : ℤ
  effectiveTo : Option ℤ
  deriving DecidableEq, Repr

/-- What the database answers of receiving policies: its candidates for an item, a party, a
site and a moment, and what its bindings state then. -/
structure PolicyTables where
  policyCandidate : ℕ → Option ℕ → Option ℕ → ℤ → List Candidate
  policyValue : List ℕ → ℤ → List Value
  receivingPolicy : List PolicyVersion

structure ResolvedReceiving where
  policy : ReceivingPolicy
  ambiguity : Option String
  deriving DecidableEq, Repr

/-- The version of a binding in force, the latest begun. -/
def versionInForce (t : PolicyTables) (binding : ℕ) (asOf : ℤ) : Option PolicyVersion :=
  (Sorted.sortBy (fun a b => compare b.effectiveFrom a.effectiveFrom) (t.receivingPolicy.filter fun v =>
    v.policyBindingId = binding ∧ v.effectiveFrom ≤ asOf ∧ v.effectiveTo.all fun ends => asOf < ends)).head?

def ambiguityText (r : Resolution) : String :=
  toString (r.ambiguousWith.length+1)++" bindings are equally specific for receiving; the lowest id was "++
    "taken and this is a discrepancy, not a decision"

def resolveReceivingPolicy (t : PolicyTables) (itemId : ℕ) (partyId siteId : Option ℕ) (asOf : ℤ) :
    Except ApiError ResolvedReceiving :=
  let candidates := t.policyCandidate itemId partyId siteId asOf
  match resolve .receiving candidates with
  | none => .error (.rejected ("no receiving policy binding matches, not even the platform default; "++
      "the schema is missing migration 65"))
  | some r =>
    let values := t.policyValue (candidates.map Candidate.binding) asOf
    let said := fieldLeft .receiving r.winner.binding values
    match stated values r.winner.binding "require_lot", versionInForce t r.winner.binding asOf with
    | none, _ => .error (.rejected ("receiving binding "++uuid r.winner.binding++" won but states no "++
        "require_lot; its value row and its version row disagree"))
    | some _, none => .error (.rejected ("receiving binding "++uuid r.winner.binding++" won but has no "++
        "version in force at the act time"))
    | some raw, some v => .ok {
        policy := {
          version := v.id
          toleranceOverPct := said "tolerance_over_pct"
          requireLot := (said "require_lot").getD raw ≠ 0 }
        ambiguity := if r.ambiguousWith = [] then none else some (ambiguityText r) }

end Receiving
end Spork
