import Spork.Lib.Allot
import Spork.Lib.Sorted
import Spork.Lib.Rendering

/-! The receipt handover (`receiving.rs`, `plan`): which claims move from a promise to the
stock it became. -/
namespace Spork
namespace Receiving

open Sorted

inductive AllocationState
  | allocated | picking | picked | packed | fulfilled | short | released
  deriving DecidableEq, Repr

/-- The states in which a claim still claims something. -/
def active : List AllocationState := [.allocated,.picking,.picked,.packed]

/-- A claim standing against a promise, as the write path holds it. -/
structure Claim where
  id : ℕ
  tenantId : ℕ
  expectedSupplyId : Option ℕ
  quantity : ℤ
  state : AllocationState
  boundAt : ℤ
  deriving DecidableEq, Repr

/-- Goods landing against a promise, and the stock cell they became. -/
structure Arrival where
  tenantId : ℕ
  expectedSupplyId : ℕ
  stockId : ℕ
  quantityReceived : ℤ
  occurredAt : ℤ
  promiseClosed : Bool
  deriving DecidableEq, Repr

/-- One claim moving from the promise to the stock. -/
structure Repoint where
  allocationId : ℕ
  stockId : ℕ
  boundAt : ℤ
  originExpectedSupplyId : ℕ
  deriving DecidableEq, Repr

inductive Problem
  | differentTenant (claim : ℕ)
  | differentPromise (claim : ℕ)
  | uncovered (claim : ℕ) (quantity : ℤ)
  | claimsOutliveThePromise (total received : ℤ)
  | nothingArrived
  deriving DecidableEq, Repr

def uuid (n : ℕ) : String := String.ofList (Rendering.uuidText n)

def Problem.text : Problem → String
  | .differentTenant claim =>
    "allocation "++uuid claim++" belongs to another tenant and cannot be moved by this receipt"
  | .differentPromise claim =>
    "allocation "++uuid claim++" claims a different promise and is not part of this handover"
  | .uncovered claim quantity =>
    "allocation "++uuid claim++" claims "++toString quantity++" and what arrived does not cover it, so it "++
      "stays against the promise; splitting it is the allocator's decision, not the receiver's"
  | .claimsOutliveThePromise total received =>
    toString total++" is still claimed against a promise that closed having delivered "++toString received++
      "; the difference is committed to somebody and is not coming"
  | .nothingArrived => "a receipt of no units is not a receipt"

/-- Why a claim has no part in a handover. -/
def refusal (arrival : Arrival) (c : Claim) : Option Problem :=
  if c.tenantId ≠ arrival.tenantId then some (.differentTenant c.id)
  else if c.expectedSupplyId ≠ some arrival.expectedSupplyId then some (.differentPromise c.id)
  else none

/-- First bound, first served. -/
def firstBound : Claim → Claim → Ordering := compareLex (compareOn Claim.boundAt) (compareOn Claim.id)

/-- The claims an arrival may serve, in the order it serves them. -/
def eligible (arrival : Arrival) (claims : List Claim) : List Claim :=
  sortBy firstBound (claims.filter fun c => (refusal arrival c).isNone ∧ c.state ∈ active)

def repoint (arrival : Arrival) (c : Claim) : Repoint where
  allocationId := c.id
  stockId := arrival.stockId
  boundAt := arrival.occurredAt
  originExpectedSupplyId := arrival.expectedSupplyId

/-- One claim after another from what remains of the arrival. -/
def handOver (arrival : Arrival) : ℤ → List Claim → List Repoint × List Problem
  | _, [] => ([],[])
  | remaining, c :: cs =>
    if c.quantity ≤ remaining then
      let (repoints,problems) := handOver arrival (remaining-c.quantity) cs
      (repoint arrival c :: repoints,problems)
    else
      let (repoints,problems) := handOver arrival remaining cs
      (repoints,.uncovered c.id c.quantity :: problems)

/-- What is claimed of the promise and was not handed over. -/
def stranded (claims : List Claim) (repoints : List Repoint) : ℤ :=
  ((claims.filter fun c => !repoints.any fun r => r.allocationId = c.id).map Claim.quantity).sum

/-- Plan the handover for one arrival. -/
def plan (arrival : Arrival) (claims : List Claim) : List Repoint × List Problem :=
  if arrival.quantityReceived ≤ 0 then ([],[.nothingArrived])
  else
    let served := eligible arrival claims
    let (repoints,uncovered) := handOver arrival arrival.quantityReceived served
    let outlive := if arrival.promiseClosed ∧ 0 < stranded served repoints
      then [.claimsOutliveThePromise (stranded served repoints) arrival.quantityReceived] else []
    (repoints,claims.filterMap (refusal arrival)++uncovered++outlive)

/-! ## What a plan hands over -/

variable {arrival : Arrival} {claims : List Claim} {c : Claim}

theorem refusal_eq_none :
    refusal arrival c = none ↔ c.tenantId = arrival.tenantId ∧ c.expectedSupplyId = some arrival.expectedSupplyId := by
  rw [refusal]
  split_ifs <;> simp_all

instance firstBound_trans : Std.TransCmp firstBound := by
  have hbound : Std.TransCmp (compareOn Claim.boundAt) := inferInstance
  have hid : Std.TransCmp (compareOn Claim.id) := inferInstance
  rw [firstBound]
  infer_instance

theorem firstBound_id {a b : Claim} (h : firstBound a b = .eq) : a.id = b.id := by
  rw [firstBound,compareLex_eq_eq] at h
  exact compare_eq_iff_eq.mp h.2

/-- The order claims are read in is nothing to a handover. -/
theorem sortBy_firstBound {cs cs' : List Claim} (hids : (cs.map Claim.id).Nodup) (hperm : cs.Perm cs') :
    sortBy firstBound cs = sortBy firstBound cs' :=
  sortBy_eq hperm fun _ ha _ hb hab => List.inj_on_of_nodup_map hids ha hb (firstBound_id hab)

/-- A handover serves claims from what arrived, first bound first. -/
theorem handOver_served (remaining : ℤ) (cs : List Claim) :
    (handOver arrival remaining cs).1 = (Allot.served Claim.quantity remaining cs).map (repoint arrival) := by
  induction cs generalizing remaining with
  | nil => rfl
  | cons c cs ih =>
    rw [handOver,Allot.served]
    split
    · rw [List.map_cons,← ih]
    · rw [← ih]

/-- What it does not cover it names. -/
theorem handOver_left (remaining : ℤ) (cs : List Claim) : (handOver arrival remaining cs).2 =
    (Allot.left Claim.quantity remaining cs).map fun c => .uncovered c.id c.quantity := by
  induction cs generalizing remaining with
  | nil => rfl
  | cons c cs ih =>
    rw [handOver,Allot.left]
    split
    · rw [← ih]
    · rw [List.map_cons,← ih]

theorem plan_repoints (h : 0 < arrival.quantityReceived) : (plan arrival claims).1 =
    (Allot.served Claim.quantity arrival.quantityReceived (eligible arrival claims)).map (repoint arrival) := by
  rw [plan,if_neg (not_le.mpr h),← handOver_served]

end Receiving
end Spork
