import Spork.Receiving.Count
import Spork.Receiving.Disposition
import Spork.Lib.Text

/-! The receipt of one line of a delivery (`record_receipt`), over the rows it reads and
writes in its tenant's scope. -/
namespace Spork
namespace Receiving

open Acts Policy

/-- A row of `expected_supply`, with its order and supplier. -/
structure ExpectedSupply where
  id : ℕ
  tenantId : ℕ
  itemId : ℕ
  siteId : Option ℕ
  ownerId : Option ℕ
  statusId : Option ℕ
  quantityExpected : ℤ
  quantityReceived : ℤ
  closedAt : Option ℤ
  purchaseOrderId : ℕ
  supplierPartyId : Option ℕ
  deriving DecidableEq, Repr

/-- A date on a label. -/
structure Date where
  year : ℕ
  month : ℕ
  day : ℕ
  deriving DecidableEq, Repr

/-- A date's figures, with zeros before them. -/
def Date.text (d : Date) : String :=
  let padded := fun (width n : ℕ) => String.ofList (List.leftpad width '0' (Nat.toDigits 10 n))
  padded 4 d.year++"-"++padded 2 d.month++"-"++padded 2 d.day

structure Lot where
  id : ℕ
  itemId : ℕ
  code : String
  expiryDate : Option Date
  deriving DecidableEq, Repr

/-- A row of `goods_receipt`, whosever it is. -/
structure GoodsReceipt where
  id : ℕ
  tenantId : ℕ
  siteId : Option ℕ
  purchaseOrderId : Option ℕ
  receivedAt : ℤ
  clientEventId : ℕ
  deriving DecidableEq, Repr

/-- How a line was disposed of, and under which policy version. -/
structure Disposed where
  accepted : Bool
  receivingPolicyId : ℕ
  deriving DecidableEq, Repr

structure GoodsReceiptLine where
  id : ℕ
  goodsReceiptId : ℕ
  itemId : ℕ
  expectedSupplyId : ℕ
  expectedQuantity : ℤ
  quantity : ℤ
  entered : EnteredCount
  lotId : Option ℕ
  clientEventId : ℕ
  disposed : Option Disposed
  deriving DecidableEq, Repr

structure Discrepancy where
  id : ℕ
  kind : DiscrepancyKind
  itemId : ℕ
  lotId : Option ℕ
  expectedQuantity : Option ℤ
  observedQuantity : Option ℤ
  detectedAt : ℤ
  goodsReceiptLineId : ℕ
  deriving DecidableEq, Repr

structure StockMovement where
  id : ℕ
  clientEventId : ℕ
  itemId : ℕ
  quantity : ℤ
  toLocationId : ℕ
  toLotId : Option ℕ
  toStatusId : ℕ
  toOwnerId : ℕ
  occurredAt : ℤ
  goodsReceiptLineId : ℕ
  deriving DecidableEq, Repr

structure StockCell where
  id : ℕ
  itemId : ℕ
  holderLocationId : Option ℕ
  holderPackageId : Option ℕ
  lotId : Option ℕ
  statusId : ℕ
  ownerId : ℕ
  deriving DecidableEq, Repr

/-- A row of `stock_allocation`: some goods, claimed of a stock cell or of a promise. -/
structure Allocation where
  id : ℕ
  tenantId : ℕ
  stockId : Option ℕ
  expectedSupplyId : Option ℕ
  originExpectedSupplyId : Option ℕ
  quantity : ℤ
  state : AllocationState
  boundAt : ℤ
  quantity_pos : 0 < quantity
  one_supply : stockId.isSome ≠ expectedSupplyId.isSome
  origin_stock : originExpectedSupplyId.isSome = true → stockId.isSome = true
  deriving DecidableEq

/-- The rows in a tenant's scope. -/
structure Store (tenant : ℕ) where
  /-- The ids of the acts there are envelopes of. -/
  clientEvents : List ℕ
  supplies : List ExpectedSupply
  /-- Packing configurations, and the day each takes effect. -/
  packingConfigs : List (PackingConfig × ℤ)
  locations : List LocationRef
  /-- The platform's status `available`. -/
  available : ℕ
  policies : PolicyTables
  lots : List Lot
  receipts : List GoodsReceipt
  lines : List GoodsReceiptLine
  discrepancies : List Discrepancy
  movements : List StockMovement
  stock : List StockCell
  allocations : List Allocation
  discrepancy_line : ∀ d ∈ discrepancies, ∃ l ∈ lines, l.id = d.goodsReceiptLineId
  allocation_tenant : ∀ a ∈ allocations, a.tenantId = tenant
  allocation_ids : (allocations.map Allocation.id).Nodup

structure Caller where
  siteId : Option ℕ
  deriving DecidableEq, Repr

structure RecordReceiptRequest where
  expectedSupplyId : ℕ
  toLocationId : ℕ
  quantity : Option ℤ
  enteredQuantity : Option ℤ
  enteredPackagingLevel : Option String
  itemPackingConfigId : Option ℕ
  lotId : Option ℕ
  lotCode : Option String
  lotExpiry : Option Date
  statusId : Option ℕ
  ownerId : Option ℕ
  purchaseOrderId : Option ℕ
  closePromise : Option Bool
  goodsReceiptId : Option ℕ
  clientEventId : ℕ
  occurredAt : ℤ
  deriving DecidableEq, Repr

structure RecordReceiptResponse where
  goodsReceiptId : ℕ
  goodsReceiptLineId : ℕ
  headerCreated : Bool
  quantity : ℤ
  enteredQuantity : ℤ
  enteredPackagingLevel : String
  itemPackingConfigId : Option ℕ
  movementId : Option ℕ
  stockId : Option ℕ
  repointedAllocationIds : List ℕ
  receivingPolicyId : Option ℕ
  accepted : Bool
  discrepancyId : Option ℕ
  warnings : List String
  deriving DecidableEq, Repr

/-- What a refresh of the tenant's projections leaves: the stock there is, and of each
promise what came and when it closed. -/
structure Projected where
  stock : List StockCell
  received : ℕ → ℤ
  closedAt : ℕ → Option ℤ

/-- What the server brings to a request: the ids of the rows it may write, its clock, and
what the refresh leaves when it is not held back. -/
structure Turn where
  lotId : ℕ
  receiptId : ℕ
  lineId : ℕ
  discrepancyId : ℕ
  ambiguityId : ℕ
  movementId : ℕ
  now : ℤ
  refresh : Option Projected

/-- What a line is once its request is checked. -/
structure Counted where
  supply : ExpectedSupply
  baseQuantity : ℤ
  entered : EnteredCount
  statusId : ℕ
  ownerId : ℕ
  purchaseOrderId : ℕ
  deriving DecidableEq, Repr

variable {tenant : ℕ}

/-! ## The checks -/

/-- The day a moment, in microseconds, falls on. -/
def dayOf (moment : ℤ) : ℤ := moment/86400000000

/-- The promise a request names. -/
def Store.supplyOf (s : Store tenant) (id : ℕ) : Option ExpectedSupply :=
  s.supplies.find? fun e => e.id = id

/-- The packing configuration a request names. -/
def packingConfig (configs : List (PackingConfig × ℤ)) (body : RecordReceiptRequest) :
    Except ApiError (Option PackingConfig) :=
  match body.itemPackingConfigId with
  | none => .ok none
  | some id =>
    match configs.find? fun c => c.1.id = id with
    | none => .error (.rejected "item_packing_config_id was not found")
    | some (config,effectiveFrom) =>
      if dayOf body.occurredAt < effectiveFrom then
        .error (.rejected "item_packing_config is not yet effective at the act time")
      else .ok (some config)

/-- The count of a request, in the item's base unit. -/
def countOf (configs : List (PackingConfig × ℤ)) (itemId : ℕ) (body : RecordReceiptRequest) :
    Except ApiError (ℤ × EnteredCount) := do
  let config ← packingConfig configs body
  match resolveCount body.quantity body.enteredQuantity body.enteredPackagingLevel config itemId with
  | .error e => throw (.rejected e.text)
  | .ok (q,entered) =>
    if q ≤ 0 then throw (.rejected Problem.nothingArrived.text)
    return (q,entered)

/-- The checks of a request, in their order. -/
def checkReceipt (s : Store tenant) (body : RecordReceiptRequest) : Except ApiError Counted :=
  match s.supplyOf body.expectedSupplyId with
  | none => .error .notFound
  | some supply =>
    if supply.tenantId ≠ tenant then .error .notFound
    else do
      let (baseQuantity,entered) ← countOf s.packingConfigs supply.itemId body
      if !s.locations.any fun l => l.id = body.toLocationId ∧ l.tenantId = tenant then
        throw (.rejected "destination location not found")
      let some ownerId := body.ownerId.or supply.ownerId |
        throw (.rejected "owner_id is required when the promise names none")
      return {
        supply, baseQuantity, entered, ownerId
        statusId := (body.statusId.or supply.statusId).getD s.available
        purchaseOrderId := body.purchaseOrderId.getD supply.purchaseOrderId }

end Receiving
end Spork
