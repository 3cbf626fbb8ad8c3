import Spork.Receiving.Receipt
import Spork.Lib.Requests

/-! What a receipt writes: the envelope, the lot, the delivery's header, the line and what
is decided of it, and for a line accepted the movement and the handover of claims. -/
namespace Spork
namespace Receiving

open Acts

variable {tenant : ℕ}

/-! ## The rows written -/

/-- The store with an envelope of an act. -/
def Store.claimed (s : Store tenant) (act : ℕ) : Store tenant := {s with clientEvents := s.clientEvents++[act]}

def isWhitespace (c : Char) : Bool :=
  (9 ≤ c.toNat ∧ c.toNat ≤ 13) ∨ (0x2000 ≤ c.toNat ∧ c.toNat ≤ 0x200A) ∨
    c.toNat ∈ [0x20,0x85,0xA0,0x1680,0x2028,0x2029,0x202F,0x205F,0x3000]

/-- The lot's code on the carton, if there is any. -/
def statedCode (body : RecordReceiptRequest) : Option String :=
  (body.lotCode.map fun code => String.ofList (Text.trim isWhitespace code.toList)).filter fun code => code ≠ ""

/-- Find the lot a code names, or make it. A blank expiry is filled, and one held stands. -/
def findOrMakeLot (s : Store tenant) (minted itemId : ℕ) (code : String) (expiry : Option Date) :
    (ℕ × List String) × Store tenant :=
  match s.lots.find? fun l => l.itemId = itemId ∧ l.code = code with
  | none => ((minted,[]),{s with lots := s.lots++[⟨minted,itemId,code,expiry⟩]})
  | some lot =>
    match lot.expiryDate, expiry with
    | none, some stated => ((lot.id,[]),{s with
        lots := s.lots.map fun l => if l.id = lot.id then {l with expiryDate := some stated} else l})
    | some held, some stated =>
      ((lot.id,if held ≠ stated then ["lot "++code++" is on file with expiry "++held.text++
        "; this delivery says "++stated.text++". The held date stands."] else []),s)
    | _, _ => ((lot.id,[]),s)

/-- The lot of a line: the one named, or the one its code names. -/
def lotOf (s : Store tenant) (turn : Turn) (itemId : ℕ) (body : RecordReceiptRequest) :
    (Option ℕ × List String) × Store tenant :=
  match body.lotId, statedCode body with
  | some id, _ => ((some id,[]),s)
  | none, none => ((none,[]),s)
  | none, some code =>
    let found := findOrMakeLot s turn.lotId itemId code body.lotExpiry
    ((some found.1.1,found.1.2),found.2)

/-- Create or join a delivery header. -/
def ensureGoodsReceipt (s : Store tenant) (minted : ℕ) (named : Option ℕ) (gr : ℕ → GoodsReceipt) :
    Except ApiError ((ℕ × Bool) × Store tenant) :=
  match named with
  | none => .ok ((minted,true),{s with receipts := s.receipts++[gr minted]})
  | some id =>
    match s.receipts.find? fun r => r.id = id with
    | none => .ok ((id,true),{s with receipts := s.receipts++[gr id]})
    | some header =>
      if header.tenantId ≠ tenant then
        .error (.rejected "that goods_receipt id is already in use and is not this tenant's")
      else if ∃ hs ∈ header.siteId, ∃ ls ∈ (gr id).siteId, hs ≠ ls then
        .error (.rejected "goods_receipt belongs to a different site than this line")
      else if ∃ hp ∈ header.purchaseOrderId, ∃ lp ∈ (gr id).purchaseOrderId, hp ≠ lp then
        .error (.rejected ("goods_receipt is already for a different purchase order; "++
          "one delivery per demand document (D43)"))
      else .ok ((id,false),s)

/-- Insert a line, under an id no line has. -/
def insertLine (s : Store tenant) (l : GoodsReceiptLine) : Except ApiError (Store tenant) :=
  if (∃ l' ∈ s.lines, l'.id = l.id) ∨ ∃ id ∈ l.lotId, ∀ lot ∈ s.lots, lot.id ≠ id then .error .database
  else .ok {s with
    lines := s.lines++[l]
    discrepancy_line := fun d hd => (s.discrepancy_line d hd).imp fun _ h => ⟨List.mem_append_left _ h.1,h.2⟩}

/-- Insert a finding about a line there is. -/
def insertDiscrepancy (s : Store tenant) (d : Discrepancy) : Except ApiError (Store tenant) :=
  if h : ∃ l ∈ s.lines, l.id = d.goodsReceiptLineId then .ok {s with
    discrepancies := s.discrepancies++[d]
    discrepancy_line := fun d' hd => (List.mem_append.mp hd).elim (s.discrepancy_line d')
      fun hnew => (List.mem_singleton.mp hnew) ▸ h}
  else .error .database

/-- A line, decided if it is the one. -/
def GoodsReceiptLine.decide (l : GoodsReceiptLine) (line : ℕ) (disp : Disposition) : GoodsReceiptLine :=
  if l.id = line then {l with disposed := some ⟨disp.accept,disp.receivingPolicyId⟩} else l

@[simp] theorem GoodsReceiptLine.decide_id (l : GoodsReceiptLine) (line : ℕ) (disp : Disposition) :
    (l.decide line disp).id = l.id := by
  unfold GoodsReceiptLine.decide
  split <;> rfl

/-- The store with a line decided. -/
def Store.decide (s : Store tenant) (line : ℕ) (disp : Disposition) : Store tenant := {s with
  lines := s.lines.map fun l => l.decide line disp
  discrepancy_line := fun d hd => by
    obtain ⟨l,hl,hid⟩ := s.discrepancy_line d hd
    exact ⟨l.decide line disp,List.mem_map_of_mem hl,by rw [GoodsReceiptLine.decide_id,hid]⟩}

/-- Decide a line once, and raise what the decision raises. -/
def goodsReceiptLineDispose (s : Store tenant) (minted : ℕ) (now : ℤ) (line : ℕ) (disp : Disposition) :
    Except ApiError (Option ℕ × Store tenant) :=
  match s.lines.find? fun l => l.id = line with
  | none => .error .database
  | some l =>
    if l.disposed.isSome then .error .database
    else match disp.raised with
    | none => .ok (none,s.decide line disp)
    | some kind => do
      let s' ← insertDiscrepancy (s.decide line disp) ⟨minted,kind,l.itemId,l.lotId,
        some l.expectedQuantity,some l.entered.enteredQuantity,now,line⟩
      return (some minted,s')

/-- The store after the refresh of its projections, when it is not held back. -/
def Store.refreshed (s : Store tenant) : Option Projected → Store tenant
  | none => s
  | some p => {s with
    stock := p.stock
    supplies := s.supplies.map fun e =>
      {e with quantityReceived := p.received e.id, closedAt := p.closedAt e.id}}

/-! ## The handover -/

def Allocation.toClaim (a : Allocation) : Claim where
  id := a.id
  tenantId := a.tenantId
  expectedSupplyId := a.expectedSupplyId
  quantity := a.quantity
  state := a.state
  boundAt := a.boundAt

/-- The claims on a promise. -/
def Store.claimsOn (s : Store tenant) (promise : ℕ) : List Claim :=
  (s.allocations.filter fun a => a.expectedSupplyId = some promise).map Allocation.toClaim

/-- An allocation handed over from its promise to the stock. -/
def Allocation.handed (r : Repoint) (a : Allocation) : Allocation := {a with
  stockId := some r.stockId
  expectedSupplyId := none
  originExpectedSupplyId := some r.originExpectedSupplyId
  boundAt := r.boundAt
  one_supply := by simp
  origin_stock := fun _ => rfl}

/-- An allocation after a re-pointing, of it or of another. -/
def Allocation.moved (r : Repoint) (a : Allocation) : Allocation :=
  if a.id = r.allocationId then a.handed r else a

@[simp] theorem Allocation.moved_id (r : Repoint) (a : Allocation) : (a.moved r).id = a.id := by
  unfold Allocation.moved
  split <;> rfl

@[simp] theorem Allocation.moved_tenantId (r : Repoint) (a : Allocation) :
    (a.moved r).tenantId = a.tenantId := by
  unfold Allocation.moved
  split <;> rfl

/-- The store with one claim moved. -/
def Store.repoint (s : Store tenant) (r : Repoint) : Store tenant := {s with
  allocations := s.allocations.map (Allocation.moved r)
  allocation_tenant := fun a ha => by
    obtain ⟨a',ha',rfl⟩ := List.mem_map.mp ha
    rw [Allocation.moved_tenantId]
    exact s.allocation_tenant a' ha'
  allocation_ids := by
    rw [List.map_map,show Allocation.id ∘ Allocation.moved r = Allocation.id from
      funext (Allocation.moved_id r)]
    exact s.allocation_ids}

def notFoundWarning : String := "stock cell not found after receipt; claims remain on the promise "++
  "until the stock projection runs"

def heldBackWarning : String := "projection refresh rate-limited; claim handover deferred until "++
  "the scheduler rebuilds stock"

def refusedWarning : String := "receipt line refused by receiving policy; no stock movement written"

/-- What an accepted line came to. -/
structure Landed where
  stockId : Option ℕ
  repointed : List ℕ
  warnings : List String

/-- The cell a line's goods are in. -/
def Store.cellOf (s : Store tenant) (body : RecordReceiptRequest) (line : Counted) (lotId : Option ℕ) : Option ℕ :=
  (s.stock.find? fun c => c.itemId = line.supply.itemId ∧ c.holderLocationId = some body.toLocationId ∧
    c.lotId = lotId ∧ c.statusId = line.statusId ∧ c.ownerId = line.ownerId ∧
      c.holderPackageId = none).map StockCell.id

/-- The arrival an accepted line makes of its goods. -/
def arrivalOf (tenant cell : ℕ) (body : RecordReceiptRequest) (line : Counted) : Arrival where
  tenantId := tenant
  expectedSupplyId := body.expectedSupplyId
  stockId := cell
  quantityReceived := line.baseQuantity
  occurredAt := body.occurredAt
  promiseClosed := body.closePromise.getD false || line.supply.closedAt.isSome

/-- The store with a line's movement, after the refresh. -/
def Store.landed (s : Store tenant) (turn : Turn) (body : RecordReceiptRequest) (line : Counted)
    (lotId : Option ℕ) : Store tenant :=
  let movement : StockMovement := ⟨turn.movementId,body.clientEventId,line.supply.itemId,line.baseQuantity,
    body.toLocationId,lotId,line.statusId,line.ownerId,body.occurredAt,turn.lineId⟩
  Store.refreshed {s with movements := s.movements++[movement]} turn.refresh

/-- What an accepted line writes: its movement, and the claims what came covers. -/
def acceptLine (s : Store tenant) (turn : Turn) (body : RecordReceiptRequest) (line : Counted)
    (lotId : Option ℕ) : Landed × Store tenant :=
  let s := s.landed turn body line lotId
  let held := if turn.refresh.isNone then [heldBackWarning] else []
  match s.cellOf body line lotId with
  | none => (⟨none,[],held++[notFoundWarning]⟩,s)
  | some cell =>
    let planned := plan (arrivalOf tenant cell body line) (s.claimsOn body.expectedSupplyId)
    (⟨some cell,planned.1.map Repoint.allocationId,held++planned.2.map Problem.text⟩,
      planned.1.foldl Store.repoint s)

/-! ## The request -/

/-- What an act recorded of a receipt: its line, and its movement if it has one. -/
def requireReceiptFacts (s : Store tenant) (act : ℕ) :
    Except ApiError (GoodsReceiptLine × Option StockMovement) :=
  match s.lines.filter fun l => l.clientEventId = act with
  | [] => .error (.rejected
      "client_event exists but no goods_receipt_line was recorded; incomplete act")
  | [l] =>
    match s.movements.filter fun m => m.clientEventId = act with
    | [] => .ok (l,none)
    | [m] => .ok (l,some m)
    | _ => .error (.rejected
        "client_event owns multiple stock_movement rows; ambiguous replay for this endpoint")
  | _ => .error (.rejected ("client_event owns multiple goods_receipt_line rows; ambiguous replay for "++
      "this endpoint"))

/-- The answer to an act recorded before. -/
def replayReceipt (s : Store tenant) (body : RecordReceiptRequest) (line : Counted) :
    Except ApiError RecordReceiptResponse := do
  let (l,movement) ← requireReceiptFacts s body.clientEventId
  if let some m := movement then rejectQuantityMismatch m.quantity line.baseQuantity
  let some header := s.receipts.find? fun r => r.id = l.goodsReceiptId | throw .database
  let cells := s.stock.filter fun c =>
    c.holderLocationId = some body.toLocationId ∧ c.itemId = line.supply.itemId
  let findings := s.discrepancies.filter fun d => d.goodsReceiptLineId = l.id
  return {
    goodsReceiptId := l.goodsReceiptId
    goodsReceiptLineId := l.id
    headerCreated := header.clientEventId = body.clientEventId
    quantity := l.quantity
    enteredQuantity := l.entered.enteredQuantity
    enteredPackagingLevel := l.entered.level.asStr
    itemPackingConfigId := l.entered.configId
    movementId := movement.map StockMovement.id
    stockId := (cells.map StockCell.id).min?
    repointedAllocationIds := []
    receivingPolicyId := l.disposed.map Disposed.receivingPolicyId
    accepted := l.disposed.any Disposed.accepted
    discrepancyId := ((Sorted.sortBy (compareLex (compareOn Discrepancy.detectedAt)
      (compareOn Discrepancy.id)) findings).head?).map Discrepancy.id
    warnings := [replayWarning] }

/-- A tie of policies is a finding about the line it was met on. -/
def raiseAmbiguity (s : Store tenant) (ambiguity : Option String) (d : Discrepancy) :
    Except ApiError (Store tenant) :=
  match ambiguity with
  | none => .ok s
  | some _ => insertDiscrepancy s d

/-- A line's header, the line, and what is decided of it. -/
structure Written where
  receiptId : ℕ
  headerCreated : Bool
  discrepancyId : Option ℕ

def writeLine (s : Store tenant) (who : Caller) (turn : Turn) (body : RecordReceiptRequest) (line : Counted)
    (lotId : Option ℕ) (ambiguity : Option String) (disp : Disposition) :
    Except ApiError (Written × Store tenant) := do
  let header ← ensureGoodsReceipt s turn.receiptId body.goodsReceiptId fun id =>
    ⟨id,tenant,who.siteId,some line.purchaseOrderId,body.occurredAt,body.clientEventId⟩
  let s ← insertLine header.2 ⟨turn.lineId,header.1.1,line.supply.itemId,body.expectedSupplyId,
    line.supply.quantityExpected,line.baseQuantity,line.entered,lotId,body.clientEventId,none⟩
  let disposed ← goodsReceiptLineDispose s turn.discrepancyId turn.now turn.lineId disp
  let s ← raiseAmbiguity disposed.2 ambiguity ⟨turn.ambiguityId,.policyAmbiguous,line.supply.itemId,lotId,
    none,none,turn.now,turn.lineId⟩
  return (⟨header.1.1,header.1.2,disposed.1⟩,s)

/-- What follows the decision on a line: the goods come in, or they are refused. -/
def landLine (s : Store tenant) (turn : Turn) (body : RecordReceiptRequest) (line : Counted) (lotId : Option ℕ)
    (disp : Disposition) : Landed × Store tenant :=
  if disp.accept then acceptLine s turn body line lotId else (⟨none,[],[refusedWarning]⟩,s)

/-- The answer to an act recorded now. -/
def answerOf (turn : Turn) (line : Counted) (disp : Disposition) (written : Written) (landed : Landed)
    (warnings : List String) : RecordReceiptResponse where
  goodsReceiptId := written.receiptId
  goodsReceiptLineId := turn.lineId
  headerCreated := written.headerCreated
  quantity := line.baseQuantity
  enteredQuantity := line.entered.enteredQuantity
  enteredPackagingLevel := line.entered.level.asStr
  itemPackingConfigId := line.entered.configId
  movementId := if disp.accept then some turn.movementId else none
  stockId := landed.stockId
  repointedAllocationIds := landed.repointed
  receivingPolicyId := some disp.receivingPolicyId
  accepted := disp.accept
  discrepancyId := written.discrepancyId
  warnings := warnings++landed.warnings

/-- What a line counted writes, its act being claimed. -/
def receiveLine (s : Store tenant) (who : Caller) (turn : Turn) (body : RecordReceiptRequest) (line : Counted) :
    Except ApiError (RecordReceiptResponse × Store tenant) := do
  let lot := lotOf s turn line.supply.itemId body
  let resolved ← resolveReceivingPolicy lot.2.policies line.supply.itemId line.supply.supplierPartyId
    (line.supply.siteId.or who.siteId) body.occurredAt
  let disp := disposition resolved.policy ⟨line.supply.quantityExpected,line.baseQuantity,lot.1.1.isSome⟩
  let written ← writeLine lot.2 who turn body line lot.1.1 resolved.ambiguity disp
  let landed := landLine written.2 turn body line lot.1.1 disp
  return (answerOf turn line disp written.1 landed.1 (lot.1.2++
    (disp.raised.map fun k => "disposition raised finding kind "++k.asStr).toList++
      resolved.ambiguity.toList),landed.2)

/-- Record one line of a goods receipt. -/
def recordReceipt (s : Store tenant) (who : Caller) (turn : Turn) (body : RecordReceiptRequest) :
    Except ApiError (RecordReceiptResponse × Store tenant) :=
  match checkReceipt s body with
  | .error e => .error e
  | .ok line =>
    if body.clientEventId ∈ s.clientEvents then (replayReceipt s body line).map fun answer => (answer,s)
    else receiveLine (s.claimed body.clientEventId) who turn body line

/-- A request, who sends it and what the server brings to it. -/
structure Receipt where
  who : Caller
  turn : Turn
  body : RecordReceiptRequest

def receive (s : Store tenant) (r : Receipt) : Except ApiError (RecordReceiptResponse × Store tenant) :=
  recordReceipt s r.who r.turn r.body

/-- Requests in turn. -/
def receiveAll (s : Store tenant) (rs : List Receipt) :
    Except ApiError (List RecordReceiptResponse × Store tenant) :=
  Requests.answerAll receive s rs

end Receiving
end Spork
