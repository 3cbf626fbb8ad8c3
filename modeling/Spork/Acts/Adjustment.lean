import Spork.Acts.Store

/-! Recording an adjustment (`record_adjustment`): the difference between the count and the
projected quantity of the cell, posted to the ledger. -/
namespace Spork
namespace Acts

open Ledger Adjusting

structure RecordAdjustmentRequest where
  stockId : ℕ
  countedQuantity : ℤ
  adjustmentReasonId : ℕ
  discrepancyId : Option ℕ
  stockCountId : Option ℕ
  clientEventId : ℕ
  occurredAt : ℤ
  deriving DecidableEq, Repr

structure RecordAdjustmentResponse where
  movementId : Option ℕ
  systemQuantity : ℤ
  countedQuantity : ℤ
  delta : ℤ
  resolvedDiscrepancyId : Option ℕ
  warnings : List String
  deriving DecidableEq, Repr

variable {packages : List ℕ}

def isOpen (d : Discrepancy) : Bool := d.state ∈ ["open","investigating"]

/-- A finding, joined to the count it is of when there is one. -/
def asFinding (s : Store packages) (d : Discrepancy) : Finding :=
  ⟨d.id,d.tenantId,d.kind,d.state,d.stockCountId.bind fun count =>
    (s.stockCounts.find? fun c => c.id = count).map StockCount.stockId⟩

/-- Which finding to close: the one named, or the open variance of the count. -/
def findingRow (s : Store packages) (body : RecordAdjustmentRequest) : Option Finding :=
  match body.discrepancyId, body.stockCountId with
  | some discrepancy, _ => (s.discrepancies.find? fun d => d.id = discrepancy).map (asFinding s)
  | none, some count => (Newest.newest Discrepancy.detectedAt (s.discrepancies.filter fun d =>
      d.stockCountId = some count ∧ s.stockCounts.any (fun c => c.id = count) ∧
        d.kind = "count_variance" ∧ isOpen d)).map (asFinding s)
  | none, none => none

/-- The side of a movement that is in a cell. -/
def cellSide (c : Cell) : Side := ⟨c.holderLocationId,c.holderPackageId,c.lotId,c.statusId,c.ownerId⟩

/-- The movement posted: to the cell, or from it. -/
def adjustmentMovement (who : Caller) (minted : Minted) (body : RecordAdjustmentRequest) (c : Cell) :
    Direction → Movement
  | .increase quantity => ⟨minted.id,who.tenantId,c.itemId,quantity,none,body.occurredAt,nowhere,cellSide c,none⟩
  | .decrease quantity => ⟨minted.id,who.tenantId,c.itemId,quantity,none,body.occurredAt,cellSide c,nowhere,none⟩

/-- A finding's row after it was closed, if it was open. -/
def closedRow (movement finding : ℕ) (d : Discrepancy) : Discrepancy :=
  if d.id = finding ∧ isOpen d then {d with state := "resolved",resolvingMovementId := some movement} else d

/-- Close a finding that is still open with a movement. -/
def closeFinding (s : Store packages) (movement finding : ℕ) : Store packages :=
  {s with discrepancies := s.discrepancies.map (closedRow movement finding)}

/-- Close the finding only when there is a movement. -/
def settle (s : Store packages) (movement : Option ℕ) (finding : Option Finding) :
    Option ℕ × Store packages :=
  match movement, finding with
  | some m, some f => (some f.id,closeFinding s m f.id)
  | _, _ => (none,s)

/-- Whether a finding was closed by some movement. -/
def resolvedBy (s : Store packages) (finding : Option Finding) : Option ℕ :=
  finding.bind fun f => (s.discrepancies.find? fun d =>
    decide (d.id = f.id) && d.resolvingMovementId.isSome).map Discrepancy.id

/-- The adjustment once its check has passed. -/
def adjustCell (s : Store packages) (who : Caller) (minted : Minted) (body : RecordAdjustmentRequest)
    (cell : StockCell) (finding : Option Finding) (warnings : List String) :
    Option Direction → Except ApiError (RecordAdjustmentResponse × Store packages)
  | some direction =>
    match claimAct s body.clientEventId with
    | (.replay,s) =>
      match optionalOneMovement s body.clientEventId with
      | .error e => .error e
      | .ok prior => .ok (⟨prior.map fun m => m.movement.id,cell.quantity,body.countedQuantity,
          body.countedQuantity-cell.quantity,resolvedBy s finding,warnings++[replayWarning]⟩,s)
    | (.fresh,s) =>
      match insertStockMovement s ⟨body.clientEventId,
        adjustmentMovement who minted body cell.cell direction,none⟩ with
      | .error e => .error e
      | .ok posted =>
        let settled := settle posted (some minted.id) finding
        .ok (⟨some minted.id,cell.quantity,body.countedQuantity,body.countedQuantity-cell.quantity,
          settled.1,warnings⟩,settled.2)
  | none =>
    -- no envelope: a count that agrees records nothing, unless it is sent again
    match optionalOneMovement s body.clientEventId with
    | .error e => .error e
    | .ok prior =>
      let movement := prior.map fun m => m.movement.id
      let settled := settle s movement finding
      .ok (⟨movement,cell.quantity,body.countedQuantity,body.countedQuantity-cell.quantity,settled.1,
        if movement.isSome then warnings++[replayWarning] else warnings⟩,settled.2)

/-- What is proposed, once its reason and its finding are read. -/
def proposedAdjustment (s : Store packages) (who : Caller) (body : RecordAdjustmentRequest)
    (reason : AdjustmentReason) : ProposedAdjustment :=
  ⟨who.tenantId,body.stockId,body.countedQuantity,reason,
    body.discrepancyId.or ((findingRow s body).map Finding.id)⟩

def recordAdjustment (s : Store packages) (who : Caller) (minted : Minted)
    (body : RecordAdjustmentRequest) : Except ApiError (RecordAdjustmentResponse × Store packages) :=
  let finding := findingRow s body
  match s.adjustmentReasons.find? fun r => r.id = body.adjustmentReasonId with
  | none => .error (.rejected Problem.missingReason.text)
  | some reason =>
    let cell := s.stock.find? fun c => c.id = body.stockId
    let checked := check (proposedAdjustment s who body reason) cell finding
    let hard := (checked.1.filter isHard).map Problem.text
    match hard, cell with
    | [], some cell => adjustCell s who minted body cell finding
        ((checked.1.filter fun p => !isHard p).map Problem.text) checked.2
    | _, _ =>
      if hard.length = 1 ∧ checked.1.any (fun p => p ∈ [.cellNotFound,.findingNotFound]) then
        .error .notFound
      else .error (.rejected (String.intercalate "; " hard))

/-! ## What an accepted adjustment leaves -/

theorem settle_ledger (s : Store packages) (movement : Option ℕ) (finding : Option Finding) :
    (settle s movement finding).2.ledger = s.ledger := by
  cases movement <;> cases finding <;> rfl

theorem insertStockMovement_ok {s s' : Store packages} {m : StockMovement}
    (h : insertStockMovement s m = .ok s') :
    s'.stockMovements = s.stockMovements++[m] ∧ s'.clientEvents = s.clientEvents ∧
      s'.packageEvents = s.packageEvents := by
  unfold insertStockMovement at h
  split at h
  · cases h
    exact ⟨rfl,rfl,rfl⟩
  · cases h

/-- The reason and the cell are there, and no problem with them is hard. -/
structure AdjustmentPasses (s : Store packages) (who : Caller) (body : RecordAdjustmentRequest)
    (reason : AdjustmentReason) (cell : StockCell) : Prop where
  reason_there : s.adjustmentReasons.find? (fun r => r.id = body.adjustmentReasonId) = some reason
  cell_there : s.stock.find? (fun c => c.id = body.stockId) = some cell
  clear : (check (proposedAdjustment s who body reason) (some cell) (findingRow s body)).1.any isHard = false

/-- What passes is posted in the direction of the difference from what is projected. -/
theorem recordAdjustment_eq {s : Store packages} {who : Caller} {body : RecordAdjustmentRequest}
    {reason : AdjustmentReason} {cell : StockCell} (h : AdjustmentPasses s who body reason cell)
    (minted : Minted) : ∃ warnings, recordAdjustment s who minted body =
      adjustCell s who minted body cell (findingRow s body) warnings
        (directionOf (body.countedQuantity-cell.quantity)) := by
  have hhard : (check (proposedAdjustment s who body reason) (some cell) (findingRow s body)).1.filter
      isHard = [] := List.filter_eq_nil_iff.mpr (List.any_eq_false.mp h.clear)
  obtain ⟨c,hc,-,hdir⟩ := check_passes h.clear
  obtain rfl := Option.some.inj hc
  rw [recordAdjustment,h.reason_there]
  dsimp only
  rw [h.cell_there,hhard,hdir]
  exact ⟨_,rfl⟩

/-- Accepted, it passed. -/
theorem recordAdjustment_passes {s : Store packages} {who : Caller} {minted : Minted}
    {body : RecordAdjustmentRequest} {out : RecordAdjustmentResponse × Store packages}
    (h : recordAdjustment s who minted body = .ok out) :
    ∃ reason cell, AdjustmentPasses s who body reason cell := by
  unfold recordAdjustment at h
  cases hreason : s.adjustmentReasons.find? fun r => r.id = body.adjustmentReasonId with
  | none =>
    rw [hreason] at h
    cases h
  | some reason =>
    rw [hreason] at h
    dsimp only at h
    split at h
    · rename_i cell hhard hcell
      refine ⟨reason,cell,hreason,hcell,?_⟩
      rw [hcell,List.map_eq_nil_iff,List.filter_eq_nil_iff] at hhard
      exact List.any_eq_false.mpr hhard
    · split at h <;> cases h

/-- What the ledger is after an accepted adjustment: with the difference posted, if there
is one and the act is new. -/
theorem adjustCell_ledger {s : Store packages} {who : Caller} {minted : Minted}
    {body : RecordAdjustmentRequest} {cell : StockCell} {finding : Option Finding} {warnings : List String}
    {direction : Option Direction} {out : RecordAdjustmentResponse × Store packages}
    (h : adjustCell s who minted body cell finding warnings direction = .ok out) :
    out.2.ledger = s.ledger++if body.clientEventId ∈ s.clientEvents then [] else
      (direction.map (adjustmentMovement who minted body cell.cell)).toList := by
  unfold adjustCell at h
  cases direction with
  | none =>
    simp only at h
    split at h
    · cases h
    · cases h
      simp [settle_ledger]
  | some d =>
    by_cases hclaimed : body.clientEventId ∈ s.clientEvents
    · simp only [claimAct,if_pos hclaimed] at h
      split at h
      · cases h
      · cases h
        simp [hclaimed]
    · simp only [claimAct,if_neg hclaimed] at h
      split at h
      · cases h
      · rename_i posted hinsert
        cases h
        rw [settle_ledger,Store.ledger,(insertStockMovement_ok hinsert).1,if_neg hclaimed,List.map_append]
        rfl

/-- What the movement adds to the cell. -/
theorem sign_adjustment {who : Caller} {minted : Minted} {body : RecordAdjustmentRequest}
    {cell : StockCell} {delta : ℤ} {direction : Direction} (h : directionOf delta = some direction) :
    (adjustmentMovement who minted body cell.cell direction).quantity*
      sign who.tenantId cell.cell (adjustmentMovement who minted body cell.cell direction) = delta := by
  have hheld : (cellSide cell.cell).isHeld = true := decide_eq_true cell.holder
  have hcell : (cellSide cell.cell).cell cell.cell.itemId = cell.cell := rfl
  have hnot : nowhere.isHeld = false := rfl
  unfold directionOf at h
  split at h
  · cases h
  · split at h
    · obtain rfl := Option.some.inj h
      simp [adjustmentMovement,sign,Side.within,hheld,hcell,hnot]
    · obtain rfl := Option.some.inj h
      simp [adjustmentMovement,sign,Side.within,hheld,hcell,hnot]

/-- The row of a folded cell that has none yet. -/
def newRow (tenant : ℕ) (mint : Cell → ℕ) (stock : List StockCell) (f : Folded) : Option StockCell :=
  if h : numNonnulls [f.cell.holderLocationId,f.cell.holderPackageId] = 1 then
    if stock.any fun c => c.tenantId = tenant ∧ c.cell = f.cell then none
    else some ⟨mint f.cell,tenant,f.cell,f.quantity,h⟩
  else none

/-- A row after the fold: what is folded in its cell, or none where nothing of its item
ever moved. -/
def foldedRow (tenant : ℕ) (ms : List Movement) (c : StockCell) : StockCell :=
  if c.tenantId ≠ tenant then c
  else match (folded tenant ms).find? fun f => f.cell = c.cell with
    | some f => {c with quantity := f.quantity}
    | none => if ms.any fun m => m.tenantId = tenant ∧ m.itemId = c.cell.itemId then c
      else {c with quantity := 0}

/-- The stock projection's rebuild, its quantities. -/
def projectionStockRebuild (tenant : ℕ) (mint : Cell → ℕ) (ms : List Movement) (stock : List StockCell) :
    List StockCell :=
  stock.map (foldedRow tenant ms)++(folded tenant ms).filterMap (newRow tenant mint stock)

/-- The fold has one row a cell. -/
theorem quantityAt_of_mem {tenant : ℕ} {ms : List Movement} {f : Folded} (hf : f ∈ folded tenant ms) :
    quantityAt (folded tenant ms) f.cell = f.quantity := by
  have hcells : ((folded tenant ms).map Folded.cell).Nodup := by
    rw [folded,List.map_map,GroupBy.groups,List.map_map]
    have hkey : (Folded.cell ∘ fun g : Cell × List Entry =>
        ⟨g.1,(g.2.map Entry.qty).sum,sumSome (g.2.map Entry.wt)⟩) ∘ (fun k => (k,(stockLedger tenant ms).filter
          fun r => r.cell = k)) = id := rfl
    rw [hkey,List.map_id]
    exact List.nodup_dedup _
  cases hfind : (folded tenant ms).find? fun g => g.cell = f.cell with
  | none => exact absurd (List.find?_eq_none.mp hfind f hf) (by simp)
  | some g =>
    have hcell : g.cell = f.cell := by simpa using List.find?_some hfind
    have hsame : g = f := List.inj_on_of_nodup_map hcells (List.mem_of_find?_eq_some hfind) hf hcell
    rw [quantityAt,hfind,hsame]
    rfl

/-- A row the rebuild leaves has what the fold has in its cell, where that has anything. -/
theorem projectionStockRebuild_current {tenant : ℕ} {mint : Cell → ℕ} {ms : List Movement}
    {stock : List StockCell} {c : StockCell} (hc : c ∈ projectionStockRebuild tenant mint ms stock)
    (htenant : c.tenantId = tenant) (hfolded : ∃ f ∈ folded tenant ms, f.cell = c.cell) :
    c.quantity = quantityAt (folded tenant ms) c.cell := by
  rcases List.mem_append.mp hc with hold | hnew
  · obtain ⟨row,-,rfl⟩ := List.mem_map.mp hold
    have hcell : (foldedRow tenant ms row).cell = row.cell := by
      unfold foldedRow
      repeat' split
      all_goals rfl
    have hown : row.tenantId = tenant := by
      by_contra hne
      rw [foldedRow,if_pos hne] at htenant
      exact hne htenant
    obtain ⟨f,hf,hfc⟩ := hfolded
    rw [hcell] at hfc ⊢
    cases hfind : (folded tenant ms).find? fun g => g.cell = row.cell with
    | none => exact absurd (List.find?_eq_none.mp hfind f hf) (by simp [hfc])
    | some g => simp [foldedRow,hown,hfind,quantityAt]
  · obtain ⟨f,hf,hrow⟩ := List.mem_filterMap.mp hnew
    unfold newRow at hrow
    split at hrow
    · split at hrow
      · cases hrow
      · obtain rfl := Option.some.inj hrow
        exact (quantityAt_of_mem hf).symm
    · cases hrow

/-- Ten received on a shelf, and folded. -/
def received : Store [] where
  clientEvents := [20]
  packageEvents := []
  stockMovements := [⟨20,⟨1,7,5,10,none,0,nowhere,bin,none⟩,none⟩]
  package := fun _ => ⟨7,none,false⟩
  table := fun _ => Packages.Row.empty
  stock := projectionStockRebuild 7 (fun _ => 40) [⟨1,7,5,10,none,0,nowhere,bin,none⟩] []
  adjustmentReasons := [⟨50,"world_event","found"⟩]
  discrepancies := []
  stockCounts := []
  locations := [⟨11,7⟩]
  lines := []
  event_act := by decide
  movement_act := by decide

/-- A count of twelve there. -/
def twelve (act : ℕ) : RecordAdjustmentRequest := ⟨40,12,50,none,none,act,1⟩

end Acts
end Spork
