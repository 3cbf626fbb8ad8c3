import Spork.Acts.Store
import Spork.Lib.Runs

/-! Claims of stock for the lines of orders (`allocating.rs`, `record_allocation`): any
number of requests of one workspace, each a transaction taken apart at its statements. -/
namespace Spork
namespace Allocating

open Acts (ApiError)

inductive ClaimState
  | allocated
  | picking
  | picked
  | packed
  | fulfilled
  | short
  | released
  deriving DecidableEq, Repr

/-- States that contribute to `covered_quantity`. -/
def covering : List ClaimState := [.allocated,.picking,.picked,.packed,.fulfilled]

structure StockCell where
  id : ℕ
  tenantId : ℕ
  itemId : ℕ
  holderLocationId : Option ℕ
  holderPackageId : Option ℕ
  quantity : ℤ
  availableQuantity : ℤ
  deriving DecidableEq, Repr

structure FulfilmentLine where
  id : ℕ
  tenantId : ℕ
  itemId : ℕ
  quantity : ℤ
  coveredQuantity : ℤ
  fulfilmentCancelled : Bool
  deriving DecidableEq, Repr

structure ProposedAllocation where
  tenantId : ℕ
  fulfilmentLineId : ℕ
  stockId : ℕ
  quantity : ℤ
  firm : Bool
  boundAt : ℤ
  deriving DecidableEq, Repr

inductive Problem
  | nothingToAllocate
  | lineNotFound
  | cellNotFound
  | differentTenant
  | lineCancelled
  | itemMismatch (line cell : ℕ)
  | overAvailable (available proposed : ℤ)
  | overCovers (lineQuantity alreadyCovered proposed : ℤ)
  | packageHeldCell
  | cellHasNoHolder
  deriving DecidableEq, Repr

def Problem.text : Problem → String
  | .nothingToAllocate => "an allocation of no units is not an allocation"
  | .lineNotFound => "the fulfilment line was not found"
  | .cellNotFound => "the stock cell was not found"
  | .differentTenant => "the line or cell belongs to another tenant"
  | .lineCancelled => "the fulfilment is cancelled; nothing can be allocated for it"
  | .itemMismatch line cell => "the line commits item "++toString line++" but the cell holds "++toString cell++
      "; an allocation is an intention and must name matching item sides"
  | .overAvailable available proposed => "claiming "++toString proposed++" from a cell with "++toString available++
      " available; the claim is still recorded and the short is a finding after rebuild"
  | .overCovers lineQuantity alreadyCovered proposed => "claiming "++toString proposed++
      " when the line is already covered for "++toString alreadyCovered++" of "++toString lineQuantity++
      "; over-cover is refused (J56)"
  | .packageHeldCell => "the cell is held in a package; this path only claims location-held stock"
  | .cellHasNoHolder => "the stock cell has no holder"

def isHard : Problem → Bool
  | .overAvailable _ _ => false
  | _ => true

/-- Check a directed allocation against the line and cell the write path loaded. -/
def check (proposed : ProposedAllocation) (line : Option FulfilmentLine) (cell : Option StockCell) : List Problem :=
  (if proposed.quantity ≤ 0 then [.nothingToAllocate] else [])++
  match line with
  | none => [.lineNotFound]
  | some line =>
    match cell with
    | none => [.cellNotFound]
    | some cell =>
      (if line.tenantId ≠ proposed.tenantId ∨ cell.tenantId ≠ proposed.tenantId then [.differentTenant] else [])++
      (if line.fulfilmentCancelled then [.lineCancelled] else [])++
      (if line.itemId ≠ cell.itemId then [.itemMismatch line.itemId cell.itemId] else [])++
      (if cell.holderPackageId.isSome then [.packageHeldCell]
        else if cell.holderLocationId.isNone then [.cellHasNoHolder] else [])++
      (if proposed.quantity > cell.availableQuantity then
        [.overAvailable cell.availableQuantity proposed.quantity] else [])++
      (if proposed.quantity > line.quantity-line.coveredQuantity then
        [.overCovers line.quantity line.coveredQuantity proposed.quantity] else [])

/-- What a check without a hard problem has seen. -/
theorem check_clear {proposed : ProposedAllocation} {line : Option FulfilmentLine} {cell : Option StockCell}
    (h : (check proposed line cell).filter isHard = []) :
    ∃ l, line = some l ∧ proposed.quantity ≤ l.quantity-l.coveredQuantity := by
  rw [List.filter_eq_nil_iff] at h
  cases line with
  | none => exact absurd rfl (h .lineNotFound (by simp [check]))
  | some l =>
    cases cell with
    | none => exact absurd rfl (h .cellNotFound (by simp [check]))
    | some c =>
      refine ⟨l,rfl,?_⟩
      by_contra hover
      exact h (.overCovers l.quantity l.coveredQuantity proposed.quantity) (by simp [check,not_le.mp hover]) rfl

/-! ## Rows -/

/-- A row of `stock_allocation`. -/
structure Allocation where
  id : ℕ
  stockId : Option ℕ
  fulfilmentLineId : Option ℕ
  quantity : ℤ
  state : ClaimState
  firm : Bool
  boundAt : ℤ
  deriving DecidableEq, Repr

/-- A row of `fulfilment_line`, with its order's state and its order line's item. -/
structure LineRow where
  tenantId : ℕ
  itemId : ℕ
  quantity : ℤ
  cancelled : Bool
  deriving DecidableEq, Repr

structure RecordAllocationRequest where
  id : Option ℕ
  stockId : ℕ
  fulfilmentLineId : ℕ
  quantity : ℤ
  firm : Option Bool
  boundAt : Option ℤ
  deriving DecidableEq, Repr

structure RecordAllocationResponse where
  allocationId : ℕ
  replayed : Bool
  warnings : List String
  deriving DecidableEq, Repr

/-- How far a request's transaction has come. -/
inductive Phase
  | begun
  | lineRead (line : Option FulfilmentLine)
  | cellRead (line : Option FulfilmentLine) (cell : Option StockCell)
  /-- No replay, and nothing hard found. -/
  | checked (line : FulfilmentLine) (warnings : List String)
  /-- Its row is in, and nobody else sees it yet. -/
  | inserted (line : FulfilmentLine) (claim : Allocation) (warnings : List String)
  | answered (reply : Except ApiError RecordAllocationResponse)
  deriving DecidableEq

/-- A request, with when it came. -/
structure Request where
  body : RecordAllocationRequest
  now : ℤ
  phase : Phase
  deriving DecidableEq

/-- What is committed of a workspace, and its requests under way. -/
structure Database where
  tenantId : ℕ
  allocations : List Allocation
  /-- The ids of rows that are in and not committed. -/
  uncommitted : List ℕ
  /-- The ids other workspaces' claims have. -/
  elsewhere : List ℕ
  lines : ℕ → Option LineRow
  cells : ℕ → Option StockCell
  requests : ℕ → Option Request

namespace Database

variable (s : Database)

/-- What a line is covered for. -/
def covered (line : ℕ) : ℤ :=
  ((s.allocations.filter fun a => a.fulfilmentLineId = some line ∧ a.state ∈ covering).map Allocation.quantity).sum

/-- The claims on each line come to no more than it commits. -/
def Within : Prop := ∀ line row, s.lines line = some row → s.covered line ≤ row.quantity

def setPhase (r : ℕ) (q : Request) (phase : Phase) : Database :=
  {s with requests := Function.update s.requests r (some {q with phase := phase})}

end Database

/-! ## A request's statements -/

def readLine (s : Database) (body : RecordAllocationRequest) : Option FulfilmentLine :=
  (s.lines body.fulfilmentLineId).map fun l =>
    ⟨body.fulfilmentLineId,l.tenantId,l.itemId,l.quantity,s.covered body.fulfilmentLineId,l.cancelled⟩

def priorAllocation (s : Database) (id : ℕ) : Option Allocation := s.allocations.find? fun a => a.id = id

def debugId : Option ℕ → String
  | none => "None"
  | some id => "Some("++toString id++")"

def differs (prior : Allocation) (stockId fulfilmentLineId : ℕ) (quantity : ℤ) : List String :=
  (if prior.stockId ≠ some stockId then
    ["stock_id "++debugId prior.stockId++" (this request has "++toString stockId++")"] else [])++
  (if prior.fulfilmentLineId ≠ some fulfilmentLineId then
    ["fulfilment_line_id "++debugId prior.fulfilmentLineId++" (this request has "++toString fulfilmentLineId++")"] else [])++
  (if prior.quantity ≠ quantity then
    ["quantity "++toString prior.quantity++" (this request has "++toString quantity++")"] else [])

def rejectAllocationMismatch (prior : Allocation) (stockId fulfilmentLineId : ℕ) (quantity : ℤ) : Except ApiError Unit :=
  let differs := differs prior stockId fulfilmentLineId quantity
  if differs = [] then .ok ()
  else .error (.rejected ("allocation "++toString prior.id++" already exists with "++String.intercalate "; " differs))

def replayWarning : String := "replay of an existing allocation id; no second claim was written"

/-- The same, as the insert's own branch spells it. -/
def conflictWarning : String := "replay of an existing allocation id; no second claim was                                  written"

def notOurs : String := "that allocation id is already in use and is not this                                      tenant's"

def proposed (s : Database) (q : Request) : ProposedAllocation :=
  ⟨s.tenantId,q.body.fulfilmentLineId,q.body.stockId,q.body.quantity,q.body.firm.getD false,q.body.boundAt.getD q.now⟩

/-- The look for a prior claim, and the check. -/
def settle (s : Database) (q : Request) (line : Option FulfilmentLine) (cell : Option StockCell) : Phase :=
  match q.body.id.bind (priorAllocation s) with
  | some prior =>
    match rejectAllocationMismatch prior q.body.stockId q.body.fulfilmentLineId q.body.quantity, line with
    | .error e, _ => .answered (.error e)
    | .ok (), none => .answered (.error .notFound)
    | .ok (), some _ => .answered (.ok ⟨prior.id,true,[replayWarning]⟩)
  | none =>
    let problems := check (proposed s q) line cell
    match problems.filter isHard, line with
    | [], some line => .checked line ((problems.filter fun p => !isHard p).map Problem.text)
    | hard, _ => .answered (.error (.rejected (String.intercalate "; " (hard.map Problem.text))))

def claimOf (q : Request) (id : ℕ) : Allocation :=
  ⟨id,some q.body.stockId,some q.body.fulfilmentLineId,q.body.quantity,.allocated,q.body.firm.getD false,
    q.body.boundAt.getD q.now⟩

/-- The insert, which does nothing where there is such an id; the prior claim is then
looked for again. -/
def insert (s : Database) (r : ℕ) (q : Request) (line : FulfilmentLine) (warnings : List String) (id : ℕ) : Database :=
  if id ∈ s.elsewhere then s.setPhase r q (.answered (.error (.rejected notOurs)))
  else match priorAllocation s id with
    | some prior =>
      match rejectAllocationMismatch prior q.body.stockId q.body.fulfilmentLineId q.body.quantity with
      | .error e => s.setPhase r q (.answered (.error e))
      | .ok () => s.setPhase r q (.answered (.ok ⟨prior.id,true,warnings++[conflictWarning]⟩))
    | none => {s.setPhase r q (.inserted line (claimOf q id) warnings) with uncommitted := id :: s.uncommitted}

/-- The commit, with which others see the row. -/
def commit (s : Database) (r : ℕ) (q : Request) (claim : Allocation) (warnings : List String) : Database :=
  {s.setPhase r q (.answered (.ok ⟨claim.id,false,warnings⟩)) with
    allocations := s.allocations++[claim], uncommitted := s.uncommitted.erase claim.id}

inductive Event
  | post (r : ℕ) (body : RecordAllocationRequest) (now : ℤ)
  /-- A request's next statement, with the id the table would give its row. -/
  | next (r minted : ℕ)
  /-- A request ends without an answer. -/
  | lost (r : ℕ)
  deriving DecidableEq, Repr

/-- A request's next statement. An insert waits while another's row of the same id is in
and not committed, and the table's own ids are new. -/
def advance (s : Database) (r minted : ℕ) (q : Request) : Option Database :=
  match q.phase with
  | .begun => some (s.setPhase r q (.lineRead (readLine s q.body)))
  | .lineRead line => some (s.setPhase r q (.cellRead line (s.cells q.body.stockId)))
  | .cellRead line cell => some (s.setPhase r q (settle s q line cell))
  | .checked line warnings =>
    let id := q.body.id.getD minted
    if id ∈ s.uncommitted ∨ (q.body.id = none ∧ (id ∈ s.elsewhere ∨ (priorAllocation s id).isSome)) then none
    else some (insert s r q line warnings id)
  | .inserted _ claim warnings => some (commit s r q claim warnings)
  | .answered _ => none

def step (s : Database) : Event → Option Database
  | .post r body now =>
    if s.requests r = none then some {s with requests := Function.update s.requests r (some ⟨body,now,.begun⟩)} else none
  | .next r minted => (s.requests r).bind (advance s r minted)
  | .lost r =>
    (s.requests r).map fun q =>
      match q.phase with
      | .inserted _ claim _ => {s.setPhase r q (.answered (.error .database)) with uncommitted := s.uncommitted.erase claim.id}
      | _ => s.setPhase r q (.answered (.error .database))

/-! ## What a request under way knows -/

/-- A line is as it was read, but for what covers it. -/
def Read (s : Database) (body : RecordAllocationRequest) (line : FulfilmentLine) : Prop :=
  line.id = body.fulfilmentLineId ∧ ∃ row, s.lines line.id = some row ∧ row.quantity = line.quantity

/-- A row is a claim on a line as it was read, of no more than that left uncovered. -/
structure ClaimsOn (line : FulfilmentLine) (claim : Allocation) : Prop where
  line_eq : claim.fulfilmentLineId = some line.id
  state_eq : claim.state = .allocated
  quantity_le : claim.quantity ≤ line.quantity-line.coveredQuantity

/-- A request knows its line, once that is read, what it asks for fits there as read once
that is checked, and a row that is in is its claim. -/
def Knows (s : Database) (body : RecordAllocationRequest) : Phase → Prop
  | .lineRead line => ∀ l ∈ line, Read s body l
  | .cellRead line _ => ∀ l ∈ line, Read s body l
  | .checked line _ => Read s body line ∧ body.quantity ≤ line.quantity-line.coveredQuantity
  | .inserted line claim _ => Read s body line ∧ ClaimsOn line claim
  | _ => True

def Informed (s : Database) : Prop := ∀ r q, s.requests r = some q → Knows s q.body q.phase

/-- The row about to be committed, with its line as it was read. -/
def landing (s : Database) : Event → Option (FulfilmentLine × Allocation)
  | .next r _ => (s.requests r).bind fun q =>
    match q.phase with
    | .inserted line claim _ => some (line,claim)
    | _ => none
  | _ => none

/-- Where a row is committed, no more covers its line than when its request read that:
nothing has been committed to the line in between. -/
def Undisturbed (s : Database) (e : Event) : Prop := ∀ p ∈ landing s e, s.covered p.1.id ≤ p.1.coveredQuantity

instance (s : Database) (e : Event) : Decidable (Undisturbed s e) :=
  inferInstanceAs (Decidable (∀ p ∈ landing s e, _))

variable {s s' : Database} {r : ℕ} {q : Request} {phase : Phase} {e : Event}

theorem Knows.of_lines (hlines : s'.lines = s.lines) {body : RecordAllocationRequest} (h : Knows s body phase) :
    Knows s' body phase := by
  have hread : Read s' body = Read s body := by
    funext line
    rw [Read,Read,hlines]
  cases phase <;> first | trivial | simpa only [Knows,hread] using h

/-- A request comes further, with what it then knows. -/
theorem Informed.comes (h : Informed s) (hlines : s'.lines = s.lines)
    (hrequests : s'.requests = Function.update s.requests r (some {q with phase := phase}))
    (hknows : Knows s q.body phase) : Informed s' := by
  intro r' q' hq'
  rw [hrequests] at hq'
  by_cases hr : r' = r
  · rw [hr,Function.update_self] at hq'
    cases hq'
    exact hknows.of_lines hlines
  · rw [Function.update_of_ne hr] at hq'
    exact (h r' q' hq').of_lines hlines

theorem knows_readLine (s : Database) (body : RecordAllocationRequest) : Knows s body (.lineRead (readLine s body)) := by
  intro l hl
  obtain ⟨row,hrow,rfl⟩ := Option.map_eq_some_iff.mp hl
  exact ⟨rfl,row,hrow,rfl⟩

theorem knows_settle {line : Option FulfilmentLine} (cell : Option StockCell) (h : ∀ l ∈ line, Read s q.body l) :
    Knows s q.body (settle s q line cell) := by
  unfold settle
  split
  · split <;> trivial
  · dsimp only
    split
    · rename_i hclear
      obtain ⟨l,hl,hquantity⟩ := check_clear hclear
      cases hl
      exact ⟨h _ rfl,hquantity⟩
    · trivial

/-- What an insert does is known of, and nothing is committed by it. -/
theorem insert_keeps (hs : Informed s) {line : FulfilmentLine} {warnings : List String} {id : ℕ}
    (hread : Read s q.body line) (hquantity : q.body.quantity ≤ line.quantity-line.coveredQuantity) :
    (insert s r q line warnings id).lines = s.lines ∧
      (insert s r q line warnings id).allocations = s.allocations ∧ Informed (insert s r q line warnings id) := by
  unfold insert
  split
  · exact ⟨rfl,rfl,hs.comes rfl rfl trivial⟩
  · split
    · split
      · exact ⟨rfl,rfl,hs.comes rfl rfl trivial⟩
      · exact ⟨rfl,rfl,hs.comes rfl rfl trivial⟩
    · exact ⟨rfl,rfl,hs.comes rfl rfl ⟨hread,by rw [claimOf,hread.1],rfl,hquantity⟩⟩

/-- All an event can do: commit the row of a request that read its line, or nothing. -/
theorem step_turn (hs : Informed s) (h : step s e = some s') : s'.lines = s.lines ∧ Informed s' ∧
    ((landing s e = none ∧ s'.allocations = s.allocations) ∨ ∃ line claim body, landing s e = some (line,claim) ∧
      Read s body line ∧ ClaimsOn line claim ∧ s'.allocations = s.allocations++[claim]) := by
  cases e with
  | post r body now =>
    obtain ⟨-,heq⟩ := Option.ite_none_right_eq_some.mp h
    cases heq
    exact ⟨rfl,hs.comes (q := ⟨body,now,.begun⟩) rfl rfl trivial,Or.inl ⟨rfl,rfl⟩⟩
  | lost r =>
    obtain ⟨q,hq,heq⟩ := Option.map_eq_some_iff.mp h
    subst heq
    refine ⟨?_,?_,Or.inl ⟨rfl,?_⟩⟩
    · split <;> rfl
    · split <;> exact hs.comes rfl rfl trivial
    · split <;> rfl
  | next r minted =>
    obtain ⟨q,hq,hnext⟩ := Option.bind_eq_some_iff.mp h
    have hknows := hs r q hq
    unfold advance at hnext
    have hland : landing s (.next r minted) = match q.phase with
        | .inserted line claim _ => some (line,claim)
        | _ => none := by rw [landing,hq,Option.bind_some]
    split at hnext
    · rename_i hphase
      cases hnext
      exact ⟨rfl,hs.comes rfl rfl (knows_readLine s q.body),Or.inl ⟨by rw [hland,hphase],rfl⟩⟩
    · rename_i line hphase
      cases hnext
      rw [hphase] at hknows
      exact ⟨rfl,hs.comes rfl rfl hknows,Or.inl ⟨by rw [hland,hphase],rfl⟩⟩
    · rename_i line cell hphase
      cases hnext
      rw [hphase] at hknows
      exact ⟨rfl,hs.comes rfl rfl (knows_settle cell hknows),Or.inl ⟨by rw [hland,hphase],rfl⟩⟩
    · rename_i line warnings hphase
      rw [hphase] at hknows
      obtain ⟨-,heq⟩ := Option.ite_none_left_eq_some.mp hnext
      cases heq
      obtain ⟨hlines,hallocations,hinformed⟩ := insert_keeps hs hknows.1 hknows.2
      exact ⟨hlines,hinformed,Or.inl ⟨by rw [hland,hphase],hallocations⟩⟩
    · rename_i line claim warnings hphase
      cases hnext
      rw [hphase] at hknows
      obtain ⟨hread,hclaims⟩ := hknows
      exact ⟨rfl,hs.comes rfl rfl trivial,Or.inr ⟨line,claim,q.body,by rw [hland,hphase],hread,hclaims,rfl⟩⟩
    · cases hnext

/-! ## What covers a line -/

theorem covered_append {claim : Allocation} (h : s'.allocations = s.allocations++[claim]) (hstate : claim.state = .allocated)
    (line : ℕ) : s'.covered line = s.covered line+if claim.fulfilmentLineId = some line then claim.quantity else 0 := by
  have hcovers : claim.state ∈ covering := hstate ▸ List.mem_cons_self
  rw [Database.covered,h,List.filter_append,List.map_append,List.sum_append,Database.covered]
  congr 1
  by_cases hline : claim.fulfilmentLineId = some line <;> simp [hline,hcovers]

/-- A claim fits on its line where nothing has been committed to that since it was read. -/
theorem fits_of_undisturbed {line : FulfilmentLine} {claim : Allocation} (hland : landing s e = some (line,claim))
    (hclaims : ClaimsOn line claim) (hundisturbed : Undisturbed s e) :
    s.covered line.id+claim.quantity ≤ line.quantity := by
  have hsame : s.covered line.id ≤ line.coveredQuantity := hundisturbed (line,claim) hland
  have hasked := hclaims.quantity_le
  linarith

/-- Every request knows what it has read, and every line is within what it commits. -/
structure Sound (s : Database) : Prop where
  informed : Informed s
  within : s.Within

/-- An event that commits no row over another's keeps every line within what it commits. -/
theorem Sound.step (hs : Sound s) (hundisturbed : Undisturbed s e) (h : step s e = some s') : Sound s' := by
  obtain ⟨hlines,hinformed,⟨-,hsame⟩ | ⟨line,claim,body,hland,⟨-,row,hrow,hquantity⟩,hclaims,hmore⟩⟩ :=
    step_turn hs.informed h
  · refine ⟨hinformed,fun line row hrow => ?_⟩
    rw [Database.covered,hsame]
    exact hs.within line row (hlines ▸ hrow)
  · refine ⟨hinformed,fun line' row' hrow' => ?_⟩
    rw [hlines] at hrow'
    rw [covered_append hmore hclaims.state_eq]
    split
    · rename_i hsame
      obtain rfl : line.id = line' := Option.some.inj (hclaims.line_eq.symm.trans hsame)
      obtain rfl : row = row' := Option.some.inj (hrow.symm.trans hrow')
      rw [hquantity]
      exact fits_of_undisturbed hland hclaims hundisturbed
    · rw [add_zero]
      exact hs.within line' row' hrow'

/-- From lines within what they commit, and no request under way, every state of a run has
them so where nothing is committed to a line between a request's reading it and its own
commit. -/
theorem covered_within {es : List Event} (hwithin : s.Within) (hidle : ∀ r, s.requests r = none)
    (hrun : Runs.run step s es = some s') (hundisturbed : Runs.Meets step Undisturbed s es) :
    ∀ fs gs t, es = fs++gs → Runs.run step s fs = some t → t.Within := by
  rintro fs gs t rfl hfs
  have hinformed : Informed s := by
    intro r q hq
    rw [hidle r] at hq
    cases hq
  have hstart : Sound s := ⟨hinformed,hwithin⟩
  exact (Runs.run_keeps hstart (fun t e t' ht hok hstep => ht.step hok hstep) (hundisturbed.append hfs).1 hfs).within

/-! ## A line of five -/

def lineOfFive : Database where
  tenantId := 7
  allocations := []
  uncommitted := []
  elsewhere := []
  lines := fun line => if line = 1 then some ⟨7,100,5,false⟩ else none
  cells := fun cell => if cell = 2 then some ⟨2,7,100,some 3,none,50,50⟩ else none
  requests := fun _ => none

/-- Three of it, for each of two requests. -/
def threeOfIt (id : ℕ) : RecordAllocationRequest := ⟨some id,2,1,3,none,none⟩

/-- One request's statements after another's. -/
def inTurn : List Event :=
  .post 0 (threeOfIt 10) 0 :: List.replicate 5 (.next 0 0)++.post 1 (threeOfIt 11) 0 :: List.replicate 3 (.next 1 0)

/-- Both read the line before either's row is committed. -/
def together : List Event :=
  [.post 0 (threeOfIt 10) 0,.post 1 (threeOfIt 11) 0,.next 0 0,.next 1 0,.next 0 0,.next 1 0,.next 0 0,.next 1 0,
    .next 0 0,.next 1 0,.next 0 0,.next 1 0]

theorem within_lineOfFive : lineOfFive.Within := by
  intro line row hrow
  obtain ⟨-,heq⟩ := Option.ite_none_right_eq_some.mp hrow
  cases heq
  exact le_of_eq_of_le (b := 0) rfl (by decide)

theorem covered_within_inTurn : (Runs.run step lineOfFive inTurn).isSome = true ∧
    ∀ fs gs t, inTurn = fs++gs → Runs.run step lineOfFive fs = some t → t.Within := by
  obtain ⟨s',hrun,-⟩ := Runs.run_passes (fun _ => true)
    (show (Runs.run step lineOfFive inTurn).any _ = true by decide +kernel)
  refine ⟨by rw [hrun]; rfl,?_⟩
  exact covered_within within_lineOfFive (fun _ => rfl) hrun (by decide +kernel)

/-- Two claims of three are both let through. -/
theorem together_over : ∃ s', Runs.run step lineOfFive together = some s' ∧ lineOfFive.Within ∧ s'.covered 1 = 6 ∧
    ¬s'.Within := by
  obtain ⟨s',hrun,hsix⟩ := Runs.run_passes (fun s : Database => decide (s.covered 1 = 6 ∧ s.lines 1 = some ⟨7,100,5,false⟩))
    (show (Runs.run step lineOfFive together).any _ = true by decide +kernel)
  obtain ⟨hcovered,hline⟩ := of_decide_eq_true hsix
  refine ⟨s',hrun,within_lineOfFive,hcovered,fun hwithin => ?_⟩
  have hle := hwithin 1 _ hline
  rw [hcovered] at hle
  exact absurd hle (by decide)

end Allocating
end Spork
