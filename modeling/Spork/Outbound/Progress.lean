import Spork.Outbound.Content
import Spork.Packages.Rebuilt
import Spork.Receiving.Plan

/-! A line's progress, live from the ledger (`line_progress_ledger`) and as the fold will
have it (`projection_fulfilment_rebuild`): they differ in what a package's status is read
from. -/
namespace Spork
namespace Outbound

open Ledger GroupBy Newest
open Acts (StockMovement)
open Packages (Kind Table projectionPackageRebuild)
open Receiving (AllocationState)

inductive LocationKind
  | pickFace | bulk | overflow | staging | dock
  deriving DecidableEq, Repr

/-- A row of `stock_allocation`. -/
structure Allocation where
  tenantId : ℕ
  fulfilmentLineId : Option ℕ
  quantity : ℤ
  state : AllocationState
  deriving DecidableEq, Repr

/-- A row of `external_pick`. -/
structure ExternalPick where
  id : ℕ
  tenantId : ℕ
  fulfilmentLineId : ℕ
  externalLine : String
  quantity : ℤ
  observedAt : ℤ
  recordedAt : ℤ
  deriving DecidableEq, Repr

/-- What a tenant's folds of its lines read, but for the packages' statuses. -/
structure Facts where
  tenant : ℕ
  moved : LineLedger
  own : ∀ m ∈ moved.movements, m.movement.tenantId = tenant
  locationKind : ℕ → Option LocationKind
  allocations : List Allocation
  allocations_own : ∀ a ∈ allocations, a.tenantId = tenant
  externalPicks : List ExternalPick
  /-- The tenant's packages. -/
  packages : List ℕ
  /-- The tenant's lines. -/
  lines : List ℕ

structure Progress where
  coveredQuantity : ℤ
  pickedQuantity : ℤ
  packedQuantity : ℤ
  despatchedQuantity : ℤ
  uncoveredQuantity : ℤ
  deriving DecidableEq, Repr

def covering : List AllocationState := [.allocated,.picking,.picked,.packed,.fulfilled]

def storage : List LocationKind := [.pickFace,.bulk,.overflow]

/-- Whether a status is one of a packed package. -/
def packedStatus (status : Option Kind) : Bool := decide (status = some .sealed ∨ status = some .despatched)

variable (f : Facts)

/-- The kind of the location a movement came from. -/
def fromKind (m : StockMovement) : Option LocationKind := m.movement.fromSide.locationId.bind f.locationKind

/-! ## Live -/

/-- A root, and how it went: what its corrections are put together by. -/
structure Shape where
  fulfilmentLineId : Option ℕ
  fromLocationId : Option ℕ
  fromKind : Option LocationKind
  toLocationId : Option ℕ
  toPackageId : Option ℕ
  deriving DecidableEq, Repr

/-- A row of the live query's walk. -/
structure LiveRow where
  rootId : ℕ
  movementId : ℕ
  quantity : ℤ
  depth : ℕ
  shape : Shape
  deriving DecidableEq, Repr

def shapeOf (m : StockMovement) : Shape :=
  ⟨m.fulfilmentLineId,m.movement.fromSide.locationId,fromKind f m,m.movement.toSide.locationId,m.movement.toSide.packageId⟩

def liveRoot (m : StockMovement) : LiveRow := ⟨m.movement.id,m.movement.id,m.movement.quantity,0,shapeOf f m⟩

def roots (line : ℕ) : List StockMovement :=
  f.moved.movements.filter fun m => m.fulfilmentLineId = some line ∧ m.movement.reversesMovementId = none

/-- The corrections to a row's movement. The root's shape is carried down. -/
def liveNext (c : LiveRow) : List LiveRow :=
  (f.moved.ledger.filter fun r => r.reversesMovementId = some c.movementId).map fun r =>
    {c with movementId := r.id, quantity := r.quantity, depth := c.depth+1}

/-- All rows: no turn past as many as there are movements adds one (`live_ends`). -/
def liveChain (line : ℕ) : List LiveRow :=
  Walk.rows (liveNext f) (f.moved.ledger.length+1) ((roots f line).map (liveRoot f))

def liveSigned (c : LiveRow) : ℤ := if c.depth%2 = 0 then c.quantity else -c.quantity

/-- `effective`: what is left, shape by shape. -/
def effectiveShapes (line : ℕ) : List (Shape × ℤ) :=
  (groups LiveRow.shape (liveChain f line)).map fun g => (g.1,(g.2.map liveSigned).sum)

/-- What packages that pass a test hold of a line. -/
def contentWhere (line : ℕ) (test : ℕ → Bool) : ℤ :=
  (((packageLineContent f.moved.movements).filter fun c => c.1.fulfilmentLineId = line ∧ c.1.packageId ∈ f.packages ∧
    test c.1.packageId).map Prod.snd).sum

def lineProgressLedger (table : Table) (line : ℕ) (commitmentQuantity : ℤ) : Progress :=
  let covered := ((f.allocations.filter fun a => a.fulfilmentLineId = some line ∧ a.state ∈ covering).map
    Allocation.quantity).sum
  let shapes := effectiveShapes f line
  { coveredQuantity := covered
    pickedQuantity := ((shapes.filter fun s => s.1.fromKind.any (· ∈ storage)).map Prod.snd).sum
    packedQuantity := contentWhere f line fun p => packedStatus (table p).status
    despatchedQuantity := ((shapes.filter fun s => s.1.toLocationId = none ∧ s.1.toPackageId = none).map Prod.snd).sum
    uncoveredQuantity := commitmentQuantity-covered }

/-! ## The fold -/

/-- A line's projected columns. -/
structure LineRow where
  coveredQuantity : ℤ
  pickedQuantity : ℤ
  packedQuantity : ℤ
  despatchedQuantity : ℤ
  externalPickedQuantity : ℤ
  deriving DecidableEq, Repr

/-- A sum for each line, nought for one with no rows. -/
def sumByLine {ρ : Type} (rows : List ρ) (lineOf : ρ → Option ℕ) (w : ρ → ℤ) (line : ℕ) : ℤ :=
  ((rowsOf (groups lineOf (rows.filter fun r => (lineOf r).isSome)) (some line)).map w).sum

/-- `ledger`: the effective movements of each line that pass a test of their shape. -/
def ledgerSum (test : StockMovement → Bool) (line : ℕ) : ℤ :=
  sumByLine ((effectives f.moved.movements).filter fun x => x.1.movement.tenantId = f.tenant)
    (fun x => x.1.fulfilmentLineId) (fun x => if test x.1 then x.2 else 0) line

def ExternalPick.key (e : ExternalPick) : ℤ ×ₗ ℤ ×ₗ ℕ := toLex (e.observedAt,toLex (e.recordedAt,e.id))

/-- `reported`: each external line's newest report. -/
def reported (line : ℕ) : ℤ :=
  sumByLine ((groups (fun e : ExternalPick => (e.fulfilmentLineId,e.externalLine))
    (f.externalPicks.filter fun e => e.tenantId = f.tenant)).filterMap fun g => newest ExternalPick.key g.2)
      (fun e => some e.fulfilmentLineId) ExternalPick.quantity line

/-- A line's columns, folded. -/
def foldedRow (table : Table) (line : ℕ) : LineRow where
  coveredQuantity := sumByLine (f.allocations.filter fun a => a.tenantId = f.tenant ∧ a.state ∈ covering)
    Allocation.fulfilmentLineId Allocation.quantity line
  pickedQuantity := ledgerSum f (fun m => (fromKind f m).any (· ∈ storage)) line
  packedQuantity := sumByLine ((packageLineContent f.moved.movements).filter fun c => c.1.tenantId = f.tenant ∧
    c.1.packageId ∈ f.packages ∧ packedStatus (table c.1.packageId).status)
      (fun c => some c.1.fulfilmentLineId) Prod.snd line
  despatchedQuantity := ledgerSum f (fun m =>
    m.movement.toSide.locationId.isNone && m.movement.toSide.packageId.isNone) line
  externalPickedQuantity := reported f line

/-- The rebuild: the columns it leaves, and how many lines it changes. -/
def projectionFulfilmentRebuild (table : Table) (columns : ℕ → LineRow) : (ℕ → LineRow) × ℕ :=
  (fun line => if line ∈ f.lines then foldedRow f table line else columns line,
    (f.lines.filter fun line => foldedRow f table line ≠ columns line).length)

/-! ## The walks agree -/

/-- A row of the view's query, as the live one has it. -/
def toLive (shape : Shape) (c : ChainRow) : LiveRow := ⟨c.rootId,c.movementId,c.quantity,c.depth,shape⟩

variable {f} {line : ℕ} {m : StockMovement}

theorem mem_roots (hm : m ∈ roots f line) :
    m ∈ f.moved.movements ∧ m.fulfilmentLineId = some line ∧ m.movement ∈ f.moved.book.movements.filter isRoot := by
  obtain ⟨hmem,hroot⟩ := List.mem_filter.mp hm
  have hboth : m.fulfilmentLineId = some line ∧ m.movement.reversesMovementId = none := by simpa using hroot
  refine ⟨hmem,hboth.1,List.mem_filter.mpr ⟨List.mem_map_of_mem hmem,?_⟩⟩
  rw [isRoot,hboth.2]
  rfl

/-- Read on from a root, both have the same rows. -/
theorem level_live (hm : m ∈ roots f line) (n : ℕ) : Walk.level (liveNext f) n [liveRoot f m] =
    (Walk.level (chainNext f.moved.ledger) n [rootRow m.movement]).map (toLive (shapeOf f m)) := by
  have hroot := (mem_roots hm).2.2
  refine Walk.level_map (fromRoot_next hroot) (toLive (shapeOf f m)) (fun k c hc => ?_)
    (fun c hc => List.mem_singleton.mp hc ▸ fromRoot_start) n
  rw [chainNext,hc.fresh,if_neg Bool.false_ne_true,List.map_map]
  rfl

/-- The live query ends. -/
theorem live_ends (line : ℕ) :
    Walk.level (liveNext f) (f.moved.ledger.length+1) ((roots f line).map (liveRoot f)) = [] := by
  rw [Walk.level_each,List.flatMap_map,List.flatMap_eq_nil_iff]
  intro m hm
  have hnone := working_ends f.moved.book.movements
  rw [working_eq_level,Walk.level_each,List.flatMap_map,List.flatMap_eq_nil_iff] at hnone
  have hlevel := hnone m.movement (mem_roots hm).2.2
  rw [level_live hm,show Walk.level (chainNext f.moved.ledger) (f.moved.ledger.length+1) [rootRow m.movement] = []
    from hlevel,List.map_nil]

/-- Shapes that pass a test, put together, are the line's roots that do. -/
theorem live_sum (line : ℕ) (test : Shape → Bool) :
    (((effectiveShapes f line).filter fun s => test s.1).map Prod.snd).sum =
      (((roots f line).filter fun m => test (shapeOf f m)).map fun m => walked f.moved.ledger m.movement).sum := by
  have hrows : (((effectiveShapes f line).filter fun s => test s.1).map Prod.snd).sum =
      ((liveChain f line).map fun c => if test c.shape then liveSigned c else 0).sum := by
    rw [← sum_filter,← sum_groups LiveRow.shape (liveChain f line) liveSigned test,effectiveShapes,List.filter_map,
      List.map_map]
    rfl
  have hlevel : ∀ n, ((Walk.level (liveNext f) n ((roots f line).map (liveRoot f))).map fun c =>
      if test c.shape then liveSigned c else 0).sum = ((roots f line).map fun m =>
        if test (shapeOf f m) then
          ((Walk.level (chainNext f.moved.ledger) n [rootRow m.movement]).map signed).sum else 0).sum := by
    intro n
    rw [Walk.level_each,List.flatMap_map,Forest.sum_flatMap]
    refine congrArg List.sum (List.map_congr_left fun m hm => ?_)
    rw [level_live hm,List.map_map]
    split
    · rename_i htest
      refine congrArg List.sum (List.map_congr_left fun c _ => ?_)
      exact if_pos htest
    · rename_i htest
      have hzero : ((fun c : LiveRow => if test c.shape then liveSigned c else 0) ∘ toLive (shapeOf f m)) =
          fun _ => 0 := funext fun c => if_neg htest
      rw [hzero]
      simp
  rw [hrows,liveChain,Walk.rows,Forest.sum_flatMap,List.map_congr_left fun n _ => hlevel n,Forest.sum_swap,sum_filter]
  refine congrArg List.sum (List.map_congr_left fun m _ => ?_)
  split
  · rw [walked,Walk.rows,Forest.sum_flatMap]
  · simp

/-- The fold's movements of a line that pass a test are its roots that do. -/
theorem fold_sum (line : ℕ) (test : StockMovement → Bool) : ledgerSum f test line =
    (((roots f line).filter test).map fun m => walked f.moved.ledger m.movement).sum := by
  have hrows : (((effectives f.moved.movements).filter fun x => decide (x.1.movement.tenantId = f.tenant)).filter
      fun x => x.1.fulfilmentLineId.isSome).filter (fun x => decide (x.1.fulfilmentLineId = some line)) =
        (roots f line).map fun m => (m,walked f.moved.ledger m.movement) := by
    rw [List.filter_filter,List.filter_filter,effectives_eq,List.filter_map,List.filter_filter,roots]
    refine congrArg (List.map _) (List.filter_congr fun m hm => ?_)
    have hown := f.own m hm
    by_cases hline : m.fulfilmentLineId = some line
    · cases hrev : m.movement.reversesMovementId <;> simp [hline,hown,isRoot,hrev]
    · simp [hline]
  rw [ledgerSum,sumByLine,rowsOf_groups,hrows,List.map_map,sum_filter]
  rfl

/-! ## Packed, and what statuses say -/

theorem content_own {c : ContentKey × ℤ} (hc : c ∈ packageLineContent f.moved.movements) :
    c.1.tenantId = f.tenant := by
  obtain ⟨g,hg,rfl⟩ := List.mem_map.mp hc
  obtain ⟨⟨x,hx,hkey⟩,-⟩ := mem_groups hg
  have hmoved : ∀ y ∈ effectives f.moved.movements, y.1.movement.tenantId = f.tenant := by
    intro y hy
    rw [effectives_eq] at hy
    obtain ⟨m,hm,rfl⟩ := List.mem_map.mp hy
    exact f.own m (List.mem_filter.mp hm).1
  show g.1.tenantId = f.tenant
  rw [← hkey]
  rcases List.mem_append.mp hx with hin | hon
  · obtain ⟨y,hy,hsome⟩ := List.mem_filterMap.mp hin
    obtain ⟨p,-,hsome⟩ := Option.bind_eq_some_iff.mp hsome
    obtain ⟨l,-,rfl⟩ := Option.map_eq_some_iff.mp hsome
    exact hmoved y hy
  · obtain ⟨y,hy,hsome⟩ := List.mem_filterMap.mp hon
    obtain ⟨p,-,hsome⟩ := Option.bind_eq_some_iff.mp hsome
    obtain ⟨l,-,rfl⟩ := Option.map_eq_some_iff.mp hsome
    exact hmoved y (List.mem_filter.mp hy).1

/-- The fold's packed is what packages of a packed status hold. -/
theorem fold_packed (table : Table) (line : ℕ) :
    (foldedRow f table line).packedQuantity = contentWhere f line fun p => packedStatus (table p).status := by
  dsimp only [foldedRow]
  rw [sumByLine,rowsOf_groups,contentWhere,List.filter_filter,List.filter_filter]
  refine congrArg (fun l : List (ContentKey × ℤ) => (l.map Prod.snd).sum) (List.filter_congr fun c hc => ?_)
  have hown := content_own hc
  by_cases hline : c.1.fulfilmentLineId = line
  · simp [hline,hown]
  · simp [hline]

/-- The status its events give a package that has been placed. -/
def statusFolded {packages : List ℕ} (es : List (Packages.Event packages)) (p : ℕ) : Option Kind :=
  (Packages.winningPlacement es p).bind fun _ => (Packages.winningStatus es p).map Packages.Event.kind

/-- After a rebuild the status column is what the events say, however it lagged. -/
theorem rebuilt_status {packages : List ℕ} (acts : List (Packages.Act packages)) (p : ℕ) :
    ((projectionPackageRebuild (Packages.run acts).events (Packages.run acts).table).1 p).status =
      statusFolded (Packages.run acts).events p := by
  have hresolve : ∀ (rows : List Packages.ChainRow) (r : Packages.Row), (Packages.resolveRow rows p r).status = r.status := by
    intro rows r
    rw [Packages.resolveRow]
    split <;> rfl
  have hkept := (Packages.run_kept acts).unplaced p
  show (Packages.resolveRow _ p (Packages.placeRow _ p _)).status = _
  rw [hresolve,Packages.placeRow,statusFolded]
  cases hplaced : Packages.winningPlacement (Packages.run acts).events p with
  | none =>
    rw [hkept hplaced]
    rfl
  | some wp => rfl

/-- What two tests hold differs by what one passes and the other does not. -/
theorem contentWhere_sub (line : ℕ) (test test' : ℕ → Bool) : contentWhere f line test-contentWhere f line test' =
    contentWhere f line (fun p => test p && !test' p)-contentWhere f line fun p => test' p && !test p := by
  simp only [contentWhere,sum_filter]
  induction packageLineContent f.moved.movements with
  | nil => rfl
  | cons c cs ih =>
    have hone : ∀ t t' : Bool,
        (if decide (c.1.fulfilmentLineId = line ∧ c.1.packageId ∈ f.packages ∧ t) then c.2 else 0)-
          (if decide (c.1.fulfilmentLineId = line ∧ c.1.packageId ∈ f.packages ∧ t') then c.2 else 0) =
        (if decide (c.1.fulfilmentLineId = line ∧ c.1.packageId ∈ f.packages ∧ (t && !t')) then c.2 else 0)-
          if decide (c.1.fulfilmentLineId = line ∧ c.1.packageId ∈ f.packages ∧ (t' && !t)) then c.2 else 0 := by
      intro t t'
      cases t <;> cases t' <;> simp
    have hfirst := hone (test c.1.packageId) (test' c.1.packageId)
    simp only [List.map_cons,List.sum_cons]
    linarith

/-- A line's columns once all is rebuilt: packages first, then lines. -/
def rebuiltRow (es : List (Packages.Event f.packages)) (table : Table) (columns : ℕ → LineRow) (line : ℕ) : LineRow :=
  (projectionFulfilmentRebuild f (projectionPackageRebuild es table).1 columns).1 line

/-- The four quantities are the columns'. -/
def Progress.Agrees (live : Progress) (row : LineRow) : Prop :=
  live.coveredQuantity = row.coveredQuantity ∧ live.pickedQuantity = row.pickedQuantity ∧
    live.packedQuantity = row.packedQuantity ∧ live.despatchedQuantity = row.despatchedQuantity

/-- Live progress is what the fold will say just when packages that read as packed and
are not hold as much of the line as those that are and do not read so. -/
theorem live_is_fold_iff (f : Facts) (acts : List (Packages.Act f.packages)) (columns : ℕ → LineRow) {line : ℕ}
    (hline : line ∈ f.lines) (commitment : ℤ) :
    (lineProgressLedger f (Packages.run acts).table line commitment).Agrees
        (rebuiltRow (Packages.run acts).events (Packages.run acts).table columns line) ↔
      contentWhere f line (fun p => packedStatus ((Packages.run acts).table p).status &&
          !packedStatus (statusFolded (Packages.run acts).events p)) =
        contentWhere f line fun p => packedStatus (statusFolded (Packages.run acts).events p) &&
          !packedStatus ((Packages.run acts).table p).status := by
  have hrow : rebuiltRow (Packages.run acts).events (Packages.run acts).table columns line =
      foldedRow f (projectionPackageRebuild (Packages.run acts).events (Packages.run acts).table).1 line := if_pos hline
  have hcovered : (lineProgressLedger f (Packages.run acts).table line commitment).coveredQuantity =
      (foldedRow f (projectionPackageRebuild (Packages.run acts).events (Packages.run acts).table).1 line).coveredQuantity := by
    dsimp only [foldedRow,lineProgressLedger]
    rw [sumByLine,rowsOf_groups,List.filter_filter,List.filter_filter]
    refine congrArg (fun l : List Allocation => (l.map Allocation.quantity).sum) (List.filter_congr fun a ha => ?_)
    have hown := f.allocations_own a ha
    by_cases hal : a.fulfilmentLineId = some line
    · simp [hal,hown]
    · simp [hal]
  have hpicked : (lineProgressLedger f (Packages.run acts).table line commitment).pickedQuantity =
      (foldedRow f (projectionPackageRebuild (Packages.run acts).events (Packages.run acts).table).1 line).pickedQuantity :=
    (live_sum line fun s => s.fromKind.any (· ∈ storage)).trans
      (fold_sum line fun m => (fromKind f m).any (· ∈ storage)).symm
  have hdespatched : (lineProgressLedger f (Packages.run acts).table line commitment).despatchedQuantity =
      (foldedRow f (projectionPackageRebuild (Packages.run acts).events (Packages.run acts).table).1 line).despatchedQuantity := by
    refine (live_sum line fun s => decide (s.toLocationId = none ∧ s.toPackageId = none)).trans ?_
    refine Eq.trans ?_ (fold_sum line fun m =>
      m.movement.toSide.locationId.isNone && m.movement.toSide.packageId.isNone).symm
    refine congrArg (fun l : List StockMovement => (l.map fun m => walked f.moved.ledger m.movement).sum) ?_
    refine List.filter_congr fun m _ => ?_
    cases hloc : m.movement.toSide.locationId <;> cases hpack : m.movement.toSide.packageId <;> simp [shapeOf,hloc,hpack]
  have hsub := contentWhere_sub (f := f) line (fun p => packedStatus ((Packages.run acts).table p).status)
    fun p => packedStatus (statusFolded (Packages.run acts).events p)
  have hpacked : (foldedRow f (projectionPackageRebuild (Packages.run acts).events (Packages.run acts).table).1
      line).packedQuantity = contentWhere f line fun p => packedStatus (statusFolded (Packages.run acts).events p) := by
    rw [fold_packed]
    simp only [rebuilt_status]
  rw [Progress.Agrees,hrow,hcovered,hpicked,hdespatched,hpacked]
  have hlive : (lineProgressLedger f (Packages.run acts).table line commitment).packedQuantity =
      contentWhere f line fun p => packedStatus ((Packages.run acts).table p).status := rfl
  rw [hlive]
  constructor
  · rintro ⟨-,-,hsame,-⟩
    linarith
  · intro hbalance
    exact ⟨rfl,rfl,by linarith,rfl⟩

/-- Five of line 1 picked off a shelf into carton 3. -/
def pickedCarton : Facts where
  tenant := 0
  moved := ⟨[⟨1,⟨1,0,1,5,none,0,⟨some 2,none,none,some 1,some 1⟩,⟨none,some 3,none,some 1,some 1⟩,none⟩,some 1⟩],
    by decide,by decide⟩
  own := by decide
  locationKind l := if l = 2 then some .pickFace else none
  allocations := [⟨0,some 1,5,.picked⟩]
  allocations_own := by decide
  externalPicks := []
  packages := [3]
  lines := [1]

/-- The carton is made, and sealed. -/
def sealing : List (Packages.Act pickedCarton.packages) :=
  [.arrive ⟨1,0,0,3,.created,none,some 9,none,none,by decide,by decide,by decide,by decide⟩,
    .arrive ⟨2,1,1,3,.sealed,none,none,none,none,by decide,by decide,by decide,by decide⟩]

/-- And then a rebuild. -/
def sealedRebuilt : List (Packages.Act pickedCarton.packages) := sealing++[.rebuild]

theorem live_is_fold_rebuilt : (lineProgressLedger pickedCarton (Packages.run sealedRebuilt).table 1 5).Agrees
    (rebuiltRow (Packages.run sealedRebuilt).events (Packages.run sealedRebuilt).table (fun _ => ⟨0,0,0,0,0⟩) 1) :=
  (live_is_fold_iff pickedCarton sealedRebuilt (fun _ => ⟨0,0,0,0,0⟩) (by decide) 5).mpr (by decide +kernel)

/-- Before a rebuild the sealed carton's five are not packed yet, live, and the fold will
have them so. -/
theorem live_lags : ¬(lineProgressLedger pickedCarton (Packages.run sealing).table 1 5).Agrees
      (rebuiltRow (Packages.run sealing).events (Packages.run sealing).table (fun _ => ⟨0,0,0,0,0⟩) 1) ∧
    (lineProgressLedger pickedCarton (Packages.run sealing).table 1 5).packedQuantity = 0 ∧
    (rebuiltRow (Packages.run sealing).events (Packages.run sealing).table (fun _ => ⟨0,0,0,0,0⟩) 1).packedQuantity = 5 :=
  ⟨fun hagrees => absurd hagrees.2.2.1 (by decide +kernel),by decide +kernel⟩

end Outbound
end Spork
