import Spork.Acts.Containing
import Spork.Lib.Sorted

/-! A line's units moved between holders at the bench (`repacking.rs`): what is there of
the line by the ledger, what is wrong with a move, and the move. -/
namespace Spork
namespace Acts

open Ledger Packages

variable {packages : List ℕ}

structure RepackRequest where
  fulfilmentLineId : ℕ
  fromPackageId : Option ℕ
  fromLocationId : Option ℕ
  toPackageId : Option ℕ
  toLocationId : Option ℕ
  lotId : Option ℕ
  quantity : ℤ
  clientEventId : ℕ
  occurredAt : ℤ
  deriving DecidableEq, Repr

structure RepackResponse where
  movementId : ℕ
  warnings : List String
  deriving DecidableEq, Repr

/-- A holder at the bench, as the request names it. -/
inductive Holder
  | package (id : ℕ)
  | location (id : ℕ)
  deriving DecidableEq, Repr

/-- The two optional ids of one side as the one holder they mean. -/
def holder : Option ℕ → Option ℕ → Option Holder
  | some p, none => some (.package p)
  | none, some l => some (.location l)
  | _, _ => none

/-- What the check reads about one side. -/
structure BenchSide where
  holder : Holder
  status : Option Kind
  fulfilmentId : Option ℕ
  deriving DecidableEq, Repr

/-- What the holder the units leave has of the line. -/
structure Held where
  total : ℤ
  kinds : ℕ
  /-- The most of any one kind, which is the kind that moves. -/
  most : ℤ
  deriving DecidableEq, Repr

inductive RepackProblem
  | noQuantity
  | lineNotFound
  | fulfilmentCancelled
  | notOneFrom
  | notOneTo
  | fromNotFound
  | toNotFound
  | notTheBench
  | sameHolder
  | destinationClosed (status : Kind)
  | holdsNone
  | severalKinds
  | overHeld (held : ℤ)
  | fromSealed
  | intoSealed
  | otherOrder
  deriving DecidableEq, Repr

def RepackProblem.text : RepackProblem → String
  | .noQuantity => "move one or more"
  | .lineNotFound => "the order line was not found"
  | .fulfilmentCancelled => "the order is cancelled"
  | .notOneFrom => "name exactly one of from_package_id and from_location_id"
  | .notOneTo => "name exactly one of to_package_id and to_location_id"
  | .fromNotFound => "where it comes from was not found"
  | .toNotFound => "where it goes was not found"
  | .notTheBench => "a carton or the bench only: from a shelf is a pick, and to one a move"
  | .sameHolder => "it is there already"
  | .destinationClosed status => "the carton it goes into is "++kindText status
  | .holdsNone => "there is none of that line there"
  | .severalKinds => "more than one lot of it is there: move each by its lot"
  | .overHeld held => "more than the "++toString held++" there"
  | .fromSealed => "taken out of a sealed carton: open it first"
  | .intoSealed => "put into a sealed carton: open it first"
  | .otherOrder => "the carton it goes into is another order's"

def repackIsHard : RepackProblem → Bool
  | .overHeld _ | .fromSealed | .intoSealed | .otherOrder => false
  | _ => true

/-- What is wrong with a side the request names, or doesn't. -/
def sideProblems (notOne notFound : RepackProblem) (named : Bool) (side : Option BenchSide) :
    List RepackProblem :=
  if !named then [notOne] else if side.isNone then [notFound] else []

/-- What is wrong with a move once both sides are known. -/
def checkSides (quantity : ℤ) (line : FulfilmentLine) (fromSide toSide : BenchSide) (held : Held) :
    List RepackProblem :=
  let offTheBench (s : BenchSide) : Bool := match s.holder with
    | .location l => some l ≠ line.packLocation
    | .package _ => false
  (if offTheBench fromSide ∨ offTheBench toSide then [.notTheBench] else [])++
  (if fromSide.holder = toSide.holder then [.sameHolder] else [])++
  (match toSide.status with
    | some .despatched => [.destinationClosed .despatched]
    | some .voided => [.destinationClosed .voided]
    | some .sealed => [.intoSealed]
    | _ => [])++
  (if fromSide.status = some .sealed then [.fromSealed] else [])++
  (if toSide.fulfilmentId.any (· ≠ line.fulfilmentId) then [.otherOrder] else [])++
  (if held.total ≤ 0 then [.holdsNone]
    else if held.kinds > 1 ∧ quantity > held.most then [.severalKinds]
    else if quantity > held.total then [.overHeld held.total] else [])

/-- What is wrong with moving so many of the line from one side to the other. -/
def repackCheck (quantity : ℤ) (line : Option FulfilmentLine) (namedFrom : Bool)
    (fromSide : Option BenchSide) (namedTo : Bool) (toSide : Option BenchSide) (held : Held) :
    List RepackProblem :=
  (if quantity ≤ 0 then [.noQuantity] else [])++
  match line with
  | none => [.lineNotFound]
  | some line =>
    (if line.cancelled then [.fulfilmentCancelled] else [])++
    sideProblems .notOneFrom .fromNotFound namedFrom fromSide++
    sideProblems .notOneTo .toNotFound namedTo toSide++
    match namedFrom, fromSide, namedTo, toSide with
    | true, some fromSide, true, some toSide => checkSides quantity line fromSide toSide held
    | _, _, _, _ => []

/-! ## What is read -/

/-- One side, loaded: a package with its status now, or a location. -/
def benchSide (s : Store packages) : Holder → Option BenchSide
  | .package p => if p ∈ packages then
      some ⟨.package p,s.packageStatusNow p,(s.package p).fulfilmentId⟩ else none
  | .location l => (s.locations.find? fun r => r.id = l).map fun _ => ⟨.location l,none,none⟩

/-- Some of a line in a holder, of one item, lot, status and owner. -/
structure HeldKind where
  itemId : ℕ
  lotId : Option ℕ
  statusId : Option ℕ
  ownerId : Option ℕ
  deriving DecidableEq, Repr

/-- Whether a column equals an argument, neither of them null. -/
def sqlEq (column argument : Option ℕ) : Bool := argument.isSome && decide (column = argument)

/-- What movements of a line put on a side of theirs in a holder, each with what the view
gives of it. -/
def movedOn (s : Store packages) (line : ℕ) (package location : Option ℕ) (side : Movement → Side)
    (times : ℤ) : List (HeldKind × ℤ) :=
  (s.stockMovements.filter fun m => m.fulfilmentLineId = some line ∧
    (sqlEq (side m.movement).packageId package || sqlEq (side m.movement).locationId location)).flatMap
      fun m => ((stockMovementEffective s.ledger).filter fun v =>
        v.movementId = m.movement.id ∧ v.tenantId = m.movement.tenantId).map fun v =>
          (⟨m.movement.itemId,(side m.movement).lotId,(side m.movement).statusId,(side m.movement).ownerId⟩,
            times*v.effectiveQuantity)

/-- What the holder has of the line, kind by kind, the most first. -/
def heldKinds (s : Store packages) (body : RepackRequest) (package location : Option ℕ) :
    List (HeldKind × ℤ) :=
  let moved := (movedOn s body.fulfilmentLineId package location Movement.toSide 1++
    movedOn s body.fulfilmentLineId package location Movement.fromSide (-1)).filter
      fun x => body.lotId.isNone ∨ sqlEq x.1.lotId body.lotId
  Sorted.sortBy (fun a b => compare b.2 a.2) (((GroupBy.groups Prod.fst moved).map fun g =>
    (g.1,(g.2.map Prod.snd).sum)).filter fun k => k.2 > 0)

def heldOf (kinds : List (HeldKind × ℤ)) : Held :=
  ⟨(kinds.map Prod.snd).sum,kinds.length,(kinds.head?.map Prod.snd).getD 0⟩

/-- The ids of the holder the units leave. -/
def fromIds : Option Holder → Option ℕ × Option ℕ
  | some (.package p) => (some p,none)
  | some (.location l) => (none,some l)
  | none => (none,none)

/-- The kinds the handler reads for a request. -/
def kindsFor (s : Store packages) (body : RepackRequest) : List (HeldKind × ℤ) :=
  let ids := fromIds (holder body.fromPackageId body.fromLocationId)
  heldKinds s body ids.1 ids.2

/-- What the handler finds wrong with a request. -/
def repackProblems (s : Store packages) (body : RepackRequest) : List RepackProblem :=
  let fromHolder := holder body.fromPackageId body.fromLocationId
  let toHolder := holder body.toPackageId body.toLocationId
  repackCheck body.quantity (s.lines.find? fun l => l.id = body.fulfilmentLineId)
    fromHolder.isSome (fromHolder.bind (benchSide s)) toHolder.isSome (toHolder.bind (benchSide s))
    (heldOf (kindsFor s body))

/-! ## The handler -/

/-- The movement a repack posts: the goods keep their lot, status and owner. -/
def repackMovement (who : Caller) (minted : Minted) (body : RepackRequest) (kind : HeldKind) : Movement :=
  let ids := fromIds (holder body.fromPackageId body.fromLocationId)
  ⟨minted.id,who.tenantId,kind.itemId,body.quantity,none,body.occurredAt,
    ⟨ids.2,ids.1,kind.lotId,kind.statusId,kind.ownerId⟩,
    ⟨body.toLocationId,body.toPackageId,kind.lotId,kind.statusId,kind.ownerId⟩,none⟩

def repack (s : Store packages) (who : Caller) (minted : Minted) (body : RepackRequest) :
    Except ApiError (RepackResponse × Store packages) :=
  let problems := repackProblems s body
  let hard := (problems.filter repackIsHard).map RepackProblem.text
  let warnings := (problems.filter fun p => !repackIsHard p).map RepackProblem.text
  if hard ≠ [] then .error (.rejected (String.intercalate "; " hard))
  else match claimAct s body.clientEventId with
    | (.replay,s) =>
      match requireOneMovement s body.clientEventId with
      | .error e => .error e
      | .ok prior =>
        match rejectQuantityMismatch prior.movement.quantity body.quantity with
        | .error e => .error e
        | .ok () => .ok (⟨prior.movement.id,warnings++[replayWarning]⟩,s)
    | (.fresh,claimed) =>
      match kindsFor s body with
      -- not reached: the check refuses a move of nothing
      | [] => .error .database
      | kind :: _ =>
        match insertStockMovement claimed ⟨body.clientEventId,repackMovement who minted body kind.1,
          some body.fulfilmentLineId⟩ with
        | .error e => .error e
        | .ok posted => .ok (⟨minted.id,warnings⟩,posted)

end Acts
end Spork
