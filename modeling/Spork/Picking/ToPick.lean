import Spork.Barcodes.Scan

/-! The batch of orders to pick (`to_pick.rs`), each line over its bins in their turn, and
which lines are kits and which their parts (`importing/orders.rs`).

A quantity is an exact fraction. Of an order only its lines are kept, and of a line what
sharing out the bins reads or is shown by; the plan of who walks which is apart. -/
namespace Spork
namespace ToPick

abbrev Id := ℕ

/-- One line of an item fulfilment, in the sender's words, as far as kits go. -/
structure Sent where
  key : Option (List Char)
  kitLine : Option (List Char)
  itemType : Option (List Char)
  item : List Char
  lineNo : ℤ
  deriving DecidableEq,Repr

inductive Role
  | goods
  | kit
  | partOf (item : List Char) (lineNo : ℤ)
  deriving DecidableEq,Repr

/-- The item of the kit a line is part of. -/
def Role.kitItem : Role → Option (List Char)
  | .partOf item _ => some item
  | _ => none

/-- The same letters but for the case of those in ASCII. -/
def eqIgnoreAsciiCase (a b : List Char) : Bool := decide (a.map Char.toLower = b.map Char.toLower)

/-- What one line of a send is: a part when it names another line of it, a kit when its
type says so or some line names it, and goods otherwise. -/
def roleOf (lines : List Sent) (l : Sent) : Role :=
  let kit := (l.kitLine.filter fun k => decide (l.key ≠ some k)).bind fun k =>
    lines.find? fun x => decide (x.key = some k)
  match kit with
  | some kit => .partOf kit.item kit.lineNo
  | none =>
    let kitType := l.itemType.any fun t => eqIgnoreAsciiCase (Text.trim Barcodes.isWhiteSpace t) "kit".toList
    if kitType || l.key.any (fun k => decide (k ∈ lines.filterMap Sent.kitLine)) then .kit else .goods

def roles (lines : List Sent) : List Role := lines.map (roleOf lines)

/-- One line of the report, as read. -/
structure Reported where
  lineKey : List Char
  lineNo : Option ℤ
  itemId : Option Id
  code : List Char
  itemType : Option (List Char)
  kitLine : Option (List Char)
  toPick : ℚ
  toPick_nonneg : 0 ≤ toPick

/-- A bin an item can be taken from, in its turn. -/
structure Pile where
  locationId : Id
  bin : List Char
  reach : Bool
  qty : ℚ
  qty_nonneg : 0 ≤ qty

structure Take where
  locationId : Id
  bin : List Char
  quantity : ℚ
  onHand : ℚ
  withinReach : Bool
  deriving DecidableEq

structure ToPickLine where
  lineKey : List Char
  itemId : Option Id
  toPick : ℚ
  kit : Bool
  partOf : Option (List Char)
  takes : List Take
  short : ℚ
  deriving DecidableEq

/-- What is left of each bin an item has been looked for in. -/
abbrev Left := Id × Id → Option ℚ

/-- An item's piles in their turn, until nothing more is needed: what is taken, what is
still needed, and what is left. -/
def takeFrom (item : Id) : List Pile → ℚ → Left → List Take × ℚ × Left
  | [], need, left => ([],need,left)
  | p :: ps, need, left =>
    if need ≤ 0 then ([],need,left)
    else
      let here := (left (item,p.locationId)).getD p.qty
      let take := min need here
      if take > 0 then
        let rest := takeFrom item ps (need-take)
          (Function.update left (item,p.locationId) (some (here-take)))
        (⟨p.locationId,p.bin,take,p.qty,p.reach⟩ :: rest.1,rest.2)
      else takeFrom item ps need (Function.update left (item,p.locationId) (some here))

/-- One line over its bins. -/
def shareLine (piles : Id → List Pile) (l : Reported) (role : Role) (parts : Bool) (left : Left) :
    ToPickLine × Left :=
  let kit := decide (role = .kit) && parts
  let need := if kit then 0 else l.toPick
  let (takes,need,left) := match l.itemId with
    | some item => takeFrom item (piles item) need left
    | none => ([],need,left)
  (⟨l.lineKey,l.itemId,l.toPick,kit,role.kitItem,takes,max need 0⟩,left)

def shareLines (piles : Id → List Pile) : List (Reported × Role × Bool) → Left → List ToPickLine × Left
  | [], left => ([],left)
  | (l,role,parts) :: ls, left =>
    let (shown,left) := shareLine piles l role parts left
    let rest := shareLines piles ls left
    (shown :: rest.1,rest.2)

def Reported.sent (l : Reported) : Sent := ⟨some l.lineKey,l.kitLine,l.itemType,l.code,l.lineNo.getD 0⟩

/-- An order's lines with their roles, and whether the order has parts of each. -/
def withRoles (roles : List Sent → List Role) (lines : List Reported) : List (Reported × Role × Bool) :=
  let sent := lines.map Reported.sent
  let role := roles sent
  let hasParts := sent.map fun s => role.any fun r => decide (r = .partOf s.item s.lineNo)
  (lines.zip role).zipWith (fun lr parts => (lr.1,lr.2,parts)) hasParts

/-- Each line of each order over its bins, the batch in the order shown. -/
def shareBatch (roles : List Sent → List Role) (piles : Id → List Pile) :
    List (List Reported) → Left → List (List ToPickLine) × Left
  | [], left => ([],left)
  | lines :: batch, left =>
    let (shown,left) := shareLines piles (withRoles roles lines) left
    let rest := shareBatch roles piles batch left
    (shown :: rest.1,rest.2)

/-- The lines of a batch as they are shown, by the order. -/
def read (roles : List Sent → List Role) (piles : Id → List Pile) (batch : List (List Reported)) :
    List (List ToPickLine) :=
  (shareBatch roles piles batch fun _ => none).1

end ToPick
end Spork
