import Spork.Importing.Picks
import Spork.Lib.Gather

/-! Where the system of record says a thing is (`importing/stock.rs`): what loading an
inventory balance reads and writes. A table is a bag of rows, a moment is in microseconds, and
a decimal is a member of what the database adds and compares. -/
namespace Spork
namespace Importing
namespace Stock

/-- One row of the export, trimmed. A quantity is the text it came as. -/
structure Row where
  itemCode : String
  warehouse : String
  /-- The shelf, empty when the report names a quantity without a position. -/
  binCode : String
  onHand : String
  available : Option String
  status : Option String
  deriving DecidableEq

structure Site where
  id : Uuid
  tenant : Uuid
  code : String
  name : String

/-- An item, of no tenant when it is shared. -/
structure Item where
  id : Uuid
  tenant : Option Uuid
  code : String

structure Location where
  id : Uuid
  tenant : Uuid
  site : Uuid
  code : String

/-- A site, an item and a shelf, if one is named. -/
abbrev Key := Uuid × Uuid × Option Uuid

/-- A row of `reported_stock`. -/
structure Reported (Q : Type) where
  tenant : Uuid
  key : Key
  onHand : Q
  available : Option Q
  status : Option String
  asAt : ℤ
  source : String

/-- What a load reads and writes. An item's code is a tenant's once, a shelf's a site's once. -/
structure Database (Q : Type) where
  sites : List Site
  items : List Item
  locations : List Location
  reported : Multiset (Reported Q)
  itemCodes : (items.map fun i => (i.tenant,i.code)).Nodup
  locationCodes : (locations.map fun l => (l.tenant,l.site,l.code)).Nodup

/-- What the database did, or would have done. -/
structure StockLoaded where
  rowsWritten : ℕ
  rowsReplaced : ℕ
  itemsUnknown : ℕ
  binsUnknown : ℕ
  warehousesUnknown : ℕ
  rowsSummed : ℕ
  rowsNegative : ℕ
  applied : Bool
  deriving DecidableEq

/-- The rows of one item on one shelf, gathered before they are summed. -/
structure Held where
  rows : ℕ
  onHand : List String
  available : List (Option String)
  statuses : List (Option String)

/-- Why nothing is loaded: a lookup found two rows, or a write was refused. -/
inductive LoadError
  | unexpectedRows
  | reported
  deriving DecidableEq

/-! ## Sites by their names -/

/-- `Melbourne Warehouse` -> `Melbourne`. -/
def siteName (location : String) : String :=
  let name := (trim location).toList
  let word := ['W','a','r','e','h','o','u','s','e']
  trim (String.ofList (if word <:+ name then name.take (name.length-word.length) else name))

/-- `Melbourne Warehouse` -> `MEL`. -/
def siteCode (location : String) : String :=
  String.ofList ((((siteName location).toList.filter Char.isAlphanum).take 3).map Char.toUpper)

/-! ## Lookups -/

/-- The one row there is, or none: two are an error. -/
def queryOpt {α : Type} : List α → Except LoadError (Option α)
  | [] => .ok none
  | [a] => .ok (some a)
  | _ => .error .unexpectedRows

/-- A lookup, asked of the database the first time only. -/
def remembered {κ : Type} [DecidableEq κ] (known : κ → Option (Option Uuid)) (k : κ)
    (query : Except LoadError (Option Uuid)) : Except LoadError (Option Uuid × (κ → Option (Option Uuid))) :=
  match known k with
  | some found => .ok (found,known)
  | none => do
    let found ← query
    .ok (found,Function.update known k (some found))

section
variable {Q : Type} (db : Database Q) (tenant : Uuid)

def sitesNamed (warehouse : String) : List Uuid :=
  (db.sites.filter fun s => s.tenant = tenant ∧ (s.code = siteCode warehouse ∨ s.name = siteName warehouse)).map (·.id)

def itemsCoded (code : String) : List Uuid :=
  (db.items.filter fun i => i.tenant = some tenant ∧ i.code = code).map (·.id)

def binsCoded (site : Uuid) (code : String) : List Uuid :=
  (db.locations.filter fun l => l.tenant = tenant ∧ l.site = site ∧ l.code = code).map (·.id)

/-! ## Reading the rows -/

/-- What is known so far, what is counted and what is gathered. -/
structure Reading where
  sites : String → Option (Option Uuid)
  items : String → Option (Option Uuid)
  bins : Uuid × String → Option (Option Uuid)
  out : StockLoaded
  held : List (Key × Held)

def Held.add (h : Held) (r : Row) : Held :=
  ⟨h.rows+1,h.onHand++[r.onHand],h.available++[r.available],h.statuses++[r.status]⟩

def Held.empty : Held := ⟨0,[],[],[]⟩

def Reading.hold (g : Reading) (k : Key) (r : Row) : Reading :=
  { g with held := Gather.putIn Held.add Held.empty g.held (k,r) }

/-- One row: resolved, or counted under what it names that is not known. -/
def readRow (g : Reading) (r : Row) : Except LoadError Reading := do
  let (site,sites) ← remembered g.sites r.warehouse (queryOpt (sitesNamed db tenant r.warehouse))
  let g := { g with sites }
  match site with
  | none => .ok { g with out := { g.out with warehousesUnknown := g.out.warehousesUnknown+1 } }
  | some site => do
    let (item,items) ← remembered g.items r.itemCode (queryOpt (itemsCoded db tenant r.itemCode))
    let g := { g with items }
    match item with
    | none => .ok { g with out := { g.out with itemsUnknown := g.out.itemsUnknown+1 } }
    | some item =>
      if r.binCode = "" then .ok (g.hold (site,item,none) r) else do
        let (bin,bins) ← remembered g.bins (site,r.binCode) (queryOpt (binsCoded db tenant site r.binCode))
        let g := { g with bins }
        match bin with
        | none => .ok { g with out := { g.out with binsUnknown := g.out.binsUnknown+1 } }
        | some bin => .ok (g.hold (site,item,some bin) r)

end

/-! ## Writing the balances -/

/-- A row's place in `reported_stock`, which no other row of it has. -/
def Reported.position {Q : Type} (x : Reported Q) : Uuid × Key × String := (x.tenant,x.key,x.source)

/-- A row put in, refused where its place is taken. -/
def Database.insert {Q : Type} (db : Database Q) (row : Reported Q) : Except LoadError (Database Q) :=
  if row.position ∈ db.reported.map Reported.position then .error .reported
  else .ok { db with reported := row ::ₘ db.reported }

variable {Q : Type} [AddCommMonoid Q] [LE Q] [DecidableLE Q]

/-- `sum(v::numeric)`: nothing of no rows, and an error of a text that is no number. -/
def sumOf (cast : String → Option Q) (texts : List String) : Except LoadError (Option Q) := do
  let qs ← texts.mapM fun t => (cast t).elim (.error LoadError.reported) Except.ok
  .ok (if qs.isEmpty then none else some qs.sum)

/-- The sum over an array, which is nothing where there is no array. -/
def sumUnnest (cast : String → Option Q) : Option (List String) → Except LoadError (Option Q)
  | some texts => sumOf cast texts
  | none => .ok none

/-- The rows agree: each has the status of the next. -/
def agree (statuses : List (Option String)) : Bool := (statuses.zip statuses.tail).all fun w => w.1 = w.2

/-- One item's balance on one shelf. Less than nothing is not written. -/
def writeHeld (cast : String → Option Q) (tenant : Uuid) (asAt : ℤ) (source : String)
    (s : Database Q × StockLoaded) (e : Key × Held) : Except LoadError (Database Q × StockLoaded) := do
  let status := if agree e.2.statuses then e.2.statuses.head?.join else none
  let onHand ← sumUnnest cast (some e.2.onHand)
  -- available only when every row stated it
  let available ← sumUnnest cast (e.2.available.mapM id)
  match onHand.filter fun q => decide (0 ≤ q) && available.all fun a => decide (0 ≤ a) with
  | some q => do
    let db ← s.1.insert ⟨tenant,e.1,q,available,status,asAt,source⟩
    .ok (db,{ s.2 with rowsWritten := s.2.rowsWritten+1, rowsSummed := s.2.rowsSummed+(e.2.rows-1) })
  | none => .ok (s.1,{ s.2 with rowsNegative := s.2.rowsNegative+e.2.rows })

/-- The source's rows of the tenant's. -/
def Mine (tenant : Uuid) (source : String) (x : Reported Q) : Prop := x.tenant = tenant ∧ x.source = source

instance (tenant : Uuid) (source : String) : DecidablePred (Mine (Q := Q) tenant source) :=
  fun x => inferInstanceAs (Decidable (x.tenant = tenant ∧ x.source = source))

/-- Write the report, or find out what writing it would do. -/
def load (cast : String → Option Q) (db : Database Q) (tenant : Uuid) (rows : List Row) (asAt : ℤ) (source : String)
    (apply : Bool) : Except LoadError (Database Q × StockLoaded) := do
  let cleared : Database Q := { db with reported := db.reported.filter fun x => ¬Mine tenant source x }
  let replaced := (db.reported.filter (Mine tenant source)).card
  let out : StockLoaded := ⟨0,replaced,0,0,0,0,0,apply⟩
  let g ← rows.foldlM (readRow cleared tenant) ⟨fun _ => none,fun _ => none,fun _ => none,out,[]⟩
  let (written,out) ← g.held.foldlM (writeHeld cast tenant asAt source) (cleared,g.out)
  .ok (if apply then written else db,out)

end Stock
end Importing
end Spork
