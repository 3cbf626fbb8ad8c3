import Mathlib
import Spork.Barcodes.Scan
import Spork.Lib.FirstWins

/-! What the thing in your hand is (`locator.rs`): a scan read and looked for on the item,
package and location surfaces, over the rows a tenant can see, and which of the four
outcomes that is. What a found item offers to capture is left out. -/
namespace Spork
namespace Barcodes

open Text

abbrev Uuid := ℕ

/-- A day a binding holds from and the day it ends, as `[from, until)`. -/
structure DateRange where
  lower : Option ℤ
  upper : Option ℤ
  deriving DecidableEq, Repr

/-- `effective @> day`. -/
def DateRange.holds (r : DateRange) (day : ℤ) : Bool := r.lower.all (· ≤ day) && r.upper.all (day < ·)

/-- A row of `item_barcode`: the tenant's own, or the shared catalogue's. -/
structure ItemBarcode where
  tenantId : Option Uuid
  itemId : Uuid
  barcode : Str
  effective : DateRange
  deriving DecidableEq, Repr

structure Item where
  id : Uuid
  code : Str
  description : Option Str
  deriving DecidableEq, Repr

/-- What NetSuite says of an item now, each field as what it is read as. -/
structure ReportedItemSaid where
  itemId : Uuid
  role : String
  value : Str
  deriving DecidableEq, Repr

structure Package where
  id : Uuid
  sequence : Option Str
  sscc : Option Str
  barcode : Option Str
  deriving DecidableEq, Repr

structure Location where
  id : Uuid
  code : Str
  deriving DecidableEq, Repr

/-- The rows a tenant can see, in the order they are read in. -/
structure Seen where
  itemBarcodes : List ItemBarcode
  items : List Item
  reported : List ReportedItemSaid
  packages : List Package
  locations : List Location

inductive Kind
  | item | package | location
  deriving DecidableEq, Repr

def Kind.text : Kind → String
  | .item => "item"
  | .package => "package"
  | .location => "location"

/-- Which surface answered. -/
inductive Via
  | itemBarcode | itemCode | itemArtNo | packageSscc | packageBarcode | locationCode
  deriving DecidableEq, Repr

structure Subject where
  kind : Kind
  id : Uuid
  code : Str
  description : Option Str
  via : Via
  deriving DecidableEq, Repr

/-- What a subject is told from others by. -/
def Subject.key (s : Subject) : Kind × Uuid := (s.kind,s.id)

inductive Outcome
  | resolved | identifierUnknown | identifierUnrecognised | identifierAmbiguous
  deriving DecidableEq, Repr

structure Resolution where
  outcome : Outcome
  scanned : Str
  gtin : Option Str
  sscc : Option Str
  lot : Option Str
  expiry : Option Str
  subjects : List Subject
  deriving DecidableEq, Repr

/-- What is after a separator of article numbers, `\s+/\s+` or `\s+or\s+`, when one is here. -/
def afterSeparator (cs : Str) : Option Str :=
  let spaced (rest : Str) : Option Str :=
    if rest.head?.any isWhiteSpace then some (rest.dropWhile isWhiteSpace) else none
  if cs.head?.any isWhiteSpace then
    match cs.dropWhile isWhiteSpace with
    | '/' :: rest => spaced rest
    | o :: r :: rest => if o.toLower = 'o' ∧ r.toLower = 'r' then spaced rest else none
    | _ => none
  else none

/-- A text cut at each separator, `piece` being what is read since the last. -/
def splitNumbers : ℕ → Str → Str → List Str
  | 0, piece, cs => [piece++cs]
  | more+1, piece, cs =>
    match afterSeparator cs with
    | some rest => piece :: splitNumbers more [] rest
    | none =>
      match cs with
      | [] => [piece]
      | c :: cs => splitNumbers more (piece++[c]) cs

/-- The article numbers in one of NetSuite's, which sometimes holds several. -/
def artNumbersIn (value : Str) : List Str :=
  ((splitNumbers (value.length+1) [] value).map (trim (· = ' '))).filter (· ≠ [])

section
variable (upper : Str → Str) (isAlphanumeric : Char → Bool) (today : ℤ) (seen : Seen)

/-- A screen that expects one kind wants that, and one that expects none wants all. -/
def wants (expect : Option String) (kind : Kind) : Bool := expect.getD "none" = "none" ∨ expect.getD "none" = kind.text

/-- The raw string, and its GTIN where that is another. -/
def candidates (scan : Scanned) : List Str :=
  match scan.gtin with
  | some g => if g ≠ scan.raw then [scan.raw,g] else [scan.raw]
  | none => [scan.raw]

def itemOf (id : Uuid) : Option Item := seen.items.find? (·.id = id)

/-- The barcodes in force for the scan, each with its item. -/
def barcodeRows (scan : Scanned) : List (ItemBarcode × Item) :=
  (seen.itemBarcodes.filter fun b => b.barcode ∈ candidates scan ∧ b.effective.holds today = true).filterMap fun b =>
    (itemOf seen b.itemId).map fun i => (b,i)

/-- `ORDER BY tenant_id NULLS LAST LIMIT 1`: the tenant's own first, and of those the first
read. -/
def firstBarcode (scan : Scanned) : Option (ItemBarcode × Item) :=
  (((barcodeRows today seen scan).filter fun r => r.1.tenantId.isSome)++
    (barcodeRows today seen scan).filter fun r => r.1.tenantId.isNone).head?

/-- The items an article number is said of. -/
def itemsByArtNo (scan : Scanned) : List Item :=
  ((seen.reported.filter fun r => r.role = "art_no" ∧ upper scan.raw ∈ (artNumbersIn r.value).map upper).filterMap fun r =>
    itemOf seen r.itemId).dedup

def itemSubject (via : Via) (i : Item) : Subject := ⟨.item,i.id,i.code,i.description,via⟩

/-- What answers on the item surface. -/
def itemsFound (scan : Scanned) : List Subject :=
  let found := ((firstBarcode today seen scan).toList.map fun r => itemSubject .itemBarcode r.2)++
    (seen.items.filter fun i => i.code = scan.raw).map (itemSubject .itemCode)
  (itemsByArtNo upper seen scan).foldl (fun found i =>
    if found.all fun f => f.id ≠ i.id then found++[itemSubject .itemArtNo i] else found) found

/-- What answers on the package surface. -/
def packagesFound (scan : Scanned) : List Subject :=
  let sscc := scan.sscc.getD scan.raw
  (seen.packages.filter fun p => p.sscc = some sscc ∨ p.barcode = some scan.raw).map fun p =>
    ⟨.package,p.id,p.sequence.getD ['—'],none,if p.sscc = some sscc then .packageSscc else .packageBarcode⟩

/-- What answers on the location surface. -/
def locationsFound (scan : Scanned) : List Subject :=
  (seen.locations.filter fun l => l.code = scan.raw).map fun l => ⟨.location,l.id,l.code,none,.locationCode⟩

/-- All that answers, on the surfaces wanted. -/
def found (scan : Scanned) (expect : Option String) : List Subject :=
  (if wants expect .item then itemsFound upper today seen scan else [])++
    (if wants expect .package then packagesFound seen scan else [])++
    (if wants expect .location then locationsFound seen scan else [])

/-- Two arms agreeing on one subject is one hit. -/
def oneEach (found : List Subject) : List Subject :=
  FirstWins.kept Subject.key (found.destutter fun a b => b.key ≠ a.key)

/-- Whether a bare string is plausibly somebody's code rather than noise. -/
def looksLikeACode (raw : Str) : Bool :=
  let t := trim isWhiteSpace raw
  !t.isEmpty && t.any isAlphanumeric

/-- Which of the four words describes this result. -/
def outcomeOf (scan : Scanned) (hits : ℕ) : Outcome :=
  if hits = 1 then .resolved
  else if hits > 1 then .identifierAmbiguous
  else if scan.isStructured || scan.gs1 then .identifierUnknown
  else if looksLikeACode isAlphanumeric scan.raw then .identifierUnknown
  else .identifierUnrecognised

/-- Resolve a scanned string; nothing where reading it panics. -/
def resolve (raw : Str) (expect : Option String) : Ran Resolution := do
  let scan ← parse raw
  let subjects := oneEach (found upper today seen scan expect)
  return ⟨outcomeOf isAlphanumeric scan subjects.length,scan.raw,scan.gtin,scan.sscc,scan.lot,scan.expiry,subjects⟩

end

end Barcodes
end Spork
