import Spork.Layout.Pattern
import Spork.Lib.GroupBy
import Spork.Lib.Sorted

/-! A first draft of a layout, from the bin list (`layout.rs`): codes put together by their
first part and shape, and a place for each family whose pattern names some of them back.

None is where the program would stop: a missing element taken for granted, or a width its
formatter does not take. What a family comes to is worked out apart from the loop that
names the places. -/
namespace Spork
namespace Layout

open Numerals

/-- One place the draft proposes, and the bins it takes. -/
structure Drafted where
  name : List Char
  solid : Bool
  pattern : List Char
  grid : Grid
  bins : List (List Char × GridCell)
  deriving DecidableEq,Repr

/-- What a bin list suggests, before anything is drawn. -/
structure Draft where
  places : List Drafted
  unmatched : List (List Char)
  deriving DecidableEq,Repr

def isSeparator (c : Char) : Bool := decide (c = '-' ∨ c = '.' ∨ c = '_' ∨ c = '/' ∨ c = ' ')

/-- The parts of a text and the separators between them, with the part so far. -/
def splitFrom : List Char → List Char → List (List Char) × List Char
  | part, [] => ([part],[])
  | part, c :: cs =>
    if isSeparator c then
      let rest := splitFrom [] cs
      (part :: rest.1,c :: rest.2)
    else splitFrom (part++[c]) cs

/-- A code split at its separators: `C-07-3` is `C`, `07`, `3` with `-`, `-`. -/
def split (code : List Char) : List (List Char) × List Char := splitFrom [] code

def fromLetters (s : List Char) : Option ℤ :=
  if s = [] ∨ ¬s.all Char.isUpper then none
  else some (s.foldl (fun n c => n*26+((c.toNat : ℤ)-65+1)) 0)

/-- A numbered token and how it is written. What is counted in bytes is of ASCII alone. -/
def readNumber (t : List Char) (lettersOk : Bool) : Option (ℤ × Style) :=
  if t ≠ [] ∧ t.all Char.isDigit ∧ t.length ≤ 6 then
    some (value t,if t.length > 1 ∧ t.head? = some '0' then .padded t.length else .plain)
  else if lettersOk = true ∧ t.length ≤ 2 then (fromLetters t).map fun n => (n,.letters)
  else none

def Style.width : Style → Option ℕ
  | .padded w => some w
  | _ => none

/-- The style most of a group's tokens are written in. A padded width wins over plain when
any token needs it. -/
def commonStyle (styles : List Style) : Style :=
  if .letters ∈ styles then .letters
  else
    match (styles.filterMap Style.width).max? with
    | some w => .padded w
    | none => .plain

/-- What the codes of a family share. -/
structure FamilyKey where
  head : List Char
  seps : List Char
  n : ℕ
  deriving DecidableEq,Repr

/-- The order a map has its families in. -/
def FamilyKey.order (a b : FamilyKey) : Ordering :=
  ((compare a.head b.head).then (compare a.seps b.seps)).then (compare a.n b.n)

/-- The family of a code that is numbered. -/
def familyOf (code : List Char) : Option FamilyKey :=
  match split code with
  | (head :: first :: more,seps) =>
    if more.length ≤ 2 ∧ head ≠ [] ∧ (readNumber first false).isSome ∧
        more.all (fun p => (readNumber p true).isSome) then some ⟨head,seps,more.length+2⟩
    else none
  | _ => none

structure Family where
  key : FamilyKey
  codes : List (List Char × Bool)
  deriving DecidableEq,Repr

/-- The numbered codes by their families, each in the order of the list. -/
def families (bins : List (List Char × Bool)) : List Family :=
  let numbered := bins.filterMap fun b => (familyOf b.1).map fun k => (k,b)
  (Sorted.sortBy (fun a b => a.1.order b.1) (GroupBy.groups Prod.fst numbered)).map fun g =>
    ⟨g.1,g.2.map Prod.snd⟩

/-- The numbers of each code, after its first part. -/
abbrev Reading := List (List Char × List (ℤ × Style))

def readCodes (codes : List (List Char × Bool)) : Option Reading :=
  codes.mapM fun c => do
    let numbers ← (split c.1).1.tail.mapM fun p => readNumber p true
    return (c.1,numbers)

def axis (read : Reading) (i : ℕ) : List ℤ × Style :=
  (read.filterMap fun r => r.2[i]?.map Prod.fst,
    commonStyle (read.filterMap fun r => r.2[i]?.map Prod.snd))

/-- The most positions each level has. -/
def mostPositions (minL levels : ℤ) (read : Reading) : Option (List ℤ) :=
  read.foldlM (fun most r => do
    let level ← r.2[1]?
    let position ← r.2[2]?
    let l := level.1-minL
    let had ← if l < 0 then none else most[l.toNat]?
    return most.set l.toNat (max had position.1)) (List.replicate levels.toNat 1)

/-- The grid of a family, and how its bays, levels and positions are written. -/
structure Shape where
  grid : Grid
  bayStyle : Style
  levelStyle : Style
  positionStyle : Style
  deriving DecidableEq,Repr

def shapeOf (n : ℕ) (read : Reading) : Option Shape := do
  let (bays,bayStyle) := axis read 0
  let minB ← bays.min?
  let maxB ← bays.max?
  let sameParity := bays.all fun b => decide ((b-minB)%2 = 0)
  let bayStep : ℤ := if sameParity = true ∧ maxB > minB then 2 else 1
  let (levels,levelStyle) := if n ≥ 3 then axis read 1 else ([1],Style.plain)
  let minL ← levels.min?
  let maxL ← levels.max?
  let grid : Grid := {Grid.single with
    bays := (maxB-minB)/bayStep+1
    levels := maxL-minL+1
    firstBay := minB
    bayStep := bayStep
    firstLevel := minL}
  if n = 4 then
    let most ← mostPositions minL grid.levels read
    let positions := if most.any fun m => decide (m > 1) then most else []
    return ⟨{grid with positions := positions},bayStyle,levelStyle,(axis read 2).2⟩
  else return ⟨grid,bayStyle,levelStyle,.plain⟩

def styleText : Style → List Char
  | .plain => []
  | .padded w => ":0".toList++digits w
  | .letters => ":A".toList

def fieldText (name : String) (style : Style) : List Char :=
  '\x7b' :: (name.toList++styleText style++['\x7d'])

/-- The text of a family's pattern: its first part, then a field after each separator. -/
def patternText (key : FamilyKey) (shape : Shape) : Option (List Char) :=
  let fields := [fieldText "bay" shape.bayStyle,fieldText "level" shape.levelStyle,
    fieldText "position" shape.positionStyle]
  ((fields.take (key.n-1)).zipIdx).foldlM (fun text f => do
    let sep ← key.seps[f.2]?
    return text++[sep]++f.1) key.head

/-- The most cells the draft will give one place. -/
def mostCells : ℤ := 20000

def Grid.cellCount (g : Grid) : ℤ := g.bays*g.rows*((oneTo g.levels).map g.positionsAt).sum

/-- A place before it has a name. -/
structure Proposal where
  solid : Bool
  pattern : List Char
  grid : Grid
  bins : List (List Char × GridCell)
  deriving DecidableEq,Repr

/-- What a family comes to: the codes no cell is called, and a place for the others. -/
structure Outcome where
  unmatched : List (List Char)
  place : Option Proposal
  deriving DecidableEq,Repr

namespace Family
variable (f : Family)

/-- Most of the family is racking. -/
def solid : Bool := decide ((f.codes.filter fun c => c.2).length*2 ≥ f.codes.length)

/-- The grid of a family and the text of its pattern. -/
def shaped : Option (Grid × List Char) := do
  let read ← readCodes f.codes
  let shape ← shapeOf f.key.n read
  let text ← patternText f.key shape
  return (shape.grid,text)

/-- What the cells of a family's grid are called, unless its pattern cannot be read, it has
too many cells, or some cell has no name of its own. -/
def named (grid : Grid) (text : List Char) : Option (Option (List (GridCell × List Char))) :=
  match Pattern.parse text with
  | .error _ => some none
  | .ok pattern =>
    if grid.cellCount > mostCells then some none
    else
      match pattern.names grid with
      | .ok v => some (some v)
      | .error (.error _) => some none
      | .error .panics => none

end Family

/-- The cell with a name, the last to have it. -/
def cellNamed (names : List (GridCell × List Char)) (code : List Char) : Option GridCell :=
  (names.reverse.find? fun e => e.2 = code).map Prod.fst

def GridCell.order (a b : GridCell) : Ordering :=
  ((((compare a.bay b.bay).then (compare a.level b.level)).then (compare a.row b.row)).then
    (compare a.position b.position)).then (compare a.side b.side)

/-- One family of the list. -/
def propose (f : Family) : Option Outcome := do
  let (grid,text) ← f.shaped
  match ← Family.named grid text with
  | none => return ⟨f.codes.map Prod.fst,none⟩
  | some byName =>
    let placed := f.codes.filterMap fun c => (cellNamed byName c.1).map fun cell => (c.1,cell)
    let lost := (f.codes.filter fun c => (cellNamed byName c.1).isNone).map Prod.fst
    if placed = [] then return ⟨lost,none⟩
    else return ⟨lost,some ⟨f.solid,text,grid,Sorted.sortBy (fun a b => a.2.order b.2) placed⟩⟩

/-- `Rack C`, then `Rack C (2)` for a second family with the same first part. -/
def distinct (taken : List Char → ℕ) (base : List Char) : List Char × (List Char → ℕ) :=
  let n := taken base+1
  (if n = 1 then base else base++" (".toList++digits n++")".toList,Function.update taken base n)

def baseName (solid : Bool) (head : List Char) : List Char :=
  if solid then "Rack ".toList++head else head

/-- A family's turn: its codes left over, and its place named apart from those before. -/
def draftFamily (acc : (List Char → ℕ) × Draft) (f : Family) : Option ((List Char → ℕ) × Draft) := do
  let o ← propose f
  let unmatched := acc.2.unmatched++o.unmatched
  match o.place with
  | none => return (acc.1,{acc.2 with unmatched := unmatched})
  | some p =>
    let (name,taken) := distinct acc.1 (baseName p.solid f.key.head)
    return (taken,⟨acc.2.places++[⟨name,p.solid,p.pattern,p.grid,p.bins⟩],unmatched⟩)

/-- Propose one place per family of codes. -/
def draft (bins : List (List Char × Bool)) : Option Draft := do
  let strange := (bins.filter fun b => (familyOf b.1).isNone).map Prod.fst
  let (_,out) ← (families bins).foldlM draftFamily (fun _ => 0,⟨[],strange⟩)
  return {out with unmatched := Sorted.sortBy compare out.unmatched}

end Layout
end Spork
