import Spork.Lib.Text

/-! What a scanner just handed us, read into whatever it turned out to carry
(`barcodes.rs`). A string is its characters; a step that panics is none. -/
namespace Spork
namespace Barcodes

open Text

abbrev Str := List Char

instance lawfulStr : LawfulBEq Str := inferInstance

/-- What a step gives, nothing when it panics. -/
abbrev Ran := Option

/-- The separator that ends a variable-length element. -/
def fnc1 : Char := Char.ofNat 0x1D

/-- What a scan turned out to contain. -/
structure Scanned where
  raw : Str
  gtin : Option Str
  sscc : Option Str
  lot : Option Str
  expiry : Option Str
  serial : Option Str
  /-- Application identifiers not interpreted, in the order read. -/
  other : List (Str × Str)
  gs1 : Bool
  deriving DecidableEq, Repr

def Scanned.bare (raw : Str) : Scanned := ⟨raw,none,none,none,none,none,[],false⟩

def Scanned.isStructured (s : Scanned) : Bool := s.gtin.isSome || s.sscc.isSome

/-- The characters `trim` takes off. -/
def isWhiteSpace (c : Char) : Bool :=
  c.toNat ∈ [0x20,0x85,0xA0,0x1680,0x2028,0x2029,0x202F,0x205F,0x3000] ||
    decide (0x9 ≤ c.toNat ∧ c.toNat ≤ 0xD) || decide (0x2000 ≤ c.toNat ∧ c.toNat ≤ 0x200A)

def toDigit (c : Char) : Option ℕ := if c.isDigit then some (c.toNat-48) else none

/-- The mod-10 check digit for a body of digits, weighted 3 and 1 from its right. -/
def checkDigit (body : Str) : Option ℕ :=
  if body.isEmpty || !body.all Char.isDigit then none
  else
    let sum := (body.reverse.zipIdx.map fun c =>
      (toDigit c.1).getD 0*if c.2%2 = 0 then 3 else 1).sum
    some ((10-sum%10)%10)

/-- Whether the last of a number's digits, after `bodyLen`, checks the others. -/
def checks (s : Str) (bodyLen : ℕ) : Ran Bool := do
  let (body,given) ← splitAt bodyLen s
  return checkDigit body == given.head?.bind toDigit

/-- Whether a string is a GTIN of a length issued, with a sound check digit. -/
def isGtin (s : Str) : Ran Bool :=
  if ¬byteLen s ∈ [8,12,13,14] || !s.all Char.isDigit then some false
  else checks s (byteLen s-1)

/-- A GTIN in the fourteen characters everything is stored and compared in. -/
def normaliseGtin (s : Str) : Ran (Option Str) := do
  if ← isGtin s then return some (s.leftpad 14 '0') else return none

def ssccOk (s : Str) : Ran Bool := checks s 17

/-- Eighteen digits that check, whether or not they arrived under an identifier. -/
def isSscc (raw : Str) : Ran Bool :=
  if byteLen raw = 18 ∧ raw.all Char.isDigit then ssccOk raw else some false

/-- Strip the symbology prefix a scanner may prepend. -/
def stripAim (raw : Str) : Ran Str :=
  if byteLen raw > 3 ∧ raw.head? = some ']' then (splitAt 3 raw).map Prod.snd else some raw

/-- Fixed-length application identifiers, and their lengths. -/
def fixedLength (ai : Str) : Option ℕ :=
  if ai = ['0','0'] then some 18
  else if ai = ['0','1'] then some 14
  else if ai = ['0','2'] then some 14
  else if ai ∈ [['1','1'],['1','2'],['1','3'],['1','5'],['1','6'],['1','7']] then some 6
  else if ai = ['2','0'] then some 2
  else none

/-- Variable-length ones, and their maximum. -/
def variableMax (ai : Str) : Option ℕ :=
  if ai = ['1','0'] then some 20
  else if ai = ['2','1'] then some 20
  else if ai = ['3','0'] then some 8
  else if ai = ['3','7'] then some 8
  else none

/-- Where the four-digit identifiers of weights and measures start. -/
def measures : List Str :=
  [['3','1'],['3','2'],['3','3'],['3','4'],['3','5'],['3','6'],['3','9']]

/-- Where the next separator is, from `start`, or the end. -/
def separator (chars : Str) (start : ℕ) : Ran ℕ := do
  let rest ← slice chars start chars.length
  return ((rest.findIdx? (· = fnc1)).map (start+·)).getD chars.length

/-! ## One element after another -/

/-- How far a reading is, what it read and whether it read anything. -/
structure Reading where
  i : ℕ
  out : Scanned
  readAny : Bool
  deriving DecidableEq, Repr

/-- A weight or measure, its identifier four digits and its value six, kept as it is. -/
def readMeasure (chars : Str) (i : ℕ) (out : Scanned) : Ran Reading := do
  let fullAi ← slice chars i (i+min 4 (chars.length-i))
  let start := i+4
  let stop := min (start+6) chars.length
  if start ≤ stop then
    let value ← slice chars start stop
    return ⟨stop,{out with other := out.other++[(fullAi,value)]},true⟩
  else return ⟨stop,out,true⟩

/-- An identifier not known here, kept with all there is up to a separator. -/
def readUnknown (chars : Str) (ai : Str) (bodyStart : ℕ) (out : Scanned) : Ran Reading := do
  let stop ← separator chars bodyStart
  let value ← slice chars bodyStart stop
  return ⟨if stop < chars.length then stop+1 else stop,
    {out with other := out.other++[(ai,value)]},true⟩

/-- The value of one of fixed length, and where it ends. -/
def fixedValue (chars : Str) (len bodyStart : ℕ) : Ran (Str × ℕ) := do
  let stop := min (bodyStart+len) chars.length
  return (← slice chars bodyStart stop,stop)

def isSeparator (chars : Str) (i : ℕ) : Ran Bool :=
  if i < chars.length then chars[i]?.map (decide <| · = fnc1) else some false

/-- The value of one of variable length, up to a separator or its maximum, and what is
after the separator when there is one. -/
def variableValue (chars : Str) (most bodyStart : ℕ) : Ran (Str × ℕ) := do
  let stop := min (← separator chars bodyStart) (bodyStart+most)
  let value ← slice chars bodyStart stop
  return (value,if ← isSeparator chars stop then stop+1 else stop)

/-- What an identifier's value is kept as. -/
def keep (ai value : Str) (out : Scanned) : Ran Scanned :=
  if ai = ['0','1'] ∨ ai = ['0','2'] then do
    let gtin ← normaliseGtin value
    return {out with
      gtin := gtin
      other := if gtin.isNone then out.other++[(ai,value)] else out.other}
  else if ai = ['0','0'] then some {out with sscc := some value}
  else if ai = ['1','0'] then some {out with lot := some value}
  else if ai = ['1','7'] then some {out with expiry := some value}
  else if ai = ['2','1'] then some {out with serial := some value}
  else some {out with other := out.other++[(ai,value)]}

def readKnown (ai : Str) (valued : Ran (Str × ℕ)) (out : Scanned) : Ran Reading := do
  let (value,next) ← valued
  return ⟨next,← keep ai value out,true⟩

def readElement (chars : Str) (ai : Str) (i : ℕ) (out : Scanned) : Ran Reading :=
  if ai ∈ measures ∧ i+3 < chars.length then readMeasure chars i out
  else
    match fixedLength ai,variableMax ai with
    | some len,_ => readKnown ai (fixedValue chars len (i+2)) out
    | none,some most => readKnown ai (variableValue chars most (i+2)) out
    | none,none => readUnknown chars ai (i+2) out

/-- One turn of the loop: nothing further once no identifier is next. -/
def turn (chars : Str) (s : Reading) : Ran (Option Reading) :=
  if s.i+2 ≤ chars.length then do
    -- a separator may follow a fixed-length element too
    if (← chars[s.i]?) = fnc1 then return some {s with i := s.i+1}
    else
      let ai ← slice chars s.i (s.i+2)
      if ai.all Char.isDigit then return some (← readElement chars ai s.i s.out)
      else return none
  else some none

/-- The loop, in as many turns at most. -/
def readFrom (chars : Str) : ℕ → Reading → Ran Reading
  | 0, _ => none
  | turns+1, s =>
    match turn chars s with
    | none => none
    | some none => some s
    | some (some s') => readFrom chars turns s'

/-- The whole string as the thing, when it is one. -/
def parseBare (raw : Str) : Ran (Option Scanned) := do
  match ← normaliseGtin raw with
  | some g => return some {Scanned.bare raw with gtin := some g}
  | none =>
    if ← isSscc raw then return some {Scanned.bare raw with sscc := some raw} else return none

/-- The string as an element string. Each turn gets on by a character at least. -/
def parseElements (raw : Str) : Ran Scanned := do
  let s ← readFrom raw (raw.length+1) ⟨0,Scanned.bare raw,false⟩
  let gs1 := s.readAny && (s.out.isStructured || !s.out.other.isEmpty || s.out.lot.isSome)
  return if gs1 then {s.out with gs1 := gs1} else Scanned.bare raw

/-- Read a scanned string into whatever it turned out to carry. -/
def parse (input : Str) : Ran Scanned := do
  let raw := trim (· = fnc1) (← stripAim (trim isWhiteSpace input))
  match ← parseBare raw with
  | some s => return s
  | none => parseElements raw

end Barcodes
end Spork
