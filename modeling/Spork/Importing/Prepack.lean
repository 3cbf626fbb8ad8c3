import Spork.Barcodes.Scan
import Spork.Lib.Numerals

/-! What a prepack row is about (`prepack.rs`): the bracket at the end of its name, what the
bracket says is in the carton, and what is said of it.

What Unicode has for small letters and for letters is taken as given. The catalogue is what
it answers; how it is indexed is apart. A build may check its arithmetic, and then stops
where a product does not fit, or wrap it. -/
namespace Spork
namespace Prepack

open Numerals

/-- What Unicode has for a text in small letters, and for a letter. -/
structure Letters where
  lower : List Char → List Char
  isAlphabetic : Char → Bool
  lower_ascii : ∀ s, (∀ c ∈ s, c.toNat < 128) → lower s = s.map Char.toLower
  isAlphabetic_ascii : ∀ c, c.toNat < 128 → isAlphabetic c = c.isAlpha

/-- What the catalogue says about a name. -/
inductive Known
  | item
  | style (n : ℕ)
  | nothing
  deriving DecidableEq,Repr

/-- The catalogue, indexed the two ways a name can hit it. -/
structure Catalogue where
  codes : List Char → Bool
  styles : List Char → Option ℕ

def Catalogue.lookup (c : Catalogue) (name : List Char) : Known :=
  if c.codes name then .item
  else
    match c.styles name with
    | some n => .style n
    | none => .nothing

/-- A text cut at the first of some characters. -/
def splitOnce (p : Char → Bool) : List Char → Option (List Char × List Char)
  | [] => none
  | c :: cs => if p c then some ([],cs) else (splitOnce p cs).map fun r => (c :: r.1,r.2)

/-- Four capitals at most, a separator, then three characters of a code or more, a digit one of
them. What is counted in bytes is of ASCII. -/
def looksLikeCode (name : List Char) : Bool :=
  match splitOnce (fun c => decide (c = '-' ∨ c = '.')) name with
  | none => false
  | some (head,tail) =>
    !head.isEmpty && decide (head.length ≤ 4) && head.all Char.isUpper && decide (tail.length ≥ 3) &&
      tail.all (fun c => Char.isAlphanum c || decide (c = '-' ∨ c = '.')) && tail.any Char.isDigit

/-- What a name says is in the carton it describes, each a 32-bit count. -/
structure Pack where
  innersPerCarton : Option ℕ
  unitsPerInner : Option ℕ
  deriving DecidableEq,Repr

/-- What 32 bits hold. -/
def limit : ℕ := 2^32

/-- A product in 32 bits: where it does not fit, a build that checks stops and one that does
not wraps it. -/
def times (checked : Bool) (n u : ℕ) : Option ℕ :=
  if n*u < limit then some (n*u) else if checked then none else some (n*u%limit)

def perCarton (t : ℕ) : List Char := digits t++" per carton".toList

def innersOf (n u t : ℕ) : List Char := digits n++" inners of ".toList++digits u++", ".toList++perCarton t

/-- A pack as it is printed, by what multiplies its counts. -/
def Pack.shownBy (mul : ℕ → ℕ → Option ℕ) (p : Pack) : Option (List Char) :=
  match p.innersPerCarton,p.unitsPerInner with
  | some n,some 1 => some (perCarton n)
  | some n,some u => (mul n u).map (innersOf n u)
  | some n,none => some (digits n++" inners, their count unstated".toList)
  | none,_ => some "a carton, its count unstated".toList

def trim (s : List Char) : List Char := Text.trim Barcodes.isWhiteSpace s

/-- What is before the last of a character, and after it. -/
def splitLast (c : Char) (s : List Char) : Option (List Char × List Char) :=
  (splitOnce (fun d => decide (d = c)) s.reverse).map fun r => (r.2.reverse,r.1.reverse)

/-- A name split at its trailing bracket, when it ends in one. -/
def bracket (name : List Char) : Option (List Char × List Char) := do
  let name := trim name
  let inner ← if name.getLast? = some ')' then some name.dropLast else none
  let (before,after) ← splitLast '(' inner
  let base := trim before
  if base = [] then none else some (base,trim after)

inductive Class
  | digit | letter | other
  deriving DecidableEq,Repr

variable (letters : Letters)

def classOf (c : Char) : Class :=
  if c.isDigit then .digit else if letters.isAlphabetic c then .letter else .other

/-- The words of a text, the last of them with its class while it goes on. -/
def wordsFrom : List Char → List (List Char) → Option Class → List (List Char)
  | [], out, _ => out
  | c :: cs, out, last =>
    if Barcodes.isWhiteSpace c || decide (c = ',') then wordsFrom cs out none
    else
      let k := classOf letters c
      match out.getLast? with
      | some w =>
        if last = some k then wordsFrom cs (out.dropLast++[w++[c]]) (some k)
        else wordsFrom cs (out++[[c]]) (some k)
      | none => wordsFrom cs (out++[[c]]) (some k)

/-- Words, numbers and anything else, split where one becomes another. -/
def words (said : List Char) : List (List Char) := wordsFrom letters (letters.lower said) [] none

def cartonWords : List (List Char) := ["ctn".toList,"ctns".toList,"carton".toList,"cartons".toList]
def innerWords : List (List Char) :=
  ["box".toList,"boxes".toList,"inner".toList,"inners".toList,"pack".toList,"packs".toList]
def unitWords : List (List Char) :=
  ["unit".toList,"units".toList,"pcs".toList,"pc".toList,"each".toList,"ea".toList]

def saysCarton (said : List Char) : Bool := (words letters said).any fun w => decide (w ∈ cartonWords)

inductive Token
  | n (count : ℕ)
  | inner
  | unit
  deriving DecidableEq,Repr

/-- A count in 32 bits, of a word of digits. A sign is never in one word with them. -/
def parseCount (w : List Char) : Option ℕ :=
  if w ≠ [] ∧ w.all Char.isDigit ∧ value w < limit then some (value w) else none

/-- The words as counts, inners and units, and whether one is for a carton. None when a word
is not known. -/
def tokens : List (List Char) → Bool → List Token → Option (Bool × List Token)
  | [], carton, ts => some (carton,ts)
  | w :: ws, carton, ts =>
    if w ∈ cartonWords then tokens ws true ts
    else if w = ['x'] then tokens ws carton ts
    else if w ∈ innerWords then tokens ws carton (ts++[.inner])
    else if w ∈ unitWords then tokens ws carton (ts++[.unit])
    else
      match parseCount w with
      | some n => if n > 0 then tokens ws carton (ts++[.n n]) else none
      | none => none

/-- What the tokens of a bracket say. -/
def packOf (carton : Bool) (ts : List Token) : Option Pack :=
  match ts with
  | [] => if carton then some ⟨none,none⟩ else none
  | [.n n] => some ⟨some n,some 1⟩
  | [.n n,.unit] => some ⟨some n,some 1⟩
  | [.n n,.inner] => some ⟨some n,none⟩
  | [.n n,.inner,.n u] => some ⟨some n,some u⟩
  | [.n n,.n u,.inner] => some ⟨some n,some u⟩
  | [.n n,.inner,.n total,.unit] => if total%n = 0 then some ⟨some n,some (total/n)⟩ else none
  | _ => none

/-- What a bracket says about the carton, when it can be read. -/
def contents (said : List Char) : Option Pack := do
  let (carton,ts) ← tokens (words letters said) false []
  packOf carton ts

/-- What a row is about. -/
inductive Subject
  | item (code : List Char)
  | style (code : List Char) (variants : ℕ)
  | container (name : List Char)
  | unresolved (name : List Char)
  deriving DecidableEq,Repr

/-- The decision for one row. -/
structure Decision where
  subject : Subject
  pack : Option Pack
  /-- The name's bracket, when it had one that could not be read. -/
  unread : Option (List Char)
  because : List Char
  deriving DecidableEq,Repr

def resolve (name : List Char) (catalogue : Catalogue) : Subject × List Char :=
  match catalogue.lookup name with
  | .item => (.item name,"the catalogue has this exact code".toList)
  | .style n => (.style name n,"no such code; ".toList++digits n++" items are variants of it".toList)
  | .nothing =>
    if looksLikeCode name then
      (.unresolved name,"shaped like a stock code, and the catalogue has never heard of it".toList)
    else (.container name,"not a code, and the catalogue has never heard of it".toList)

def Subject.isContainer : Subject → Bool
  | .container _ => true
  | _ => false

/-- A row read whole. -/
def whole (name : List Char) (catalogue : Catalogue) : Decision :=
  let (subject,because) := resolve name catalogue
  ⟨subject,none,none,because⟩

/-- What is said of a bracket. -/
def readingOf (mul : ℕ → ℕ → Option ℕ) (said : List Char) : Option Pack → Option (List Char)
  | some p => (p.shownBy mul).map fun t => "the name states ".toList++t
  | none => some ("the name's (".toList++said++
      ") is not a count this reads, so what is in the carton is left unrecorded".toList)

/-- The decision for one row, by what multiplies the counts it prints. None where the
program stops. -/
def decideBy (mul : ℕ → ℕ → Option ℕ) (name : List Char) (catalogue : Catalogue) : Option Decision :=
  let name := trim name
  if catalogue.lookup name ≠ .nothing then some (whole name catalogue)
  else
    match bracket name with
    | none => some (whole name catalogue)
    | some (base,said) => do
      let pack := contents letters said
      let unread := if pack.isNone then some said else none
      let reading ← readingOf mul said pack
      let (subject,because) := resolve base catalogue
      if subject.isContainer then
        if pack.isNone && !saysCarton letters said then some (whole name catalogue)
        else some ⟨.unresolved base,pack,unread,
          "the name says what is in it, so it is a product's carton and not a box, and the catalogue has never heard of ".toList++
            base++"; ".toList++reading⟩
      else some ⟨subject,pack,unread,because++"; ".toList++reading⟩

/-- The code's, with 32-bit counts. -/
def decideRow (checked : Bool) (name : List Char) (catalogue : Catalogue) : Option Decision :=
  decideBy letters (times checked) name catalogue

end Prepack
end Spork
