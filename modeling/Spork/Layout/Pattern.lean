import Spork.Layout.Grid
import Spork.Barcodes.Scan
import Spork.Lib.Numerals
import Spork.Lib.Requests

/-! Naming patterns (`layout.rs`): literal text with fields in braces, read from its text,
and the name it gives each cell of a grid. -/
namespace Spork
namespace Layout

open Numerals

inductive Field
  | bay | level | row | position
  deriving DecidableEq,Repr

inductive Style
  | plain
  | padded (width : ℕ)
  | letters
  deriving DecidableEq,Repr

inductive Piece
  | text (t : List Char)
  | field (f : Field) (style : Style)
  deriving DecidableEq,Repr

/-- A parsed pattern. -/
structure Pattern where
  pieces : List Piece
  deriving DecidableEq,Repr

/-- What writing a number can come to besides its text: an error, or a width the formatter
does not take, which stops the program. -/
inductive Failure
  | error (why : String)
  | panics
  deriving DecidableEq,Repr

def asString (s : List Char) : String := String.ofList s

def trim (s : List Char) : List Char := Text.trim Barcodes.isWhiteSpace s

/-! ## Numbers as they are written -/

/-- A number in decimal, at least so wide, its zeros after its sign. -/
def decimal (width : ℕ) (n : ℤ) : List Char :=
  if n < 0 then '-' :: (digits n.natAbs).leftpad (width-1) '0' else (digits n.natAbs).leftpad width '0'

/-- The letters of a number, the last first, at most so many. -/
def lettersBack : ℕ → ℕ → List Char
  | 0, _ => []
  | _+1, 0 => []
  | k+1, n+1 => Char.ofNat (65+n%26) :: lettersBack k (n/26)

/-- 1 is `A`, 26 is `Z`, 27 is `AA`. -/
def letters (n : ℤ) : Except Failure (List Char) :=
  if n < 1 then .error (.error (toString n++" has no letter: lettering starts at 1, which is A"))
  else .ok (lettersBack n.toNat n.toNat).reverse

/-- The widest the standard library's formatter pads to: its widths are 16 bits. -/
def widest : ℕ := 65535

def formatNumber (n : ℤ) : Style → Except Failure (List Char)
  | .plain => .ok (decimal 0 n)
  | .padded w => if w ≤ widest then .ok (decimal w n) else .error .panics
  | .letters => letters n

/-! ## A pattern from its text -/

def fieldNamed (s name : List Char) : Except String Field :=
  if name = "bay".toList then .ok .bay
  else if name = "level".toList then .ok .level
  else if name = "row".toList then .ok .row
  else if name = "position".toList then .ok .position
  else .error ("`"++asString s++"` names a field `"++asString name++
    "`; a pattern knows bay, level, row and position")

/-- How wide to pad to, as a run of digits gives it, and not at all past 64 bits. -/
def padWidth (ds : List Char) : ℕ := if value ds < 2^64 then value ds else 0

def styleOf (s : List Char) : Option (List Char) → Except String Style
  | none => .ok .plain
  | some spec =>
    if spec = ['A'] then .ok .letters
    else if spec.length ≥ 2 ∧ spec.head? = some '0' ∧ spec.tail.all Char.isDigit then
      .ok (.padded (padWidth spec.tail))
    else .error ("`"++asString s++"` formats a field as `"++asString spec++
      "`; say `02` to pad to two digits or `A` for letters")

/-- A text cut at its first colon. -/
def splitColon : List Char → Option (List Char × List Char)
  | [] => none
  | c :: cs => if c = ':' then some ([],cs) else (splitColon cs).map fun p => (c :: p.1,p.2)

/-- A field, from what stands between its braces. -/
def fieldOf (s inner : List Char) : Except String Piece := do
  let (name,spec) :=
    match splitColon inner with
    | some (n,sp) => (trim n,some (trim sp))
    | none => (trim inner,none)
  let field ← fieldNamed s name
  let style ← styleOf s spec
  return .field field style

/-- The text before a field, when there is any. -/
def flush (text : List Char) : List Piece := if text = [] then [] else [.text text]

def unclosed (s : List Char) : String := "`"++asString s++"` opens a field it does not close"

/-- The pieces of a text, read a character at a time: the text since the last field, and
what an open brace has so far. -/
def readPieces (s : List Char) :
    List Char → List Char → Option (List Char) → List Piece → Except String (List Piece)
  | [], text, none, pieces => .ok (pieces++flush text)
  | [], _, some _, _ => .error (unclosed s)
  | c :: cs, text, none, pieces =>
    if c = '\x7b' then readPieces s cs text (some []) pieces
    else if c = '\x7d' then .error ("`"++asString s++"` closes a field it never opened")
    else readPieces s cs (text++[c]) none pieces
  | c :: cs, text, some inner, pieces =>
    if c = '\x7d' then do
      let field ← fieldOf s inner
      readPieces s cs [] none (pieces++flush text++[field])
    else if c = '\x7b' then .error (unclosed s)
    else readPieces s cs text (some (inner++[c])) pieces

def Piece.isField : Piece → Bool
  | .field _ _ => true
  | .text _ => false

/-- What a piece is at a cell. -/
def Piece.render (g : Grid) (c : GridCell) : Piece → Except Failure (List Char)
  | .text t => .ok t
  | .field f style =>
    let n := match f with
      | .bay => g.labelNumber c.side c.bay
      | .level => g.levelNumber c.level
      | .row => c.row
      | .position => c.position
    formatNumber n style

namespace Pattern

def parse (s : List Char) : Except String Pattern := do
  let pieces ← readPieces s s [] none []
  if pieces.any Piece.isField then .ok ⟨pieces⟩
  else .error ("`"++asString s++"` has no fields, so every cell would have the same name")

variable (p : Pattern)

def hasField (f : Field) : Bool :=
  p.pieces.any fun
    | .field g _ => decide (g = f)
    | .text _ => false

/-- Why this pattern cannot name every cell of this grid apart, if it cannot: a field is
missing for an axis with more than one cell. -/
def gap (g : Grid) : Option String :=
  let needs := [(decide (g.bays > 1),Field.bay,"bay"),(decide (g.levels > 1),Field.level,"level"),
    (decide (g.rows > 1),Field.row,"row"),
    (g.positions.any fun n => decide (n > 1),Field.position,"position")]
  (needs.find? fun n => n.1 && !p.hasField n.2.1).map fun n =>
    "it has no \x7b"++n.2.2++"\x7d, so two cells would share a name"

/-- The name of a cell. -/
def render (g : Grid) (c : GridCell) : Except Failure (List Char) :=
  p.pieces.foldlM (fun out piece => do return out++(← piece.render g c)) []

/-- The cells with their names, so far as no two have one. -/
def namesFrom (g : Grid) :
    List GridCell → List (List Char) → Except Failure (List (GridCell × List Char))
  | [], _ => .ok []
  | c :: cs, seen => do
    let name ← p.render g c
    if name ∈ seen then .error (.error ("it names two cells `"++asString name++"`"))
    else return (c,name) :: (← namesFrom g cs (name :: seen))

/-- Every cell and its bin's name, refusing a pattern that cannot tell two cells apart. -/
def names (g : Grid) : Except Failure (List (GridCell × List Char)) :=
  match p.gap g with
  | some why => .error (.error why)
  | none => p.namesFrom g g.cells []

/-! ## What a name that is given is -/

variable {p} {g : Grid}

theorem namesFrom_ok {cs : List GridCell} {seen : List (List Char)} {ns : List (GridCell × List Char)}
    (h : p.namesFrom g cs seen = .ok ns) :
    ns.map Prod.fst = cs ∧ (ns.map Prod.snd).Nodup ∧ (∀ e ∈ ns, e.2 ∉ seen) ∧
      ∀ e ∈ ns, p.render g e.1 = .ok e.2 := by
  induction cs generalizing seen ns with
  | nil =>
    cases h
    simp
  | cons c cs ih =>
    obtain ⟨name,hname,h⟩ := Requests.bind_ok h
    split_ifs at h with hseen
    obtain ⟨rest,hrest,h⟩ := Requests.bind_ok h
    cases h
    obtain ⟨hcells,hapart,hunseen,hrendered⟩ := ih hrest
    refine ⟨by simp [hcells],?_,?_,?_⟩
    · rw [List.map_cons,List.nodup_cons]
      refine ⟨?_,hapart⟩
      intro hin
      obtain ⟨e,he,heq⟩ := List.mem_map.mp hin
      exact hunseen e he (heq ▸ List.mem_cons_self)
    · intro e he
      rcases List.mem_cons.mp he with rfl | hin
      · exact hseen
      · exact fun hold => hunseen e hin (List.mem_cons_of_mem name hold)
    · intro e he
      rcases List.mem_cons.mp he with rfl | hin
      · exact hname
      · exact hrendered e hin

/-- Names given are one for each cell, no two alike, each as the pattern has it. -/
theorem names_ok {ns : List (GridCell × List Char)} (h : p.names g = .ok ns) :
    ns.map Prod.fst = g.cells ∧ (ns.map Prod.snd).Nodup ∧ ∀ e ∈ ns, p.render g e.1 = .ok e.2 := by
  unfold names at h
  split at h
  · cases h
  · obtain ⟨hcells,hapart,-,hrendered⟩ := namesFrom_ok h
    exact ⟨hcells,hapart,hrendered⟩

/-! ## Where naming stops the program -/

/-- A cell's name comes to a number to pad past what the formatter takes, every piece before
it written. -/
def Overwide (p : Pattern) (g : Grid) (c : GridCell) : Prop :=
  ∃ before f w after, p.pieces = before++.field f (.padded w) :: after ∧ widest < w ∧
    ∀ q ∈ before, ∃ t, q.render g c = .ok t

/-- A piece stops the program where it is a number to pad too wide, at any cell. -/
theorem piece_panics {c : GridCell} {q : Piece} :
    q.render g c = .error .panics ↔ ∃ f w, q = .field f (.padded w) ∧ widest < w := by
  cases q with
  | text t => simp [Piece.render]
  | field f style =>
    cases style with
    | plain => simp [Piece.render,formatNumber]
    | padded w =>
      by_cases hw : w ≤ widest
      · simp [Piece.render,formatNumber,hw]
      · simp [Piece.render,formatNumber,hw,Nat.lt_of_not_le hw]
    | letters =>
      simp only [Piece.render,formatNumber,letters]
      split_ifs <;> simp

theorem renderFrom_panics {c : GridCell} {qs : List Piece} {out : List Char} :
    qs.foldlM (fun out piece => do return out++(← piece.render g c)) out = .error .panics ↔
      ∃ before q after, qs = before++q :: after ∧ q.render g c = .error .panics ∧
        ∀ r ∈ before, ∃ t, r.render g c = .ok t := by
  induction qs generalizing out with
  | nil =>
    constructor
    · intro h
      cases h
    · rintro ⟨before,q,after,h,-⟩
      simp at h
  | cons q qs ih =>
    rw [List.foldlM_cons]
    cases hq : q.render g c with
    | error why =>
      constructor
      · intro h
        exact ⟨[],q,qs,rfl,hq.trans h,by simp⟩
      · rintro ⟨before,r,after,h,hr,hbefore⟩
        cases before with
        | nil =>
          obtain ⟨rfl,-⟩ := List.cons.inj h
          exact hq.symm.trans hr
        | cons b before =>
          obtain ⟨rfl,-⟩ := List.cons.inj h
          obtain ⟨t,ht⟩ := hbefore q List.mem_cons_self
          rw [hq] at ht
          cases ht
    | ok t =>
      refine Iff.trans (@ih (out++t)) ?_
      constructor
      · rintro ⟨before,r,after,rfl,hr,hbefore⟩
        refine ⟨q :: before,r,after,rfl,hr,?_⟩
        intro b hb
        rcases List.mem_cons.mp hb with rfl | hin
        · exact ⟨t,hq⟩
        · exact hbefore b hin
      · rintro ⟨before,r,after,h,hr,hbefore⟩
        cases before with
        | nil =>
          obtain ⟨rfl,-⟩ := List.cons.inj h
          rw [hq] at hr
          cases hr
        | cons b before =>
          obtain ⟨rfl,rfl⟩ := List.cons.inj h
          exact ⟨before,r,after,rfl,hr,fun b hb => hbefore b (List.mem_cons_of_mem _ hb)⟩

theorem render_panics {c : GridCell} : p.render g c = .error .panics ↔ p.Overwide g c := by
  rw [render,renderFrom_panics]
  constructor
  · rintro ⟨before,q,after,h,hq,hbefore⟩
    obtain ⟨f,w,rfl,hw⟩ := piece_panics.mp hq
    exact ⟨before,f,w,after,h,hw,hbefore⟩
  · rintro ⟨before,f,w,after,h,hw,hbefore⟩
    exact ⟨before,_,after,h,piece_panics.mpr ⟨f,w,rfl,hw⟩,hbefore⟩

theorem renderFrom_ok {c : GridCell} {qs : List Piece} {out t : List Char}
    (h : qs.foldlM (fun out piece => do return out++(← piece.render g c)) out = .ok t) :
    ∀ q ∈ qs, ∃ t, q.render g c = .ok t := by
  induction qs generalizing out with
  | nil => simp
  | cons q qs ih =>
    rw [List.foldlM_cons] at h
    obtain ⟨out',hout,h⟩ := Requests.bind_ok h
    obtain ⟨t',ht,-⟩ := Requests.bind_ok hout
    intro r hr
    rcases List.mem_cons.mp hr with rfl | hin
    · exact ⟨t',ht⟩
    · exact ih h r hin

/-- Once one cell has a name no cell's stops the program. -/
theorem not_overwide {c d : GridCell} {t : List Char} (h : p.render g c = .ok t) : ¬p.Overwide g d := by
  rintro ⟨before,f,w,after,hpieces,hw,-⟩
  obtain ⟨t,ht⟩ := renderFrom_ok h (.field f (.padded w)) (by simp [hpieces])
  rw [piece_panics.mpr ⟨f,w,rfl,hw⟩] at ht
  cases ht

theorem namesFrom_panics {cs : List GridCell} {seen : List (List Char)} :
    p.namesFrom g cs seen = .error .panics ↔ ∃ c ∈ cs.head?, p.Overwide g c := by
  induction cs generalizing seen with
  | nil => simp [namesFrom]
  | cons c cs ih =>
    simp only [List.head?_cons,Option.mem_def,Option.some.injEq,exists_eq_left',namesFrom]
    cases hc : p.render g c with
    | error why =>
      rw [← render_panics,hc]
      constructor
      · intro h
        rw [Except.error.inj h]
      · intro h
        rw [Except.error.inj h]
        rfl
    | ok name =>
      have hnot (d : GridCell) : ¬p.Overwide g d := not_overwide hc
      refine iff_of_false ?_ (hnot c)
      intro h
      have hrest (seen' : List (List Char)) : p.namesFrom g cs seen' ≠ .error .panics := by
        intro hr
        obtain ⟨d,-,hd⟩ := ih.mp hr
        exact hnot d hd
      change (if name ∈ seen then _ else _) = _ at h
      split_ifs at h with hseen
      · cases h
      · cases hr : p.namesFrom g cs (name :: seen) with
        | error why =>
          rw [hr] at h
          exact hrest _ (hr.trans h)
        | ok rest =>
          rw [hr] at h
          cases h

/-- Naming a grid's cells stops the program where its first cell's name does. -/
theorem names_panics :
    p.names g = .error .panics ↔ p.gap g = none ∧ ∃ c ∈ g.cells.head?, p.Overwide g c := by
  unfold names
  split
  · rename_i why hwhy
    simp [hwhy]
  · rename_i hnone
    rw [namesFrom_panics]
    simp [hnone]

end Pattern
end Layout
end Spork
