import Spork.Packing.FitInto

/-! What the bench's screen reads (client/domain/types.ts): the lines of an order, the
cartons made of it, the box presets, the parcels planned and the carriers. How things look
and what they are called is left out. -/
namespace Spork
namespace Drag

open Packing (Uuid Level BenchLine StatedSize Preset)

/-- What a parcel is named by: its row, or, worked out from what is left, a line and the
level it ships as it is at. -/
inductive Id
  | row (id : Uuid)
  | asIs (line : Uuid) (level : Level)
  deriving DecidableEq, Repr

/-- A line checked at the bench: what should have been there and what was seen. -/
structure LineCheck where
  expected : ℤ
  seen : ℤ
  deriving DecidableEq, Repr

/-- A line as the screen has it. -/
structure ScreenLine extends BenchLine where
  committed : ℤ
  /-- Which case pack its own carton is. -/
  ownCarton : Option Uuid
  check : Option LineCheck
  deriving DecidableEq, Repr

/-- A row of a carton's contents: so many of a line's item. -/
structure PackedRow where
  lineId : Uuid
  itemId : Uuid
  itemCode : String
  quantity : ℤ
  deriving DecidableEq, Repr

inductive RuleKind
  | height | weight | overhangSides | overhangEnds | labels | support | heavy | loose | together | columns
  | lowAndCentred | flatTop
  deriving DecidableEq, Repr

inductive Strength
  | must | prefer | off
  deriving DecidableEq, Repr

structure BuildRule where
  kind : RuleKind
  strength : Strength
  amount : Option ℚ
  deriving DecidableEq, Repr

/-- A set of build rules as one version has them. -/
structure RuleSet where
  rules : List BuildRule
  deriving DecidableEq, Repr

structure BenchCarrier where
  id : Uuid
  usual : Bool
  asOne : Option RuleSet
  deriving DecidableEq, Repr

inductive Kind
  | box | pallet | asIs
  deriving DecidableEq, Repr

structure CartonSummary where
  id : Id
  packageType : Option String
  /-- A product's own carton's weight by the record. -/
  listedWeightG : Option ℚ
  isSealed : Bool
  grossWeightG : Option ℚ
  statedSize : Option StatedSize
  /-- What it is expected to weigh. -/
  expectedG : Option ℚ
  contents : List PackedRow
  kind : Kind
  /-- A pallet broken down at the depot. -/
  breaksDown : Bool
  /-- What it is in or on now. -/
  on : Option Id
  rules : Option RuleSet
  deriving DecidableEq, Repr

/-- A preset as the screen has it: a pallet or skid has a deck. -/
structure ScreenPreset extends Preset where
  deck : Option (ℤ × ℤ)
  deriving DecidableEq, Repr

/-- A spot on a pallet. -/
structure Spot where
  x : ℤ
  y : ℤ
  z : ℤ
  turned : Bool
  deriving DecidableEq, Repr

/-- One of an item at a level, as it is. -/
structure PlannedAsIs where
  itemId : Uuid
  level : Level
  /-- Which of its cases, for an inner or a carton. -/
  configId : Option Uuid
  deriving DecidableEq, Repr

/-- So many of a line's units planned into a parcel. -/
structure PlannedLine where
  lineId : Uuid
  quantity : ℤ
  deriving DecidableEq, Repr

/-- A parcel planned and not yet made: the id its carton will be made with. -/
structure PlannedParcel where
  id : Id
  /-- The box type it is a box of; none for a thing as it is. -/
  packageTypeId : Option Uuid
  asIs : Option PlannedAsIs
  /-- The planned pallet it goes on, or one already made. -/
  onParcelId : Option Id
  onPackageId : Option Id
  spot : Option Spot
  /-- The packer placed it, rather than Suggest. -/
  placedByHand : Bool
  carrierId : Option Uuid
  lines : List PlannedLine
  deriving DecidableEq, Repr

structure BenchScreen where
  lines : List ScreenLine
  cartons : List CartonSummary
  presets : List ScreenPreset
  plan : List PlannedParcel
  carriers : List BenchCarrier
  deriving DecidableEq, Repr

/-- How many fewer were seen than the line commits, when its check is of what it commits
now (`checkOf`). -/
def shortOf (l : ScreenLine) : ℤ :=
  match l.check with
  | none => 0
  | some c => if c.expected ≠ l.committed then 0 else if c.seen < c.expected then c.expected-c.seen else 0

/-- A rule of a set, when the set has it on. -/
def ruleOf (set : Option RuleSet) (kind : RuleKind) : Option BuildRule :=
  (set.bind fun s => s.rules.find? (·.kind = kind)).filter (·.strength ≠ .off)

/-- The carrier a pallet not yet made is built for: the one said, or the usual one. -/
def carrierOf (screen : BenchScreen) (said : Option Uuid) : Option BenchCarrier :=
  screen.carriers.find? fun c =>
    match said with
    | some id => c.id = id
    | none => c.usual

/-- Whether a pallet weighing so much is refused: past a must of its rules. -/
def heavierThan (rules : Option RuleSet) (grams : ℚ) : Bool :=
  match ruleOf rules .weight with
  | none => false
  | some rule =>
    match rule.amount with
    | none => false
    | some amount => !(grams ≤ amount) && rule.strength = .must

end Drag
end Spork
