import Mathlib

/-! The parcels a packer plans on the board and has not made (client/domain/types.ts). -/
namespace Spork
namespace Bench

abbrev Uuid := Fin (2^128)

instance someUuid : NeZero (2^128) := ⟨by norm_num⟩

/-- A place on a pallet. -/
structure Spot where
  x : ℤ
  y : ℤ
  z : ℤ
  turned : Bool
  deriving DecidableEq, Repr

inductive Level
  | each | inner | carton
  deriving DecidableEq, Repr

/-- One of an item at a level, as it is. -/
structure PlannedAsIs where
  item : Uuid
  level : Level
  /-- Which of its cases, for an inner or a carton. -/
  config : Option Uuid
  deriving DecidableEq, Repr

/-- So many of a line's units planned into a parcel. -/
structure PlannedLine where
  line : Uuid
  quantity : ℤ
  deriving DecidableEq, Repr

/-- A parcel planned on the board and not yet made: the id its carton will be made with. -/
structure PlannedParcel where
  id : Uuid
  packageType : Option Uuid
  asIs : Option PlannedAsIs
  /-- The planned pallet it goes on, or one already made. -/
  onParcel : Option Uuid
  onPackage : Option Uuid
  spot : Option Spot
  /-- The packer placed it, rather than Suggest. -/
  placedByHand : Bool
  carrier : Option Uuid
  lines : List PlannedLine
  deriving DecidableEq, Repr

end Bench
end Spork
