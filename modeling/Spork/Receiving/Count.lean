import Mathlib

/-! What the dock counted, in the item's base unit (`receiving.rs`, `resolve_count`). -/
namespace Spork
namespace Receiving

inductive PackagingLevel
  | each | inner | carton | layer | pallet
  deriving DecidableEq, Repr

namespace PackagingLevel

def asStr : PackagingLevel → String
  | .each => "each"
  | .inner => "inner"
  | .carton => "carton"
  | .layer => "layer"
  | .pallet => "pallet"

def parse : String → Option PackagingLevel
  | "each" => some .each
  | "inner" => some .inner
  | "carton" => some .carton
  | "layer" => some .layer
  | "pallet" => some .pallet
  | _ => none

def needsConfig (level : PackagingLevel) : Bool := level ≠ .each

@[simp] theorem parse_asStr (level : PackagingLevel) : parse level.asStr = some level := by
  cases level <;> rfl

end PackagingLevel

/-- Factors from `item_packing_config`. -/
structure PackingConfig where
  id : ℕ
  itemId : ℕ
  unitsPerInner : Option ℤ
  innersPerCarton : Option ℤ
  cartonsPerLayer : Option ℤ
  layersPerPallet : Option ℤ
  deriving DecidableEq, Repr

structure EnteredCount where
  enteredQuantity : ℤ
  level : PackagingLevel
  configId : Option ℕ
  deriving DecidableEq, Repr

inductive EnteredProblem
  | nothingEntered
  | ambiguousInput
  | unknownLevel (level : String)
  | configRequired (level : PackagingLevel)
  | configWrongItem
  | incompleteCascade (level : PackagingLevel)
  | baseMismatch (entered factor stated : ℤ)
  | nonPositive
  deriving DecidableEq, Repr

def EnteredProblem.text : EnteredProblem → String
  | .nothingEntered => "a receipt needs quantity or an entered packaging count"
  | .ambiguousInput =>
    "provide either base quantity alone (eaches) or entered_quantity with entered_packaging_level"
  | .unknownLevel level => "unknown packaging level "++level
  | .configRequired level => "packaging level "++level.asStr++" requires item_packing_config_id"
  | .configWrongItem => "item_packing_config is for a different item than this receipt line"
  | .incompleteCascade level => "item_packing_config is incomplete for packaging level "++level.asStr
  | .baseMismatch entered factor stated =>
    "quantity "++toString stated++" does not match entered "++toString entered++" × factor "++
      toString factor++" (expected "++toString (entered*factor)++")"
  | .nonPositive => "entered quantity must be positive"

/-- Factor for one unit of a level, none if the cascade is incomplete. -/
def packingFactor (config : Option PackingConfig) : PackagingLevel → Option ℤ
  | .each => some 1
  | .inner => do (← config).unitsPerInner
  | .carton => do
    let c ← config
    return (← c.unitsPerInner)*(← c.innersPerCarton)
  | .layer => do
    let c ← config
    return (← c.unitsPerInner)*(← c.innersPerCarton)*(← c.cartonsPerLayer)
  | .pallet => do
    let c ← config
    return (← c.unitsPerInner)*(← c.innersPerCarton)*(← c.cartonsPerLayer)*(← c.layersPerPallet)

/-- A product held within 64 bits. -/
def saturatingMul (a b : ℤ) : ℤ := max (-2^63) (min (2^63-1) (a*b))

/-- Resolve dock input to base units and the entered form to store. -/
def resolveCount (baseQuantity enteredQuantity : Option ℤ) (levelText : Option String)
    (config : Option PackingConfig) (lineItemId : ℕ) : Except EnteredProblem (ℤ × EnteredCount) :=
  match baseQuantity, enteredQuantity, levelText with
  | some q, none, none =>
    if q ≤ 0 then .error .nonPositive else .ok (q,⟨q,.each,none⟩)
  | base, some entered, some levelS => do
    if entered ≤ 0 then throw .nonPositive
    let some level := PackagingLevel.parse levelS | throw (.unknownLevel levelS)
    if level.needsConfig ∧ config.isNone then throw (.configRequired level)
    if let some c := config then
      if c.itemId ≠ lineItemId then throw .configWrongItem
    let some factor := packingFactor config level | throw (.incompleteCascade level)
    let expectedBase := saturatingMul entered factor
    if expectedBase ≤ 0 then throw .nonPositive
    if let some q := base then
      if q ≠ expectedBase then throw (.baseMismatch entered factor q)
    return (expectedBase,⟨entered,level,config.map PackingConfig.id⟩)
  | none, none, none => .error .nothingEntered
  | _, _, _ => .error .ambiguousInput

/-- Twelve cartons of ten. -/
example : resolveCount none (some 12) (some "carton") (some ⟨1,2,some 10,some 1,some 8,some 5⟩) 2 =
    .ok (120,⟨12,.carton,some 1⟩) := by decide

end Receiving
end Spork
