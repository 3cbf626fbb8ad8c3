import Spork.Ledger.Effective

/-! The stock fold (`projection_stock_rebuild`, its ledger and its sums): each movement
taken off where it left and put where it went. Folded raw, or only the roots with what is
left of each, it comes to the same. -/
namespace Spork
namespace Ledger

open GroupBy

/-- Where stock is counted. -/
structure Cell where
  holderLocationId : Option ℕ
  holderPackageId : Option ℕ
  itemId : ℕ
  lotId : Option ℕ
  statusId : Option ℕ
  ownerId : Option ℕ
  deriving DecidableEq, Repr

/-- A line of the fold's ledger. -/
structure Entry where
  cell : Cell
  qty : ℤ
  wt : Option ℤ
  deriving DecidableEq, Repr

structure Folded where
  cell : Cell
  quantity : ℤ
  weightG : Option ℤ
  deriving DecidableEq, Repr

def numNonnulls (xs : List (Option ℕ)) : ℕ := xs.countP Option.isSome

/-- A side that has a holder, and one only. -/
def Side.isHeld (s : Side) : Bool := numNonnulls [s.locationId,s.packageId] = 1

def Side.cell (s : Side) (item : ℕ) : Cell :=
  ⟨s.locationId,s.packageId,item,s.lotId,s.statusId,s.ownerId⟩

/-- A sum over what is not null, null when nothing is. -/
def sumSome (xs : List (Option ℤ)) : Option ℤ :=
  if xs.any Option.isSome then some (xs.map (·.getD 0)).sum else none

section
variable (tenant : ℕ) (ms : List Movement)

def stockLedger : List Entry :=
  ((ms.filter fun m => m.tenantId = tenant ∧ m.toSide.isHeld).map fun m =>
    ⟨m.toSide.cell m.itemId,m.quantity,m.catchWeightG⟩)++
  (ms.filter fun m => m.tenantId = tenant ∧ m.fromSide.isHeld).map fun m =>
    ⟨m.fromSide.cell m.itemId,-m.quantity,m.catchWeightG.map (-·)⟩

def folded : List Folded :=
  (groups Entry.cell (stockLedger tenant ms)).map fun g =>
    ⟨g.1,(g.2.map Entry.qty).sum,sumSome (g.2.map Entry.wt)⟩

end

/-- How much there is in a cell, none where the fold has no row. -/
def quantityAt (fs : List Folded) (c : Cell) : ℤ :=
  ((fs.find? fun f => f.cell = c).map Folded.quantity).getD 0

/-- The roots, each with what the view says is left of it. -/
def netted (ms : List Movement) : List Movement :=
  (ms.filter isRoot).map fun m => {m with
    quantity := (((stockMovementEffective ms).find? fun v =>
      v.movementId = m.id ∧ v.tenantId = m.tenantId).map EffectiveRow.effectiveQuantity).getD 0}

/-! ## A cell's quantity is a signed sum -/

/-- Whether a side of a movement is in a cell. -/
def Side.within (s : Side) (m : Movement) (tenant : ℕ) (c : Cell) : ℤ :=
  if m.tenantId = tenant ∧ s.isHeld = true ∧ s.cell m.itemId = c then 1 else 0

/-- How a movement counts in a cell: for where it went, against where it left. -/
def sign (tenant : ℕ) (c : Cell) (m : Movement) : ℤ :=
  m.toSide.within m tenant c-m.fromSide.within m tenant c

theorem side_sum (ms : List Movement) (tenant : ℕ) (c : Cell) (side : Movement → Side)
    (qty : Movement → ℤ) (wt : Movement → Option ℤ) :
    (((((ms.filter fun m => m.tenantId = tenant ∧ (side m).isHeld).map fun m =>
      (⟨(side m).cell m.itemId,qty m,wt m⟩ : Entry)).filter fun e => e.cell = c).map Entry.qty)).sum =
        (ms.map fun m => qty m*(side m).within m tenant c).sum := by
  induction ms with
  | nil => rfl
  | cons m ms ih =>
    rw [List.map_cons,List.sum_cons,← ih]
    by_cases hheld : m.tenantId = tenant ∧ (side m).isHeld = true
    · by_cases hcell : (side m).cell m.itemId = c
      · simp [Side.within,hheld,hcell]
      · simp [Side.within,hheld,hcell]
    · have hnot : ¬(m.tenantId = tenant ∧ (side m).isHeld = true ∧ (side m).cell m.itemId = c) :=
        fun hand => hheld ⟨hand.1,hand.2.1⟩
      rw [List.filter_cons_of_neg (by simpa using hheld),Side.within,if_neg hnot]
      simp

theorem quantityAt_folded (tenant : ℕ) (ms : List Movement) (c : Cell) :
    quantityAt (folded tenant ms) c = (ms.map fun m => m.quantity*sign tenant c m).sum := by
  have hrows : quantityAt (folded tenant ms) c =
      ((rowsOf (groups Entry.cell (stockLedger tenant ms)) c).map Entry.qty).sum := by
    rw [quantityAt,folded,List.find?_map,rowsOf]
    have hkey : ((fun f : Folded => decide (f.cell = c)) ∘ fun g : Cell × List Entry =>
        ⟨g.1,(g.2.map Entry.qty).sum,sumSome (g.2.map Entry.wt)⟩) = fun g => decide (g.1 = c) := rfl
    rw [hkey]
    cases (groups Entry.cell (stockLedger tenant ms)).find? fun g => g.1 = c <;> rfl
  rw [hrows,rowsOf_groups,stockLedger,List.filter_append,List.map_append,List.sum_append,
    side_sum ms tenant c Movement.toSide,side_sum ms tenant c Movement.fromSide fun m => -m.quantity]
  rw [← List.sum_map_add]
  congr 1
  apply List.map_congr_left
  intro m _
  rw [sign]
  ring

/-- A correction counts the other way to its target. -/
theorem sign_mirrors {r target : Movement} (hmirrors : Mirrors r target)
    (htenant : target.tenantId = r.tenantId) (tenant : ℕ) (c : Cell) :
    sign tenant c r = -sign tenant c target := by
  obtain ⟨hfrom,hto,hitem⟩ := hmirrors
  rw [sign,sign,hfrom,hto]
  simp only [Side.within,hitem,htenant]
  ring

/-! ## What is left of a correction forest -/

/-- The view gives each root what is left of it by the definition, and where corrections
mirror their targets the whole ledger folded raw and the roots folded with what is left
of each put the same in every cell. -/
theorem corrections_net (b : Book) (h : Acyclic b.movements) :
    (∀ m ∈ b.movements.filter isRoot, (stockMovementEffective b.movements).find?
      (fun v => v.movementId = m.id ∧ v.tenantId = m.tenantId) = some ⟨m.id,m.tenantId,effective h m⟩) ∧
    ((∀ m ∈ b.movements, ∀ r ∈ corrections b.movements m, Mirrors r m) → ∀ tenant c,
      quantityAt (folded tenant b.movements) c = quantityAt (folded tenant (netted b.movements)) c) := by
  refine ⟨fun m hm => view_effective h hm,fun hmirrors tenant c => ?_⟩
  have hsign : ∀ m ∈ b.movements, ∀ r ∈ corrections b.movements m,
      sign tenant c r = -sign tenant c m := by
    intro m hm r hr
    obtain ⟨hrmem,hrev⟩ := List.mem_filter.mp hr
    obtain ⟨t,ht,hid,htenant⟩ := b.reverses r hrmem m.id (by simpa using hrev)
    have hsame : t = m := b.eq_of_id ht hm hid
    exact sign_mirrors (hmirrors m hm r hr) (hsame ▸ htenant) tenant c
  rw [quantityAt_folded,quantityAt_folded,
    Forest.sum_roots h Movement.quantity (sign tenant c) isRoot b.corrections_perm hsign,netted,
    List.map_map]
  congr 1
  apply List.map_congr_left
  intro m hm
  simp only [Function.comp_apply,view_effective h hm,Option.map_some,Option.getD_some]
  rfl

def bin : Side := ⟨some 11,none,some 12,some 13,some 14⟩

def nowhere : Side := ⟨none,none,none,none,none⟩

/-- A hundred received, thirty of them counted twice, and ten of those not after all. -/
def recount : Book where
  movements := [⟨1,7,5,100,none,0,nowhere,bin,none⟩,⟨2,7,5,30,none,0,bin,nowhere,some 1⟩,
    ⟨3,7,5,10,none,0,nowhere,bin,some 2⟩]
  ids := by decide
  reverses := by decide

theorem recount_acyclic : Acyclic recount.movements := acyclic_of_later (by decide)

example : stockMovementEffective recount.movements = [⟨1,7,80⟩] := by decide

theorem corrections_net_recount :
    (∀ m ∈ recount.movements.filter isRoot, (stockMovementEffective recount.movements).find?
      (fun v => v.movementId = m.id ∧ v.tenantId = m.tenantId) =
        some ⟨m.id,m.tenantId,effective recount_acyclic m⟩) ∧
    ∀ tenant c, quantityAt (folded tenant recount.movements) c =
      quantityAt (folded tenant (netted recount.movements)) c :=
  ⟨(corrections_net recount recount_acyclic).1,
    (corrections_net recount recount_acyclic).2 (by unfold Mirrors; decide)⟩

end Ledger
end Spork
