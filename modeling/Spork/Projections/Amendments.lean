import Spork.Lib.Fallible
import Spork.Lib.FirstWins
import Spork.Lib.GroupBy
import Spork.Lib.LastWriter

/-! Orders and their lines as amended (`intention_amendment`), and the rebuild that folds
the amendments onto them in place (`projection_order_rebuild`). A moment is in microseconds. -/
namespace Spork
namespace Amendments

abbrev Uuid := ℕ

inductive OrderState where
  | placed
  | onHold
  | cancelled
  deriving DecidableEq, Repr

inductive OrderLineState where
  | active
  | removed
  deriving DecidableEq, Repr

/-- A row of `intention_amendment` with the checks it passed. -/
structure Amendment where
  id : Uuid
  orderId : Uuid
  /-- The line it is about, when it is not about the order itself. -/
  orderLineId : Option Uuid
  occurredAt : ℤ
  recordedAt : ℤ
  newPromisedFrom : Option ℤ
  newPromisedTo : Option ℤ
  newRequiredBy : Option ℤ
  newState : Option OrderState
  newQuantityOrdered : Option ℤ
  newUnitPriceMinor : Option ℤ
  newPriceBasisQuantity : Option ℤ
  newLineState : Option OrderLineState
  /-- `intention_amendment_subject_ck`. -/
  subject : match orderLineId with
    | none => newQuantityOrdered = none ∧ newUnitPriceMinor = none ∧ newPriceBasisQuantity = none ∧ newLineState = none
    | some _ => newPromisedFrom = none ∧ newPromisedTo = none ∧ newRequiredBy = none ∧ newState = none
  /-- `intention_amendment_price_pair_ck`. -/
  pricePair : newUnitPriceMinor.isSome = newPriceBasisQuantity.isSome
  /-- `intention_amendment_quantity_ck`. -/
  quantity : ∀ q ∈ newQuantityOrdered, 0 < q
  /-- `intention_amendment_price_basis_ck`. -/
  priceBasis : ∀ b ∈ newPriceBasisQuantity, 0 < b
  /-- `intention_amendment_price_sign_ck`. -/
  priceSign : ∀ p ∈ newUnitPriceMinor, 0 ≤ p

/-- The order amendments are folded in. -/
def Amendment.key (a : Amendment) : ℤ ×ₗ ℤ ×ₗ ℕ := toLex (a.occurredAt,toLex (a.recordedAt,a.id))

theorem Amendment.id_of_key {a b : Amendment} (h : a.key = b.key) : a.id = b.id :=
  congrArg (fun k : ℤ ×ₗ ℤ ×ₗ ℕ => (ofLex (ofLex k).2).2) h

/-- The columns of an order that amendments set. -/
structure OrderColumns where
  promisedFrom : Option ℤ
  promisedTo : Option ℤ
  requiredBy : Option ℤ
  state : OrderState
  deriving DecidableEq, Repr

/-- `order_promised_window_ck`. -/
def OrderColumns.PromisedWindowCk (c : OrderColumns) : Prop :=
  ∀ promisedTo ∈ c.promisedTo, ∀ promisedFrom ∈ c.promisedFrom, promisedFrom ≤ promisedTo

instance : DecidablePred OrderColumns.PromisedWindowCk := fun c =>
  inferInstanceAs (Decidable (∀ promisedTo ∈ c.promisedTo, ∀ promisedFrom ∈ c.promisedFrom, promisedFrom ≤ promisedTo))

/-- The columns of a line that amendments set. -/
structure LineColumns where
  quantityOrdered : ℤ
  unitPriceMinor : Option ℤ
  priceBasisQuantity : Option ℤ
  lineState : OrderLineState
  deriving DecidableEq, Repr

/-- `order_line_quantity_ck` and the checks of its price. -/
def LineColumns.Cks (c : LineColumns) : Prop :=
  0 < c.quantityOrdered ∧ c.unitPriceMinor.isSome = c.priceBasisQuantity.isSome ∧
    (∀ b ∈ c.priceBasisQuantity, 0 < b) ∧ ∀ p ∈ c.unitPriceMinor, 0 ≤ p

instance : DecidablePred LineColumns.Cks := fun c =>
  inferInstanceAs (Decidable (0 < c.quantityOrdered ∧ c.unitPriceMinor.isSome = c.priceBasisQuantity.isSome ∧
    (∀ b ∈ c.priceBasisQuantity, 0 < b) ∧ ∀ p ∈ c.unitPriceMinor, 0 ≤ p))

/-- A row of a table whose columns pass its checks. -/
structure Row {γ : Type} (ck : γ → Prop) where
  id : Uuid
  columns : γ
  checked : ck columns

abbrev Order := Row OrderColumns.PromisedWindowCk

abbrev OrderLine := Row LineColumns.Cks

/-! ## The rebuild -/

/-- The fold's value of a column. -/
def newest {β : Type} (set : Amendment → Option β) (as : List Amendment) : Option β :=
  LastWriter.lastSet Amendment.key set as

/-- An order's columns with the fold's values over them. -/
def foldOrder (as : List Amendment) (o : OrderColumns) : OrderColumns where
  promisedFrom := (newest Amendment.newPromisedFrom as).or o.promisedFrom
  promisedTo := (newest Amendment.newPromisedTo as).or o.promisedTo
  requiredBy := (newest Amendment.newRequiredBy as).or o.requiredBy
  state := (newest Amendment.newState as).getD o.state

/-- A line's columns with the fold's values over them. -/
def foldLine (as : List Amendment) (l : LineColumns) : LineColumns where
  quantityOrdered := (newest Amendment.newQuantityOrdered as).getD l.quantityOrdered
  unitPriceMinor := (newest Amendment.newUnitPriceMinor as).or l.unitPriceMinor
  priceBasisQuantity := (newest Amendment.newPriceBasisQuantity as).or l.priceBasisQuantity
  lineState := (newest Amendment.newLineState as).getD l.lineState

/-- `UPDATE … FROM folded` for one row: the row and whether it was updated. None where a
check of the table refuses what it would hold. -/
def updateRow {γ κ : Type} [DecidableEq γ] [DecidableEq κ] {ck : γ → Prop} [DecidablePred ck]
    (fold : List Amendment → γ → γ) (folded : List (κ × List Amendment)) (key : Uuid → κ) (r : Row ck) :
    Option (Row ck × Bool) :=
  match folded.find? fun f => f.1 = key r.id with
  | none => some (r,false)
  | some f =>
    let columns := fold f.2 r.columns
    if columns = r.columns then some (r,false)
    else if h : ck columns then some (⟨r.id,columns,h⟩,true) else none

/-- The amendments of each order itself. -/
def folded (as : List Amendment) : List (Uuid × List Amendment) :=
  GroupBy.groups Amendment.orderId (as.filter fun a => a.orderLineId = none)

/-- The amendments of each line. -/
def foldedLine (as : List Amendment) : List (Option Uuid × List Amendment) :=
  GroupBy.groups Amendment.orderLineId (as.filter fun a => a.orderLineId.isSome)

/-- A tenant's orders, their lines and what amended them. -/
structure Database where
  orders : List Order
  lines : List OrderLine
  amendments : List Amendment

/-- The rebuild: the tables it leaves and how many rows it wrote. None where it raises. -/
def projectionOrderRebuild (d : Database) : Option (Database × ℕ) := do
  let updated ← d.orders.mapM (updateRow foldOrder (folded d.amendments) id)
  let updatedLine ← d.lines.mapM (updateRow foldLine (foldedLine d.amendments) some)
  some ({d with orders := updated.map Prod.fst, lines := updatedLine.map Prod.fst},
    updated.countP Prod.snd+updatedLine.countP Prod.snd)

/-! ## Runs -/

inductive Event where
  | arrives (a : Amendment)
  | rebuild

/-- What an event leaves: an amendment whose id is on file is refused, and a rebuild that
raises leaves what it found. -/
def step (d : Database) : Event → Database
  | .arrives a => {d with amendments := FirstWins.keep Amendment.id d.amendments a}
  | .rebuild =>
    match projectionOrderRebuild d with
    | none => d
    | some (d',_) => d'

def run (d : Database) (es : List Event) : Database := es.foldl step d

/-- The amendments that arrive. -/
def arrivals (es : List Event) : List Amendment := es.filterMap fun
  | .arrives a => some a
  | .rebuild => none

/-- Orders and lines as placed, which nothing has amended. -/
structure Placed where
  orders : List Order
  lines : List OrderLine

def Placed.database (p : Placed) : Database := ⟨p.orders,p.lines,[]⟩

/-! ## What amendments come to -/

/-- The amendments of an order itself. -/
def ofOrder (as : List Amendment) (id : Uuid) : List Amendment :=
  (as.filter fun a => a.orderLineId = none).filter fun a => a.orderId = id

/-- The amendments of a line. -/
def ofLine (as : List Amendment) (id : Uuid) : List Amendment :=
  (as.filter fun a => a.orderLineId.isSome).filter fun a => a.orderLineId = some id

/-- A column is what the newest amendment that set it set, or what was placed where none did. -/
def Holds {β : Type} (set : Amendment → Option β) (as : List Amendment) (placed now : β) : Prop :=
  (∃ a, LastWriter.SetsLast Amendment.key set as a ∧ set a = some now) ∨ (∀ a ∈ as, set a = none) ∧ now = placed

/-- The same of a column that may be empty: an amendment never empties one. -/
def HoldsMaybe {β : Type} (set : Amendment → Option β) (as : List Amendment) (placed now : Option β) : Prop :=
  Holds (fun a => (set a).map some) as placed now

/-- An order as amended. -/
structure OrderHolds (as : List Amendment) (placed now : Order) : Prop where
  id : now.id = placed.id
  promisedFrom : HoldsMaybe Amendment.newPromisedFrom (ofOrder as placed.id)
    placed.columns.promisedFrom now.columns.promisedFrom
  promisedTo : HoldsMaybe Amendment.newPromisedTo (ofOrder as placed.id)
    placed.columns.promisedTo now.columns.promisedTo
  requiredBy : HoldsMaybe Amendment.newRequiredBy (ofOrder as placed.id)
    placed.columns.requiredBy now.columns.requiredBy
  state : Holds Amendment.newState (ofOrder as placed.id) placed.columns.state now.columns.state

/-- A line as amended, its price and basis as one amendment wrote them or as placed. -/
structure LineHolds (as : List Amendment) (placed now : OrderLine) : Prop where
  id : now.id = placed.id
  quantityOrdered : Holds Amendment.newQuantityOrdered (ofLine as placed.id)
    placed.columns.quantityOrdered now.columns.quantityOrdered
  unitPriceMinor : HoldsMaybe Amendment.newUnitPriceMinor (ofLine as placed.id)
    placed.columns.unitPriceMinor now.columns.unitPriceMinor
  priceBasisQuantity : HoldsMaybe Amendment.newPriceBasisQuantity (ofLine as placed.id)
    placed.columns.priceBasisQuantity now.columns.priceBasisQuantity
  lineState : Holds Amendment.newLineState (ofLine as placed.id) placed.columns.lineState now.columns.lineState
  price : (∃ a ∈ ofLine as placed.id, a.newUnitPriceMinor.isSome = true ∧
      now.columns.unitPriceMinor = a.newUnitPriceMinor ∧ now.columns.priceBasisQuantity = a.newPriceBasisQuantity) ∨
    now.columns.unitPriceMinor = placed.columns.unitPriceMinor ∧
      now.columns.priceBasisQuantity = placed.columns.priceBasisQuantity

/-- The tables are as amended, and a further rebuild writes nothing. -/
structure Amended (as : List Amendment) (p : Placed) (d : Database) : Prop where
  orders : List.Forall₂ (OrderHolds as) p.orders d.orders
  lines : List.Forall₂ (LineHolds as) p.lines d.lines
  again : projectionOrderRebuild d = some (d,0)

/-- An order's window as amended doesn't end before it starts. -/
def InWindow (as : List Amendment) (o : Order) : Prop :=
  ∀ promisedFrom promisedTo,
    HoldsMaybe Amendment.newPromisedFrom (ofOrder as o.id) o.columns.promisedFrom (some promisedFrom) →
    HoldsMaybe Amendment.newPromisedTo (ofOrder as o.id) o.columns.promisedTo (some promisedTo) →
    promisedFrom ≤ promisedTo

/-- Keys tell amendments apart. -/
def Apart (as : List Amendment) : Prop := ∀ a ∈ as, ∀ b ∈ as, a.key = b.key → a = b

section
variable {as bs : List Amendment} {β : Type} {set : Amendment → Option β}

theorem Apart.filter (h : Apart as) (test : Amendment → Bool) : Apart (as.filter test) :=
  fun a ha b hb => h a (List.mem_of_mem_filter ha) b (List.mem_of_mem_filter hb)

theorem Apart.ofOrder (h : Apart as) (id : Uuid) : Apart (ofOrder as id) := (h.filter _).filter _

theorem Apart.ofLine (h : Apart as) (id : Uuid) : Apart (ofLine as id) := (h.filter _).filter _

theorem holds_iff (h : Apart as) {placed now : β} : Holds set as placed now ↔ now = (newest set as).getD placed := by
  have hnone : newest set as = none ↔ ∀ a ∈ as, set a = none := LastWriter.lastSet_eq_none_iff
  have hsome : newest set as = some now ↔ ∃ a, LastWriter.SetsLast Amendment.key set as a ∧ set a = some now :=
    LastWriter.lastSet_eq_some_iff h
  rw [Holds,← hsome,← hnone]
  cases newest set as with
  | none => simp
  | some x => simp [eq_comm]

theorem holdsMaybe_iff (h : Apart as) {placed now : Option β} :
    HoldsMaybe set as placed now ↔ now = (newest set as).or placed := by
  rw [HoldsMaybe,holds_iff h,newest,LastWriter.lastSet_map,← newest]
  cases newest set as <;> rfl

end

/-! ## A table rebuilt -/

section Table

variable {γ κ : Type} [DecidableEq γ] [DecidableEq κ] {ck : γ → Prop} [DecidablePred ck]
  {fold : List Amendment → γ → γ} {groups : List (κ × List Amendment)} {key : Uuid → κ} {r : Row ck}

/-- What the fold makes of a row. -/
def become (fold : List Amendment → γ → γ) (groups : List (κ × List Amendment)) (key : Uuid → κ) (r : Row ck) : γ :=
  fold (GroupBy.rowsOf groups (key r.id)) r.columns

/-- A row updated holds what the fold makes of it, and is written where it held something else. -/
theorem updateRow_some (hnil : ∀ c, fold [] c = c) (h : ck (become fold groups key r)) :
    ∃ u, updateRow fold groups key r = some u ∧
      (u.1.id = r.id ∧ u.1.columns = become fold groups key r ∧ (become fold groups key r = r.columns → u = (r,false))) := by
  rw [updateRow,become,GroupBy.rowsOf] at *
  split
  · rename_i hfind
    rw [hfind] at h ⊢
    exact ⟨_,rfl,rfl,(hnil _).symm,fun _ => rfl⟩
  · rename_i f hfind
    simp only [hfind,Option.map_some,Option.getD_some] at h ⊢
    split
    · rename_i hsame
      exact ⟨_,rfl,rfl,hsame.symm,fun _ => rfl⟩
    · rename_i hnew
      exact ⟨_,rfl,rfl,rfl,fun hsame => absurd hsame hnew⟩

theorem check_of_updateRow (hnil : ∀ c, fold [] c = c) (h : (updateRow fold groups key r).isSome = true) :
    ck (become fold groups key r) := by
  rw [updateRow] at h
  rw [become,GroupBy.rowsOf]
  split at h
  · rename_i hfind
    rw [hfind]
    simpa [hnil] using r.checked
  · rename_i f hfind
    simp only [hfind,Option.map_some,Option.getD_some] at h ⊢
    split at h
    · rename_i hsame
      rw [hsame]
      exact r.checked
    · split at h
      · assumption
      · cases h

/-- The rows of a table are what a fold makes of the rows placed. -/
def Folded (fold : List Amendment → γ → γ) (of : Uuid → List Amendment) (placed now : Row ck) : Prop :=
  now.id = placed.id ∧ now.columns = fold (of placed.id) placed.columns

variable {seen now : Uuid → List Amendment} {placed rows : List (Row ck)}

omit [DecidableEq γ] [DecidablePred ck] in
/-- What a row becomes is what the amendments there are now make of the row placed. -/
theorem become_eq (habsorb : ∀ xs ys c, xs ⊆ ys → fold ys (fold xs c) = fold ys c)
    (hgroups : ∀ id, GroupBy.rowsOf groups (key id) = now id) (hseen : ∀ id, seen id ⊆ now id) {p r : Row ck}
    (h : Folded fold seen p r) : become fold groups key r = fold (now p.id) p.columns := by
  rw [become,hgroups,h.1,h.2]
  exact habsorb _ _ _ (hseen p.id)

/-- A table whose checks what its rows become passes is rebuilt, and holds it. -/
theorem table_rebuilt (hnil : ∀ c, fold [] c = c) (habsorb : ∀ xs ys c, xs ⊆ ys → fold ys (fold xs c) = fold ys c)
    (hgroups : ∀ id, GroupBy.rowsOf groups (key id) = now id) (hseen : ∀ id, seen id ⊆ now id)
    (hck : ∀ p ∈ placed, ck (fold (now p.id) p.columns)) (h : List.Forall₂ (Folded fold seen) placed rows) :
    ∃ us, rows.mapM (updateRow fold groups key) = some us ∧ List.Forall₂ (Folded fold now) placed (us.map Prod.fst) := by
  induction h with
  | nil => exact ⟨[],rfl,.nil⟩
  | @cons p r placed rows hpr hrest ih =>
    have hbecome := become_eq habsorb hgroups hseen hpr
    obtain ⟨u,hu,hid,hcolumns,-⟩ := updateRow_some hnil (hbecome ▸ hck p List.mem_cons_self)
    obtain ⟨us,hus,hall⟩ := ih fun q hq => hck q (List.mem_cons_of_mem p hq)
    exact ⟨u :: us,by simp [List.mapM_cons,hu,hus],.cons ⟨hid.trans hpr.1,hcolumns.trans hbecome⟩ hall⟩

/-- A table that holds it already is left, and no row of it is written. -/
theorem table_again (hnil : ∀ c, fold [] c = c) (habsorb : ∀ xs ys c, xs ⊆ ys → fold ys (fold xs c) = fold ys c)
    (hgroups : ∀ id, GroupBy.rowsOf groups (key id) = now id) (h : List.Forall₂ (Folded fold now) placed rows) :
    rows.mapM (updateRow fold groups key) = some (rows.map fun r => (r,false)) := by
  induction h with
  | nil => rfl
  | @cons p r placed rows hpr hrest ih =>
    have hbecome := become_eq habsorb hgroups (fun _ => List.Subset.refl _) hpr
    have hsame : become fold groups key r = r.columns := hbecome.trans hpr.2.symm
    obtain ⟨u,hu,-,-,hleft⟩ := updateRow_some hnil (hsame ▸ r.checked)
    rw [hleft hsame] at hu
    simp [List.mapM_cons,hu,ih]

/-- A table that is rebuilt passes its checks. -/
theorem checks_of_rebuilt (hnil : ∀ c, fold [] c = c) (habsorb : ∀ xs ys c, xs ⊆ ys → fold ys (fold xs c) = fold ys c)
    (hgroups : ∀ id, GroupBy.rowsOf groups (key id) = now id) (hseen : ∀ id, seen id ⊆ now id)
    (h : List.Forall₂ (Folded fold seen) placed rows) {us : List (Row ck × Bool)}
    (hus : rows.mapM (updateRow fold groups key) = some us) : ∀ p ∈ placed, ck (fold (now p.id) p.columns) := by
  have hsome := Fallible.isSome_of_mapM hus
  clear hus
  induction h with
  | nil => exact fun p hp => absurd hp List.not_mem_nil
  | @cons p r placed rows hpr hrest ih =>
    intro q hq
    rcases List.mem_cons.mp hq with rfl | hq
    · rw [← become_eq habsorb hgroups hseen hpr]
      exact check_of_updateRow hnil (hsome r List.mem_cons_self)
    · exact ih (fun x hx => hsome x (List.mem_cons_of_mem r hx)) q hq

end Table

/-! ## The two tables -/

theorem foldOrder_nil (c : OrderColumns) : foldOrder [] c = c := rfl

theorem foldLine_nil (c : LineColumns) : foldLine [] c = c := rfl

/-- What an earlier fold over fewer amendments left makes nothing of a later one. -/
theorem foldOrder_absorb (xs ys : List Amendment) (c : OrderColumns) (h : xs ⊆ ys) :
    foldOrder ys (foldOrder xs c) = foldOrder ys c := by
  simp only [foldOrder,newest,LastWriter.or_lastSet_of_subset h,LastWriter.getD_lastSet_of_subset h]

theorem foldLine_absorb (xs ys : List Amendment) (c : LineColumns) (h : xs ⊆ ys) :
    foldLine ys (foldLine xs c) = foldLine ys c := by
  simp only [foldLine,newest,LastWriter.or_lastSet_of_subset h,LastWriter.getD_lastSet_of_subset h]

theorem rowsOf_folded (as : List Amendment) (id : Uuid) : GroupBy.rowsOf (folded as) id = ofOrder as id :=
  GroupBy.rowsOf_groups _ _ id

theorem rowsOf_foldedLine (as : List Amendment) (id : Uuid) : GroupBy.rowsOf (foldedLine as) (some id) = ofLine as id :=
  GroupBy.rowsOf_groups _ _ (some id)

/-- A column that may be empty passes what every amendment's value and the one there pass. -/
theorem newest_or_passes {β : Type} {set : Amendment → Option β} {test : β → Prop} (h : ∀ a, ∀ x ∈ set a, test x)
    (as : List Amendment) {c : Option β} (hc : ∀ x ∈ c, test x) : ∀ x ∈ (newest set as).or c, test x := by
  intro x hx
  cases hnew : newest set as with
  | none =>
    rw [hnew] at hx
    exact hc x hx
  | some y =>
    rw [hnew] at hx
    cases hx
    obtain ⟨a,-,ha⟩ := LastWriter.setsLast_of_lastSet hnew
    exact h a x ha

/-- A price is set last where its basis is. -/
theorem newest_pair {as : List Amendment} (h : Apart as) :
    (∃ a ∈ as, a.newUnitPriceMinor.isSome = true ∧ newest Amendment.newUnitPriceMinor as = a.newUnitPriceMinor ∧
      newest Amendment.newPriceBasisQuantity as = a.newPriceBasisQuantity) ∨
    newest Amendment.newUnitPriceMinor as = none ∧ newest Amendment.newPriceBasisQuantity as = none :=
  LastWriter.lastSet_together h fun a _ => a.pricePair

/-- A line's checks are its amendments' too, and its price goes with its basis. -/
theorem foldLine_checks {as : List Amendment} (h : Apart as) {c : LineColumns} (hc : c.Cks) : (foldLine as c).Cks := by
  obtain ⟨hquantity,hpair,hbasis,hprice⟩ := hc
  refine ⟨?_,?_,newest_or_passes Amendment.priceBasis as hbasis,newest_or_passes Amendment.priceSign as hprice⟩
  · cases hq : newest Amendment.newQuantityOrdered as with
    | none => simpa [foldLine,hq] using hquantity
    | some q =>
      obtain ⟨a,-,ha⟩ := LastWriter.setsLast_of_lastSet hq
      simpa [foldLine,hq] using a.quantity q ha
  · have hsame : (newest Amendment.newUnitPriceMinor as).isSome = (newest Amendment.newPriceBasisQuantity as).isSome := by
      rcases newest_pair h with ⟨a,-,-,hp,hb⟩ | ⟨hp,hb⟩
      · rw [hp,hb]
        exact a.pricePair
      · rw [hp,hb]
    simp only [foldLine,Option.isSome_or,hsame,hpair]

theorem orderHolds_iff {as : List Amendment} (h : Apart as) {p o : Order} :
    OrderHolds as p o ↔ Folded foldOrder (ofOrder as) p o := by
  have hof := h.ofOrder p.id
  constructor
  · intro ho
    refine ⟨ho.id,?_⟩
    rw [foldOrder,← (holdsMaybe_iff hof).mp ho.promisedFrom,← (holdsMaybe_iff hof).mp ho.promisedTo,
      ← (holdsMaybe_iff hof).mp ho.requiredBy,← (holds_iff hof).mp ho.state]
  · rintro ⟨hid,hcolumns⟩
    refine ⟨hid,(holdsMaybe_iff hof).mpr ?_,(holdsMaybe_iff hof).mpr ?_,(holdsMaybe_iff hof).mpr ?_,
      (holds_iff hof).mpr ?_⟩
    all_goals rw [hcolumns]; rfl

theorem lineHolds_of_folded {as : List Amendment} (h : Apart as) {p l : OrderLine} (hl : Folded foldLine (ofLine as) p l) :
    LineHolds as p l := by
  have hof := h.ofLine p.id
  obtain ⟨hid,hcolumns⟩ := hl
  refine ⟨hid,(holds_iff hof).mpr ?_,(holdsMaybe_iff hof).mpr ?_,(holdsMaybe_iff hof).mpr ?_,
    (holds_iff hof).mpr ?_,?_⟩
  · rw [hcolumns]
    rfl
  · rw [hcolumns]
    rfl
  · rw [hcolumns]
    rfl
  · rw [hcolumns]
    rfl
  · rw [hcolumns]
    rcases newest_pair hof with ⟨a,ha,hset,hp,hb⟩ | ⟨hp,hb⟩
    · refine Or.inl ⟨a,ha,hset,?_,?_⟩
      · rw [foldLine,hp,Option.or_of_isSome hset]
      · rw [foldLine,hb,Option.or_of_isSome (a.pricePair.symm.trans hset)]
    · refine Or.inr ⟨?_,?_⟩
      · rw [foldLine,hp,Option.none_or]
      · rw [foldLine,hb,Option.none_or]

/-- A window in order as amended is one the fold may write. -/
theorem inWindow_iff {as : List Amendment} (h : Apart as) {o : Order} :
    InWindow as o ↔ (foldOrder (ofOrder as o.id) o.columns).PromisedWindowCk := by
  have hof := h.ofOrder o.id
  constructor
  · intro hin promisedTo hto promisedFrom hfrom
    exact hin promisedFrom promisedTo ((holdsMaybe_iff hof).mpr hfrom.symm) ((holdsMaybe_iff hof).mpr hto.symm)
  · intro hck promisedFrom promisedTo hfrom hto
    exact hck promisedTo ((holdsMaybe_iff hof).mp hto).symm promisedFrom ((holdsMaybe_iff hof).mp hfrom).symm

/-! ## Runs -/

/-- The tables hold what some of the amendments there are made of them. -/
structure Since (p : Placed) (as : List Amendment) (d : Database) : Prop where
  among : as ⊆ d.amendments
  orders : List.Forall₂ (Folded foldOrder (ofOrder as)) p.orders d.orders
  lines : List.Forall₂ (Folded foldLine (ofLine as)) p.lines d.lines

variable {p : Placed} {as : List Amendment} {d d' : Database} {n : ℕ}

theorem ofOrder_subset {bs : List Amendment} (h : as ⊆ bs) (id : Uuid) : ofOrder as id ⊆ ofOrder bs id :=
  List.filter_subset _ (List.filter_subset _ h)

theorem ofLine_subset {bs : List Amendment} (h : as ⊆ bs) (id : Uuid) : ofLine as id ⊆ ofLine bs id :=
  List.filter_subset _ (List.filter_subset _ h)

theorem Since.placed (p : Placed) : Since p [] p.database :=
  ⟨List.Subset.refl _,List.forall₂_same.mpr fun _ _ => ⟨rfl,rfl⟩,List.forall₂_same.mpr fun _ _ => ⟨rfl,rfl⟩⟩

theorem Since.mono (h : Since p as d) {bs : List Amendment} (hbs : as ⊆ bs) : Since p as {d with amendments := bs} :=
  ⟨hbs,h.orders,h.lines⟩

theorem projectionOrderRebuild_some (h : projectionOrderRebuild d = some (d',n)) :
    ∃ us ls, d.orders.mapM (updateRow foldOrder (folded d.amendments) id) = some us ∧
      d.lines.mapM (updateRow foldLine (foldedLine d.amendments) some) = some ls ∧
      d' = {d with orders := us.map Prod.fst, lines := ls.map Prod.fst} := by
  obtain ⟨us,hus,hrest⟩ := Option.bind_eq_some_iff.mp h
  obtain ⟨ls,hls,heq⟩ := Option.bind_eq_some_iff.mp hrest
  cases heq
  exact ⟨us,ls,hus,hls,rfl⟩

/-- A rebuild that doesn't raise leaves what all the amendments there are make of the tables. -/
theorem Since.rebuilt (hs : Since p as d) (h : projectionOrderRebuild d = some (d',n)) :
    d'.amendments = d.amendments ∧ Since p d.amendments d' := by
  obtain ⟨us,ls,hus,hls,rfl⟩ := projectionOrderRebuild_some h
  have hordersof := ofOrder_subset hs.among
  have hlinesof := ofLine_subset hs.among
  have hck := checks_of_rebuilt foldOrder_nil foldOrder_absorb (rowsOf_folded _) hordersof hs.orders hus
  have hckLine := checks_of_rebuilt foldLine_nil foldLine_absorb (rowsOf_foldedLine _) hlinesof hs.lines hls
  obtain ⟨us',hus',horders⟩ :=
    table_rebuilt foldOrder_nil foldOrder_absorb (rowsOf_folded _) hordersof hck hs.orders
  obtain ⟨ls',hls',hlines⟩ :=
    table_rebuilt foldLine_nil foldLine_absorb (rowsOf_foldedLine _) hlinesof hckLine hs.lines
  obtain rfl : us = us' := Option.some.inj (hus.symm.trans hus')
  obtain rfl : ls = ls' := Option.some.inj (hls.symm.trans hls')
  exact ⟨rfl,List.Subset.refl _,horders,hlines⟩

/-- It doesn't raise where every order's window is in order. -/
theorem Since.rebuilds (hs : Since p as d) (hapart : Apart d.amendments) (h : ∀ o ∈ p.orders, InWindow d.amendments o) :
    ∃ d' n, projectionOrderRebuild d = some (d',n) := by
  obtain ⟨us,hus,-⟩ := table_rebuilt foldOrder_nil foldOrder_absorb (rowsOf_folded _) (ofOrder_subset hs.among)
    (fun o ho => (inWindow_iff hapart).mp (h o ho)) hs.orders
  obtain ⟨ls,hls,-⟩ := table_rebuilt foldLine_nil foldLine_absorb (rowsOf_foldedLine _) (ofLine_subset hs.among)
    (fun l _ => foldLine_checks (hapart.ofLine l.id) l.checked) hs.lines
  exact ⟨_,_,Option.bind_eq_some_iff.mpr ⟨us,hus,Option.bind_eq_some_iff.mpr ⟨ls,hls,rfl⟩⟩⟩

/-- After one that folded all the amendments there are, another writes nothing. -/
theorem Since.again (hs : Since p d.amendments d) : projectionOrderRebuild d = some (d,0) := by
  have horders := table_again foldOrder_nil foldOrder_absorb (rowsOf_folded d.amendments) hs.orders
  have hlines := table_again foldLine_nil foldLine_absorb (rowsOf_foldedLine d.amendments) hs.lines
  refine Option.bind_eq_some_iff.mpr ⟨_,horders,Option.bind_eq_some_iff.mpr ⟨_,hlines,?_⟩⟩
  have hcount {γ : Type} {ck : γ → Prop} (rows : List (Row ck)) : (rows.map fun r => (r,false)).countP Prod.snd = 0 :=
    List.countP_eq_zero.mpr fun u hu => by
      obtain ⟨r,-,rfl⟩ := List.mem_map.mp hu
      exact Bool.false_ne_true
  rw [hcount,hcount,List.map_map,List.map_map]
  simp [Function.comp_def]

theorem Since.step (hs : Since p as d) (e : Event) : ∃ bs, Since p bs (step d e) := by
  cases e with
  | arrives a =>
    have hgrows : as ⊆ FirstWins.keep Amendment.id d.amendments a := fun b hb =>
      FirstWins.mem_keep_iff.mpr (Or.inl (hs.among hb))
    exact ⟨as,hs.mono hgrows⟩
  | rebuild =>
    cases h : projectionOrderRebuild d with
    | none => exact ⟨as,by rw [Amendments.step,h]; exact hs⟩
    | some r => exact ⟨d.amendments,by rw [Amendments.step,h]; exact (hs.rebuilt h).2⟩

/-- In every run the tables hold what some of the amendments made of them. -/
theorem run_since (p : Placed) (es : List Event) : ∃ as, Since p as (run p.database es) := by
  induction es using List.reverseRecOn with
  | nil => exact ⟨[],Since.placed p⟩
  | append_singleton es e ih =>
    obtain ⟨as,hs⟩ := ih
    rw [run,List.foldl_append]
    exact hs.step e

/-- A rebuild keeps the amendments. -/
theorem step_amendments (d : Database) (e : Event) :
    (step d e).amendments = (arrivals [e]).foldl (FirstWins.keep Amendment.id) d.amendments := by
  cases e with
  | arrives a => rfl
  | rebuild =>
    rw [step]
    split
    · rfl
    · rename_i h
      obtain ⟨us,ls,-,-,rfl⟩ := projectionOrderRebuild_some h
      rfl

/-- The amendments of a run are those that arrived. -/
theorem run_amendments (p : Placed) (es : List Event) :
    (run p.database es).amendments = FirstWins.kept Amendment.id (arrivals es) := by
  induction es using List.reverseRecOn with
  | nil => rfl
  | append_singleton es e ih =>
    have harrivals : arrivals (es++[e]) = arrivals es++arrivals [e] := List.filterMap_append
    rw [run,List.foldl_append,harrivals,FirstWins.kept,List.foldl_append]
    rw [run,FirstWins.kept] at ih
    rw [← ih]
    exact step_amendments _ e

theorem apart_kept (xs : List Amendment) : Apart (FirstWins.kept Amendment.id xs) :=
  fun _ ha _ hb h => FirstWins.kept_unique ha hb (Amendment.id_of_key h)

theorem run_rebuild (p : Placed) (es : List Event) :
    run p.database (es++[.rebuild]) = step (run p.database es) .rebuild := List.foldl_append

/-- Where every order's window is in order, the last rebuild leaves what all the amendments
make of the tables. -/
theorem run_rebuilt (p : Placed) (es : List Event)
    (h : ∀ o ∈ p.orders, InWindow (FirstWins.kept Amendment.id (arrivals es)) o) :
    (run p.database (es++[.rebuild])).amendments = FirstWins.kept Amendment.id (arrivals es) ∧
      Since p (FirstWins.kept Amendment.id (arrivals es)) (run p.database (es++[.rebuild])) := by
  have hapart := apart_kept (arrivals es)
  obtain ⟨as,hs⟩ := run_since p es
  rw [run_rebuild]
  rw [← run_amendments p es] at hapart h ⊢
  obtain ⟨d',n,hd'⟩ := hs.rebuilds hapart h
  rw [step,hd']
  exact hs.rebuilt hd'

/-- After a run that ends in a rebuild orders and lines are as amended just when every order's
window is in order. -/
theorem amended_iff (p : Placed) (es : List Event) :
    Amended (FirstWins.kept Amendment.id (arrivals es)) p (run p.database (es++[.rebuild])) ↔
      ∀ o ∈ p.orders, InWindow (FirstWins.kept Amendment.id (arrivals es)) o := by
  have hapart := apart_kept (arrivals es)
  constructor
  · intro h
    have hck := h.orders.imp fun o o' ho =>
      (⟨?_,ho⟩ : InWindow (FirstWins.kept Amendment.id (arrivals es)) o ∧ OrderHolds _ o o')
    · exact ((List.forall₂_and_left _ _).mp hck).1
    · -- a row of the table passes its check
      rw [inWindow_iff hapart,← ((orderHolds_iff hapart).mp ho).2]
      exact o'.checked
  · intro h
    obtain ⟨hkept,hs⟩ := run_rebuilt p es h
    refine ⟨hs.orders.imp fun o o' ho => (orderHolds_iff hapart).mpr ho,
      hs.lines.imp fun l l' hl => lineHolds_of_folded hapart hl,?_⟩
    exact Since.again (hkept.symm ▸ hs)

/-- An order to be with its customer by a moment. -/
def dueOrder : Order := ⟨1,⟨none,some 5,none,.placed⟩,by decide⟩

/-- It is promised from a later moment. -/
def promisedLater : Amendment where
  id := 7
  orderId := 1
  orderLineId := none
  occurredAt := 0
  recordedAt := 0
  newPromisedFrom := some 10
  newPromisedTo := none
  newRequiredBy := none
  newState := none
  newQuantityOrdered := none
  newUnitPriceMinor := none
  newPriceBasisQuantity := none
  newLineState := none
  subject := ⟨rfl,rfl,rfl,rfl⟩
  pricePair := rfl
  quantity := by decide
  priceBasis := by decide
  priceSign := by decide

/-- The amendment is taken, and no rebuild after it ends. -/
theorem promisedLater_unamended :
    ¬ ∀ (p : Placed) (es : List Event),
      Amended (FirstWins.kept Amendment.id (arrivals es)) p (run p.database (es++[.rebuild])) := by
  intro h
  have hagain := (h ⟨[dueOrder],[]⟩ [.arrives promisedLater]).again
  have hsome := congrArg Option.isSome hagain
  exact absurd hsome (by decide)

/-! ## Order -/

theorem newest_congr {bs : List Amendment} (hapart : Apart as) (h : ∀ a, a ∈ as ↔ a ∈ bs) {β : Type}
    (set : Amendment → Option β) : newest set as = newest set bs := LastWriter.lastSet_congr hapart h

theorem foldOrder_congr {bs : List Amendment} (hapart : Apart as) (h : ∀ a, a ∈ as ↔ a ∈ bs) (id : Uuid) :
    foldOrder (ofOrder as id) = foldOrder (ofOrder bs id) := by
  have hof : ∀ a, a ∈ ofOrder as id ↔ a ∈ ofOrder bs id := fun a => by simp only [ofOrder,List.mem_filter,h]
  funext c
  simp only [foldOrder,newest_congr (hapart.ofOrder id) hof]

theorem foldLine_congr {bs : List Amendment} (hapart : Apart as) (h : ∀ a, a ∈ as ↔ a ∈ bs) (id : Uuid) :
    foldLine (ofLine as id) = foldLine (ofLine bs id) := by
  have hof : ∀ a, a ∈ ofLine as id ↔ a ∈ ofLine bs id := fun a => by simp only [ofLine,List.mem_filter,h]
  funext c
  simp only [foldLine,newest_congr (hapart.ofLine id) hof]

/-- Tables that hold what the same amendments make of the same rows are one. -/
theorem rows_eq {γ : Type} {ck : γ → Prop} {fold : List Amendment → γ → γ} {of of' : Uuid → List Amendment}
    (h : ∀ id, fold (of id) = fold (of' id)) {placed rows rows' : List (Row ck)}
    (hrows : List.Forall₂ (Folded fold of) placed rows) (hrows' : List.Forall₂ (Folded fold of') placed rows') :
    rows = rows' := by
  induction hrows generalizing rows' with
  | nil =>
    cases hrows'
    rfl
  | @cons p r placed rows hpr _ ih =>
    cases hrows' with
    | @cons _ r' _ rows' hpr' hrest' =>
      have hcolumns : r.columns = r'.columns := by rw [hpr.2,hpr'.2,h]
      have hid : r.id = r'.id := hpr.1.trans hpr'.1.symm
      rw [ih hrest']
      cases r
      cases r'
      cases hid
      cases hcolumns
      rfl

theorem mem_kept {xs : List Amendment} (hids : ∀ a ∈ xs, ∀ b ∈ xs, a.id = b.id → a = b) (a : Amendment) :
    a ∈ FirstWins.kept Amendment.id xs ↔ a ∈ xs := by
  have hfrom : ∀ b ∈ FirstWins.kept Amendment.id xs, b ∈ xs := fun b hb => by
    obtain ⟨before,after,heq,-⟩ := FirstWins.mem_kept_iff.mp hb
    rw [heq]
    exact List.mem_append_right _ List.mem_cons_self
  refine ⟨hfrom a,fun ha => ?_⟩
  obtain ⟨b,hb,heq⟩ := List.mem_map.mp ((FirstWins.key_mem_kept xs a.id).mpr (List.mem_map_of_mem ha))
  rw [← hids b (hfrom b hb) a ha heq]
  exact hb

/-- What a run's last rebuild leaves is the same whatever order the same amendments came in
and whenever it was rebuilt before. -/
theorem run_any_order (p : Placed) {es es' : List Event} (hsame : ∀ a, a ∈ arrivals es ↔ a ∈ arrivals es')
    (hids : ∀ a ∈ arrivals es, ∀ b ∈ arrivals es, a.id = b.id → a = b)
    (hwindow : ∀ o ∈ p.orders, InWindow (FirstWins.kept Amendment.id (arrivals es)) o) :
    (run p.database (es++[.rebuild])).orders = (run p.database (es'++[.rebuild])).orders ∧
      (run p.database (es++[.rebuild])).lines = (run p.database (es'++[.rebuild])).lines := by
  have hapart := apart_kept (arrivals es)
  have hids' : ∀ a ∈ arrivals es', ∀ b ∈ arrivals es', a.id = b.id → a = b := fun a ha b hb =>
    hids a ((hsame a).mpr ha) b ((hsame b).mpr hb)
  have hkept (a : Amendment) :
      a ∈ FirstWins.kept Amendment.id (arrivals es) ↔ a ∈ FirstWins.kept Amendment.id (arrivals es') := by
    rw [mem_kept hids,mem_kept hids',hsame]
  have hwindow' : ∀ o ∈ p.orders, InWindow (FirstWins.kept Amendment.id (arrivals es')) o := fun o ho => by
    rw [inWindow_iff (apart_kept _),← foldOrder_congr hapart hkept,← inWindow_iff hapart]
    exact hwindow o ho
  obtain ⟨-,hs⟩ := run_rebuilt p es hwindow
  obtain ⟨-,hs'⟩ := run_rebuilt p es' hwindow'
  exact ⟨rows_eq (foldOrder_congr hapart hkept) hs.orders hs'.orders,
    rows_eq (foldLine_congr hapart hkept) hs.lines hs'.lines⟩

end Amendments
end Spork
