import Spork.Drag.NewBoxes
import Spork.Drag.Units

/-! What the board shows of each line: what a parcel holds, what is left to pack, and what ships
as it is; and that what it shows of a planned parcel is no more than the plan has. -/
namespace Spork
namespace Drag

open Packing (Uuid AsIs split GoesAsIs)

/-- The units of a line a parcel shows. -/
def goodsUnits (p : BoardParcel) (line : Uuid) : ℤ :=
  ((p.goods.find? (·.line.lineId = line)).map fun g => (g.units : ℤ)).getD 0

/-- The units of a line the parcel of an id holds. -/
def heldIn (board : Board) (id : Id) (line : Uuid) : ℤ := ((parcelOf board id).map fun p => goodsUnits p line).getD 0

/-- What To pack offers of a line. -/
def leftOf (board : Board) (line : Uuid) : ℤ := ((board.lines.find? (·.line.lineId = line)).map BoardLine.left).getD 0

/-- The units of a line that ship as they are, neither made nor planned. -/
def freeOf (p : BoardParcel) (line : Uuid) : ℤ := if p.made = false ∧ p.planned = none then goodsUnits p line else 0

/-- What the board shows left to pack of a line, things that ship as they are included. -/
def leftToPack (board : Board) (line : Uuid) : ℤ := leftOf board line+(board.parcels.map fun p => freeOf p line).sum

theorem goodsUnits_nonneg (p : BoardParcel) (line : Uuid) : 0 ≤ goodsUnits p line := by
  unfold goodsUnits
  cases p.goods.find? (·.line.lineId = line) with
  | none => exact le_rfl
  | some g => exact Int.natCast_nonneg _

theorem freeOf_nonneg (p : BoardParcel) (line : Uuid) : 0 ≤ freeOf p line := by
  unfold freeOf
  split_ifs
  · exact goodsUnits_nonneg p line
  · exact le_rfl

/-! ## Units of each line, summed -/

/-- What rows have of a line. -/
def sumOf (rows : List (Uuid × ℤ)) (line : Uuid) : ℤ := ((rows.filter (·.1 = line)).map Prod.snd).sum

theorem sumOf_cons (row : Uuid × ℤ) (rows : List (Uuid × ℤ)) (line : Uuid) :
    sumOf (row :: rows) line = (if row.1 = line then row.2 else 0)+sumOf rows line := by
  by_cases h : row.1 = line <;> simp [sumOf,h]

theorem sumOf_addOf (sums : List (Uuid × ℤ)) (row : Uuid × ℤ) (line : Uuid) :
    sumOf (addOf sums row) line = sumOf sums line+if row.1 = line then row.2 else 0 := by
  induction sums with
  | nil =>
    rw [addOf,sumOf_cons]
    exact add_comm _ _
  | cons first sums ih =>
    obtain ⟨k,u⟩ := first
    rw [addOf]
    by_cases hk : k = row.1
    · subst hk
      rw [if_pos rfl,sumOf_cons,sumOf_cons]
      by_cases hline : row.1 = line
      · simp only [if_pos hline]
        ring
      · simp only [if_neg hline,add_zero]
    · rw [if_neg hk,sumOf_cons,sumOf_cons,ih]
      ring

theorem addOf_lines (sums : List (Uuid × ℤ)) (row : Uuid × ℤ) (h : (sums.map Prod.fst).Nodup) :
    ((addOf sums row).map Prod.fst).Nodup ∧ ∀ k ∈ (addOf sums row).map Prod.fst, k ∈ sums.map Prod.fst ∨ k = row.1 := by
  induction sums with
  | nil => simp [addOf]
  | cons first sums ih =>
    obtain ⟨k,u⟩ := first
    obtain ⟨hk,hrest⟩ := List.nodup_cons.mp h
    rw [addOf]
    split_ifs with heq
    · exact ⟨h,fun j hj => .inl hj⟩
    · obtain ⟨hnodup,hmem⟩ := ih hrest
      constructor
      · rw [List.map_cons,List.nodup_cons]
        refine ⟨fun hin => ?_,hnodup⟩
        rcases hmem k hin with hin | heq'
        · exact hk hin
        · exact heq heq'
      · intro j hj
        rcases List.mem_cons.mp hj with rfl | hj
        · exact .inl (by simp)
        · exact (hmem j hj).imp_left fun h => List.mem_cons_of_mem _ h

/-- A line's sum is of all its rows. -/
theorem mem_byLine {rows : List (Uuid × ℤ)} {line : Uuid} {units : ℤ} (h : (line,units) ∈ byLine rows) :
    units = sumOf rows line := by
  have hfold (rows sums : List (Uuid × ℤ)) (hsums : (sums.map Prod.fst).Nodup) :
      ((rows.foldl addOf sums).map Prod.fst).Nodup ∧
        ∀ k, sumOf (rows.foldl addOf sums) k = sumOf sums k+sumOf rows k := by
    induction rows generalizing sums with
    | nil => exact ⟨hsums,fun k => (add_zero _).symm⟩
    | cons row rows ih =>
      obtain ⟨hnodup,hsum⟩ := ih (addOf sums row) (addOf_lines sums row hsums).1
      refine ⟨hnodup,fun k => ?_⟩
      rw [List.foldl_cons,hsum,sumOf_addOf,sumOf_cons]
      ring
  obtain ⟨hnodup,hsum⟩ := hfold rows [] (by simp)
  have hone : ((byLine rows).filter (·.1 = line)) = [(line,units)] := by
    have hrow := GroupBy.filter_keyed hnodup h
    exact hrow
  have hline := hsum line
  rw [show sumOf [] line = 0 from rfl,zero_add] at hline
  rw [← hline,sumOf]
  change units = (((byLine rows).filter (·.1 = line)).map Prod.snd).sum
  rw [hone]
  simp

section
variable {screen : BenchScreen}

theorem lineOf_id {id : Uuid} {line : ScreenLine} (h : lineOf screen id = some line) : line.lineId = id := by
  simpa using List.find?_some h

/-- Goods shown are what their rows have of the line. -/
theorem mem_goodsOf {rows : List (Uuid × ℤ)} {g : BoardGoods} (h : g ∈ goodsOf screen rows) :
    (g.units : ℤ) = sumOf rows g.line.lineId := by
  obtain ⟨⟨id,units⟩,hrow,hg⟩ := List.mem_filterMap.mp h
  obtain ⟨line,hline,hg⟩ := Option.bind_eq_some_iff.mp hg
  split_ifs at hg with hpos
  cases hg
  rw [lineOf_id hline,← mem_byLine hrow]
  exact Int.toNat_of_nonneg (le_of_lt hpos)

/-- What a planned parcel shows of a line is no more than is planned. -/
theorem goodsUnits_planned {pp : PlannedParcel} (h : Planned pp) (line : Uuid) :
    goodsUnits (plannedParcel screen pp) line ≤ unitsIn pp line := by
  unfold goodsUnits
  cases hfind : (plannedParcel screen pp).goods.find? (·.line.lineId = line) with
  | none => exact unitsIn_nonneg h line
  | some g =>
    have hline : g.line.lineId = line := by simpa using List.find?_some hfind
    have hg := List.mem_of_find?_eq_some hfind
    simp only [Option.map_some,Option.getD_some]
    rw [plannedParcel] at hg
    split at hg
    · -- a thing as it is, of its first row
      rename_i as row units has hrow
      obtain ⟨l,hl,hrow⟩ := Option.bind_eq_some_iff.mp hrow
      obtain ⟨line',hline',heq⟩ := Option.map_eq_some_iff.mp hrow
      cases heq
      obtain rfl := List.mem_singleton.mp hg
      have hin : l ∈ pp.lines := List.mem_of_mem_head? hl
      have hid := lineOf_id hline'
      simp only at hline ⊢
      rw [← hline,hid,unitsIn_row h hin]
      have hpos := h.some_ l hin
      have hmost : (plannedAsIs row l.quantity as).units ≤ l.quantity := by
        unfold plannedAsIs
        cases hfound : (shipsAsIs row l.quantity).find? (·.level = as.level) with
        | none => exact le_rfl
        | some a =>
          obtain ⟨k,hk,hgoes⟩ := Packing.split_asIs _ _ a (List.mem_of_find?_eq_some hfound)
          obtain rfl := List.mem_singleton.mp hk
          have hle := hgoes.most
          simp only [Option.getD_some]
          omega
      omega
    · -- a box of its rows
      have hunits := mem_goodsOf hg
      rw [hunits,hline]
      apply le_of_eq
      simp only [sumOf,unitsIn,List.filter_map,List.map_map]
      rfl

/-- A parcel on the board is made, planned, or ships as it is. -/
theorem board_parcels {p : BoardParcel} (hp : p ∈ (boardOf screen).parcels) :
    (p.made = true ∧ p.planned = none) ∨
      (p.made = false ∧ ∃ pp ∈ screen.plan, p = plannedParcel screen pp) ∨
      p.made = false ∧ p.planned = none ∧ ∃ a line, p = asIsParcel line (.asIs a.line a.level) a none ∧
        line.lineId = a.line ∧ a.units = a.count*a.per ∧ 0 ≤ a.count ∧ 0 < a.per := by
  simp only [boardOf,List.mem_append] at hp
  rcases hp with (hp | hp) | hp
  · obtain ⟨c,-,rfl⟩ := List.mem_map.mp hp
    exact .inl ⟨rfl,rfl⟩
  · obtain ⟨pp,hpp,rfl⟩ := List.mem_map.mp hp
    refine .inr (.inl ⟨?_,pp,hpp,rfl⟩)
    unfold plannedParcel
    split <;> rfl
  · obtain ⟨a,ha,hshown⟩ := List.mem_filterMap.mp hp
    obtain ⟨line,hid,rfl⟩ := Option.map_eq_some_iff.mp hshown
    obtain ⟨l,-,hgoes⟩ := Packing.split_asIs _ _ a ha
    exact .inr (.inr ⟨rfl,rfl,a,line,rfl,lineOf_id hid,hgoes.units,hgoes.count,hgoes.per⟩)

theorem leftOf_nonneg (line : Uuid) : 0 ≤ leftOf (boardOf screen) line := by
  unfold leftOf
  cases hfind : (boardOf screen).lines.find? (·.line.lineId = line) with
  | none => exact le_rfl
  | some b =>
    have hb := List.mem_of_find?_eq_some hfind
    simp only [boardOf,List.mem_map] at hb
    obtain ⟨l,-,rfl⟩ := hb
    exact le_max_left _ _

end

end Drag
end Spork
