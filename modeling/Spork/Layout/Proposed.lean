import Spork.Layout.Families

/-! What one family of codes comes to (`layout.rs`, draft): each code is in the place it is
proposed, in the cell its pattern calls by it, or is left over, and only a number to pad
too wide stops it. -/
namespace Spork
namespace Layout

namespace Family
variable (f : Family)

/-- The pattern has a number to pad past what the formatter takes, on the way to the first
cell's name. -/
def Overwide : Prop :=
  ∃ grid text pattern, f.shaped = some (grid,text) ∧ Pattern.parse text = .ok pattern ∧
    grid.cellCount ≤ mostCells ∧ pattern.gap grid = none ∧
    ∃ c ∈ grid.cells.head?, pattern.Overwide grid c

/-- Some code of the family is what its pattern calls a cell. -/
def spells : Bool :=
  match f.shaped with
  | some (grid,text) =>
    match named grid text with
    | some (some names) => f.codes.any fun c => decide (c.1 ∈ names.map Prod.snd)
    | _ => false
  | none => false

end Family

theorem cellNamed_mem {names : List (GridCell × List Char)} {code : List Char} {cell : GridCell}
    (h : cellNamed names code = some cell) : (cell,code) ∈ names := by
  obtain ⟨e,he,rfl⟩ := Option.map_eq_some_iff.mp h
  have hcode : e.2 = code := by
    simpa using List.find?_some he
  have hin := List.mem_of_find?_eq_some he
  rw [List.mem_reverse] at hin
  rwa [← hcode]

theorem cellNamed_isSome {names : List (GridCell × List Char)} {code : List Char} :
    (cellNamed names code).isSome = true ↔ code ∈ names.map Prod.snd := by
  rw [cellNamed,Option.isSome_map,List.find?_isSome]
  simp

/-- The names of a grid's cells, when they are worked out. -/
theorem named_ok {grid : Grid} {text : List Char} {names : List (GridCell × List Char)}
    (h : Family.named grid text = some (some names)) :
    ∃ pattern, Pattern.parse text = .ok pattern ∧ pattern.names grid = .ok names := by
  unfold Family.named at h
  split at h
  · cases h
  · rename_i pattern hpattern
    split_ifs at h with hmany
    · cases h
    · split at h
      · rename_i v hv
        cases h
        exact ⟨pattern,hpattern,hv⟩
      · cases h
      · cases h

theorem named_none {grid : Grid} {text : List Char} :
    Family.named grid text = none ↔ ∃ pattern, Pattern.parse text = .ok pattern ∧
      grid.cellCount ≤ mostCells ∧ pattern.names grid = .error .panics := by
  unfold Family.named
  cases hparse : Pattern.parse text with
  | error why => simp
  | ok pattern =>
    by_cases hmany : grid.cellCount > mostCells
    · simp [hmany]
    · cases hnames : pattern.names grid with
      | ok v => simp [hmany,hnames]
      | error why => cases why <;> simp [hmany,hnames,not_lt.mp hmany]

/-- A family stops the program exactly when its pattern has a number to pad too wide. -/
theorem propose_none {bins : List (List Char × Bool)} {f : Family} (hf : f ∈ families bins) :
    propose f = none ↔ f.Overwide := by
  obtain ⟨grid,text,hshaped⟩ := shaped_some hf
  have hnamed : propose f = none ↔ Family.named grid text = none := by
    unfold propose
    rw [hshaped]
    simp only [Option.bind_eq_bind,Option.bind_some]
    cases Family.named grid text with
    | none => simp
    | some o =>
      cases o with
      | none => simp
      | some names =>
        simp only [Option.bind_some,reduceCtorEq,iff_false]
        split_ifs <;> simp
  rw [hnamed,named_none]
  constructor
  · rintro ⟨pattern,hparse,hcount,hpanics⟩
    obtain ⟨hgap,hwide⟩ := Pattern.names_panics.mp hpanics
    exact ⟨grid,text,pattern,hshaped,hparse,hcount,hgap,hwide⟩
  · rintro ⟨grid',text',pattern,hshaped',hparse,hcount,hgap,hwide⟩
    rw [hshaped] at hshaped'
    cases hshaped'
    exact ⟨pattern,hparse,hcount,Pattern.names_panics.mpr ⟨hgap,hwide⟩⟩

/-- What a place's bins are: each in a cell of its grid that its pattern, read back from its
text, calls by the bin's code, no two in one cell. -/
structure SpeltBack (pattern : List Char) (grid : Grid) (bins : List (List Char × GridCell)) : Prop where
  spelt : ∀ b ∈ bins, grid.contains b.2 = true ∧
    ∃ p, Pattern.parse pattern = .ok p ∧ p.render grid b.2 = .ok b.1
  apart : (bins.map Prod.snd).Nodup

/-- What a family comes to. -/
structure Outcome.Sound (f : Family) (o : Outcome) : Prop where
  accounts : (o.unmatched++o.place.toList.flatMap fun p => p.bins.map Prod.fst).Perm (f.codes.map Prod.fst)
  placed : ∀ p ∈ o.place, p.solid = f.solid ∧ SpeltBack p.pattern p.grid p.bins
  isSome : o.place.isSome = f.spells

/-- The codes found a cell and those not. -/
theorem found_perm (names : List (GridCell × List Char)) (codes : List (List Char × Bool)) :
    ((codes.filter fun c => (cellNamed names c.1).isNone).map Prod.fst++
      (codes.filterMap fun c => (cellNamed names c.1).map fun cell => (c.1,cell)).map Prod.fst).Perm
      (codes.map Prod.fst) := by
  induction codes with
  | nil => simp
  | cons c codes ih =>
    cases hc : cellNamed names c.1 with
    | none => simpa [hc] using ih
    | some cell =>
      simp only [List.filter_cons,hc,Option.isNone_some,List.filterMap_cons,Option.map_some,List.map_cons]
      exact List.perm_middle.trans (ih.cons c.1)

theorem propose_sound {bins : List (List Char × Bool)} {f : Family} (hf : f ∈ families bins)
    (hbins : (bins.map Prod.fst).Nodup) {o : Outcome} (h : propose f = some o) : o.Sound f := by
  obtain ⟨grid,text,hshaped⟩ := shaped_some hf
  obtain ⟨-,hsub,-⟩ := mem_families hf
  have hspells : f.spells = match Family.named grid text with
      | some (some names) => f.codes.any fun c => decide (c.1 ∈ names.map Prod.snd)
      | _ => false := by
    unfold Family.spells
    rw [hshaped]
  unfold propose at h
  rw [hshaped] at h
  simp only [Option.bind_eq_bind,Option.bind_some] at h
  cases hnamed : Family.named grid text with
  | none => simp [hnamed] at h
  | some r =>
    cases r with
    | none =>
      rw [hnamed] at h hspells
      cases h
      exact ⟨by simp,by simp,hspells.symm⟩
    | some names =>
      rw [hnamed] at h hspells
      simp only [Option.bind_some] at h
      generalize hplaced : (f.codes.filterMap fun c =>
        (cellNamed names c.1).map fun cell => (c.1,cell)) = placed at h
      have hperm := found_perm names f.codes
      rw [hplaced] at hperm
      have hany : f.spells = true ↔ placed ≠ [] := by
        change f.spells = f.codes.any _ at hspells
        rw [hspells,List.any_eq_true,← hplaced,ne_eq,List.filterMap_eq_nil_iff,not_forall]
        apply exists_congr
        intro c
        rw [decide_eq_true_eq,← cellNamed_isSome,Classical.not_imp,Option.map_eq_none_iff,
          Option.isSome_iff_ne_none]
      split_ifs at h with hnone
      · cases h
        rw [hnone] at hperm
        constructor
        case accounts => simpa using hperm
        case placed => simp
        case isSome => exact (Bool.eq_false_iff.mpr fun ht => hany.mp ht hnone).symm
      · cases h
        obtain ⟨pattern,hparse,hnames⟩ := named_ok hnamed
        obtain ⟨hcells,hapart,hrendered⟩ := Pattern.names_ok hnames
        have hmem {b : List Char × GridCell} (hb : b ∈ placed) : (b.2,b.1) ∈ names := by
          rw [← hplaced] at hb
          obtain ⟨c,-,hc⟩ := List.mem_filterMap.mp hb
          obtain ⟨cell,hcell,rfl⟩ := Option.map_eq_some_iff.mp hc
          exact cellNamed_mem hcell
        have hspelt : SpeltBack text grid (Sorted.sortBy (fun a b => a.2.order b.2) placed) := by
          constructor
          case spelt =>
            intro b hb
            have hb' := hmem (Sorted.mem_sortBy.mp hb)
            have hin : b.2 ∈ grid.cells := hcells ▸ List.mem_map.mpr ⟨_,hb',rfl⟩
            exact ⟨(grid.mem_cells_iff b.2).mp hin,pattern,hparse,hrendered (b.2,b.1) hb'⟩
          case apart =>
            have hcodes : (placed.map Prod.fst).Nodup :=
              (hperm.nodup_iff.mpr (hbins.sublist (hsub.map Prod.fst))).of_append_right
            have hnodup : (placed.map Prod.snd).Nodup := by
              apply List.Nodup.map_on _ hcodes.of_map
              intro b hb b' hb' heq
              have hcellsNodup : (names.map Prod.fst).Nodup := hcells ▸ grid.nodup_cells
              have hsame := List.inj_on_of_nodup_map hcellsNodup (hmem hb) (hmem hb') heq
              exact Prod.ext (congrArg Prod.snd hsame) heq
            exact ((Sorted.sortBy_perm _ placed).map Prod.snd).nodup_iff.mpr hnodup
        constructor
        case accounts =>
          rw [Option.toList_some,List.flatMap_singleton]
          exact (((Sorted.sortBy_perm _ placed).map Prod.fst).append_left _).trans hperm
        case placed =>
          intro p hp
          rw [Option.mem_some_iff] at hp
          subst hp
          exact ⟨Eq.refl f.solid,hspelt⟩
        case isSome => exact (hany.mpr hnone).symm

end Layout
end Spork
