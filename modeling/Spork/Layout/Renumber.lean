import Spork.Layout.Edit

/-! A place numbered from its other end: each of its bins, in the cell its pattern spells it in,
goes to the mirror column on the same side, level, row and position, which the pattern spells it
in now. -/
namespace Spork
namespace Layout

/-! ## Mirrored grids -/

namespace Grid

variable (g : Grid)

/-- The cell of the mirror column, on the same side, level, row and position. -/
def mirror (c : GridCell) : GridCell := {c with bay := g.bays+1-c.bay}

@[simp] theorem mirror_mirror (c : GridCell) : g.mirror (g.mirror c) = c := by
  simp [mirror]

@[simp] theorem mirrored_mirrored : g.mirrored.mirrored = g := by
  simp [mirrored]

@[simp] theorem mirrored_mirror : g.mirrored.mirror = g.mirror := rfl

@[simp] theorem cells_mirrored : g.mirrored.cells = g.cells := rfl

theorem mirror_mem_cells {c : GridCell} : g.mirror c ∈ g.cells ↔ c ∈ g.cells := by
  simp only [mem_cells_iff,contains,mirror,decide_eq_true_eq]
  omega

theorem mirror_inj {c d : GridCell} (h : g.mirror c = g.mirror d) : c = d := by
  rw [← g.mirror_mirror c,h,mirror_mirror]

end Grid

theorem Piece.render_mirror (g : Grid) (c : GridCell) (q : Piece) :
    q.render g.mirrored (g.mirror c) = q.render g c := by
  cases q with
  | text t => rfl
  | field f style =>
    cases f with
    | bay =>
      have hlabel : g.mirrored.labelNumber c.side (g.bays+1-c.bay) = g.labelNumber c.side c.bay := by
        rw [Grid.labelNumber_mirrored]
        congr 1
        omega
      exact congrArg (formatNumber · style) hlabel
    | level => rfl
    | row => rfl
    | position => rfl

namespace Pattern

variable {p : Pattern} {g : Grid}

/-- A cell's name is its mirror's in the grid numbered from the other end. -/
theorem render_mirror (c : GridCell) : p.render g.mirrored (g.mirror c) = p.render g c := by
  simp only [render,Piece.render_mirror]

/-- A name given by the grid numbered from the other end is of the mirror of the cell it was of. -/
theorem name_mirror {names : List (GridCell × List Char)} (h : p.names g.mirrored = .ok names) {c : GridCell}
    (hc : c ∈ g.cells) {code : List Char} (hcode : p.render g c = .ok code) {n : GridCell × List Char}
    (hn : n ∈ names) (hname : n.2 = code) : n.1 = g.mirror c := by
  obtain ⟨hcells,hapart,hrendered⟩ := names_ok h
  have hmem : g.mirror c ∈ names.map Prod.fst := by
    rw [hcells,Grid.cells_mirrored,Grid.mirror_mem_cells]
    exact hc
  obtain ⟨m,hm,hcell⟩ := List.mem_map.mp hmem
  have hm' : p.render g.mirrored m.1 = .ok m.2 := hrendered m hm
  rw [hcell,render_mirror,hcode] at hm'
  have hsame : n.2 = m.2 := by
    rw [hname]
    exact Except.ok.inj hm'
  rw [List.inj_on_of_nodup_map hapart hn hm hsame,hcell]

end Pattern

namespace Edit

/-! ## Bins in their cells -/

/-- The place a bin is in. -/
def Bin.place (b : Bin) : Option Uuid := b.cell.map Prod.fst

/-- No two bins of one id or code, and none in one cell. -/
structure Bins (bins : List Bin) : Prop where
  ids : (bins.map Bin.id).Nodup
  codes : (bins.map Bin.code).Nodup
  cells : (bins.filterMap Bin.cell).Nodup

/-- Each bin of a place with a pattern is in the cell the pattern spells it in. -/
def Spelled (bins : List Bin) (r : Row) : Prop :=
  ∀ b ∈ bins, ∀ cell, b.cell = some (r.id,cell) → ∀ s ∈ r.pattern, ∀ pattern, Pattern.parse s.toList = .ok pattern →
    cell ∈ r.grid.cells ∧ pattern.render r.grid cell = .ok b.code.toList

/-- A bin with the place it is in numbered from its other end. -/
def turnRound (r : Row) (b : Bin) : Bin :=
  match b.cell with
  | none => b
  | some (place,cell) => if place = r.id then {b with cell := some (place,r.grid.mirror cell)} else b

/-- What numbering a place from its other end asks: no bins, or a pattern that names each on
the grid numbered so. -/
def Renumbers (bins : List Bin) (r : Row) : Prop :=
  (∀ b ∈ bins, b.place ≠ some r.id) ∨ ∃ s pattern names, r.pattern = some s ∧ Pattern.parse s.toList = .ok pattern ∧
    pattern.names r.grid.mirrored = .ok names ∧ ∀ b ∈ bins, b.place = some r.id → ∃ n ∈ names, n.2 = b.code.toList

variable {bins : List Bin} {r : Row}

theorem isIn_iff {b : Bin} {place : Uuid} : b.isIn place = true ↔ b.place = some place := by
  rw [Bin.isIn,Bin.place,decide_eq_true_eq]

@[simp] theorem turnRound_id (b : Bin) : (turnRound r b).id = b.id := by
  rw [turnRound]
  split
  · rfl
  · split <;> rfl

@[simp] theorem turnRound_code (b : Bin) : (turnRound r b).code = b.code := by
  rw [turnRound]
  split
  · rfl
  · split <;> rfl

@[simp] theorem turnRound_active (b : Bin) : (turnRound r b).active = b.active := by
  rw [turnRound]
  split
  · rfl
  · split <;> rfl

theorem turnRound_cell (b : Bin) : (turnRound r b).cell =
    b.cell.map fun t => if t.1 = r.id then (t.1,r.grid.mirror t.2) else t := by
  rw [turnRound]
  split
  · rename_i h
    rw [h]
    rfl
  · rename_i h
    rw [h,Option.map_some]
    split
    · rfl
    · rw [h]

@[simp] theorem turnRound_place (b : Bin) : (turnRound r b).place = b.place := by
  rw [Bin.place,turnRound_cell,Option.map_map,Bin.place]
  congr 1
  funext t
  simp only [Function.comp]
  split <;> rfl

theorem turnRound_of_not_in {b : Bin} (h : b.place ≠ some r.id) : turnRound r b = b := by
  rw [turnRound]
  split
  · rfl
  · rename_i place cell hcell
    rw [Bin.place,hcell] at h
    rw [if_neg (by simpa using h)]

/-- Turned round, no two bins are in one cell. -/
theorem Bins.turnRound (h : Bins bins) : Bins (bins.map (turnRound r)) := by
  refine ⟨?_,?_,?_⟩
  · rw [List.map_map]
    simpa [Function.comp_def] using h.ids
  · rw [List.map_map]
    simpa [Function.comp_def] using h.codes
  · have hcells : (bins.map (Edit.turnRound r)).filterMap Bin.cell =
        (bins.filterMap Bin.cell).map fun t => if t.1 = r.id then (t.1,r.grid.mirror t.2) else t := by
      rw [List.filterMap_map,List.map_filterMap]
      exact List.filterMap_congr fun b _ => turnRound_cell b
    rw [hcells]
    refine h.cells.map fun t u htu => ?_
    have hplace : t.1 = u.1 := by
      have := congrArg Prod.fst htu
      split_ifs at this <;> exact this
    simp only [hplace] at htu
    split_ifs at htu
    · exact Prod.ext hplace (r.grid.mirror_inj (congrArg Prod.snd htu))
    · exact Prod.ext hplace (congrArg Prod.snd htu)

/-! ## Numbering from the other end -/

/-- Where a bin of the place goes. -/
def seat (r : Row) (b : Bin) : Uuid × Uuid × GridCell := (b.id,(turnRound r b).cell.getD (r.id,onlyCell))

theorem exists_cell {b : Bin} (h : b.place = some r.id) : ∃ cell, b.cell = some (r.id,cell) := by
  obtain ⟨⟨place,cell⟩,hcell,hplace⟩ := Option.map_eq_some_iff.mp h
  exact ⟨cell,by rw [hcell]; exact congrArg (fun p => some (p,cell)) hplace⟩

theorem turnRound_of_in {b : Bin} {cell : GridCell} (h : b.cell = some (r.id,cell)) :
    turnRound r b = {b with cell := some (r.id,r.grid.mirror cell)} := by
  simp [turnRound,h]

theorem takenOut_id (b : Bin) : (takenOut r.id b).id = b.id := by
  rw [takenOut]
  split <;> rfl

/-- A bin taken out of the place is put where the turn puts it, and any other left. -/
theorem seatIn_takenOut (h : Bins bins) {b : Bin} (hb : b ∈ bins) :
    seatIn ((bins.filter fun b => b.isIn r.id).map (seat r)) (takenOut r.id b) = turnRound r b := by
  have hown : ∀ t ∈ (bins.filter fun b => b.isIn r.id).map (seat r), t.1 = b.id → t = seat r b ∧ b.isIn r.id = true := by
    intro t ht hid
    obtain ⟨b',hb',rfl⟩ := List.mem_map.mp ht
    obtain ⟨hmem,hin⟩ := List.mem_filter.mp hb'
    obtain rfl : b' = b := List.inj_on_of_nodup_map h.ids hmem hb hid
    exact ⟨rfl,hin⟩
  rw [seatIn,takenOut_id]
  by_cases hin : b.isIn r.id = true
  · obtain ⟨cell,hcell⟩ := exists_cell (isIn_iff.mp hin)
    split
    · rename_i hnone
      have hmem : seat r b ∈ (bins.filter fun b => b.isIn r.id).map (seat r) :=
        List.mem_map_of_mem (List.mem_filter.mpr ⟨hb,hin⟩)
      exact absurd (decide_eq_true rfl) (List.find?_eq_none.mp hnone _ hmem)
    · rename_i t hfound
      have hid : t.1 = b.id := by simpa using List.find?_some hfound
      obtain ⟨rfl,-⟩ := hown t (List.mem_of_find?_eq_some hfound) hid
      rw [takenOut,if_pos hin,seat,turnRound_of_in hcell]
      rfl
  · rw [takenOut,if_neg hin,turnRound_of_not_in fun hplace => hin (isIn_iff.mpr hplace)]
    split
    · rfl
    · rename_i t hfound
      have hid : t.1 = b.id := by simpa using List.find?_some hfound
      exact absurd (hown t (List.mem_of_find?_eq_some hfound) hid).2 hin

theorem put_seats (h : Bins bins) :
    put (bins.map (takenOut r.id)) ((bins.filter fun b => b.isIn r.id).map (seat r)) = .ok (bins.map (turnRound r)) := by
  have hmoved : (bins.map (takenOut r.id)).map (seatIn ((bins.filter fun b => b.isIn r.id).map (seat r))) =
      bins.map (turnRound r) := by
    rw [List.map_map]
    exact List.map_congr_left fun b hb => seatIn_takenOut h hb
  rw [put,hmoved,if_pos h.turnRound.cells]

/-- The cell a bin's name is on now is where the turn puts it. -/
theorem cellOf_iff (hs : Spelled bins r) {s : String} (hpattern : r.pattern = some s) {pattern : Pattern}
    (hparse : Pattern.parse s.toList = .ok pattern) {names : List (GridCell × List Char)}
    (hnames : pattern.names r.grid.mirrored = .ok names) {b : Bin} (hb : b ∈ bins) (hin : b.place = some r.id)
    {t : Uuid × Uuid × GridCell} :
    cellOf names r b = .ok t ↔ (∃ n ∈ names, n.2 = b.code.toList) ∧ t = seat r b := by
  obtain ⟨cell,hcell⟩ := exists_cell hin
  obtain ⟨hgrid,hrender⟩ := hs b hb cell hcell s hpattern pattern hparse
  rw [cellOf]
  split
  · rename_i n hfound
    have hmem := List.mem_of_find?_eq_some hfound
    have hname : n.2 = b.code.toList := by simpa using List.find?_some hfound
    have hseat : seat r b = (b.id,r.id,n.1) := by
      rw [seat,turnRound_of_in hcell,Pattern.name_mirror hnames hgrid hrender hmem hname]
      rfl
    rw [hseat,Except.ok.injEq]
    exact ⟨fun heq => ⟨⟨n,hmem,hname⟩,heq.symm⟩,fun heq => heq.2.symm⟩
  · rename_i hnone
    refine iff_of_false Fallible.error_ne_ok ?_
    rintro ⟨⟨n,hn,hname⟩,-⟩
    exact List.find?_eq_none.mp hnone n hn (decide_eq_true hname)

/-- Numbering a place from its other end goes through where its pattern names each of its bins
so, and puts each in the mirror of its cell. -/
theorem renumber_iff (h : Bins bins) (hs : Spelled bins r) {out : List Bin} :
    renumber bins r (!r.grid.fromRight) = .ok out ↔ Renumbers bins r ∧ out = bins.map (turnRound r) := by
  rw [renumber]
  by_cases hempty : (bins.filter fun b => b.isIn r.id) = []
  · have hout : ∀ b ∈ bins, b.place ≠ some r.id := fun b hb hplace =>
      List.filter_eq_nil_iff.mp hempty b hb (isIn_iff.mpr hplace)
    have hleft : bins.map (turnRound r) = bins :=
      (List.map_congr_left fun b hb => turnRound_of_not_in (hout b hb)).trans (List.map_id' bins)
    rw [if_pos hempty,hleft,Except.ok.injEq]
    exact ⟨fun heq => ⟨Or.inl hout,heq.symm⟩,fun heq => heq.2.symm⟩
  · have hsome : ¬∀ b ∈ bins, b.place ≠ some r.id := fun hall => hempty
      (List.filter_eq_nil_iff.mpr fun b hb hin => hall b hb (isIn_iff.mp hin))
    rw [if_neg hempty]
    split
    · rename_i hnone
      refine iff_of_false Fallible.error_ne_ok ?_
      rintro ⟨hall | ⟨s,pattern,names,hpattern,hparse,-,-⟩,-⟩
      · exact hsome hall
      · rw [hpattern,Option.bind_some,hparse] at hnone
        cases hnone
    · rename_i pattern hbind
      obtain ⟨s,hpattern,hparse⟩ := Option.bind_eq_some_iff.mp hbind
      replace hparse := Fallible.toOption_ok hparse
      -- the pattern and the names asked for are the ones read
      have hread : Renumbers bins r ↔ ∃ names, pattern.names r.grid.mirrored = .ok names ∧
          ∀ b ∈ bins, b.place = some r.id → ∃ n ∈ names, n.2 = b.code.toList := by
        constructor
        · rintro (hall | ⟨s',pattern',names,hpattern',hparse',hnames,hnamed⟩)
          · exact absurd hall hsome
          · obtain rfl : s = s' := Option.some.inj (hpattern.symm.trans hpattern')
            obtain rfl : pattern = pattern' := Except.ok.inj (hparse.symm.trans hparse')
            exact ⟨names,hnames,hnamed⟩
        · rintro ⟨names,hnames,hnamed⟩
          exact Or.inr ⟨s,pattern,names,hpattern,hparse,hnames,hnamed⟩
      rw [hread]
      have hnot : ∀ why, pattern.names r.grid.mirrored = .error why →
          ¬((∃ names, pattern.names r.grid.mirrored = .ok names ∧
            ∀ b ∈ bins, b.place = some r.id → ∃ n ∈ names, n.2 = b.code.toList) ∧ out = bins.map (turnRound r)) := by
        rintro why hwhy ⟨⟨names,hnames,-⟩,-⟩
        rw [hwhy] at hnames
        cases hnames
      split
      · rename_i why hnames
        exact iff_of_false Fallible.error_ne_ok (hnot _ hnames)
      · rename_i hnames
        exact iff_of_false Fallible.error_ne_ok (hnot _ hnames)
      · rename_i names hnames
        replace hnames : pattern.names r.grid.mirrored = .ok names := hnames
        have hcells (cells : List (Uuid × Uuid × GridCell)) :
            (bins.filter fun b => b.isIn r.id).mapM (cellOf names r) = .ok cells ↔
              (∀ b ∈ bins.filter fun b => b.isIn r.id, ∃ n ∈ names, n.2 = b.code.toList) ∧
                cells = (bins.filter fun b => b.isIn r.id).map (seat r) :=
          Fallible.mapM_ok_iff fun b hb t =>
            cellOf_iff hs hpattern hparse hnames (List.mem_of_mem_filter hb) (isIn_iff.mp (List.mem_filter.mp hb).2)
        simp only [Fallible.bind_ok_iff,hcells]
        constructor
        · rintro ⟨cells,⟨hnamed,rfl⟩,hput⟩
          rw [put_seats h] at hput
          cases hput
          exact ⟨⟨names,hnames,fun b hb hin => hnamed b (List.mem_filter.mpr ⟨hb,isIn_iff.mpr hin⟩)⟩,rfl⟩
        · rintro ⟨⟨names',hnames',hnamed⟩,rfl⟩
          obtain rfl : names = names' := Except.ok.inj (hnames.symm.trans hnames')
          exact ⟨_,⟨fun b hb => hnamed b (List.mem_of_mem_filter hb) (isIn_iff.mp (List.mem_filter.mp hb).2),rfl⟩,
            put_seats h⟩

end Edit
end Layout
end Spork
