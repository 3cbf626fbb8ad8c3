import Spork.Packing.Boxing

/-! What `split` makes of each line: its levels in turn, each taking as many as the
units left hold. Every line's pieces are its own, one entry for each level. -/
namespace Spork
namespace Packing

/-- The pack of a level that units can go as: one with a count that is an each, ships as it
is, or has a size. -/
def usable (line : BenchLine) (inBox : Bool) (level : Level) : Option PackUnit :=
  match line.packs.find? (·.level = level) with
  | none => none
  | some unit =>
    if unit.units ≤ 0 ∨ (level ≠ .each ∧ (unit.shipsAsIs && !inBox) = false ∧ measured unit = none)
    then none else some unit

/-- So many of one pack go as it is, into a box, round the rest or nowhere. -/
def putAs (line : BenchLine) (index : ℕ) (inBox : Bool) (level : Level) (unit : PackUnit) (count : ℤ)
    (s : Split) : Split :=
  if unit.shipsAsIs && !inBox then
    {s with asIs := s.asIs++[{aside line (count*unit.units) (some unit) with
      level := level, count := count, per := unit.units, size := measured unit, index := index}]}
  else
    match measured unit with
    | some d => {s with pieces := s.pieces++[⟨kindOf line index unit d,count.toNat⟩]}
    | none =>
      if unit.noSize then {s with loose := s.loose++[aside line count (some unit)]}
      else {s with unmeasured := s.unmeasured++[aside line count (some unit)]}

theorem usable_some {line : BenchLine} {inBox : Bool} {level : Level} {unit : PackUnit}
    (h : usable line inBox level = some unit) :
    unit ∈ line.packs ∧ unit.level = level ∧ 0 < unit.units ∧
      (level = .each ∨ (unit.shipsAsIs && !inBox) = true ∨ measured unit ≠ none) := by
  simp only [usable] at h
  split at h
  · cases h
  · rename_i u hfind
    split_ifs at h with hskip
    cases h
    push Not at hskip
    refine ⟨List.mem_of_find?_eq_some hfind,by simpa using List.find?_some hfind,hskip.1,?_⟩
    by_cases heach : level = .each
    · exact Or.inl heach
    · by_cases halone : (unit.shipsAsIs && !inBox) = true
      · exact Or.inr (Or.inl halone)
      · exact Or.inr (Or.inr (hskip.2 heach (Bool.eq_false_iff.mpr halone)))

theorem splitLevel_eq (line : BenchLine) (index : ℕ) (inBox : Bool) (s : Split) (units : ℤ)
    (level : Level) :
    splitLevel line index inBox (s,units) level =
      match usable line inBox level with
      | none => (s,units)
      | some unit =>
        if units < unit.units then (s,units)
        else (putAs line index inBox level unit (units/unit.units) s,
          units-units/unit.units*unit.units) := by
  unfold splitLevel usable putAs
  cases line.packs.find? (·.level = level) with
  | none => rfl
  | some unit =>
    dsimp only
    by_cases hskip : unit.units ≤ 0 ∨
        (level ≠ .each ∧ (unit.shipsAsIs && !inBox) = false ∧ measured unit = none)
    · rw [if_pos hskip]
      rcases hskip with hneg | hskip
      · exact if_pos (Or.inl hneg)
      · by_cases hless : unit.units ≤ 0 ∨ units < unit.units
        · exact if_pos hless
        · rw [if_neg hless,if_pos hskip]
    · rw [if_neg hskip]
      push Not at hskip
      by_cases hless : units < unit.units
      · rw [if_pos (Or.inr hless)]
        exact (if_pos hless).symm
      · have hsome : ¬(unit.units ≤ 0 ∨ units < unit.units) := by
          have hpos := hskip.1
          omega
        have hgoes : ¬(level ≠ .each ∧ (unit.shipsAsIs && !inBox) = false ∧ measured unit = none) :=
          fun h => hskip.2 h.1 h.2.1 h.2.2
        rw [if_neg hsome,if_neg hgoes]
        simp only [if_neg hless]
        cases unit.shipsAsIs && !inBox
        · cases measured unit <;> cases unit.noSize <;> rfl
        · rfl

/-- The entry a pack's count makes in the pieces, when it goes into a box. -/
def pieceOf (line : BenchLine) (index : ℕ) (inBox : Bool) (unit : PackUnit) (count : ℤ) : List Left :=
  if unit.shipsAsIs && !inBox then []
  else
    match measured unit with
    | some d => if count = 0 then [] else [⟨kindOf line index unit d,count.toNat⟩]
    | none => []

/-- A line's pieces, level by level. -/
def piecesFrom (line : BenchLine) (index : ℕ) (inBox : Bool) : List Level → ℤ → List Left
  | [], _ => []
  | level :: levels, units =>
    match usable line inBox level with
    | none => piecesFrom line index inBox levels units
    | some unit =>
      pieceOf line index inBox unit (units/unit.units)++
        piecesFrom line index inBox levels (units%unit.units)

def levels : List Level := [.carton,.inner,.each]

theorem splitLevels_pieces (line : BenchLine) (index : ℕ) (inBox : Bool) (ls : List Level) (s : Split)
    (units : ℤ) (h : 0 ≤ units) :
    (ls.foldl (splitLevel line index inBox) (s,units)).1.pieces =
      s.pieces++piecesFrom line index inBox ls units := by
  induction ls generalizing s units with
  | nil => simp [piecesFrom]
  | cons level ls ih =>
    rw [List.foldl_cons,splitLevel_eq,piecesFrom]
    cases hu : usable line inBox level with
    | none => exact ih s units h
    | some unit =>
      have hpos := (usable_some hu).2.2.1
      by_cases hless : units < unit.units
      · have hzero : units/unit.units = 0 := Int.ediv_eq_zero_of_lt h hless
        have hmod : units%unit.units = units := Int.emod_eq_of_lt h hless
        simp only [hless,if_true,ih s units h,hzero,hmod,pieceOf]
        cases unit.shipsAsIs && !inBox <;> cases measured unit <;> simp
      · have hmod : units-units/unit.units*unit.units = units%unit.units := by
          have := Int.emod_add_mul_ediv units unit.units
          linarith [mul_comm (units/unit.units) unit.units]
        have hnonneg : 0 ≤ units%unit.units := Int.emod_nonneg _ hpos.ne'
        have hcount : units/unit.units ≠ 0 := by
          intro hzero
          have hlt := Int.lt_ediv_add_one_mul_self units hpos
          rw [hzero] at hlt
          omega
        simp only [hless,if_false,hmod]
        rw [ih _ _ hnonneg]
        unfold putAs pieceOf
        cases unit.shipsAsIs && !inBox
        · cases measured unit
          · cases unit.noSize <;> simp
          · simp [hcount]
        · simp

/-- A line's pieces: what the counts of its levels put in a box. -/
def linePieces (inBox : Bool) (line : BenchLine) (index : ℕ) (unitsOf : ℤ) : List Left :=
  piecesFrom line index inBox levels (max 0 unitsOf)

theorem pieceOf_zero (line : BenchLine) (index : ℕ) (inBox : Bool) (unit : PackUnit) :
    pieceOf line index inBox unit 0 = [] := by
  unfold pieceOf
  cases unit.shipsAsIs && !inBox <;> cases measured unit <;> rfl

theorem piecesFrom_zero (line : BenchLine) (index : ℕ) (inBox : Bool) (ls : List Level) :
    piecesFrom line index inBox ls 0 = [] := by
  induction ls with
  | nil => rfl
  | cons level ls ih =>
    simp only [piecesFrom]
    split
    · exact ih
    · simp [pieceOf_zero,ih]

theorem splitLine_pieces (inBox : Bool) (s : Split) (line : BenchLine) (index : ℕ) (unitsOf : ℤ) :
    (splitLine inBox s line index unitsOf).pieces =
      s.pieces++linePieces inBox line index unitsOf := by
  unfold splitLine linePieces
  by_cases hzero : max 0 unitsOf = 0
  · simp [hzero,piecesFrom_zero]
  · have hpieces := splitLevels_pieces line index inBox levels s (max 0 unitsOf) (le_max_left _ _)
    simp only [hzero,if_false]
    simp only [levels] at hpieces ⊢
    split_ifs
    · exact hpieces
    · exact hpieces

/-- Every line's pieces, line after line. -/
def allPieces (inBox : Bool) : ℕ → List (BenchLine × ℤ) → List Left
  | _, [] => []
  | index, (line,unitsOf) :: rest =>
    linePieces inBox line index unitsOf++allPieces inBox (index+1) rest

theorem splitFrom_pieces (inBox : Bool) (index : ℕ) (ls : List (BenchLine × ℤ)) (s : Split) :
    (splitFrom inBox index ls s).pieces = s.pieces++allPieces inBox index ls := by
  induction ls generalizing index s with
  | nil => simp [splitFrom,allPieces]
  | cons l ls ih =>
    rw [splitFrom,ih,splitLine_pieces,allPieces,List.append_assoc]

theorem split_pieces (ls : List (BenchLine × ℤ)) (inBox : Bool) :
    (split ls inBox).pieces = allPieces inBox 0 ls := splitFrom_pieces inBox 0 ls _

/-! ## What goes as it is -/

/-- A piece that goes as it is: so many of a level of a line's, no more than there were. -/
structure GoesAsIs (line : BenchLine) (most : ℤ) (a : AsIs) : Prop where
  line : a.line = line.lineId
  units : a.units = a.count*a.per
  count : 0 ≤ a.count
  per : 0 < a.per
  most : a.units ≤ most

theorem splitLevel_asIs {line : BenchLine} {index : ℕ} {inBox : Bool} {level : Level} {s : Split} {units most : ℤ}
    (hunits : 0 ≤ units) (hmost : units ≤ most) {P : AsIs → Prop} (hs : ∀ a ∈ s.asIs, P a)
    (hP : ∀ a, GoesAsIs line most a → P a) :
    (∀ a ∈ (splitLevel line index inBox (s,units) level).1.asIs, P a) ∧
      0 ≤ (splitLevel line index inBox (s,units) level).2 ∧ (splitLevel line index inBox (s,units) level).2 ≤ most := by
  rw [splitLevel_eq]
  cases hu : usable line inBox level with
  | none => exact ⟨hs,hunits,hmost⟩
  | some unit =>
    have hpos := (usable_some hu).2.2.1
    by_cases hless : units < unit.units
    · simp only [if_pos hless]
      exact ⟨hs,hunits,hmost⟩
    · have hcount : 0 ≤ units/unit.units := Int.ediv_nonneg hunits hpos.le
      have hmod := Int.emod_nonneg units hpos.ne'
      have hdiv := Int.emod_add_mul_ediv units unit.units
      have htaken : 0 ≤ units/unit.units*unit.units := mul_nonneg hcount hpos.le
      have hcomm := mul_comm (units/unit.units) unit.units
      simp only [if_neg hless]
      refine ⟨?_,by linarith,by linarith⟩
      unfold putAs
      cases unit.shipsAsIs && !inBox with
      | false => cases measured unit <;> cases unit.noSize <;> exact hs
      | true =>
        intro a ha
        rcases List.mem_append.mp ha with hold | hnew
        · exact hs a hold
        · rw [List.mem_singleton.mp hnew]
          exact hP _ ⟨rfl,rfl,hcount,hpos,by show units/unit.units*unit.units ≤ most; linarith⟩

theorem splitLine_asIs {line : BenchLine} {index : ℕ} {inBox : Bool} {s : Split} {unitsOf : ℤ} {P : AsIs → Prop}
    (hs : ∀ a ∈ s.asIs, P a) (hP : ∀ a, GoesAsIs line (max 0 unitsOf) a → P a) :
    ∀ a ∈ (splitLine inBox s line index unitsOf).asIs, P a := by
  have hlevels (ls : List Level) (s : Split) (units : ℤ) (hunits : 0 ≤ units) (hmost : units ≤ max 0 unitsOf)
      (hs : ∀ a ∈ s.asIs, P a) : ∀ a ∈ (ls.foldl (splitLevel line index inBox) (s,units)).1.asIs, P a := by
    induction ls generalizing s units with
    | nil => exact hs
    | cons level ls ih =>
      obtain ⟨hthis,hleft,hleftmost⟩ := splitLevel_asIs hunits hmost hs hP
      exact ih _ _ hleft hleftmost hthis
  unfold splitLine
  by_cases hzero : max 0 unitsOf = 0
  · simpa [hzero] using hs
  · simp only [if_neg hzero]
    split_ifs
    · exact hlevels levels s _ (le_max_left _ _) le_rfl hs
    · exact hlevels levels s _ (le_max_left _ _) le_rfl hs

/-- Each thing that goes as it is is of one of the lines. -/
theorem split_asIs (ls : List (BenchLine × ℤ)) (inBox : Bool) :
    ∀ a ∈ (split ls inBox).asIs, ∃ l ∈ ls, GoesAsIs l.1 (max 0 l.2) a := by
  have hfrom (index : ℕ) (rest : List (BenchLine × ℤ)) (s : Split) (hin : ∀ l ∈ rest, l ∈ ls)
      (hs : ∀ a ∈ s.asIs, ∃ l ∈ ls, GoesAsIs l.1 (max 0 l.2) a) :
      ∀ a ∈ (splitFrom inBox index rest s).asIs, ∃ l ∈ ls, GoesAsIs l.1 (max 0 l.2) a := by
    induction rest generalizing index s with
    | nil => exact hs
    | cons l rest ih =>
      apply ih
      · exact fun k hk => hin k (List.mem_cons_of_mem l hk)
      · exact splitLine_asIs hs fun a ha => ⟨l,hin l (by simp),ha⟩
  exact hfrom 0 ls ⟨[],[],[],[]⟩ (fun l hl => hl) (by simp)

/-! ## One entry for each kind -/

theorem mem_pieceOf {line : BenchLine} {index : ℕ} {inBox : Bool} {unit : PackUnit} {count : ℤ}
    {e : Left} (h : e ∈ pieceOf line index inBox unit count) :
    count ≠ 0 ∧ e.count = count.toNat ∧ ∃ d, e.kind = kindOf line index unit d := by
  unfold pieceOf at h
  cases halone : unit.shipsAsIs && !inBox with
  | true => simp [halone] at h
  | false =>
    cases hd : measured unit with
    | none => simp [halone,hd] at h
    | some d =>
      by_cases hzero : count = 0
      · simp [halone,hd,hzero] at h
      · simp only [halone,hd,hzero,if_false,Bool.false_eq_true,List.mem_singleton] at h
        subst h
        exact ⟨hzero,rfl,d,rfl⟩

/-- A line's piece is of the line, and there is one of it at least. -/
theorem mem_piecesFrom {line : BenchLine} {index : ℕ} {inBox : Bool} {ls : List Level} {units : ℤ}
    (hunits : 0 ≤ units) {e : Left} (h : e ∈ piecesFrom line index inBox ls units) :
    e.kind.line = line.lineId ∧ e.kind.itemId = line.itemId ∧ e.kind.index = index ∧ 0 < e.count := by
  induction ls generalizing units with
  | nil => cases h
  | cons level ls ih =>
    simp only [piecesFrom] at h
    split at h
    · exact ih hunits h
    · rename_i unit hu
      have hpos := (usable_some hu).2.2.1
      rcases List.mem_append.mp h with h | h
      · obtain ⟨hne,hcount,d,hkind⟩ := mem_pieceOf h
        have hnonneg := Int.ediv_nonneg hunits hpos.le
        rw [hkind,hcount]
        exact ⟨rfl,rfl,rfl,by omega⟩
      · exact ih (Int.emod_nonneg _ hpos.ne') h

theorem mem_linePieces {inBox : Bool} {line : BenchLine} {index : ℕ} {unitsOf : ℤ} {e : Left}
    (h : e ∈ linePieces inBox line index unitsOf) :
    e.kind.line = line.lineId ∧ e.kind.itemId = line.itemId ∧ e.kind.index = index ∧ 0 < e.count :=
  mem_piecesFrom (le_max_left 0 unitsOf) h

theorem piecesFrom_levels (line : BenchLine) (index : ℕ) (inBox : Bool) (ls : List Level) (units : ℤ) :
    ((piecesFrom line index inBox ls units).map fun e => e.kind.level).Sublist ls := by
  induction ls generalizing units with
  | nil => exact List.Sublist.refl _
  | cons level ls ih =>
    simp only [piecesFrom]
    split
    · exact (ih units).cons level
    · rename_i unit hu
      have hlevel := (usable_some hu).2.1
      rw [List.map_append]
      have hone : ((pieceOf line index inBox unit (units/unit.units)).map fun e =>
          e.kind.level).Sublist [level] := by
        unfold pieceOf
        cases unit.shipsAsIs && !inBox
        · cases measured unit
          · simp
          · by_cases hzero : units/unit.units = 0 <;> simp [hzero,kindOf,hlevel]
        · simp
      exact hone.append (ih _)

theorem linePieces_oneEach (inBox : Bool) (line : BenchLine) (index : ℕ) (unitsOf : ℤ) :
    OneEach (linePieces inBox line index unitsOf) := by
  have hlevels : ((linePieces inBox line index unitsOf).map fun e => e.kind.level).Nodup :=
    (piecesFrom_levels line index inBox levels _).nodup (by decide)
  rw [← Function.comp_def Kind.level Left.kind,← List.map_map] at hlevels
  exact hlevels.of_map

theorem mem_allPieces {inBox : Bool} {index : ℕ} {ls : List (BenchLine × ℤ)} {e : Left}
    (h : e ∈ allPieces inBox index ls) : e.kind.line ∈ ls.map fun l => l.1.lineId := by
  induction ls generalizing index with
  | nil => cases h
  | cons l ls ih =>
    rcases List.mem_append.mp h with h | h
    · simp [(mem_linePieces h).1]
    · exact List.mem_cons_of_mem _ (ih h)

theorem allPieces_oneEach (inBox : Bool) (index : ℕ) (ls : List (BenchLine × ℤ))
    (h : (ls.map fun l => l.1.lineId).Nodup) : OneEach (allPieces inBox index ls) := by
  induction ls generalizing index with
  | nil => exact List.nodup_nil
  | cons l ls ih =>
    obtain ⟨hl,hls⟩ := List.nodup_cons.mp h
    rw [allPieces,OneEach,List.map_append]
    refine List.nodup_append.mpr ⟨linePieces_oneEach inBox l.1 index l.2,ih (index+1) hls,?_⟩
    rintro a ha b hb rfl
    obtain ⟨e,he,rfl⟩ := List.mem_map.mp ha
    obtain ⟨e',he',heq⟩ := List.mem_map.mp hb
    have hline := (mem_linePieces he).1
    have hlater := mem_allPieces he'
    rw [heq,hline] at hlater
    exact hl hlater

theorem unitsIn_lines (contents : List Content) (seen : List Uuid) (lines : List BenchLine) :
    (unitsIn contents seen lines).map Prod.fst = lines := by
  induction lines generalizing seen with
  | nil => rfl
  | cons l lines ih =>
    simp only [unitsIn]
    split_ifs <;> simp [ih]

end Packing
end Spork
