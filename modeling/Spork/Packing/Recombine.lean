import Spork.Packing.Split

/-! Some of a line's pieces put in the carton: what is in it and what is still to pack,
each split on its own, are the pieces put in and the pieces left. -/
namespace Spork
namespace Packing

/-- The units of the pieces put in. -/
def worth (put : Kind → ℕ) (pieces : List Left) : ℤ :=
  (pieces.map fun e => (put e.kind : ℤ)*e.kind.units).sum

/-- The pieces put in. -/
def taken (put : Kind → ℕ) (pieces : List Left) : List Left :=
  (pieces.map fun e => ⟨e.kind,put e.kind⟩).filter (·.count > 0)

/-- The pieces left. -/
def still (put : Kind → ℕ) (pieces : List Left) : List Left :=
  (pieces.map fun e => ⟨e.kind,e.count-put e.kind⟩).filter (·.count > 0)

/-- No more put in than there is. -/
def Among (put : Kind → ℕ) (pieces : List Left) : Prop := ∀ e ∈ pieces, put e.kind ≤ e.count

@[simp] theorem worth_nil (put : Kind → ℕ) : worth put [] = 0 := rfl
@[simp] theorem taken_nil (put : Kind → ℕ) : taken put [] = [] := rfl
@[simp] theorem still_nil (put : Kind → ℕ) : still put [] = [] := rfl
@[simp] theorem worth_append (put : Kind → ℕ) (xs ys : List Left) :
    worth put (xs++ys) = worth put xs+worth put ys := by simp [worth]
@[simp] theorem taken_append (put : Kind → ℕ) (xs ys : List Left) :
    taken put (xs++ys) = taken put xs++taken put ys := by simp [taken]
@[simp] theorem still_append (put : Kind → ℕ) (xs ys : List Left) :
    still put (xs++ys) = still put xs++still put ys := by simp [still]

theorem worth_zero (pieces : List Left) : worth (fun _ => 0) pieces = 0 := by
  simp [worth]

theorem Among.append {put : Kind → ℕ} {xs ys : List Left} (h : Among put (xs++ys)) :
    Among put xs ∧ Among put ys :=
  ⟨fun e he => h e (List.mem_append_left ys he),fun e he => h e (List.mem_append_right xs he)⟩

/-- In the carton a level is usable as it is outside it, or skipped for want of a size. -/
theorem usable_inBox {line : BenchLine} {level : Level} {unit : PackUnit}
    (h : usable line false level = some unit) :
    usable line true level = some unit ∨
      (usable line true level = none ∧ unit.shipsAsIs = true) := by
  unfold usable at h ⊢
  cases hfind : line.packs.find? (·.level = level) with
  | none => simp [hfind] at h
  | some u =>
    simp only [hfind] at h ⊢
    split_ifs at h with hskip
    cases h
    by_cases hsize : unit.units ≤ 0 ∨
        (level ≠ .each ∧ (unit.shipsAsIs && !true) = false ∧ measured unit = none)
    · rw [if_pos hsize]
      refine Or.inr ⟨rfl,?_⟩
      push Not at hskip
      rcases hsize with hneg | ⟨heach,-,hnone⟩
      · omega
      · by_contra halone
        exact hskip.2 heach (by simp [halone]) hnone
    · rw [if_neg hsize]
      exact Or.inl rfl

theorem usable_outside {line : BenchLine} {level : Level} (h : usable line false level = none) :
    usable line true level = none := by
  unfold usable at h ⊢
  cases hfind : line.packs.find? (·.level = level) with
  | none => rfl
  | some u =>
    simp only [hfind] at h ⊢
    split_ifs at h with hskip
    rcases hskip with hneg | ⟨heach,-,hnone⟩
    · exact if_pos (Or.inl hneg)
    · exact if_pos (Or.inr ⟨heach,by simp,hnone⟩)

/-- Whole packs and less than one over. -/
theorem whole_ediv {unit spare : ℤ} (count : ℤ) (hunit : 0 < unit) (hspare : 0 ≤ spare) (hless : spare < unit) :
    (count*unit+spare)/unit = count ∧ (count*unit+spare)%unit = spare := by
  constructor
  · rw [add_comm,Int.add_mul_ediv_right _ _ hunit.ne',Int.ediv_eq_zero_of_lt hspare hless,zero_add]
  · rw [add_comm,Int.add_mul_emod_self_right]
    exact Int.emod_eq_of_lt hspare hless

/-- So many of one level put in are a count of it, when it goes into a box at all. -/
theorem pieceOf_recombine {line : BenchLine} {level : Level} {unit : PackUnit}
    (hu : usable line false level = some unit) (index : ℕ) (put : Kind → ℕ) {q : ℤ} (hq : 0 ≤ q)
    (hput : Among put (pieceOf line index false unit q)) :
    ∃ a, 0 ≤ a ∧ a ≤ q ∧ worth put (pieceOf line index false unit q) = a*unit.units ∧
      (usable line true level = some unit ∨ (usable line true level = none ∧ a = 0)) ∧
      pieceOf line index true unit a = taken put (pieceOf line index false unit q) ∧
      pieceOf line index false unit (q-a) = still put (pieceOf line index false unit q) := by
  have hin : usable line true level = some unit ∨
      (usable line true level = none ∧ (0 : ℤ) = 0) := (usable_inBox hu).imp_right fun h => ⟨h.1,rfl⟩
  cases hships : unit.shipsAsIs with
  | true =>
    have hnone (count : ℤ) : pieceOf line index false unit count = [] := by
      simp [pieceOf,hships]
    exact ⟨0,le_rfl,hq,by simp [hnone],hin,by simp [hnone,pieceOf_zero],by simp [hnone]⟩
  | false =>
    cases hsize : measured unit with
    | none =>
      have hnone (count : ℤ) : pieceOf line index false unit count = [] := by
        simp [pieceOf,hships,hsize]
      exact ⟨0,le_rfl,hq,by simp [hnone],hin,by simp [hnone,pieceOf_zero],by simp [hnone]⟩
    | some d =>
      have hbox : usable line true level = some unit := by
        rcases usable_inBox hu with h | ⟨-,h⟩
        · exact h
        · exact absurd h (by simp [hships])
      have hsized (inBox : Bool) (count : ℤ) : pieceOf line index inBox unit count =
          if count = 0 then [] else [⟨kindOf line index unit d,count.toNat⟩] := by
        simp [pieceOf,hships,hsize]
      by_cases hzero : q = 0
      · subst hzero
        exact ⟨0,le_rfl,le_rfl,by simp [hsized],Or.inl hbox,by simp [hsized],by simp [hsized]⟩
      · simp only [hsized,hzero,if_false] at hput ⊢
        set k := kindOf line index unit d with hk
        have hle : put k ≤ q.toNat := hput ⟨k,q.toNat⟩ (by simp)
        have hunits : k.units = unit.units := rfl
        refine ⟨put k,by omega,by omega,by simp [worth,hunits],Or.inl hbox,?_,?_⟩
        · by_cases hnone : put k = 0
          · simp [taken,hnone]
          · simp [taken,hnone,Nat.pos_of_ne_zero hnone]
        · by_cases hall : q.toNat ≤ put k
          · have hdone : q-put k = 0 := by omega
            simp [still,hdone,hall]
          · have hsome : q-put k ≠ 0 := by omega
            have hcount : (q-put k).toNat = q.toNat-put k := by omega
            simp only [still,hsome,if_false,hcount,List.map_cons,List.map_nil]
            rw [List.filter_eq_self.mpr]
            simpa using hall

/-- Level by level, pieces put in make the counts of their own units, and the rest make
the counts left. -/
theorem piecesFrom_recombine (line : BenchLine) (index : ℕ) (put : Kind → ℕ) (ls : List Level)
    {units : ℤ} (hunits : 0 ≤ units) (hput : Among put (piecesFrom line index false ls units)) :
    0 ≤ worth put (piecesFrom line index false ls units) ∧
    worth put (piecesFrom line index false ls units) ≤ units ∧
    piecesFrom line index true ls (worth put (piecesFrom line index false ls units)) =
      taken put (piecesFrom line index false ls units) ∧
    piecesFrom line index false ls (units-worth put (piecesFrom line index false ls units)) =
      still put (piecesFrom line index false ls units) := by
  induction ls generalizing units with
  | nil => simp [piecesFrom,hunits]
  | cons level ls ih =>
    cases hu : usable line false level with
    | none =>
      have hbox := usable_outside hu
      simp only [piecesFrom,hu,hbox] at hput ⊢
      exact ih hunits hput
    | some unit =>
      have hpos := (usable_some hu).2.2.1
      set q := units/unit.units with hq
      set spare := units%unit.units with hspare
      have hwhole : units = q*unit.units+spare := by
        rw [hq,hspare,mul_comm,Int.mul_ediv_add_emod]
      have hspare₀ : 0 ≤ spare := Int.emod_nonneg units hpos.ne'
      have hless : spare < unit.units := Int.emod_lt_of_pos units hpos
      have hq₀ : 0 ≤ q := Int.ediv_nonneg hunits hpos.le
      have hsplit : piecesFrom line index false (level :: ls) units =
          pieceOf line index false unit q++piecesFrom line index false ls spare := by
        simp only [piecesFrom,hu,← hq,← hspare]
      rw [hsplit] at hput ⊢
      obtain ⟨hfirst,hrest⟩ := hput.append
      obtain ⟨hw₀,hwle,htaken,hstill⟩ := ih hspare₀ hrest
      obtain ⟨a,ha₀,ha,hworth,hbox,hone,hleft⟩ := pieceOf_recombine hu index put hq₀ hfirst
      generalize hw : worth put (piecesFrom line index false ls spare) = w at hw₀ hwle htaken hstill
      simp only [worth_append,taken_append,still_append,← htaken,← hstill,← hone,← hleft,hworth,hw]
      -- what is put in at the levels below is less than one of this level
      obtain ⟨hin,hinOver⟩ := whole_ediv a hpos hw₀ (hwle.trans_lt hless)
      obtain ⟨hout,houtOver⟩ := whole_ediv (q-a) hpos (sub_nonneg.mpr hwle)
        (by omega : spare-w < unit.units)
      have hrestUnits : units-(a*unit.units+w) = (q-a)*unit.units+(spare-w) := by
        rw [hwhole]
        ring
      refine ⟨by positivity,?_,?_,?_⟩
      · rw [hwhole]
        have := mul_le_mul_of_nonneg_right ha hpos.le
        linarith
      · rcases hbox with hbox | ⟨hbox,rfl⟩
        · simp only [piecesFrom,hbox,hin,hinOver]
        · simp only [piecesFrom,hbox,pieceOf_zero,zero_mul,zero_add,List.nil_append]
      · simp only [piecesFrom,hu,hrestUnits,hout,houtOver]

/-! ## Line after line -/

/-- What a line's units still to do make outside a carton. -/
def own (line : BenchLine) (index : ℕ) : List Left := linePieces false line index line.remaining

/-- What all the lines make. -/
def pieces (index : ℕ) (lines : List BenchLine) : List Left :=
  allPieces false index (lines.map fun l => (l,l.remaining))

/-- The lines with what is put in taken off them. -/
def less (put : Kind → ℕ) : ℕ → List BenchLine → List BenchLine
  | _, [] => []
  | index, l :: ls =>
    {l with remaining := l.remaining-worth put (own l index)} :: less put (index+1) ls

/-- The carton holds of each line's item what is put in of it. -/
def Holds (contents : List Content) (put : Kind → ℕ) : ℕ → List BenchLine → Prop
  | _, [] => True
  | index, l :: ls =>
    inCarton contents l.itemId = worth put (own l index) ∧ Holds contents put (index+1) ls

@[simp] theorem pieces_nil (index : ℕ) : pieces index [] = [] := rfl
@[simp] theorem pieces_cons (index : ℕ) (l : BenchLine) (ls : List BenchLine) :
    pieces index (l :: ls) = own l index++pieces (index+1) ls := rfl

theorem less_ids (put : Kind → ℕ) (index : ℕ) (lines : List BenchLine) :
    (less put index lines).map BenchLine.lineId = lines.map BenchLine.lineId := by
  induction lines generalizing index with
  | nil => rfl
  | cons l ls ih => simp [less,ih]

theorem less_items (put : Kind → ℕ) (index : ℕ) (lines : List BenchLine) :
    (less put index lines).map BenchLine.itemId = lines.map BenchLine.itemId := by
  induction lines generalizing index with
  | nil => rfl
  | cons l ls ih => simp [less,ih]

/-- What a line goes as does not look at what remains of it. -/
theorem piecesFrom_remaining (line : BenchLine) (remaining : ℤ) (index : ℕ) (inBox : Bool)
    (ls : List Level) (units : ℤ) :
    piecesFrom {line with remaining := remaining} index inBox ls units =
      piecesFrom line index inBox ls units := by
  induction ls generalizing units with
  | nil => rfl
  | cons level ls ih =>
    simp only [piecesFrom,ih]
    rfl

theorem own_recombine (line : BenchLine) (index : ℕ) (put : Kind → ℕ)
    (hput : Among put (own line index)) :
    linePieces true line index (worth put (own line index)) = taken put (own line index) ∧
    linePieces false line index (line.remaining-worth put (own line index)) =
      still put (own line index) := by
  obtain ⟨hw₀,hw,htaken,hstill⟩ := piecesFrom_recombine line index put levels
    (le_max_left 0 line.remaining) hput
  simp only [own,linePieces] at hw₀ hw htaken hstill ⊢
  constructor
  · rw [max_eq_right hw₀]
    exact htaken
  · rw [← hstill]
    congr 1
    omega

/-- The lines with what is put in taken off make the pieces left. -/
theorem pieces_less (put : Kind → ℕ) (index : ℕ) (lines : List BenchLine)
    (hput : Among put (pieces index lines)) :
    pieces index (less put index lines) = still put (pieces index lines) := by
  induction lines generalizing index with
  | nil => rfl
  | cons l ls ih =>
    obtain ⟨hl,hls⟩ := hput.append
    simp only [less,pieces_cons,still_append,ih (index+1) hls]
    rw [← (own_recombine l index put hl).2]
    simp only [own,linePieces,piecesFrom_remaining]

theorem unitsIn_items {contents : List Content} {seen : List Uuid} {lines : List BenchLine}
    (hitems : (lines.map BenchLine.itemId).Nodup) (hseen : ∀ l ∈ lines, l.itemId ∉ seen) :
    unitsIn contents seen lines = lines.map fun l => (l,inCarton contents l.itemId) := by
  induction lines generalizing seen with
  | nil => rfl
  | cons l ls ih =>
    obtain ⟨hl,hls⟩ := List.nodup_cons.mp hitems
    have hfresh : ∀ l' ∈ ls, l'.itemId ∉ l.itemId :: seen := by
      intro l' hl' hmem
      rcases List.mem_cons.mp hmem with h | h
      · exact hl (h ▸ List.mem_map_of_mem hl')
      · exact hseen l' (List.mem_cons_of_mem l hl') h
    simp only [unitsIn,if_neg (hseen l (by simp)),ih hls hfresh,List.map_cons]

/-- What the carton holds makes the pieces put in. -/
theorem inside_taken {contents : List Content} {put : Kind → ℕ} {index : ℕ} {lines : List BenchLine}
    (hput : Among put (pieces index lines)) (hholds : Holds contents put index lines) :
    allPieces true index ((less put index lines).map fun l => (l,inCarton contents l.itemId)) =
      taken put (pieces index lines) := by
  induction lines generalizing index with
  | nil => rfl
  | cons l ls ih =>
    obtain ⟨hl,hls⟩ := hput.append
    obtain ⟨hfirst,hrest⟩ := hholds
    simp only [less,List.map_cons,allPieces,pieces_cons,taken_append,ih hls hrest]
    rw [hfirst,← (own_recombine l index put hl).1]
    simp only [linePieces,piecesFrom_remaining]

/-! ## One more put in -/

/-- One more of a kind put in. -/
def press (k : Kind) (put : Kind → ℕ) : Kind → ℕ := Function.update put k (put k+1)

/-- A line with one of a kind taken off it, when it is the kind's line. -/
def takeOff (k : Kind) (l : BenchLine) : BenchLine :=
  if l.lineId = k.line then {l with remaining := l.remaining-k.units} else l

theorem worth_other {k : Kind} {ps : List Left} (h : k ∉ ps.map Left.kind) (put : Kind → ℕ) :
    worth (press k put) ps = worth put ps := by
  unfold worth
  congr 1
  apply List.map_congr_left
  intro e he
  have hne : e.kind ≠ k := fun heq => h (heq ▸ List.mem_map_of_mem he)
  rw [press,Function.update_of_ne hne]

theorem worth_press {k : Kind} {ps : List Left} (hone : OneEach ps) (h : k ∈ ps.map Left.kind)
    (put : Kind → ℕ) : worth (press k put) ps = worth put ps+k.units := by
  induction ps with
  | nil => cases h
  | cons e es ih =>
    obtain ⟨he,hes⟩ := List.nodup_cons.mp hone
    have hcons (put : Kind → ℕ) : worth put (e :: es) = put e.kind*e.kind.units+worth put es := by
      simp [worth]
    rw [hcons,hcons]
    rcases List.mem_cons.mp h with rfl | hmem
    · rw [worth_other he,press,Function.update_self]
      push_cast
      ring
    · have hne : e.kind ≠ k := fun heq => he (heq ▸ hmem)
      rw [ih hes hmem,press,Function.update_of_ne hne]
      ring

theorem own_oneEach (l : BenchLine) (index : ℕ) : OneEach (own l index) :=
  linePieces_oneEach false l index l.remaining

theorem own_kind {k : Kind} {l : BenchLine} {index : ℕ} (h : k ∈ (own l index).map Left.kind) :
    k.line = l.lineId ∧ k.itemId = l.itemId ∧ k.index = index := by
  obtain ⟨e,he,rfl⟩ := List.mem_map.mp h
  obtain ⟨hline,hitem,hindex,-⟩ := mem_linePieces he
  exact ⟨hline,hitem,hindex⟩

theorem pieces_kind {k : Kind} {index : ℕ} {lines : List BenchLine}
    (h : k ∈ (pieces index lines).map Left.kind) :
    k.line ∈ lines.map BenchLine.lineId ∧ k.itemId ∈ lines.map BenchLine.itemId ∧ index ≤ k.index := by
  induction lines generalizing index with
  | nil => cases h
  | cons l ls ih =>
    rw [pieces_cons,List.map_append] at h
    rcases List.mem_append.mp h with h | h
    · obtain ⟨hline,hitem,hindex⟩ := own_kind h
      simp [hline,hitem,hindex]
    · obtain ⟨hline,hitem,hindex⟩ := ih h
      exact ⟨List.mem_cons_of_mem _ hline,List.mem_cons_of_mem _ hitem,by omega⟩

theorem mem_pieces_pos (index : ℕ) (lines : List BenchLine) : ∀ e ∈ pieces index lines, 0 < e.count := by
  induction lines generalizing index with
  | nil => simp
  | cons l ls ih =>
    intro e he
    rcases List.mem_append.mp he with he | he
    · exact (mem_linePieces he).2.2.2
    · exact ih (index+1) e he

theorem less_zero (index : ℕ) (lines : List BenchLine) : less (fun _ => 0) index lines = lines := by
  induction lines generalizing index with
  | nil => rfl
  | cons l ls ih => simp [less,worth_zero,ih]

theorem holds_zero (index : ℕ) (lines : List BenchLine) : Holds [] (fun _ => 0) index lines := by
  induction lines generalizing index with
  | nil => trivial
  | cons l ls ih => exact ⟨(worth_zero _).symm,ih (index+1)⟩

theorem takeOff_other {k : Kind} {lines : List BenchLine} (h : k.line ∉ lines.map BenchLine.lineId) :
    lines.map (takeOff k) = lines := by
  induction lines with
  | nil => rfl
  | cons l ls ih =>
    simp only [List.map_cons,List.mem_cons,not_or] at h
    simp [takeOff,Ne.symm h.1,ih h.2]

theorem own_absent {k : Kind} {l : BenchLine} {index : ℕ} (h : l.lineId ≠ k.line) :
    k ∉ (own l index).map Left.kind := fun hk => h (own_kind hk).1.symm

theorem less_other {k : Kind} {lines : List BenchLine} (h : k.line ∉ lines.map BenchLine.lineId)
    (put : Kind → ℕ) (index : ℕ) : less (press k put) index lines = less put index lines := by
  induction lines generalizing index with
  | nil => rfl
  | cons l ls ih =>
    simp only [List.map_cons,List.mem_cons,not_or] at h
    simp only [less,worth_other (own_absent (Ne.symm h.1)),ih h.2]

/-- One more put in comes off its own line. -/
theorem less_press {k : Kind} {index : ℕ} {lines : List BenchLine}
    (hids : (lines.map BenchLine.lineId).Nodup) (h : k ∈ (pieces index lines).map Left.kind)
    (put : Kind → ℕ) : less (press k put) index lines = (less put index lines).map (takeOff k) := by
  induction lines generalizing index with
  | nil => cases h
  | cons l ls ih =>
    obtain ⟨hl,hls⟩ := List.nodup_cons.mp hids
    rw [pieces_cons,List.map_append] at h
    simp only [less,List.map_cons]
    rcases List.mem_append.mp h with h | h
    · have hline := (own_kind h).1
      have hrest : k.line ∉ ls.map BenchLine.lineId := by rwa [hline]
      rw [worth_press (own_oneEach l index) h,less_other hrest,
        takeOff_other (by rwa [less_ids])]
      simp [takeOff,hline,sub_sub]
    · have hne : l.lineId ≠ k.line := fun heq => hl (heq ▸ (pieces_kind h).1)
      rw [worth_other (own_absent hne),ih hls h]
      simp [takeOff,hne]

theorem holds_other {contents contents' : List Content} {k : Kind} {put : Kind → ℕ} {index : ℕ}
    {lines : List BenchLine} (hline : k.line ∉ lines.map BenchLine.lineId)
    (hitem : k.itemId ∉ lines.map BenchLine.itemId)
    (hcontents : ∀ item, inCarton contents' item =
      inCarton contents item+if item = k.itemId then k.units else 0)
    (h : Holds contents put index lines) : Holds contents' (press k put) index lines := by
  induction lines generalizing index with
  | nil => trivial
  | cons l ls ih =>
    simp only [List.map_cons,List.mem_cons,not_or] at hline hitem
    refine ⟨?_,ih hline.2 hitem.2 h.2⟩
    rw [worth_other (own_absent (Ne.symm hline.1)),hcontents,h.1,if_neg (Ne.symm hitem.1),add_zero]

/-- One more put in is in the carton, under its own item. -/
theorem holds_press {contents contents' : List Content} {k : Kind} {put : Kind → ℕ} {index : ℕ}
    {lines : List BenchLine} (hids : (lines.map BenchLine.lineId).Nodup)
    (hitems : (lines.map BenchLine.itemId).Nodup) (hk : k ∈ (pieces index lines).map Left.kind)
    (hcontents : ∀ item, inCarton contents' item =
      inCarton contents item+if item = k.itemId then k.units else 0)
    (h : Holds contents put index lines) : Holds contents' (press k put) index lines := by
  induction lines generalizing index with
  | nil => trivial
  | cons l ls ih =>
    obtain ⟨hl,hls⟩ := List.nodup_cons.mp hids
    obtain ⟨hi,his⟩ := List.nodup_cons.mp hitems
    rw [pieces_cons,List.map_append] at hk
    rcases List.mem_append.mp hk with hk | hk
    · obtain ⟨hline,hitem,-⟩ := own_kind hk
      refine ⟨?_,holds_other (by rwa [hline]) (by rwa [hitem]) hcontents h.2⟩
      rw [worth_press (own_oneEach l index) hk,hcontents,h.1,if_pos hitem.symm]
    · obtain ⟨hline,hitem,-⟩ := pieces_kind hk
      have hneLine : l.lineId ≠ k.line := fun heq => hl (heq ▸ hline)
      have hneItem : l.itemId ≠ k.itemId := fun heq => hi (heq ▸ hitem)
      refine ⟨?_,ih hls his hk h.2⟩
      rw [worth_other (own_absent hneLine),hcontents,h.1,if_neg hneItem,add_zero]

end Packing
end Spork
