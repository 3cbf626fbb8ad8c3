import Spork.Packing.Split
import Spork.Lib.GroupBy

/-! Every unit of every line is in the arrangement, and no unit twice: in a box, going as
it is, round the rest, not measured, or too big for any box. -/
namespace Spork
namespace Packing

/-- The units of a line among things set aside. -/
def unitsAside (line : Uuid) (as : List Aside) : ℤ :=
  ((as.filter (·.line = line)).map Aside.units).sum

/-- The units of a line among pieces. -/
def unitsLeft (line : Uuid) (left : List Left) : ℤ :=
  ((left.filter (·.kind.line = line)).map fun e => (e.count : ℤ)*e.kind.units).sum

/-- The units of a line in boxes and not in the carton already. -/
def unitsPlaced (line : Uuid) (ps : List Placement) : ℤ :=
  ((ps.filter fun p => p.kind.line = line ∧ p.packed = false).map (·.kind.units)).sum

/-- All an arrangement says of a line's units. -/
def accounted (line : Uuid) (a : Arrangement) : ℤ :=
  unitsPlaced line (planned a.boxes)+unitsAside line (a.asIs.map AsIs.toAside)+
    unitsAside line a.unmeasured+unitsAside line a.oversize+
    (unitsAside line a.placedLoose+unitsAside line a.loose)

@[simp] theorem unitsAside_nil (line : Uuid) : unitsAside line [] = 0 := rfl
@[simp] theorem unitsAside_cons (line : Uuid) (a : Aside) (as : List Aside) :
    unitsAside line (a :: as) = (if a.line = line then a.units else 0)+unitsAside line as := by
  by_cases h : a.line = line <;> simp [unitsAside,h]
@[simp] theorem unitsAside_append (line : Uuid) (as bs : List Aside) :
    unitsAside line (as++bs) = unitsAside line as+unitsAside line bs := by
  simp [unitsAside]

@[simp] theorem unitsLeft_nil (line : Uuid) : unitsLeft line [] = 0 := rfl
@[simp] theorem unitsLeft_cons (line : Uuid) (e : Left) (es : List Left) :
    unitsLeft line (e :: es) =
      (if e.kind.line = line then e.count*e.kind.units else 0)+unitsLeft line es := by
  by_cases h : e.kind.line = line <;> simp [unitsLeft,h]
@[simp] theorem unitsLeft_append (line : Uuid) (xs ys : List Left) :
    unitsLeft line (xs++ys) = unitsLeft line xs+unitsLeft line ys := by
  simp [unitsLeft]

theorem unitsAside_oversize (line : Uuid) (rest : List Left) :
    unitsAside line (rest.map oversizeOf) = unitsLeft line rest := by
  induction rest with
  | nil => rfl
  | cons e es ih => simp [oversizeOf,ih]

/-! ## From counts of each kind to units of each line -/

/-- The pieces one by one. -/
def expand (left : List Left) : List Kind := left.flatMap fun e => List.replicate e.count e.kind

/-- The kinds placed and not in already, one by one. -/
def fresh (ps : List Placement) : List Kind := (ps.filter fun p => p.packed = false).map Placement.kind

/-- The units of a line in one of a kind. -/
def Kind.unitsFor (line : Uuid) (k : Kind) : ℤ := if k.line = line then k.units else 0

theorem count_expand (k : Kind) (left : List Left) : (expand left).count k = countOf k left := by
  induction left with
  | nil => rfl
  | cons e es ih =>
    have hrest : (es.flatMap fun e => List.replicate e.count e.kind).count k = countOf k es := ih
    simp [expand,List.count_replicate,hrest]

/-- What is placed and what is left are what there was, one by one. -/
theorem kept_perm {ps : List Placement} {left pieces : List Left}
    (h : ∀ k, placed k ps+countOf k left = countOf k pieces) : (ps.map Placement.kind++expand left).Perm (expand pieces) := by
  refine List.perm_iff_count.mpr fun k => ?_
  rw [List.count_append,count_expand,count_expand,← h k,placed,List.count,List.countP_map]
  congr 1

theorem count_fresh (k : Kind) (ps : List Placement) : (fresh ps).count k = toPlace k ps := by
  induction ps with
  | nil => rfl
  | cons p ps ih =>
    rw [toPlace_cons,← ih]
    cases hp : p.packed with
    | true => simp [fresh,hp]
    | false => by_cases hk : p.kind = k <;> simp [fresh,hp,hk,Nat.add_comm]

theorem unitsLeft_eq (line : Uuid) (left : List Left) :
    unitsLeft line left = ((expand left).map (Kind.unitsFor line)).sum := by
  induction left with
  | nil => rfl
  | cons e es ih =>
    rw [unitsLeft_cons,ih]
    by_cases h : e.kind.line = line <;> simp [expand,Kind.unitsFor,h]

theorem unitsPlaced_eq (line : Uuid) (ps : List Placement) :
    unitsPlaced line ps = ((fresh ps).map (Kind.unitsFor line)).sum := by
  induction ps with
  | nil => rfl
  | cons p ps ih =>
    unfold unitsPlaced fresh at ih ⊢
    cases hp : p.packed with
    | true => simpa [hp] using ih
    | false => by_cases hl : p.kind.line = line <;> simpa [hp,hl,Kind.unitsFor] using ih

/-- When each kind is kept, so are each line's units. -/
theorem units_kept {ps : List Placement} {rest pieces : List Left}
    (h : ∀ k, toPlace k ps+countOf k rest = countOf k pieces) (line : Uuid) :
    unitsPlaced line ps+unitsLeft line rest = unitsLeft line pieces := by
  have hperm : (fresh ps++expand rest).Perm (expand pieces) := by
    apply List.perm_iff_count.mpr
    intro k
    rw [List.count_append,count_fresh,count_expand,count_expand,h]
  rw [unitsPlaced_eq,unitsLeft_eq,unitsLeft_eq,← List.sum_append,← List.map_append]
  exact (hperm.map _).sum_eq

/-! ## What `split` accounts for -/

/-- The units of a line in a split. -/
def Split.unitsOf (line : Uuid) (s : Split) : ℤ :=
  unitsLeft line s.pieces+unitsAside line (s.asIs.map AsIs.toAside)+unitsAside line s.loose+
    unitsAside line s.unmeasured

/-- Packs as a workspace records them: each has units, and an each is one. -/
def BenchLine.Counted (line : BenchLine) : Prop :=
  ∀ unit ∈ line.packs, 1 ≤ unit.units ∧ (unit.level = .each → unit.units = 1)

instance BenchLine.countedDecidable (line : BenchLine) : Decidable line.Counted :=
  inferInstanceAs (Decidable (∀ unit ∈ line.packs, _))

/-- So many of a pack are all accounted for, for their own line. -/
theorem putAs_unitsOf {line : BenchLine} {inBox : Bool} {level : Level} {unit : PackUnit}
    (hunit : usable line inBox level = some unit) (hcounted : line.Counted) (index : ℕ) {count : ℤ}
    (hcount : 0 ≤ count) (s : Split) (id : Uuid) :
    (putAs line index inBox level unit count s).unitsOf id =
      s.unitsOf id+if line.lineId = id then count*unit.units else 0 := by
  obtain ⟨hmem,hlevel,-,hgoes⟩ := usable_some hunit
  unfold putAs Split.unitsOf
  cases halone : unit.shipsAsIs && !inBox with
  | true =>
    simp only [if_true,List.map_append,unitsAside_append,List.map_cons,List.map_nil,
      unitsAside_cons,unitsAside_nil,aside]
    ring
  | false =>
    cases hsize : measured unit with
    | some d =>
      simp only [Bool.false_eq_true,if_false,unitsLeft_append,unitsLeft_cons,unitsLeft_nil,kindOf,
        Int.toNat_of_nonneg hcount]
      ring
    | none =>
      -- only an each goes without a size, and one of it is one unit
      have hone : unit.units = 1 := by
        apply (hcounted unit hmem).2
        simpa [hlevel,halone,hsize] using hgoes
      cases unit.noSize
      all_goals
        simp only [Bool.false_eq_true,if_false,if_true,unitsAside_append,unitsAside_cons,
          unitsAside_nil,aside,hone,mul_one]
        ring

theorem splitLevel_unitsOf {line : BenchLine} (hcounted : line.Counted) (index : ℕ) (inBox : Bool)
    (level : Level) (s : Split) {units : ℤ} (hunits : 0 ≤ units) (id : Uuid) :
    0 ≤ (splitLevel line index inBox (s,units) level).2 ∧
    (splitLevel line index inBox (s,units) level).1.unitsOf id+
      (if line.lineId = id then (splitLevel line index inBox (s,units) level).2 else 0) =
      s.unitsOf id+if line.lineId = id then units else 0 := by
  rw [splitLevel_eq]
  cases hu : usable line inBox level with
  | none => exact ⟨hunits,rfl⟩
  | some unit =>
    have hpos := (usable_some hu).2.2.1
    by_cases hless : units < unit.units
    · simp only [if_pos hless]
      exact ⟨hunits,trivial⟩
    · have hcount : 0 ≤ units/unit.units := Int.ediv_nonneg hunits hpos.le
      simp only [if_neg hless,putAs_unitsOf hu hcounted index hcount s id]
      constructor
      · have hmod := Int.emod_nonneg units hpos.ne'
        have hdiv := Int.emod_add_mul_ediv units unit.units
        linarith [mul_comm (units/unit.units) unit.units]
      · split_ifs <;> ring

theorem splitLevels_unitsOf {line : BenchLine} (hcounted : line.Counted) (index : ℕ) (inBox : Bool)
    (ls : List Level) (s : Split) {units : ℤ} (hunits : 0 ≤ units) (id : Uuid) :
    0 ≤ (ls.foldl (splitLevel line index inBox) (s,units)).2 ∧
    (ls.foldl (splitLevel line index inBox) (s,units)).1.unitsOf id+
      (if line.lineId = id then (ls.foldl (splitLevel line index inBox) (s,units)).2 else 0) =
      s.unitsOf id+if line.lineId = id then units else 0 := by
  induction ls generalizing s units with
  | nil => exact ⟨hunits,rfl⟩
  | cons level ls ih =>
    obtain ⟨hnonneg,hstep⟩ := splitLevel_unitsOf hcounted index inBox level s hunits id
    obtain ⟨hrest,hrun⟩ := ih (splitLevel line index inBox (s,units) level).1 hnonneg
    exact ⟨hrest,hrun.trans hstep⟩

/-- A line's split accounts for all its units, and for none of another's. -/
theorem splitLine_unitsOf {line : BenchLine} (hcounted : line.Counted) (inBox : Bool) (s : Split)
    (index : ℕ) (unitsOf : ℤ) (id : Uuid) :
    (splitLine inBox s line index unitsOf).unitsOf id =
      s.unitsOf id+if line.lineId = id then max 0 unitsOf else 0 := by
  unfold splitLine
  by_cases hzero : max 0 unitsOf = 0
  · simp [hzero]
  · obtain ⟨hnonneg,hlevels⟩ := splitLevels_unitsOf hcounted index inBox levels s
      (le_max_left 0 unitsOf) id
    simp only [levels] at hnonneg hlevels
    simp only [if_neg hzero]
    rw [← hlevels]
    split
    · simp only [Split.unitsOf,unitsAside_append,unitsAside_cons,unitsAside_nil,aside]
      ring
    · rename_i hnone
      rw [le_antisymm (not_lt.mp hnone) hnonneg,ite_self,add_zero]

theorem splitFrom_unitsOf (inBox : Bool) (index : ℕ) (ls : List (BenchLine × ℤ))
    (hcounted : ∀ l ∈ ls, l.1.Counted) (s : Split) (id : Uuid) :
    (splitFrom inBox index ls s).unitsOf id =
      s.unitsOf id+((ls.filter (·.1.lineId = id)).map fun l => max 0 l.2).sum := by
  induction ls generalizing index s with
  | nil => simp [splitFrom]
  | cons l ls ih =>
    rw [splitFrom,ih (index+1) (fun l hl => hcounted l (List.mem_cons_of_mem _ hl)),
      splitLine_unitsOf (hcounted l (by simp))]
    by_cases hid : l.1.lineId = id <;> simp [hid,add_assoc]

/-! ## The plans keep the pieces -/

theorem boxed_kept (lines : List BenchLine) (boxes : List Box) (carton : Option OpenCarton)
    (objective : Objective) (pieces : List Left) (hids : (lines.map BenchLine.lineId).Nodup)
    (hpieces : OneEach pieces) (k : Kind) :
    toPlace k (planned (boxed lines boxes carton objective pieces).1)+
      countOf k (boxed lines boxes carton objective pieces).2.2 = countOf k pieces := by
  suffices hrest : ∀ (plans : List BoxPlan) (loose : List Aside) (rest : List Left),
      toPlace k (planned plans)+countOf k rest = countOf k pieces →
      toPlace k (planned (if rest = [] then (plans,loose,rest) else
        (plans++(best rest boxes objective).plans,loose,(best rest boxes objective).left)).1)+
      countOf k (if rest = [] then (plans,loose,rest) else
        (plans++(best rest boxes objective).plans,loose,(best rest boxes objective).left)).2.2 =
        countOf k pieces by
    cases carton with
    | none => exact hrest [] [] pieces (by simp)
    | some c =>
      have hin : OneEach (split (unitsIn c.contents [] lines) true).pieces := by
        rw [split_pieces]
        apply allPieces_oneEach
        rwa [← Function.comp_def BenchLine.lineId Prod.fst,← List.map_map,unitsIn_lines]
      have hopen := fillOpen_kept c lines pieces hin hpieces k
      exact hrest [(fillOpen c lines pieces).plan] _ _ (by simpa using hopen)
  intro plans loose rest h
  by_cases hnone : rest = []
  · simpa [hnone] using h
  · have hbest := best_boxing rest boxes objective
    have hkept := hbest.kept k
    rw [← toPlace_unpacked hbest.unpacked] at hkept
    simp only [if_neg hnone,planned_append,toPlace_append]
    omega

/-- However it ends, an arrangement accounts for what `split` made of the lines. -/
theorem accounted_split {lines : List BenchLine} {presets : List Preset}
    {carton : Option OpenCarton} {objective : Objective}
    (hids : (lines.map BenchLine.lineId).Nodup)
    (hfew : (arrange lines presets carton objective).tooMany = false) (id : Uuid) :
    accounted id (arrange lines presets carton objective) =
      (split (lines.map fun l => (l,l.remaining)) false).unitsOf id := by
  have hpieces : OneEach (split (lines.map fun l => (l,l.remaining)) false).pieces := by
    rw [split_pieces]
    apply allPieces_oneEach
    simpa [Function.comp_def] using hids
  unfold arrange at hfew ⊢
  set s := split (lines.map fun l => (l,l.remaining)) false with hs
  set boxes := (presets.filterMap Preset.box).insertionSort
    fun a b => volume (dims a.size) ≤ volume (dims b.size)
  dsimp only at hfew ⊢
  have hmany : ¬total s.pieces > mostPieces := by
    intro hmany
    rw [if_pos hmany] at hfew
    cases hfew
  rw [if_neg hmany]
  have hkept := units_kept (boxed_kept lines boxes carton objective s.pieces hids hpieces) id
  simp only [accounted,planned_goRound,unitsAside_oversize,Split.unitsOf]
  rw [← hkept]
  cases roomiest (boxed lines boxes carton objective s.pieces).1
  all_goals
    simp
    ring

/-- Every line with packs as recorded has all its units in the arrangement, once, unless
there are too many for one; and nothing in it is of any other line. -/
theorem arrange_accounts (lines : List BenchLine) (presets : List Preset)
    (carton : Option OpenCarton) (objective : Objective)
    (hids : (lines.map BenchLine.lineId).Nodup) (hcounted : ∀ line ∈ lines, line.Counted)
    (hfew : (arrange lines presets carton objective).tooMany = false) :
    (∀ line ∈ lines, accounted line.lineId (arrange lines presets carton objective) =
      max 0 line.remaining) ∧
    ∀ id, id ∉ lines.map BenchLine.lineId →
      accounted id (arrange lines presets carton objective) = 0 := by
  have hall (id : Uuid) : accounted id (arrange lines presets carton objective) =
      ((lines.filter (·.lineId = id)).map fun l => max 0 l.remaining).sum := by
    rw [accounted_split hids hfew,split,splitFrom_unitsOf]
    · simp [Split.unitsOf,List.filter_map,Function.comp_def]
    · rintro l hl
      obtain ⟨line,hline,rfl⟩ := List.mem_map.mp hl
      exact hcounted line hline
  constructor
  · intro line hline
    rw [hall,GroupBy.filter_keyed hids hline]
    simp
  · intro id hid
    have hnone : lines.filter (·.lineId = id) = [] := by
      apply List.filter_eq_nil_iff.mpr
      intro l hl
      simpa using fun h : l.lineId = id => hid (List.mem_map.mpr ⟨l,hl,h⟩)
    rw [hall,hnone]
    rfl

theorem arrange_accounts_aprons :
    let each : PackUnit := ⟨.each,1,false,false,some ⟨120,80,30⟩,false,some 250⟩
    let carton : PackUnit := ⟨.carton,10,true,false,some ⟨400,300,200⟩,false,none⟩
    let lines : List BenchLine := [⟨1,7,"APRON",13,[carton,each]⟩,⟨2,8,"STRAP",4,[]⟩]
    let box : Preset := ⟨5,"Small",some ⟨300,200,100⟩,true,none,none⟩
    let a := arrange lines [box] none ⟨fun parcels => parcels.length⟩
    (∀ line ∈ lines, accounted line.lineId a = max 0 line.remaining) ∧
      ∀ id, id ∉ lines.map BenchLine.lineId → accounted id a = 0 :=
  arrange_accounts _ _ none _ (by decide) (by decide) (by decide)

end Packing
end Spork
