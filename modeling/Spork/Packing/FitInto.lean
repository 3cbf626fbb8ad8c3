import Spork.Packing.Split
import Spork.Lib.Halving

/-! How many more of a line a box takes (`arrange.ts`): what is in it already, and as many
as go in beside it, found by halving. A count that fills a carton goes in as one, so more
may go in where fewer do not. -/
namespace Spork
namespace Packing

/-- So many of a line's units. -/
structure Goods where
  line : BenchLine
  units : ℕ
  deriving DecidableEq, Repr

/-- `units.set(line_id, (units.get(line_id) ?? 0) + units)`: each line where it first came. -/
def addUnits : List (BenchLine × ℤ) → Goods → List (BenchLine × ℤ)
  | [], g => [(g.line,g.units)]
  | (line,units) :: rest, g =>
    if line.lineId = g.line.lineId then (line,units+g.units) :: rest
    else (line,units) :: addUnits rest g

/-- The goods of one attempt: what is inside, and so many of the line to go in. -/
def beside (inside : List Goods) (adding : Option Goods) (n : ℕ) : List Goods :=
  match adding with
  | some g => if n > 0 then inside++[⟨g.line,n⟩] else inside
  | none => inside

def attempt (box : Box) (inside : List Goods) (adding : Option Goods) (n : ℕ) : Packed :=
  packBox box (split ((beside inside adding n).foldl addUnits []) true).pieces

/-- The goods inside and so many of the line leave no piece out. -/
def goesIn (box : Box) (inside : List Goods) (adding : Option Goods) (n : ℕ) : Bool :=
  (attempt box inside adding n).left.isEmpty

structure FitsInto where
  fits : ℕ
  plan : BoxPlan
  deriving DecidableEq, Repr

/-- How a box takes goods: what is in it already, and as many of `adding` as halving finds
go in beside it. -/
def fitInto (box : Box) (inside : List Goods) (adding : Option Goods) : FitsInto :=
  let want := adding.elim 0 Goods.units
  let arranged (n : ℕ) : FitsInto := ⟨n,plan box (attempt box inside adding n).layers⟩
  if goesIn box inside adding want then arranged want
  else if goesIn box inside adding 0 then
    -- `fitted` is the attempt at `lo`, the last that went in
    arranged (Halving.halve (goesIn box inside adding) want 0 want)
  else arranged 0

section
variable (box : Box) (inside : List Goods) (adding : Option Goods)

/-- How many are wanted. -/
def wanted : ℕ := adding.elim 0 Goods.units

/-- The box takes as many as go in, and none when the goods inside do not all fit. -/
def TakesAsMany : Prop :=
  if goesIn box inside adding 0 then
    IsGreatest {n | n ≤ wanted adding ∧ goesIn box inside adding n = true} (fitInto box inside adding).fits
  else (fitInto box inside adding).fits = 0

/-- The most of those wanted that go in. -/
def mostThatGoIn : ℕ := Nat.findGreatest (fun n => goesIn box inside adding n = true) (wanted adding)

/-- Nothing leads the count away: a box too full has no count asked of it that goes in all
the same, and one that is not takes all that is wanted, or as many of each count not over
the most that go in as halving towards that tries. -/
def NotLedAway : Prop :=
  if goesIn box inside adding 0 then
    mostThatGoIn box inside adding = wanted adding ∨
      ∀ m ∈ Halving.towards (wanted adding) 0 (wanted adding) (mostThatGoIn box inside adding),
        goesIn box inside adding m = true
  else goesIn box inside adding (wanted adding) = false

instance : Decidable (NotLedAway box inside adding) := by
  unfold NotLedAway
  infer_instance

variable {box inside adding}

theorem mostThatGoIn_greatest (h : goesIn box inside adding 0 = true) :
    IsGreatest {n | n ≤ wanted adding ∧ goesIn box inside adding n = true} (mostThatGoIn box inside adding) :=
  ⟨⟨Nat.findGreatest_le _,Nat.findGreatest_spec (P := fun n => goesIn box inside adding n = true) (Nat.zero_le _) h⟩,
    fun _ hn => Nat.le_findGreatest hn.1 hn.2⟩

/-- The most that go in are all that is wanted just when all that is wanted goes in. -/
theorem mostThatGoIn_all (h : goesIn box inside adding 0 = true) :
    mostThatGoIn box inside adding = wanted adding ↔ goesIn box inside adding (wanted adding) = true := by
  have hgreatest := mostThatGoIn_greatest h
  constructor
  · intro hall
    rw [← hall]
    exact hgreatest.1.2
  · intro hall
    exact le_antisymm hgreatest.1.1 (hgreatest.2 ⟨le_rfl,hall⟩)

/-- What `fitInto` finds, when not all that is wanted goes in and what is inside does. -/
theorem fits_eq_halve (hwant : goesIn box inside adding (wanted adding) = false) (h : goesIn box inside adding 0 = true) :
    (fitInto box inside adding).fits = Halving.halve (goesIn box inside adding) (wanted adding) 0 (wanted adding) := by
  simp only [wanted] at hwant ⊢
  simp [fitInto,hwant,h]

theorem fits_of_all (hwant : goesIn box inside adding (wanted adding) = true) :
    (fitInto box inside adding).fits = wanted adding := by
  simp only [wanted] at hwant ⊢
  simp [fitInto,hwant]

theorem fits_of_full (hwant : goesIn box inside adding (wanted adding) = false) (h : goesIn box inside adding 0 = false) :
    (fitInto box inside adding).fits = 0 := by
  simp only [wanted] at hwant
  simp [fitInto,hwant,h]

/-- A count found to go in does, whatever it was found by. -/
theorem fits_goesIn (h : (fitInto box inside adding).fits ≠ 0) :
    goesIn box inside adding (fitInto box inside adding).fits = true ∧ (fitInto box inside adding).fits ≤ wanted adding := by
  cases hwant : goesIn box inside adding (wanted adding) with
  | true =>
    rw [fits_of_all hwant]
    exact ⟨hwant,le_rfl⟩
  | false =>
    cases hinside : goesIn box inside adding 0 with
    | false => exact absurd (fits_of_full hwant hinside) h
    | true =>
      rw [fits_eq_halve hwant hinside] at h ⊢
      refine ⟨Halving.halve_ok _ _ hinside,?_⟩
      apply (Halving.halve_lt _ _ _).le
      apply Nat.pos_of_ne_zero
      intro hzero
      rw [hzero,hinside] at hwant
      cases hwant

end

/-- A box takes as many as go in just when nothing leads the halving away from that. -/
theorem takesAsMany_iff (box : Box) (inside : List Goods) (adding : Option Goods) :
    TakesAsMany box inside adding ↔ NotLedAway box inside adding := by
  unfold TakesAsMany NotLedAway
  cases hinside : goesIn box inside adding 0 with
  | false =>
    simp only [Bool.false_eq_true,if_false]
    cases hwant : goesIn box inside adding (wanted adding) with
    | false => exact iff_of_true (fits_of_full hwant hinside) rfl
    | true =>
      -- all that is wanted goes in where what is inside alone does not
      have hpos : wanted adding ≠ 0 := by
        intro hzero
        rw [hzero,hinside] at hwant
        cases hwant
      rw [fits_of_all hwant]
      simpa using hpos
  | true =>
    simp only [if_true]
    have hgreatest := mostThatGoIn_greatest hinside
    rw [mostThatGoIn_all hinside]
    cases hwant : goesIn box inside adding (wanted adding) with
    | true =>
      rw [fits_of_all hwant]
      exact iff_of_true ⟨⟨le_rfl,hwant⟩,fun n hn => hn.1⟩ (Or.inl rfl)
    | false =>
      have hless : mostThatGoIn box inside adding < wanted adding := by
        apply lt_of_le_of_ne hgreatest.1.1
        rw [Ne,mostThatGoIn_all hinside,hwant]
        exact Bool.false_ne_true
      have hafter (n : ℕ) (hn : mostThatGoIn box inside adding < n) (hlt : n < wanted adding) :
          goesIn box inside adding n = false := by
        by_contra hgoes
        exact absurd (hgreatest.2 ⟨hlt.le,Bool.eq_true_of_not_eq_false hgoes⟩) (not_le.mpr hn)
      have hhalve : Halving.halve (goesIn box inside adding) (wanted adding) 0 (wanted adding) = mostThatGoIn box inside adding ↔
          ∀ m ∈ Halving.towards (wanted adding) 0 (wanted adding) (mostThatGoIn box inside adding),
            goesIn box inside adding m = true := Halving.halve_eq_iff (wanted adding) (Nat.zero_le _) hless hafter (by omega)
      rw [fits_eq_halve hwant hinside]
      simp only [Bool.false_eq_true,false_or]
      rw [← hhalve]
      constructor
      · intro hfound
        exact hfound.unique hgreatest
      · intro hfound
        rw [hfound]
        exact hgreatest

/-! Bottles that stand up, eight to a case as big as the box: loose, three of a layer are
all the floor takes. -/

def bottle : BenchLine := ⟨1,7,"BOTTLE",10,
  [⟨.each,1,false,true,some ⟨60,40,50⟩,false,none⟩,⟨.carton,8,false,true,some ⟨100,100,100⟩,false,none⟩]⟩

def caseBox : Box := ⟨5,"Case",⟨100,100,100⟩,true,none,none⟩

/-- Of ten wanted six are found to go in, and eight do. -/
theorem takesFewer : (fitInto caseBox [] (some ⟨bottle,10⟩)).fits = 6 ∧ goesIn caseBox [] (some ⟨bottle,10⟩) 8 = true ∧
    goesIn caseBox [] (some ⟨bottle,10⟩) 0 = true ∧ ¬TakesAsMany caseBox [] (some ⟨bottle,10⟩) := by
  have hsix : (fitInto caseBox [] (some ⟨bottle,10⟩)).fits = 6 := by decide +kernel
  have height : goesIn caseBox [] (some ⟨bottle,10⟩) 8 = true := by decide +kernel
  have hnone : goesIn caseBox [] (some ⟨bottle,10⟩) 0 = true := by decide +kernel
  refine ⟨hsix,height,hnone,fun htakes => ?_⟩
  rw [TakesAsMany,if_pos hnone,hsix] at htakes
  exact absurd (htakes.2 ⟨by decide,height⟩) (by decide)

end Packing
end Spork
