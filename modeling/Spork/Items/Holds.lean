import Spork.Bench.Planned
import Spork.Lib.Numerals
import Spork.Lib.Text

/-! What a carton holds, as a form has it typed and read (client/app/items/subjects.ts): a
carton on file, opened in the form and saved as it is. -/
namespace Spork
namespace Items

open Bench (Level)

abbrev Text := List Char

/-- What one of an item in NetSuite is: a level, and how many single ones where it is counted
in them. -/
structure ItemUnit where
  level : Level
  singles : Option ℕ
  deriving DecidableEq, Repr

/-- A case pack on file. A count that is said is 1 or more. -/
structure ItemPacking where
  unitsPerInner : Option ℕ
  innersPerCarton : Option ℕ
  units_pos : ∀ n ∈ unitsPerInner, 0 < n
  inners_pos : ∀ n ∈ innersPerCarton, 0 < n
  deriving DecidableEq

structure ItemView where
  unit : ItemUnit
  packing : Option ItemPacking
  deriving DecidableEq

inductive By
  | all | packs
  deriving DecidableEq, Repr

/-- How many are in a carton altogether, or so many packs of so many, as somebody types it. -/
structure HoldsTyped where
  by' : By
  count : Text
  per : Text
  /-- What the counts are counted in, as so many single ones. -/
  in' : ℕ
  deriving DecidableEq, Repr

def noHolds : HoldsTyped := ⟨.all,[],[],1⟩

def singlesOf (unit : ItemUnit) : ℕ := max (unit.singles.getD 1) 1

/-- So many single ones, in what the item is sold as where that is whole. -/
def counted (k singles : ℕ) : ℕ × ℕ := if k > 1 ∧ singles%k = 0 then (singles/k,k) else (singles,1)

/-- The item's carton as it is on file, to keep or correct. -/
def holdsTypedFrom (item : ItemView) : HoldsTyped :=
  let k := singlesOf item.unit
  let per := item.packing.bind ItemPacking.unitsPerInner
  let n := item.packing.bind ItemPacking.innersPerCarton
  let boxSold := item.unit.level = .inner ∧ k ≤ 1
  -- a pack of its own: not loose, and not the pair itself
  if boxSold ∨ per.any fun p => p > 1 ∧ p ≠ k then
    let each := per.map (counted k)
    ⟨.packs,n.elim [] Numerals.digits,each.elim [] fun e => Numerals.digits e.1,each.elim k Prod.snd⟩
  else
    match n with
    | none => {noHolds with in' := k}
    | some n =>
      let all := counted k (n*per.getD 1)
      ⟨.all,Numerals.digits all.1,[],all.2⟩

/-- Why what was typed can't be read. -/
inductive Problem
  | countNotWhole
  | perNotWhole
  /-- So many single ones are no whole number of what it is sold as. -/
  | unitsNotWhole (all : ℕ)
  /-- How many each holds has to be said. -/
  | unsaid (in' : ℕ)
  /-- So many are no whole number of packs of so many. -/
  | packsNotWhole (all per : ℕ)
  deriving DecidableEq, Repr

/-- The problem as it is put, by the item's word for one, for several, and a number written out. -/
def Problem.text (one several : String) (written : ℕ → String) : Problem → String
  | .countNotWhole => "How many it holds is a whole number, 1 or more."
  | .perNotWhole => "How many are in a pack is a whole number, 1 or more."
  | .unitsNotWhole all => written all++" single isn’t a whole number of "++several++"."
  | .unsaid in' => "Say how many "++(if in' > 1 then several else "single ones")++" each "++one++" holds: count it in packs."
  | .packsNotWhole all per => written all++" isn’t a whole number of "++several++" of "++toString per++"."

/-- The characters `trim` takes off either end. -/
def isSpace (c : Char) : Bool :=
  c.toNat ∈ [0x20,0xA0,0x1680,0x2028,0x2029,0x202F,0x205F,0x3000,0xFEFF] ||
    decide (0x9 ≤ c.toNat ∧ c.toNat ≤ 0xD) || decide (0x2000 ≤ c.toNat ∧ c.toNat ≤ 0x200A)

/-- A whole number, 1 or more, by its digits. -/
def whole (v : Text) : Bool := !v.isEmpty && v.all Char.isDigit && decide (1 ≤ Numerals.value v)

/-- How many packs a carton holds and how many single ones are in a pack, from what was typed. -/
def readHoldsTyped (typed : HoldsTyped) (item : ItemView) : Except Problem (Option ℕ × Option ℕ) :=
  let k := singlesOf item.unit
  let t := Text.trim isSpace typed.count
  let p := Text.trim isSpace typed.per
  let per := item.packing.bind ItemPacking.unitsPerInner
  if t ≠ [] ∧ ¬whole t then .error .countNotWhole
  else if typed.by' = .packs then
    if p ≠ [] ∧ ¬whole p then .error .perNotWhole
    else
      let each := if p ≠ [] then some (Numerals.value p*typed.in') else none
      .ok (if t ≠ [] then some (Numerals.value t) else none,each.or (if item.unit.level = .inner then per else none))
  else if t = [] then .ok (none,none)
  else
    let all := Numerals.value t*typed.in'
    if k > 1 then if all%k ≠ 0 then .error (.unitsNotWhole all) else .ok (some (all/k),some k)
    else if item.unit.level = .inner then
      match per with
      | none => .error (.unsaid typed.in')
      | some per => if all%per ≠ 0 then .error (.packsNotWhole all per) else .ok (some (all/per),some per)
    else .ok (some all,none)

/-- How many of the item a carton holds. -/
def cartonHolds (p : Option ItemPacking) : Option ℕ :=
  p.bind fun p => p.innersPerCarton.map (·*p.unitsPerInner.getD 1)

/-- Whether the carton has to be said before it is weighed, measured or photographed. -/
def sayFirst (packing : Option ItemPacking) (typed per : Option ℕ) : Bool :=
  match packing with
  | none => true
  | some packing =>
    match typed with
    | none => false
    | some _ => typed ≠ packing.innersPerCarton || per.getD 1 ≠ packing.unitsPerInner.getD 1

/-! ## What is typed and read -/

theorem isSpace_digit {c : Char} (h : c.isDigit = true) : isSpace c = false := by
  have hrange : 48 ≤ c.toNat ∧ c.toNat ≤ 57 := by
    simp only [Char.isDigit,Bool.and_eq_true,decide_eq_true_eq] at h
    exact h
  simp only [isSpace,Bool.or_eq_false_iff,decide_eq_false_iff_not,List.mem_cons,List.not_mem_nil,or_false]
  omega

theorem digits_ne_nil (n : ℕ) : Numerals.digits n ≠ [] := Nat.toDigits_ne_nil

/-- A number typed is read as it is. -/
@[simp] theorem trim_digits (n : ℕ) : Text.trim isSpace (Numerals.digits n) = Numerals.digits n :=
  Text.trim_eq_self (digits_ne_nil n)
    (fun _ hc => isSpace_digit (Numerals.isDigit_of_mem_digits (List.mem_of_mem_head? hc)))
    fun _ hc => isSpace_digit (Numerals.isDigit_of_mem_digits (List.mem_of_mem_getLast? hc))

theorem whole_digits {n : ℕ} (h : 0 < n) : whole (Numerals.digits n) = true := by
  have hall : (Numerals.digits n).all Char.isDigit = true :=
    List.all_eq_true.mpr fun c hc => Numerals.isDigit_of_mem_digits hc
  simp only [whole,hall,Numerals.value_digits,Bool.and_eq_true,Bool.not_eq_true',List.isEmpty_eq_false_iff,
    decide_eq_true_eq]
  exact ⟨⟨digits_ne_nil n,trivial⟩,h⟩

/-- Counted back in single ones, a count is what it was. -/
theorem counted_mul (k singles : ℕ) : (counted k singles).1*(counted k singles).2 = singles := by
  rw [counted]
  split
  · rename_i h
    exact Nat.div_mul_cancel (Nat.dvd_of_mod_eq_zero h.2)
  · exact Nat.mul_one singles

theorem counted_pos {k singles : ℕ} (h : 0 < singles) : 0 < (counted k singles).1 :=
  Nat.pos_of_mul_pos_right (counted_mul k singles ▸ h)

@[simp] theorem trim_nil : Text.trim isSpace [] = [] := rfl

/-- The item is shown with packs of its own. -/
def byPacks (unit : ItemUnit) (per : Option ℕ) : Prop :=
  unit.level = .inner ∧ singlesOf unit ≤ 1 ∨ ∃ p ∈ per, p > 1 ∧ p ≠ singlesOf unit

theorem holdsTypedFrom_packs {unit : ItemUnit} {p : ItemPacking} (h : byPacks unit p.unitsPerInner) :
    holdsTypedFrom ⟨unit,some p⟩ = ⟨.packs,p.innersPerCarton.elim [] Numerals.digits,
      (p.unitsPerInner.map (counted (singlesOf unit))).elim [] fun e => Numerals.digits e.1,
      (p.unitsPerInner.map (counted (singlesOf unit))).elim (singlesOf unit) Prod.snd⟩ := by
  rw [holdsTypedFrom]
  refine if_pos (h.imp_right fun ⟨per,hper,hown⟩ => ?_)
  change Option.any _ p.unitsPerInner = true
  rw [Option.mem_def.mp hper]
  simpa using hown

theorem holdsTypedFrom_all {unit : ItemUnit} {p : ItemPacking} (h : ¬byPacks unit p.unitsPerInner) :
    holdsTypedFrom ⟨unit,some p⟩ = match p.innersPerCarton with
      | none => {noHolds with in' := singlesOf unit}
      | some n => ⟨.all,Numerals.digits (counted (singlesOf unit) (n*p.unitsPerInner.getD 1)).1,[],
          (counted (singlesOf unit) (n*p.unitsPerInner.getD 1)).2⟩ := by
  rw [holdsTypedFrom]
  refine if_neg fun hpacks => h (hpacks.imp_right fun hany => ?_)
  change Option.any _ p.unitsPerInner = true at hany
  obtain ⟨per,hper,hown⟩ := (Option.any_eq_true _ _).mp hany
  exact ⟨per,hper,by simpa using hown⟩

/-- Packs are read as they are on file. -/
theorem read_packs {unit : ItemUnit} {p : ItemPacking} (h : byPacks unit p.unitsPerInner) :
    readHoldsTyped (holdsTypedFrom ⟨unit,some p⟩) ⟨unit,some p⟩ = .ok (p.innersPerCarton,p.unitsPerInner) := by
  have hunsaid : p.unitsPerInner = none → unit.level = .inner := fun hnone => by
    rcases h with ⟨hinner,-⟩ | ⟨per,hper,-⟩
    · exact hinner
    · rw [hnone] at hper
      cases hper
  have hcount : ¬(p.innersPerCarton.elim [] Numerals.digits ≠ [] ∧ ¬whole (p.innersPerCarton.elim [] Numerals.digits)) := by
    cases hn : p.innersPerCarton with
    | none => simp
    | some n => simp [whole_digits (p.inners_pos n hn)]
  have hper : ∀ per ∈ p.unitsPerInner, whole (Numerals.digits (counted (singlesOf unit) per).1) = true := fun per hper =>
    whole_digits (counted_pos (p.units_pos per hper))
  rw [holdsTypedFrom_packs h,readHoldsTyped]
  cases hn : p.innersPerCarton <;> cases hu : p.unitsPerInner <;>
    simp_all [digits_ne_nil,whole_digits,p.inners_pos,counted_mul]

/-- Altogether, a pair item's pairs are read as its packs, and anything else as loose. -/
theorem read_all {unit : ItemUnit} {p : ItemPacking} (h : ¬byPacks unit p.unitsPerInner) :
    readHoldsTyped (holdsTypedFrom ⟨unit,some p⟩) ⟨unit,some p⟩ = match p.innersPerCarton with
      | none => .ok (none,none)
      | some n =>
        let all := n*p.unitsPerInner.getD 1
        if singlesOf unit > 1 then
          if all%singlesOf unit ≠ 0 then .error (.unitsNotWhole all) else .ok (some (all/singlesOf unit),some (singlesOf unit))
        else .ok (some all,none) := by
  rw [holdsTypedFrom_all h,readHoldsTyped]
  cases hn : p.innersPerCarton with
  | none => simp [noHolds]
  | some n =>
    have hunits : 0 < p.unitsPerInner.getD 1 := by
      cases hu : p.unitsPerInner with
      | none => exact Nat.one_pos
      | some u => exact p.units_pos u hu
    have hall : 0 < n*p.unitsPerInner.getD 1 := Nat.mul_pos (p.inners_pos n hn) hunits
    have hwhole := whole_digits (@counted_pos (singlesOf unit) _ hall)
    have hloose : unit.level = .inner → 1 < singlesOf unit := fun hinner => by
      by_contra hle
      exact h (Or.inl ⟨hinner,not_lt.mp hle⟩)
    simp only [trim_digits,digits_ne_nil,hwhole,Numerals.value_digits,counted_mul]
    by_cases hseveral : singlesOf unit > 1
    · simp [hseveral]
    · have hlevel : unit.level ≠ .inner := fun hinner => hseveral (hloose hinner)
      simp [hseveral,hlevel]

/-- Opened and saved as it is, a carton's counts are read as they are on file, and nothing is
to be said first. -/
def RecordsNothing (item : ItemView) : Prop :=
  ∃ holds per, readHoldsTyped (holdsTypedFrom item) item = .ok (holds,per) ∧
    holds.map (·*per.getD 1) = cartonHolds item.packing ∧ sayFirst item.packing holds per = false

/-- A carton on file of loose single ones, of an item sold by several of them. -/
def LooseSeveral (unit : ItemUnit) (p : ItemPacking) : Prop :=
  1 < singlesOf unit ∧ p.innersPerCarton ≠ none ∧ (p.unitsPerInner = none ∨ p.unitsPerInner = some 1)

/-- A carton shown altogether holds loose ones, or what the item is sold as. -/
theorem units_all {unit : ItemUnit} {p : ItemPacking} (h : ¬byPacks unit p.unitsPerInner) :
    (p.unitsPerInner = none ∨ p.unitsPerInner = some 1) ∨ p.unitsPerInner = some (singlesOf unit) := by
  cases hu : p.unitsPerInner with
  | none => exact Or.inl (Or.inl rfl)
  | some u =>
    by_cases hone : u = 1
    · exact Or.inl (Or.inr (congrArg some hone))
    · right
      by_contra hk
      have hpos := p.units_pos u hu
      exact h (Or.inr ⟨u,hu,by omega,fun heq => hk (congrArg some heq)⟩)

/-- Loose ones of an item sold by several are a problem, or are read as fewer of something
else. -/
theorem not_records_loose {unit : ItemUnit} {p : ItemPacking} (hpacks : ¬byPacks unit p.unitsPerInner) {n : ℕ}
    (hn : p.innersPerCarton = some n) (hseveral : 1 < singlesOf unit) (hloose : p.unitsPerInner.getD 1 = 1) :
    ¬RecordsNothing ⟨unit,some p⟩ := by
  rintro ⟨holds,per,hread,-,hsame⟩
  rw [read_all hpacks,hn] at hread
  dsimp only at hread
  rw [if_pos hseveral,hloose,Nat.mul_one] at hread
  split at hread
  · cases hread
  · cases hread
    have hless : n/singlesOf unit < n := Nat.div_lt_self (p.inners_pos n hn) hseveral
    simp only [sayFirst,hn,Bool.or_eq_false_iff,decide_eq_false_iff_not,not_not,Option.some.injEq] at hsame
    omega

/-- Saved as it is a carton on file records nothing, unless it is of loose ones and the item
is sold by several of them. -/
theorem recordsNothing_iff (unit : ItemUnit) (p : ItemPacking) :
    RecordsNothing ⟨unit,some p⟩ ↔ ¬LooseSeveral unit p := by
  by_cases hpacks : byPacks unit p.unitsPerInner
  · have hown : ¬LooseSeveral unit p := by
      rintro ⟨hseveral,-,hloose⟩
      rcases hpacks with ⟨-,hone⟩ | ⟨per,hper,hmany,-⟩
      · exact absurd hseveral (not_lt.mpr hone)
      · rcases hloose with hnone | hone
        · rw [hnone] at hper
          cases hper
        · rw [hone] at hper
          cases hper
          exact lt_irrefl 1 hmany
    refine iff_of_true ⟨_,_,read_packs hpacks,rfl,?_⟩ hown
    cases hn : p.innersPerCarton <;> simp [sayFirst,hn]
  · have hread := read_all hpacks
    cases hn : p.innersPerCarton with
    | none =>
      rw [hn] at hread
      refine iff_of_true ⟨_,_,hread,by simp [cartonHolds,hn],rfl⟩ fun hloose => hloose.2.1 hn
    | some n =>
      rw [hn] at hread
      dsimp only at hread
      rcases units_all hpacks with hloose | hwhole
      · have hone : p.unitsPerInner.getD 1 = 1 := by rcases hloose with hu | hu <;> rw [hu] <;> rfl
        by_cases hseveral : 1 < singlesOf unit
        · exact iff_of_false (not_records_loose hpacks hn hseveral hone)
            (not_not_intro ⟨hseveral,by rw [hn]; exact Option.some_ne_none n,hloose⟩)
        · rw [if_neg hseveral,hone,Nat.mul_one] at hread
          exact iff_of_true ⟨_,_,hread,by simp [cartonHolds,hn,hone],by simp [sayFirst,hn,hone]⟩ fun h => hseveral h.1
      · have hunits : p.unitsPerInner.getD 1 = singlesOf unit := by rw [hwhole]; rfl
        by_cases hseveral : 1 < singlesOf unit
        · rw [if_pos hseveral,hunits,Nat.mul_mod_left,if_neg (not_not_intro rfl),
            Nat.mul_div_cancel n (Nat.zero_lt_of_lt hseveral)] at hread
          refine iff_of_true ⟨_,_,hread,by simp [cartonHolds,hn,hunits],by simp [sayFirst,hn,hunits]⟩ ?_
          rintro ⟨-,-,hnone | hone⟩
          · rw [hwhole] at hnone
            cases hnone
          · exact absurd (Option.some.inj (hwhole.symm.trans hone)) hseveral.ne'
        · have hone : singlesOf unit = 1 := le_antisymm (not_lt.mp hseveral) (le_max_right _ _)
          rw [if_neg hseveral,hunits,hone,Nat.mul_one] at hread
          exact iff_of_true ⟨_,_,hread,by simp [cartonHolds,hn,hunits,hone],by simp [sayFirst,hn,hunits,hone]⟩
            fun h => hseveral h.1

/-- A pair of gloves, and a carton of an odd number of them, loose. -/
def gloves : ItemUnit := ⟨.each,some 2⟩

def oddCarton : ItemPacking := ⟨some 1,some 141,by decide,by decide⟩

/-- The carton opened and saved as it is can't be read. -/
theorem gloves_records : ¬RecordsNothing ⟨gloves,some oddCarton⟩ ∧
    readHoldsTyped (holdsTypedFrom ⟨gloves,some oddCarton⟩) ⟨gloves,some oddCarton⟩ = .error (.unitsNotWhole 141) := by
  have hread : readHoldsTyped (holdsTypedFrom ⟨gloves,some oddCarton⟩) ⟨gloves,some oddCarton⟩ =
      .error (.unitsNotWhole 141) := by decide +kernel
  refine ⟨?_,hread⟩
  rintro ⟨holds,per,hok,-⟩
  rw [hread] at hok
  cases hok

end Items
end Spork
