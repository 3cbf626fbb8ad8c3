import Spork.Layout.TwoSides
import Spork.Lib.Words

/-! The numbers on a grid's labels in 32 bits (`layout.rs`): as a build that checks for
overflow counts them and as one that wraps does, and which racks keep their labels when read
as a face on each side. -/
namespace Spork
namespace Layout

open Words (Fits32 wrap32 word)

/-- A grid of 32-bit numbers. -/
structure Grid.InWords (g : Grid) : Prop where
  bays : Fits32 g.bays
  firstBay : Fits32 g.firstBay
  bayStep : Fits32 g.bayStep

namespace Grid

variable (checks : Bool) (g : Grid)

def along32 (bay : ℤ) : Words.Outcome ℤ :=
  if g.fromRight then (word checks (g.bays+1)).bind fun n => word checks (n-bay) else .returned bay

/-- The number so many steps on from the first bay's. -/
def stepped32 (n : ℤ) : Words.Outcome ℤ :=
  (word checks (n*g.bayStep)).bind fun steps => word checks (g.firstBay+steps)

def labelNumber32 (side bay : ℤ) : Words.Outcome ℤ :=
  (g.along32 checks bay).bind fun along =>
    if side = 2 then
      (word checks (2*g.bays)).bind fun round => (word checks (round-along)).bind (g.stepped32 checks)
    else (word checks (along-1)).bind (g.stepped32 checks)

def belowZero32 : Words.Outcome Bool :=
  if g.firstBay < 0 then .returned true
  else (word checks (max g.bays 1*min (max g.sides 1) 2)).bind fun labels =>
    (word checks (labels-1)).bind fun n => (g.stepped32 checks n).map fun last => decide (last < 0)

def problems32 : Words.Outcome (List String) := (g.belowZero32 checks).map g.problemsWhere

/-- Some column of some side has a label. -/
def Labels32 (n : ℤ) : Prop :=
  ∃ side bay, 1 ≤ side ∧ side ≤ g.sides ∧ 1 ≤ bay ∧ bay ≤ g.bays ∧ g.labelNumber32 checks side bay = .returned n

end Grid

/-- Halving rounds toward zero. -/
def twoSides32 (checks : Bool) (g : Grid) : Words.Outcome (Option Grid) :=
  if g.bays < 2 ∨ g.sides ≠ 1 then .returned none
  else (word checks (g.bays+1)).map fun n => some {g with bays := n.tdiv 2,sides := 2}

/-- What a rack read round its two sides keeps, as the build counts, of the labels it had
on one. -/
structure KeepsLabels32 (checks : Bool) (g r : Grid) : Prop where
  twoSided : r.sides = 2
  distinct : ∀ side bay side' bay' n, 1 ≤ side → side ≤ r.sides → 1 ≤ bay → bay ≤ r.bays →
    1 ≤ side' → side' ≤ r.sides → 1 ≤ bay' → bay' ≤ r.bays →
    r.labelNumber32 checks side bay = .returned n → r.labelNumber32 checks side' bay' = .returned n →
    side = side' ∧ bay = bay'
  exactly : ∀ n, r.Labels32 checks n ↔ ∃ k, 0 ≤ k ∧ k < 2*r.bays ∧ n = g.firstBay+k*g.bayStep
  kept : ∀ n, g.Labels32 checks n → r.Labels32 checks n
  atMostOne : ∀ n, r.Labels32 checks n → ¬g.Labels32 checks n → n = g.firstBay+g.bays*g.bayStep ∧ g.bays%2 = 1
  front : ∀ k, 0 ≤ k → k < r.bays →
    r.labelNumber32 checks 1 (r.fromStart k) = .returned (g.firstBay+k*g.bayStep)
  back : ∀ k, 0 ≤ k → k < r.bays →
    r.labelNumber32 checks 2 (r.fromStart (r.bays-1-k)) = .returned (g.firstBay+(r.bays+k)*g.bayStep)
  behind : r.labelNumber32 checks 1 (r.fromStart 0) = .returned g.firstBay ∧
    r.labelNumber32 checks 2 (r.fromStart 0) = .returned (g.firstBay+(2*r.bays-1)*g.bayStep)
  mirror : twoSides32 checks g.mirrored = .returned (some r.mirrored) ∧
    ∀ side bay, 1 ≤ side → side ≤ r.sides → 1 ≤ bay → bay ≤ r.bays →
      r.mirrored.labelNumber32 checks side bay = r.labelNumber32 checks side (r.bays+1-bay)

/-- The last label of a rack read round its two sides is a 32-bit number, and so is what a
build that checks adds to the first for it. -/
def LastFits (checks : Bool) (g : Grid) : Prop :=
  g.bays+1 < 2^31 ∧ Fits32 (g.firstBay+(2*((g.bays+1)/2)-1)*g.bayStep) ∧
    (checks = true → Fits32 ((2*((g.bays+1)/2)-1)*g.bayStep))

instance (checks : Bool) (g : Grid) : Decidable (LastFits checks g) := inferInstanceAs (Decidable (_ ∧ _ ∧ _))

namespace Grid

variable {checks : Bool} {g : Grid}

/-- A number of steps is taken as it is where it ends at a 32-bit number, and in a build
that checks where the steps are one too. -/
theorem stepped32_eq {n : ℤ} (hlabel : Fits32 (g.firstBay+n*g.bayStep))
    (hsteps : checks = true → Fits32 (n*g.bayStep)) :
    g.stepped32 checks n = .returned (g.firstBay+n*g.bayStep) := by
  cases checks with
  | true => rw [stepped32,Words.word_of_fits (hsteps rfl),Words.bind_returned,Words.word_of_fits hlabel]
  | false =>
    have hwrap : wrap32 (g.firstBay+wrap32 (n*g.bayStep)) = wrap32 (g.firstBay+n*g.bayStep) := Int.add_bmod_bmod
    rw [stepped32,Words.word_false,Words.bind_returned,Words.word_false,hwrap,Words.wrap32_of_fits hlabel]

/-- What comes back fits, and a build that checks has made what it adds in 32 bits. -/
theorem of_stepped32 {n label : ℤ} (h : g.stepped32 checks n = .returned label) :
    Fits32 label ∧ (checks = true → Fits32 (n*g.bayStep)) := by
  unfold stepped32 at h
  cases hsteps : word checks (n*g.bayStep) with
  | panicked =>
    rw [hsteps] at h
    cases h
  | returned steps =>
    rw [hsteps,Words.bind_returned] at h
    obtain ⟨hfits,hsame⟩ := Words.of_word hsteps
    exact ⟨(Words.of_word h).1,fun hc => hsame hc ▸ hfits⟩

/-- How far along a column is, a build counts without overflow. -/
theorem labelNumber32_stepped {side bay : ℤ} (hbays : g.bays+1 < 2^31) (hround : side = 2 → g.bays < 2^30)
    (hbay : 1 ≤ bay ∧ bay ≤ g.bays) : g.labelNumber32 checks side bay = g.stepped32 checks (g.before side bay) := by
  have halong : g.along32 checks bay = .returned (g.along bay) := by
    unfold along32 along
    split
    · rw [Words.word_of_fits (by unfold Fits32; omega),Words.bind_returned,
        Words.word_of_fits (by unfold Fits32; omega)]
    · rfl
  have hin := g.along_mem.mpr hbay
  rw [labelNumber32,halong,Words.bind_returned,before]
  split
  · rename_i hside
    have hless := hround hside
    rw [Words.word_of_fits (by unfold Fits32; omega),Words.bind_returned,
      Words.word_of_fits (by unfold Fits32; omega),Words.bind_returned]
  · rw [Words.word_of_fits (by unfold Fits32; omega),Words.bind_returned]

/-- What is between two 32-bit numbers is one. -/
theorem fits32_between {a b x : ℤ} (ha : Fits32 a) (hb : Fits32 b) (hx : x ∈ Set.uIcc a b) : Fits32 x := by
  rw [Set.mem_uIcc] at hx
  unfold Fits32 at ha hb ⊢
  omega

/-- A column's label is as it should be where one as far on or further is a 32-bit number,
and in a build that checks what is added to the first for that. -/
theorem labelNumber32_eq (last : ℤ) {side bay : ℤ} (hbays : g.bays+1 < 2^31) (hround : side = 2 → g.bays < 2^30)
    (hbay : 1 ≤ bay ∧ bay ≤ g.bays) (hbefore : g.before side bay ≤ last) (hfirst : Fits32 g.firstBay)
    (hlast : Fits32 (g.firstBay+last*g.bayStep)) (hsteps : checks = true → Fits32 (last*g.bayStep)) :
    g.labelNumber32 checks side bay = .returned (g.labelNumber side bay) := by
  have hnought := (g.before_mem side hbay).1
  have hbetween : g.before side bay*g.bayStep ∈ Set.uIcc 0 (last*g.bayStep) := by
    rw [Set.mem_uIcc]
    rcases le_total 0 g.bayStep with hup | hdown
    · exact Or.inl ⟨mul_nonneg hnought hup,mul_le_mul_of_nonneg_right hbefore hup⟩
    · exact Or.inr ⟨mul_le_mul_of_nonpos_right hbefore hdown,mul_nonpos_of_nonneg_of_nonpos hnought hdown⟩
  rw [labelNumber32_stepped hbays hround hbay,labelNumber_eq]
  refine stepped32_eq (fits32_between hfirst hlast ?_) fun hc => fits32_between (by decide) (hsteps hc) hbetween
  rw [Set.mem_uIcc] at hbetween ⊢
  omega

/-- A build that doesn't check always has a label. -/
theorem labelNumber32_false (side bay : ℤ) : ∃ n, g.labelNumber32 false side bay = .returned n := by
  have hstepped (n : ℤ) : ∃ label, g.stepped32 false n = .returned label := by
    rw [stepped32,Words.word_false,Words.bind_returned,Words.word_false]
    exact ⟨_,rfl⟩
  have halong : ∃ along, g.along32 false bay = .returned along := by
    unfold along32
    split
    · rw [Words.word_false,Words.bind_returned,Words.word_false]
      exact ⟨_,rfl⟩
    · exact ⟨_,rfl⟩
  obtain ⟨along,halong⟩ := halong
  rw [labelNumber32,halong,Words.bind_returned]
  split
  · rw [Words.word_false,Words.bind_returned,Words.word_false,Words.bind_returned]
    exact hstepped _
  · rw [Words.word_false,Words.bind_returned]
    exact hstepped _

end Grid

section
variable {checks : Bool} {g : Grid}

/-- The build halves a rack as it should, but for one of as many bays as a 32-bit number
can count. -/
theorem twoSides32_eq (hone : g.sides = 1) (htwo : 2 ≤ g.bays) (hbays : g.bays+1 < 2^31) :
    twoSides32 checks g = .returned (some {g with bays := (g.bays+1)/2,sides := 2}) := by
  rw [twoSides32,if_neg (by omega),Words.word_of_fits (by unfold Fits32; omega),Words.map_returned,
    Int.tdiv_eq_ediv_of_nonneg (by omega)]

theorem lastFits_of_keeps {r : Grid} (hg : g.InWords) (hone : g.sides = 1) (htwo : 2 ≤ g.bays)
    (hr : twoSides32 checks g = .returned (some r)) (hkeeps : KeepsLabels32 checks g r) : LastFits checks g := by
  by_cases hbays : g.bays+1 < 2^31
  · rw [twoSides32_eq hone htwo hbays] at hr
    cases hr
    have hstart : 1 ≤ Grid.fromStart {g with bays := (g.bays+1)/2,sides := 2} 0 ∧
        Grid.fromStart {g with bays := (g.bays+1)/2,sides := 2} 0 ≤ (g.bays+1)/2 := by
      unfold Grid.fromStart
      dsimp only
      split <;> omega
    have hbehind := hkeeps.behind.2
    rw [Grid.labelNumber32_stepped (by dsimp only; omega) (fun _ => by dsimp only; omega) hstart,Grid.before,if_pos rfl,
      Grid.along_fromStart] at hbehind
    obtain ⟨hlast,hsteps⟩ := Grid.of_stepped32 hbehind
    exact ⟨hbays,hlast,hsteps⟩
  · -- one bay more than it has is no 32-bit number, so it panics or is halved to less than none
    have hmost : g.bays+1 = 2^31 := by
      have hfits := hg.bays
      unfold Fits32 at hfits
      omega
    rw [twoSides32,if_neg (by omega),hmost] at hr
    cases checks with
    | true => cases hr
    | false =>
      have hnone : r.bays = -2^30 := by
        rw [Words.word_false,Words.map_returned] at hr
        cases hr
        rfl
      obtain ⟨n,hn⟩ := g.labelNumber32_false 1 1
      obtain ⟨side,bay,-,-,hbay,hbays',-⟩ := hkeeps.kept n ⟨1,1,le_rfl,hone.ge,le_rfl,by omega,hn⟩
      omega

theorem keeps_of_lastFits (hg : g.InWords) (hstep : g.bayStep ≠ 0) (hone : g.sides = 1) (htwo : 2 ≤ g.bays)
    (hlast : LastFits checks g) : ∃ r, twoSides32 checks g = .returned (some r) ∧ KeepsLabels32 checks g r := by
  obtain ⟨hbays,hfits,hsteps⟩ := hlast
  obtain ⟨r,hr,hkeeps⟩ := twoSides_keepsLabels hstep hone htwo
  rw [twoSides,if_neg (by omega)] at hr
  cases hr
  refine ⟨_,twoSides32_eq hone htwo hbays,?_⟩
  set r : Grid := {g with bays := (g.bays+1)/2,sides := 2} with hr
  have hless : r.bays < 2^30 := by
    rw [hr]
    dsimp only
    omega
  have hlabel {side bay : ℤ} (hbay : 1 ≤ bay ∧ bay ≤ r.bays) :
      r.labelNumber32 checks side bay = .returned (r.labelNumber side bay) :=
    Grid.labelNumber32_eq (2*r.bays-1) (by omega) (fun _ => hless) hbay
      (by have := (r.before_mem side hbay).2; omega) hg.firstBay hfits hsteps
  have hmirrored {side bay : ℤ} (hbay : 1 ≤ bay ∧ bay ≤ r.bays) :
      r.mirrored.labelNumber32 checks side bay = .returned (r.mirrored.labelNumber side bay) :=
    Grid.labelNumber32_eq (2*r.bays-1) (by show r.bays+1 < 2^31; omega) (fun _ => hless) hbay
      (by have := (r.mirrored.before_mem side hbay).2; show _ ≤ 2*r.bays-1; change _ < 2*r.bays at this; omega)
      hg.firstBay hfits hsteps
  have hwas {bay : ℤ} {side : ℤ} (hside : side = 1) (hbay : 1 ≤ bay ∧ bay ≤ g.bays) :
      g.labelNumber32 checks side bay = .returned (g.labelNumber side bay) := by
    refine Grid.labelNumber32_eq (2*r.bays-1) hbays (by omega) hbay ?_ hg.firstBay hfits hsteps
    have hin := g.along_mem.mpr hbay
    rw [Grid.before,if_neg (by omega),hr]
    dsimp only
    omega
  have hlabels (n : ℤ) : r.Labels32 checks n ↔ r.Labels n := by
    constructor
    · rintro ⟨side,bay,hs1,hs2,hb1,hb2,hn⟩
      rw [hlabel ⟨hb1,hb2⟩] at hn
      exact ⟨side,bay,hs1,hs2,hb1,hb2,Words.Outcome.returned.inj hn⟩
    · rintro ⟨side,bay,hs1,hs2,hb1,hb2,rfl⟩
      exact ⟨side,bay,hs1,hs2,hb1,hb2,hlabel ⟨hb1,hb2⟩⟩
  have hlabelsWas (n : ℤ) : g.Labels32 checks n ↔ g.Labels n := by
    constructor
    · rintro ⟨side,bay,hs1,hs2,hb1,hb2,hn⟩
      rw [hwas (by omega) ⟨hb1,hb2⟩] at hn
      exact ⟨side,bay,hs1,hs2,hb1,hb2,Words.Outcome.returned.inj hn⟩
    · rintro ⟨side,bay,hs1,hs2,hb1,hb2,rfl⟩
      exact ⟨side,bay,hs1,hs2,hb1,hb2,hwas (by omega) ⟨hb1,hb2⟩⟩
  have hstart {k : ℤ} (hk0 : 0 ≤ k) (hk : k < r.bays) : 1 ≤ r.fromStart k ∧ r.fromStart k ≤ r.bays := by
    unfold Grid.fromStart
    split <;> omega
  constructor
  case twoSided => rfl
  case distinct =>
    intro side bay side' bay' n hs1 hs2 hb1 hb2 hs1' hs2' hb1' hb2' hn hn'
    rw [hlabel ⟨hb1,hb2⟩] at hn
    rw [hlabel ⟨hb1',hb2'⟩,← hn] at hn'
    exact hkeeps.distinct side bay side' bay' hs1 hs2 hb1 hb2 hs1' hs2' hb1' hb2' (Words.Outcome.returned.inj hn').symm
  case exactly => exact fun n => (hlabels n).trans (hkeeps.exactly n)
  case kept => exact fun n hn => (hlabels n).mpr (hkeeps.kept n ((hlabelsWas n).mp hn))
  case atMostOne => exact fun n hn hnot => hkeeps.atMostOne n ((hlabels n).mp hn) fun h => hnot ((hlabelsWas n).mpr h)
  case front =>
    intro k hk0 hk
    rw [hlabel (hstart hk0 hk),hkeeps.front k hk0 hk]
  case back =>
    intro k hk0 hk
    rw [hlabel (hstart (by omega) (by omega)),hkeeps.back k hk0 hk]
  case behind =>
    have hsome := hstart le_rfl (show 0 < r.bays by rw [hr]; dsimp only; omega)
    rw [hlabel hsome,hlabel hsome,hkeeps.behind.1,hkeeps.behind.2]
    exact ⟨rfl,rfl⟩
  case mirror =>
    refine ⟨twoSides32_eq (g := g.mirrored) hone htwo hbays,fun side bay hs1 hs2 hb1 hb2 => ?_⟩
    rw [hmirrored ⟨hb1,hb2⟩,hkeeps.mirror.2,hlabel (by omega)]

/-- A rack with two sides keeps every label, as a build counts them, just when the last one
is a 32-bit number. -/
theorem two_sides_keeps_labels_iff (checks : Bool) {g : Grid} (hg : g.InWords) (hgood : g.problems32 checks = .returned [])
    (hone : g.sides = 1) (htwo : 2 ≤ g.bays) :
    (∃ r, twoSides32 checks g = .returned (some r) ∧ KeepsLabels32 checks g r) ↔ LastFits checks g := by
  have hstep : g.bayStep ≠ 0 := by
    obtain ⟨below,-,hnone⟩ := Words.of_map hgood
    intro hzero
    simp [Grid.problemsWhere,hzero] at hnone
  constructor
  · rintro ⟨r,hr,hkeeps⟩
    exact lastFits_of_keeps hg hone htwo hr hkeeps
  · exact keeps_of_lastFits hg hstep hone htwo

end

/-- A rack of nine bays by twos from 41 down, numbered from the right. -/
def nineDown : Grid := ⟨9,3,1,[],41,-2,1,1,true⟩

theorem two_sides_keeps_labels_nineDown :
    (∃ r, twoSides32 false nineDown = .returned (some r) ∧ KeepsLabels32 false nineDown r) ∧
    ∃ r, twoSides32 true nineDown = .returned (some r) ∧ KeepsLabels32 true nineDown r :=
  ⟨(two_sides_keeps_labels_iff false ⟨by decide,by decide,by decide⟩ (by decide +kernel) rfl (by decide)).mpr (by decide),
    (two_sides_keeps_labels_iff true ⟨by decide,by decide,by decide⟩ (by decide +kernel) rfl (by decide)).mpr (by decide)⟩

/-- Three bays from nought in steps so long that a fourth's label is no 32-bit number. -/
def threeFar : Grid := ⟨3,1,1,[],0,1073741823,1,1,false⟩

def twoFar : Grid := {threeFar with bays := 2,sides := 2}

/-- It has no problems, and its one label over is another number, or panics. -/
theorem threeFar_loses :
    (threeFar.problems32 false = .returned [] ∧ twoSides32 false threeFar = .returned (some twoFar) ∧
      twoFar.labelNumber32 false 2 1 = .returned (-1073741827) ∧ ¬KeepsLabels32 false threeFar twoFar) ∧
    threeFar.problems32 true = .returned [] ∧ twoSides32 true threeFar = .returned (some twoFar) ∧
      twoFar.labelNumber32 true 2 1 = .panicked ∧ ¬KeepsLabels32 true threeFar twoFar :=
  ⟨⟨by decide +kernel,by decide +kernel,by decide +kernel,fun h => absurd h.behind.2 (by decide +kernel)⟩,
    by decide +kernel,by decide +kernel,by decide +kernel,fun h => absurd h.behind.2 (by decide +kernel)⟩

end Layout
end Spork
