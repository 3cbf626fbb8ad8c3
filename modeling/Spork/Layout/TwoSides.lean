import Spork.Layout.Grid

/-! One rack read as a face on each side, numbered round it (`layout.rs`): the front's
labels run on into the back's, and no label is lost or given twice. -/
namespace Spork
namespace Layout

/-- The same rack, read as a face on each side numbered round it: half the columns, the
front's labels from the first bay and the back's on from the front's last. Nothing when
there is only one bay to share, or the grid already has two sides. -/
def twoSides (g : Grid) : Option Grid :=
  if g.bays < 2 ∨ g.sides ≠ 1 then none else some {g with bays := (g.bays+1)/2,sides := 2}

namespace Grid

/-- The same grid numbered from the other end of its front. -/
def mirrored (g : Grid) : Grid := {g with fromRight := !g.fromRight}

variable (g : Grid)

/-- How many labels come before a column's on its side, read round the rack. -/
def before (side bay : ℤ) : ℤ := if side = 2 then 2*g.bays-g.along bay else g.along bay-1

theorem labelNumber_eq (side bay : ℤ) :
    g.labelNumber side bay = g.firstBay+g.before side bay*g.bayStep := by
  unfold labelNumber before
  split_ifs <;> rfl

@[simp] theorem along_along (bay : ℤ) : g.along (g.along bay) = bay := by
  unfold along
  split_ifs <;> omega

@[simp] theorem along_mem {bay : ℤ} :
    1 ≤ g.along bay ∧ g.along bay ≤ g.bays ↔ 1 ≤ bay ∧ bay ≤ g.bays := by
  unfold along
  split_ifs <;> omega

theorem along_mirrored (bay : ℤ) : g.mirrored.along bay = g.along (g.bays+1-bay) := by
  unfold along mirrored
  cases g.fromRight <;> simp

/-- Mirroring a grid maps a column to the one as far from the other end, on both sides. -/
theorem labelNumber_mirrored (side bay : ℤ) :
    g.mirrored.labelNumber side bay = g.labelNumber side (g.bays+1-bay) := by
  have halong := g.along_mirrored bay
  simp only [labelNumber,halong]
  rfl

/-- The columns of both sides, counted round the rack from where the numbering starts: one
for each count below twice its bays. -/
theorem before_inj {side bay side' bay' : ℤ} (hside : side = 1 ∨ side = 2)
    (hbay : 1 ≤ bay ∧ bay ≤ g.bays) (hside' : side' = 1 ∨ side' = 2)
    (hbay' : 1 ≤ bay' ∧ bay' ≤ g.bays) (h : g.before side bay = g.before side' bay') :
    side = side' ∧ bay = bay' := by
  rw [← g.along_mem] at hbay hbay'
  have hcol (e : g.along bay = g.along bay') : bay = bay' := by
    simpa using congrArg g.along e
  unfold before at h
  rcases hside with rfl | rfl <;> rcases hside' with rfl | rfl
  · simp only [OfNat.one_ne_ofNat,if_false] at h
    exact ⟨rfl,hcol (by omega)⟩
  · simp only [OfNat.one_ne_ofNat,if_false,if_true] at h
    omega
  · simp only [OfNat.one_ne_ofNat,if_false,if_true] at h
    omega
  · simp only [if_true] at h
    exact ⟨rfl,hcol (by omega)⟩

theorem exists_before {k : ℤ} (hk : 0 ≤ k ∧ k < 2*g.bays) :
    ∃ side bay, (side = 1 ∨ side = 2) ∧ 1 ≤ bay ∧ bay ≤ g.bays ∧ g.before side bay = k := by
  by_cases hfront : k < g.bays
  · have hmem := g.along_mem.mpr (show 1 ≤ k+1 ∧ k+1 ≤ g.bays by omega)
    exact ⟨1,g.along (k+1),.inl rfl,hmem.1,hmem.2,by simp [before]⟩
  · have hmem := g.along_mem.mpr (show 1 ≤ 2*g.bays-k ∧ 2*g.bays-k ≤ g.bays by omega)
    exact ⟨2,g.along (2*g.bays-k),.inr rfl,hmem.1,hmem.2,by simp [before]⟩

theorem before_mem (side : ℤ) {bay : ℤ} (hbay : 1 ≤ bay ∧ bay ≤ g.bays) :
    0 ≤ g.before side bay ∧ g.before side bay < 2*g.bays := by
  rw [← g.along_mem] at hbay
  unfold before
  split_ifs <;> omega

/-- Some column of some side has a label. -/
def Labels (n : ℤ) : Prop :=
  ∃ side bay, 1 ≤ side ∧ side ≤ g.sides ∧ 1 ≤ bay ∧ bay ≤ g.bays ∧ g.labelNumber side bay = n

/-- The labels of a grid with one side, and of one with two. -/
theorem labels_iff (n : ℤ) (hsides : g.sides = 1 ∨ g.sides = 2) :
    g.Labels n ↔ ∃ k, 0 ≤ k ∧ k < g.sides*g.bays ∧ n = g.firstBay+k*g.bayStep := by
  constructor
  · rintro ⟨side,bay,h1,h2,hbay1,hbay2,rfl⟩
    have hmem := g.before_mem side ⟨hbay1,hbay2⟩
    refine ⟨g.before side bay,hmem.1,?_,g.labelNumber_eq side bay⟩
    rcases hsides with hone | htwo
    · have halong := g.along_mem.mpr ⟨hbay1,hbay2⟩
      have hside : side ≠ 2 := by
        omega
      rw [hone,before,if_neg hside]
      omega
    · rw [htwo]
      exact hmem.2
  · rintro ⟨k,hk0,hk,rfl⟩
    have hround : k < 2*g.bays := by
      rcases hsides with h | h <;> rw [h] at hk <;> omega
    obtain ⟨side,bay,hside,hbay1,hbay2,hbefore⟩ := g.exists_before ⟨hk0,hround⟩
    have hin : 1 ≤ side ∧ side ≤ g.sides := by
      rcases hsides with hone | htwo
      · have hne : side ≠ 2 := by
          intro hback
          have halong := g.along_mem.mpr ⟨hbay1,hbay2⟩
          rw [before,if_pos hback] at hbefore
          rw [hone] at hk
          omega
        omega
      · omega
    exact ⟨side,bay,hin.1,hin.2,hbay1,hbay2,by rw [labelNumber_eq,hbefore]⟩

/-- No two columns of a grid with one side or two have one label. -/
theorem labelNumber_inj (hstep : g.bayStep ≠ 0) {side bay side' bay' : ℤ}
    (hside : side = 1 ∨ side = 2) (hbay : 1 ≤ bay ∧ bay ≤ g.bays)
    (hside' : side' = 1 ∨ side' = 2) (hbay' : 1 ≤ bay' ∧ bay' ≤ g.bays)
    (h : g.labelNumber side bay = g.labelNumber side' bay') : side = side' ∧ bay = bay' := by
  apply g.before_inj hside hbay hside' hbay'
  rw [labelNumber_eq,labelNumber_eq] at h
  exact mul_right_cancel₀ hstep (add_left_cancel h)

/-- Every label is between the first and the last. -/
theorem labelNumber_mem_uIcc {side bay : ℤ} (hbay : 1 ≤ bay ∧ bay ≤ g.bays) :
    g.labelNumber side bay ∈ Set.uIcc g.firstBay (g.firstBay+(2*g.bays-1)*g.bayStep) := by
  have hmem := g.before_mem side hbay
  rw [labelNumber_eq,Set.mem_uIcc]
  rcases le_total 0 g.bayStep with hup | hdown
  · left
    constructor
    · nlinarith
    · nlinarith
  · right
    constructor
    · nlinarith
    · nlinarith

/-- A column, so many from the end the front's numbering starts. -/
def fromStart (k : ℤ) : ℤ := if g.fromRight then g.bays-k else k+1

@[simp] theorem along_fromStart (k : ℤ) : g.along (g.fromStart k) = k+1 := by
  unfold along fromStart
  split_ifs <;> omega

end Grid

/-- What a rack read round its two sides keeps of the labels it had on one. -/
structure KeepsLabels (g r : Grid) : Prop where
  twoSided : r.sides = 2
  distinct : ∀ side bay side' bay', 1 ≤ side → side ≤ r.sides → 1 ≤ bay → bay ≤ r.bays →
    1 ≤ side' → side' ≤ r.sides → 1 ≤ bay' → bay' ≤ r.bays →
    r.labelNumber side bay = r.labelNumber side' bay' → side = side' ∧ bay = bay'
  /-- The labels are the first bay's on, in steps, twice its bays of them. -/
  exactly : ∀ n, r.Labels n ↔ ∃ k, 0 ≤ k ∧ k < 2*r.bays ∧ n = g.firstBay+k*g.bayStep
  kept : ∀ n, g.Labels n → r.Labels n
  /-- One label over at most, the one that would come next, of an odd rack. -/
  atMostOne : ∀ n, r.Labels n → ¬g.Labels n → n = g.firstBay+g.bays*g.bayStep ∧ g.bays%2 = 1
  /-- The front, read from the end its numbering starts. -/
  front : ∀ k, 0 ≤ k → k < r.bays →
    r.labelNumber 1 (r.fromStart k) = g.firstBay+k*g.bayStep
  /-- The back goes on from the front's last, the other way along. -/
  back : ∀ k, 0 ≤ k → k < r.bays →
    r.labelNumber 2 (r.fromStart (r.bays-1-k)) = g.firstBay+(r.bays+k)*g.bayStep
  /-- The last label of all is behind the first. -/
  behind : r.labelNumber 1 (r.fromStart 0) = g.firstBay ∧
    r.labelNumber 2 (r.fromStart 0) = g.firstBay+(2*r.bays-1)*g.bayStep
  /-- Numbered from the other end, a column has the label of its mirror image. -/
  mirror : twoSides g.mirrored = some r.mirrored ∧
    ∀ side bay, r.mirrored.labelNumber side bay = r.labelNumber side (r.bays+1-bay)

/-- A rack with two sides keeps every label, as long as numbers have no end. -/
theorem twoSides_keepsLabels {g : Grid} (hstep : g.bayStep ≠ 0) (hone : g.sides = 1)
    (htwo : 2 ≤ g.bays) : ∃ r, twoSides g = some r ∧ KeepsLabels g r := by
  have hsplit (h : Grid) (hbays : h.bays = g.bays) (hsides : h.sides = g.sides) :
      twoSides h = some {h with bays := (h.bays+1)/2,sides := 2} := by
    rw [twoSides,if_neg (by omega)]
  refine ⟨_,hsplit g rfl rfl,?_⟩
  generalize hr : ({g with bays := (g.bays+1)/2,sides := 2} : Grid) = r
  have hbays : r.bays = (g.bays+1)/2 := by
    rw [← hr]
  have hsides : r.sides = 2 := by
    rw [← hr]
  have hfirst : r.firstBay = g.firstBay := by
    rw [← hr]
  have hsame : r.bayStep = g.bayStep := by
    rw [← hr]
  have hexactly (n : ℤ) :
      r.Labels n ↔ ∃ k, 0 ≤ k ∧ k < 2*r.bays ∧ n = g.firstBay+k*g.bayStep := by
    rw [r.labels_iff n (.inr hsides),hsides,hfirst,hsame]
  have hwas (n : ℤ) : g.Labels n ↔ ∃ k, 0 ≤ k ∧ k < g.bays ∧ n = g.firstBay+k*g.bayStep := by
    rw [g.labels_iff n (.inl hone),hone,one_mul]
  constructor
  case twoSided => exact hsides
  case distinct =>
    intro side bay side' bay' h1 h2 hb1 hb2 h1' h2' hb1' hb2' h
    apply r.labelNumber_inj (hsame ▸ hstep) (by omega) ⟨hb1,hb2⟩ (by omega) ⟨hb1',hb2'⟩ h
  case exactly => exact hexactly
  case kept =>
    intro n hn
    obtain ⟨k,hk0,hk,rfl⟩ := (hwas n).mp hn
    exact (hexactly _).mpr ⟨k,hk0,by omega,rfl⟩
  case atMostOne =>
    intro n hn hnot
    obtain ⟨k,hk0,hk,rfl⟩ := (hexactly n).mp hn
    have hover : ¬k < g.bays := by
      intro hlt
      exact hnot ((hwas _).mpr ⟨k,hk0,hlt,rfl⟩)
    have hlast : k = g.bays := by
      omega
    rw [hlast]
    exact ⟨rfl,by omega⟩
  case front =>
    intro k hk0 hk
    simp [Grid.labelNumber,hfirst,hsame]
  case back =>
    intro k hk0 hk
    rw [Grid.labelNumber,if_pos rfl,Grid.along_fromStart,hfirst,hsame]
    ring
  case behind =>
    constructor
    · simp [Grid.labelNumber,hfirst]
    · simp [Grid.labelNumber,hfirst,hsame]
  case mirror =>
    constructor
    · rw [hsplit g.mirrored rfl rfl,← hr]
      rfl
    · exact r.labelNumber_mirrored

end Layout
end Spork
