import Spork.Layout.Desk

/-! The boxes the plan editor's page makes of a place's (client/app/layout/edit.ts): dragged,
turned, sized from its bays, set out in a row or against what is next to it. Each leaves the
place turned in whole degrees. -/
namespace Spork
namespace Layout
namespace Desk

open Editor (mod360 remEuclid360 mod360_eq rem)

/-- `Math.round` -/
def round (n : ℚ) : ℤ := ⌊n+1/2⌋

/-- Rounded past floating-point dust. -/
def tidy (n : ℚ) : ℚ := round (n*10^6)/10^6

/-- To the nearest step. -/
def snap (n step : ℚ) : ℚ := tidy (round (n/step)*step)

section
variable (t : Turning ℚ)

/-- A point on the site, in a frame's cells. -/
def within (frame : Frame ℚ) (p : ℚ × ℚ) : ℚ × ℚ :=
  let (s,c) := t.sinCos frame.turn
  let (dx,dy) := (p.1-frame.x,p.2-frame.y)
  (dx*c+dy*s,-dx*s+dy*c)

/-- The box after a drag across the site from where it started. -/
def moved (start : PlaceBox ℚ) (parent : Frame ℚ) (dx dy step : ℚ) : PlaceBox ℚ :=
  let (du,dv) := within t {parent with x := 0, y := 0} (dx,dy)
  {start with x := snap (start.x+du) step, y := snap (start.y+dv) step}

/-- The middle of a box with its corner at nought. -/
def middle (box : PlaceBox ℚ) (turn : ℚ) : ℚ × ℚ := Editor.at' t ⟨0,0,0,turn⟩ (box.length/2) (box.depth/2)

/-- A box turned about its middle. -/
def turned (box : PlaceBox ℚ) (degrees : ℚ) : PlaceBox ℚ :=
  let (cx,cy) := middle t box box.turn
  let turn := mod360 (box.turn+degrees)
  let (nx,ny) := middle t box turn
  {box with turn := turn, x := tidy (box.x+cx-nx), y := tidy (box.y+cy-ny)}

end

/-- A rack's make: how wide a bay is, how deep one side, how high a level. -/
structure RackMake where
  bay : ℚ
  side : ℚ
  level : ℚ

/-- A rack sized from its bays. -/
def sizedFrom (d : Draft) (make : RackMake) : PlaceBox ℚ :=
  {d.box with length := tidy (d.bays*make.bay), depth := tidy (d.sides*make.side), height := tidy (d.levels*make.level)}

inductive Side where
  | left
  | right
  | front
  | back

/-- The box moved so that its clearance on one side is `wanted` rather than `now`. -/
def cleared (box : PlaceBox ℚ) (side : Side) (now wanted : ℚ) : PlaceBox ℚ :=
  let gain := wanted-now
  let (dx,dy) := match side with
    | .left => (gain,0)
    | .right => (-gain,0)
    | .front => (0,gain)
    | .back => (0,-gain)
  {box with x := tidy (box.x+dx), y := tidy (box.y+dy)}

/-- A rectangle on the plan, in its parent's cells. -/
structure Bounds where
  left : ℚ
  front : ℚ
  right : ℚ
  back : ℚ

/-- Racks set out in a row, each next one an aisle beyond the last: up the plan, or across it. -/
def rowFrom (bounds : Draft → Bounds) (left front aisle : ℚ) (up : Bool) : ℚ → List Draft → List (Edit.Uuid × PlaceBox ℚ)
  | _, [] => []
  | now, d :: racks =>
    let b := bounds d
    let (dx,dy) := if up then (left-b.left,now-b.front) else (now-b.left,front-b.front)
    (d.placeId,{d.box with x := tidy (d.box.x+dx), y := tidy (d.box.y+dy)}) ::
      rowFrom bounds left front aisle up (now+(if up then b.back-b.front else b.right-b.left)+aisle) racks

def inRow (bounds : Draft → Bounds) (racks : List Draft) (left front aisle : ℚ) (up : Bool) : List (Edit.Uuid × PlaceBox ℚ) :=
  rowFrom bounds left front aisle up (if up then front else left) racks

variable {t : Turning ℚ} {box : PlaceBox ℚ}

/-- Only a turn turns a place. -/
theorem Upright.of_turn {b : PlaceBox ℚ} (h : Upright box) (hturn : b.turn = box.turn) : Upright b := by
  obtain ⟨n,h0,h360,hn⟩ := h
  exact ⟨n,h0,h360,hturn.trans hn⟩

/-- A whole number of degrees, brought to less than once round. -/
theorem mod360_int (n : ℤ) : ∃ k : ℤ, 0 ≤ k ∧ k < 360 ∧ mod360 (n : ℚ) = k := by
  obtain ⟨q,hq⟩ : ∃ q : ℤ, rem (n : ℚ) 360 = ((n-360*q : ℤ) : ℚ) := by
    rw [rem]
    split_ifs
    · exact ⟨⌊(n : ℚ)/360⌋,by push_cast; ring⟩
    · exact ⟨⌈(n : ℚ)/360⌉,by push_cast; ring⟩
  obtain ⟨hlow,hhigh,-⟩ := Editor.rem_bounds (show (0 : ℚ) < 360 by norm_num) (n : ℚ)
  rw [hq] at hlow hhigh
  have hlow' : -360 < n-360*q := by exact_mod_cast hlow
  have hhigh' : n-360*q < 360 := by exact_mod_cast hhigh
  rw [mod360_eq,remEuclid360,hq]
  by_cases hneg : n-360*q < 0
  · refine ⟨n-360*q+360,by omega,by omega,?_⟩
    rw [if_pos (by exact_mod_cast hneg)]
    push_cast
    ring
  · refine ⟨n-360*q,by omega,by omega,?_⟩
    rw [if_neg (by exact_mod_cast hneg)]

theorem upright_turned (h : Upright box) (quarters : ℤ) : Upright (turned t box (90*quarters : ℤ)) := by
  obtain ⟨n,-,-,hn⟩ := h
  obtain ⟨k,h0,h360,hk⟩ := mod360_int (n+90*quarters)
  refine ⟨k,h0,h360,?_⟩
  show mod360 (box.turn+((90*quarters : ℤ) : ℚ)) = k
  rw [hn,← Int.cast_add,hk]

/-! ## What the page makes is offered -/

variable {s : PlanDesk}

theorem offered_turned (placeIds : List Edit.Uuid) (quarters : ℤ) :
    Offered s (.change placeIds (.box fun b => turned t b (90*quarters : ℤ))) := fun _ hb => upright_turned hb quarters

theorem offered_cleared (placeIds : List Edit.Uuid) (side : Side) (now wanted : ℚ) :
    Offered s (.change placeIds (.box fun b => cleared b side now wanted)) := fun _ hb => hb.of_turn rfl

theorem offered_boxes {boxes : List (Edit.Uuid × PlaceBox ℚ)} (hboxes : ∀ p ∈ boxes, Upright p.2) :
    Offered s (.place fun id => boxes.lookup id) ∧ Offered s (.drag fun id => boxes.lookup id) := by
  have hall : ∀ id, ∀ b ∈ boxes.lookup id, Upright b := by
    intro id b hb
    obtain ⟨l₁,l₂,rfl,-⟩ := List.lookup_eq_some_iff.mp hb
    exact hboxes (id,b) (by simp)
  exact ⟨hall,hall⟩

section
variable {racks : List Draft} (hracks : ∀ d ∈ racks, Upright d.box)
include hracks

/-- Places moved together, from where they were when the drag began. -/
theorem offered_moved (parent : Draft → Frame ℚ) (dx dy step : ℚ) :
    Offered s (.drag fun id => (racks.map fun d => (d.placeId,moved t d.box (parent d) dx dy step)).lookup id) :=
  (offered_boxes (List.forall_mem_map.mpr fun d hd => (hracks d hd).of_turn rfl)).2

/-- Racks sized from their bays. -/
theorem offered_sizedFrom (make : RackMake) :
    Offered s (.place fun id => (racks.map fun d => (d.placeId,sizedFrom d make)).lookup id) :=
  (offered_boxes (List.forall_mem_map.mpr fun d hd => (hracks d hd).of_turn rfl)).1

/-- Racks set out in a row. -/
theorem offered_inRow (bounds : Draft → Bounds) (left front aisle : ℚ) (up : Bool) :
    Offered s (.place fun id => (inRow bounds racks left front aisle up).lookup id) := by
  have hrow (now : ℚ) : ∀ p ∈ rowFrom bounds left front aisle up now racks, Upright p.2 := by
    induction racks generalizing now with
    | nil => exact fun p hp => absurd hp List.not_mem_nil
    | cons d racks ih =>
      obtain ⟨hd,hrest⟩ := List.forall_mem_cons.mp hracks
      exact List.forall_mem_cons.mpr ⟨hd.of_turn rfl,ih hrest _⟩
  exact (offered_boxes (hrow _)).1

end

end Desk
end Layout
end Spork
