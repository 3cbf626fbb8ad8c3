import Mathlib

/-! Serving a line of takers from one room, first come first served, none of them in part:
who is served, who is left, and who is left of a line several rooms come to in turn. -/
namespace Spork
namespace Allot

variable {α : Type*} (size : α → ℤ)

/-- Who a room serves, each from what those before it left. -/
def served : ℤ → List α → List α
  | _, [] => []
  | room, a :: line => if size a ≤ room then a :: served (room-size a) line else served room line

/-- Who a room leaves. -/
def left : ℤ → List α → List α
  | _, [] => []
  | room, a :: line => if size a ≤ room then left (room-size a) line else a :: left room line

/-- Who is left of a line that rooms come to in turn. -/
def leftAfter (rooms : List ℤ) (line : List α) : List α := rooms.foldl (fun l room => left size room l) line

def total (line : List α) : ℤ := (line.map size).sum

variable {size} {room : ℤ} {line : List α} {a : α}

@[simp] theorem total_nil : total size [] = 0 := rfl

@[simp] theorem total_cons (a : α) (line : List α) : total size (a :: line) = size a+total size line := by
  simp [total]

theorem total_append (l l' : List α) : total size (l++l') = total size l+total size l' := by
  simp [total]

theorem total_perm {l l' : List α} (h : l.Perm l') : total size l = total size l' :=
  (h.map size).sum_eq

theorem total_nonneg (hsize : ∀ a ∈ line, 0 < size a) : 0 ≤ total size line := by
  refine List.sum_nonneg fun n hn => ?_
  obtain ⟨a,ha,rfl⟩ := List.mem_map.mp hn
  exact (hsize a ha).le

theorem total_le_of_sublist {l l' : List α} (h : l.Sublist l') (hsize : ∀ a ∈ l', 0 < size a) :
    total size l ≤ total size l' := by
  refine (h.map size).sum_le_sum fun n hn => ?_
  obtain ⟨a,ha,rfl⟩ := List.mem_map.mp hn
  exact (hsize a ha).le

/-- A line's total is that of those picked and that of the others. -/
theorem total_filter_add (p : α → Bool) (line : List α) :
    total size (line.filter p)+total size (line.filter fun a => !p a) = total size line := by
  rw [← total_append]
  exact total_perm (List.filter_append_perm p line)

theorem served_sublist : (served size room line).Sublist line := by
  induction line generalizing room with
  | nil => exact List.Sublist.refl _
  | cons a line ih =>
    rw [served]
    split
    · exact ih.cons_cons a
    · exact ih.cons a

theorem left_sublist : (left size room line).Sublist line := by
  induction line generalizing room with
  | nil => exact List.Sublist.refl _
  | cons a line ih =>
    rw [left]
    split
    · exact ih.cons a
    · exact ih.cons_cons a

theorem leftAfter_sublist {rooms : List ℤ} : (leftAfter size rooms line).Sublist line := by
  induction rooms generalizing line with
  | nil => exact List.Sublist.refl _
  | cons room rooms ih => exact ih.trans left_sublist

/-- Everyone is served or left. -/
theorem served_append_left : (served size room line++left size room line).Perm line := by
  induction line generalizing room with
  | nil => exact List.Perm.refl _
  | cons a line ih =>
    rw [served,left]
    split
    · exact ih.cons a
    · exact List.perm_middle.trans (ih.cons a)

/-- Who is left are those of the line not served. -/
theorem left_eq_filter {κ : Type*} [DecidableEq κ] (key : α → κ) (hkeys : (line.map key).Nodup) :
    left size room line = line.filter fun a => key a ∉ (served size room line).map key := by
  induction line generalizing room with
  | nil => rfl
  | cons a line ih =>
    rw [List.map_cons,List.nodup_cons] at hkeys
    have hother : ∀ b ∈ line, key b ≠ key a := fun b hb heq => hkeys.1 (heq ▸ List.mem_map_of_mem hb)
    rw [left,served]
    split
    · rw [ih hkeys.2,List.map_cons,List.filter_cons_of_neg (by simp)]
      refine List.filter_congr fun b hb => ?_
      simp only [List.mem_cons,hother b hb,false_or]
    · have hself : key a ∉ (served size room line).map key := fun hmem =>
        hkeys.1 ((served_sublist.map key).mem hmem)
      rw [List.filter_cons_of_pos (by simpa using hself),← ih hkeys.2]

/-- A room gives out no more than it has. -/
theorem total_served_le (hroom : 0 ≤ room) : total size (served size room line) ≤ room := by
  induction line generalizing room with
  | nil => exact hroom
  | cons a line ih =>
    rw [served]
    split
    · next hfits =>
      have hrest : total size (served size (room-size a) line) ≤ room-size a := ih (by omega)
      rw [total_cons]
      omega
    · exact ih hroom

/-- A room leaves nobody when the whole line fits in it, and only then. -/
theorem left_eq_nil_iff (hsize : ∀ a ∈ line, 0 < size a) (hroom : 0 ≤ room) :
    left size room line = [] ↔ total size line ≤ room := by
  induction line generalizing room with
  | nil => simpa [left] using hroom
  | cons a line ih =>
    have hrest : ∀ b ∈ line, 0 < size b := fun b hb => hsize b (List.mem_cons_of_mem a hb)
    have htotal := total_nonneg hrest
    rw [left,total_cons]
    split
    · next hfits =>
      rw [ih hrest (by omega)]
      omega
    · next hfits =>
      refine iff_of_false (List.cons_ne_nil _ _) ?_
      omega

/-- Rooms in turn leave nobody of a line when nobody came, or the room some turn brings
holds all the turns before it left, and only then. -/
theorem leftAfter_eq_nil_iff {rooms : List ℤ} (hsize : ∀ a ∈ line, 0 < size a) (hrooms : ∀ r ∈ rooms, 0 ≤ r) :
    leftAfter size rooms line = [] ↔ line = [] ∨ ∃ before r after, rooms = before++r :: after ∧
      total size (leftAfter size before line) ≤ r := by
  induction rooms generalizing line with
  | nil => simp [leftAfter]
  | cons r rooms ih =>
    have hleft : ∀ a ∈ left size r line, 0 < size a := fun a ha => hsize a (left_sublist.mem ha)
    have hr : 0 ≤ r := hrooms r List.mem_cons_self
    have hnext : leftAfter size (r :: rooms) line = leftAfter size rooms (left size r line) := rfl
    rw [hnext,ih hleft fun r' hr' => hrooms r' (List.mem_cons_of_mem r hr'),left_eq_nil_iff hsize hr]
    constructor
    · rintro (hall | ⟨before,r',after,rfl,hle⟩)
      · exact Or.inr ⟨[],r,rooms,rfl,hall⟩
      · exact Or.inr ⟨r :: before,r',after,rfl,hle⟩
    · rintro (rfl | ⟨before,r',after,hsplit,hle⟩)
      · exact Or.inl hr
      · cases before with
        | nil =>
          obtain ⟨rfl,rfl⟩ := List.cons.inj hsplit
          exact Or.inl hle
        | cons b before =>
          obtain ⟨rfl,rfl⟩ := List.cons.inj hsplit
          exact Or.inr ⟨before,r',after,rfl,hle⟩

end Allot
end Spork
