import Mathlib

/-! A list cut at a separator, everything that can be cut off its front, and why reading
it in pieces cuts off the same. -/
namespace Spork
namespace Pieces

variable {α : Type*} [DecidableEq α]

/-- Where one list first stands in another. -/
def indexOf (sub : List α) : List α → Option ℕ
  | [] => if sub = [] then some 0 else none
  | c :: cs => if sub <+: c :: cs then some 0 else (indexOf sub cs).map (·+1)

/-- What is before the first separator, and what is after it. -/
def cutAt (sep buffer : List α) : Option (List α×List α) :=
  (indexOf sep buffer).map fun i => (buffer.take i,buffer.drop (i+sep.length))

/-- Everything that can be cut off the front in so many turns, and what is left. -/
def cuts (sep : List α) : ℕ → List α → List (List α)×List α
  | 0, buffer => ([],buffer)
  | n+1, buffer =>
    match cutAt sep buffer with
    | none => ([],buffer)
    | some (x,rest) => (x :: (cuts sep n rest).1,(cuts sep n rest).2)

/-- Everything that can be cut off the front. -/
def split (sep buffer : List α) : List (List α)×List α := cuts sep buffer.length buffer

variable {sep : List α}

theorem cutAt_cons (c : α) (cs : List α) :
    cutAt sep (c :: cs) =
      if sep <+: c :: cs then some ([],(c :: cs).drop sep.length)
      else (cutAt sep cs).map fun p => (c :: p.1,p.2) := by
  rw [cutAt,indexOf]
  split
  · simp
  · rw [cutAt,Option.map_map,Option.map_map]
    refine congrArg (Option.map · _) ?_
    funext i
    simp [Nat.add_right_comm i 1]

/-- Nothing is cut where the separator stands nowhere. -/
theorem cutAt_eq_none (hsep : sep ≠ []) {buffer : List α} : cutAt sep buffer = none ↔ ¬sep <:+: buffer := by
  induction buffer with
  | nil => simp [cutAt,indexOf,hsep]
  | cons c cs ih =>
    rw [cutAt_cons,List.infix_cons_iff]
    split
    · rename_i hfirst
      simp [hfirst]
    · rename_i hfirst
      rw [Option.map_eq_none_iff,ih]
      simp [hfirst]

/-- The first separator is the one no other stands before, overlapping ones included. -/
theorem cutAt_eq_some (hsep : sep ≠ []) {buffer x rest : List α} :
    cutAt sep buffer = some (x,rest) ↔ buffer = x++sep++rest ∧ ¬sep <:+: x++sep.dropLast := by
  have hshort : ∀ y : List α, sep <+: y++sep++rest → y ≠ [] → sep <+: y++sep.dropLast := by
    intro y hy hne
    have hlen : sep.length ≤ (y++sep.dropLast).length := by
      have := List.length_pos_of_ne_nil hne
      simp only [List.length_append,List.length_dropLast]
      omega
    refine List.prefix_of_prefix_length_le hy ?_ hlen
    rw [List.append_assoc,List.prefix_append_right_inj]
    exact (List.dropLast_prefix sep).trans (List.prefix_append sep rest)
  induction buffer generalizing x with
  | nil =>
    simp [cutAt,indexOf,hsep]
  | cons c cs ih =>
    rw [cutAt_cons]
    split
    · rename_i hfirst
      constructor
      · intro h
        obtain ⟨rfl,rfl⟩ := Prod.mk.inj (Option.some.inj h)
        obtain ⟨tail,htail⟩ := hfirst
        rw [← htail]
        refine ⟨by simp,fun hwithin => ?_⟩
        have hlen := hwithin.length_le
        have hpos := List.length_pos_of_ne_nil hsep
        simp only [List.nil_append,List.length_dropLast] at hlen
        omega
      · rintro ⟨hbuffer,hnone⟩
        cases x with
        | nil =>
          rw [hbuffer]
          simp
        | cons d x =>
          refine absurd (hshort (d :: x) ?_ (List.cons_ne_nil d x)).isInfix hnone
          rwa [hbuffer] at hfirst
    · rename_i hfirst
      rw [Option.map_eq_some_iff]
      constructor
      · rintro ⟨⟨y,r⟩,hcut,hpair⟩
        obtain ⟨rfl,rfl⟩ := Prod.mk.inj hpair
        obtain ⟨hcs,hnone⟩ := ih.mp hcut
        refine ⟨by simp [hcs],fun hwithin => ?_⟩
        rw [List.cons_append,List.infix_cons_iff] at hwithin
        rcases hwithin with hwithin | hwithin
        · refine hfirst (hwithin.trans ?_)
          rw [hcs,List.append_assoc,List.cons_prefix_cons,List.prefix_append_right_inj]
          exact ⟨rfl,(List.dropLast_prefix sep).trans (List.prefix_append sep r)⟩
        · exact hnone hwithin
      · rintro ⟨hbuffer,hnone⟩
        cases x with
        | nil =>
          refine absurd ?_ hfirst
          rw [hbuffer]
          simp
        | cons d x =>
          obtain ⟨rfl,hcs⟩ := List.cons.inj (hbuffer.trans (by simp : _ = d :: (x++sep++rest)))
          rw [List.cons_append,List.infix_cons_iff] at hnone
          exact ⟨(x,rest),ih.mpr ⟨hcs,fun hwithin => hnone (Or.inr hwithin)⟩,rfl⟩

theorem cutAt_length (hsep : sep ≠ []) {buffer x rest : List α} (h : cutAt sep buffer = some (x,rest)) :
    rest.length < buffer.length := by
  obtain ⟨rfl,-⟩ := (cutAt_eq_some hsep).mp h
  have hpos := List.length_pos_of_ne_nil hsep
  simp only [List.length_append]
  omega

/-- More behind a cut leaves it where it is. -/
theorem cutAt_append (hsep : sep ≠ []) {buffer x rest : List α} (h : cutAt sep buffer = some (x,rest))
    (more : List α) : cutAt sep (buffer++more) = some (x,rest++more) := by
  obtain ⟨rfl,hnone⟩ := (cutAt_eq_some hsep).mp h
  exact (cutAt_eq_some hsep).mpr ⟨by simp,hnone⟩

/-- As many turns as the list is long are enough, and more make no difference. -/
theorem cuts_enough (hsep : sep ≠ []) {n : ℕ} {buffer : List α} (h : buffer.length ≤ n) :
    cuts sep n buffer = split sep buffer := by
  suffices hboth : ∀ m n : ℕ, ∀ b : List α, b.length ≤ m → b.length ≤ n → cuts sep m b = cuts sep n b from
    hboth n buffer.length buffer h le_rfl
  intro m
  induction m with
  | zero =>
    intro n b hm hn
    obtain rfl : b = [] := List.length_eq_zero_iff.mp (Nat.le_zero.mp hm)
    cases n <;> simp [cuts,cutAt,indexOf,hsep]
  | succ m ih =>
    intro n b hm hn
    cases n with
    | zero =>
      obtain rfl : b = [] := List.length_eq_zero_iff.mp (Nat.le_zero.mp hn)
      simp [cuts,cutAt,indexOf,hsep]
    | succ n =>
      rw [cuts,cuts]
      cases hcut : cutAt sep b with
      | none => rfl
      | some p =>
        obtain ⟨x,rest⟩ := p
        have hlen := cutAt_length hsep hcut
        have hrest : cuts sep m rest = cuts sep n rest := ih n rest (by omega) (by omega)
        simp only [hrest]

theorem split_none {buffer : List α} (h : cutAt sep buffer = none) : split sep buffer = ([],buffer) := by
  rw [split]
  cases hlen : buffer.length with
  | zero => rfl
  | succ n => rw [cuts,h]

theorem split_some (hsep : sep ≠ []) {buffer x rest : List α} (h : cutAt sep buffer = some (x,rest)) :
    split sep buffer = (x :: (split sep rest).1,(split sep rest).2) := by
  have hlen := cutAt_length hsep h
  obtain ⟨n,hn⟩ : ∃ n, buffer.length = n+1 := ⟨buffer.length-1,by omega⟩
  rw [split,hn,cuts,h]
  change (x :: (cuts sep n rest).1,(cuts sep n rest).2) = _
  rw [cuts_enough hsep (by omega : rest.length ≤ n)]

/-- A list is cut by its first separator, if it has one. -/
theorem split_induction (hsep : sep ≠ []) {P : List α → Prop} (buffer : List α)
    (hnone : ∀ b, cutAt sep b = none → P b)
    (hsome : ∀ b x rest, cutAt sep b = some (x,rest) → P rest → P b) : P buffer := by
  induction hlen : buffer.length using Nat.strong_induction_on generalizing buffer with
  | _ n ih =>
    cases hcut : cutAt sep buffer with
    | none => exact hnone buffer hcut
    | some p =>
      obtain ⟨x,rest⟩ := p
      exact hsome buffer x rest hcut (ih rest.length (hlen ▸ cutAt_length hsep hcut) rest rfl)

/-- Nothing more can be cut off what is left. -/
theorem split_left (hsep : sep ≠ []) (buffer : List α) : cutAt sep (split sep buffer).2 = none := by
  induction buffer using split_induction hsep with
  | hnone b hcut => rwa [split_none hcut]
  | hsome b x rest hcut ih => rwa [split_some hsep hcut]

/-- A list read in two pieces: what is left of the first goes before the second. -/
theorem split_append (hsep : sep ≠ []) (buffer more : List α) :
    split sep (buffer++more) =
      ((split sep buffer).1++(split sep ((split sep buffer).2++more)).1,
        (split sep ((split sep buffer).2++more)).2) := by
  induction buffer using split_induction hsep with
  | hnone b hcut =>
    rw [split_none hcut]
    rfl
  | hsome b x rest hcut ih =>
    rw [split_some hsep hcut,split_some hsep (cutAt_append hsep hcut more),ih]
    rfl

end Pieces
end Spork
