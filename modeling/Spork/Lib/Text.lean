import Mathlib

/-! Text as a list of characters, cut by its bytes in UTF-8 or by its characters. A cut
that is out of range or inside a character is none. -/
namespace Spork
namespace Text

/-- How many bytes a text takes. -/
def byteLen (cs : List Char) : ℕ := (cs.map Char.utf8Size).sum

/-- A text cut in two at a byte. -/
def splitAt : ℕ → List Char → Option (List Char × List Char)
  | 0, cs => some ([],cs)
  | _+1, [] => none
  | n+1, c :: cs =>
    if c.utf8Size ≤ n+1 then (splitAt (n+1-c.utf8Size) cs).map fun p => (c :: p.1,p.2) else none

/-- From one place in a list up to another. -/
def slice {α : Type*} (xs : List α) (a b : ℕ) : Option (List α) :=
  if a ≤ b ∧ b ≤ xs.length then some ((xs.take b).drop a) else none

/-- A text without what is at either end of it. -/
def trim (p : Char → Bool) (cs : List Char) : List Char := (cs.dropWhile p).rdropWhile p

@[simp] theorem byteLen_nil : byteLen [] = 0 := rfl

@[simp] theorem byteLen_cons (c : Char) (cs : List Char) : byteLen (c :: cs) = c.utf8Size+byteLen cs := by
  simp [byteLen]

/-- A text can be cut where some of its characters end. -/
theorem splitAt_eq_some_iff (n : ℕ) (cs a b : List Char) :
    splitAt n cs = some (a,b) ↔ cs = a++b ∧ byteLen a = n := by
  induction cs generalizing n a with
  | nil =>
    cases n with
    | zero =>
      cases a <;> simp [splitAt,eq_comm]
    | succ n =>
      simp only [splitAt]
      constructor
      · intro h
        cases h
      · rintro ⟨h,hlen⟩
        obtain ⟨rfl,rfl⟩ := List.append_eq_nil_iff.mp h.symm
        cases hlen
  | cons c cs ih =>
    have hc := c.utf8Size_pos
    cases n with
    | zero =>
      cases a with
      | nil => simp [splitAt,eq_comm]
      | cons d a =>
        have hd := d.utf8Size_pos
        simp [splitAt]
        omega
    | succ n =>
      cases a with
      | nil =>
        simp [splitAt]
      | cons d a =>
        simp only [splitAt,byteLen_cons]
        split_ifs with hle
        · rw [Option.map_eq_some_iff]
          constructor
          · rintro ⟨⟨a',b'⟩,hcut,hpair⟩
            simp only [Prod.mk.injEq,List.cons.injEq] at hpair
            obtain ⟨⟨rfl,rfl⟩,rfl⟩ := hpair
            obtain ⟨rfl,hlen⟩ := (ih _ _).mp hcut
            exact ⟨rfl,by omega⟩
          · rintro ⟨hcons,hlen⟩
            obtain ⟨rfl,rfl⟩ := List.cons.inj hcons
            exact ⟨(a,b),(ih _ _).mpr ⟨rfl,by omega⟩,rfl⟩
        · constructor
          · intro h
            cases h
          · rintro ⟨hcons,hlen⟩
            obtain ⟨rfl,-⟩ := List.cons.inj hcons
            omega

theorem slice_eq_some {α : Type*} {xs : List α} {a b : ℕ} (hab : a ≤ b) (hb : b ≤ xs.length) :
    slice xs a b = some ((xs.drop a).take (b-a)) := by
  rw [slice,if_pos ⟨hab,hb⟩,List.drop_take]

/-- What is kept of a text whose ends stay, and of what follows it when that all goes. -/
theorem trim_append {p : Char → Bool} {cs rest : List Char} (hsome : cs ≠ [])
    (hfirst : ∀ c ∈ cs.head?, p c = false) (hlast : ∀ c ∈ cs.getLast?, p c = false)
    (hrest : ∀ c ∈ rest, p c = true) : trim p (cs++rest) = cs := by
  have hfront : (cs++rest).dropWhile p = cs++rest := by
    cases cs with
    | nil => exact absurd rfl hsome
    | cons c cs => simp [hfirst c rfl]
  have hback : (cs++rest).rdropWhile p = cs.rdropWhile p := by
    rw [List.rdropWhile,List.reverse_append,List.dropWhile_append_of_pos,List.rdropWhile]
    exact fun c hc => hrest c (List.mem_reverse.mp hc)
  obtain ⟨ys,c,rfl⟩ := List.eq_nil_or_concat' cs |>.resolve_left hsome
  rw [trim,hfront,hback]
  exact List.rdropWhile_concat_neg p ys c (by simp [hlast c (by simp)])

/-- A text whose ends stay. -/
theorem trim_eq_self {p : Char → Bool} {cs : List Char} (hsome : cs ≠ [])
    (hfirst : ∀ c ∈ cs.head?, p c = false) (hlast : ∀ c ∈ cs.getLast?, p c = false) :
    trim p cs = cs := by
  have h : trim p (cs++[]) = cs := trim_append hsome hfirst hlast (by simp)
  rwa [List.append_nil] at h

/-- What is trimmed stays when it is trimmed again. -/
theorem trim_trim (p : Char → Bool) (cs : List Char) : trim p (trim p cs) = trim p cs := by
  by_cases hsome : trim p cs = []
  · rw [hsome]
    rfl
  · refine trim_eq_self hsome (fun c hc => ?_) fun c hc => ?_
    · obtain ⟨rest,hrest⟩ := List.rdropWhile_prefix (p := p) (cs.dropWhile p)
      have hhead : (cs.dropWhile p).head? = some c := by
        rw [← hrest]
        exact List.head?_append_of_ne_nil _ hsome ▸ hc
      have hnot := List.head?_dropWhile_not p cs
      rw [hhead] at hnot
      exact hnot
    · have hlast := List.rdropWhile_last_not p (cs.dropWhile p) hsome
      rw [List.getLast?_eq_some_getLast hsome] at hc
      cases hc
      exact Bool.eq_false_iff.mpr hlast

end Text
end Spork
