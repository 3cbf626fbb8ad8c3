import Spork.Importing.Prepack

/-! When the count of a stated carton is printed as it is (`prepack.rs`): always but where a
text gives two counts whose product takes more than 32 bits. -/
namespace Spork
namespace Prepack

open Numerals

/-- A product as a natural number, which always fits. -/
def exact (n u : ℕ) : Option ℕ := some (n*u)

variable (letters : Letters)

/-- A text gives inners and units of each, in either order, whose product does not fit. -/
def TooMany (said : List Char) : Prop :=
  ∃ carton n u, (tokens (words letters said) false [] = some (carton,[.n n,.inner,.n u]) ∨
    tokens (words letters said) false [] = some (carton,[.n n,.n u,.inner])) ∧ limit ≤ n*u

/-- A text gives inners and a total for the whole carton. -/
def GivesTotal (said : List Char) (n total : ℕ) : Prop :=
  ∃ carton, tokens (words letters said) false [] = some (carton,[.n n,.inner,.n total,.unit])

/-- What a text says is printed with its exact total, and makes up the total it gives. -/
structure StatedExactly (checked : Bool) (said : List Char) : Prop where
  shown : ∀ p, contents letters said = some p → p.shownBy (times checked) = p.shownBy exact
  total : ∀ p n total, contents letters said = some p → GivesTotal letters said n total →
    ∃ u, p = ⟨some n,some u⟩ ∧ n*u = total

/-! ## Counts fit -/

theorem parseCount_lt {w : List Char} {n : ℕ} (h : parseCount w = some n) : n < limit := by
  unfold parseCount at h
  split_ifs at h with hw
  cases h
  exact hw.2.2

/-- Every count read fits, and is not zero. -/
theorem tokens_fit {ws : List (List Char)} {carton carton' : Bool} {ts ts' : List Token}
    (h : tokens ws carton ts = some (carton',ts')) (hts : ∀ n, .n n ∈ ts → 0 < n ∧ n < limit) :
    ∀ n, .n n ∈ ts' → 0 < n ∧ n < limit := by
  induction ws generalizing carton ts with
  | nil =>
    cases h
    exact hts
  | cons w ws ih =>
    have hmore (t : Token) (ht : ∀ n, .n n = t → 0 < n ∧ n < limit) :
        ∀ n, .n n ∈ ts++[t] → 0 < n ∧ n < limit := by
      intro n hn
      rcases List.mem_append.mp hn with hold | hnew
      · exact hts n hold
      · exact ht n (List.mem_singleton.mp hnew)
    rw [tokens] at h
    split_ifs at h
    · exact ih h hts
    · exact ih h hts
    · exact ih h (hmore .inner fun n hn => nomatch hn)
    · exact ih h (hmore .unit fun n hn => nomatch hn)
    · cases hparse : parseCount w with
      | none => simp [hparse] at h
      | some n =>
        simp only [hparse] at h
        split_ifs at h with hpos
        apply ih h
        apply hmore
        intro m hm
        cases hm
        exact ⟨hpos,parseCount_lt hparse⟩

/-! ## What is printed -/

theorem perCarton_injective {s t : ℕ} (h : perCarton s = perCarton t) : s = t := by
  apply digits_injective
  exact List.append_cancel_right h

theorem innersOf_injective {n u s t : ℕ} (h : innersOf n u s = innersOf n u t) : s = t := by
  apply perCarton_injective
  exact List.append_cancel_left h

theorem times_eq_exact {checked : Bool} {n u : ℕ} : times checked n u = exact n u ↔ n*u < limit := by
  unfold times exact
  by_cases h : n*u < limit
  · simp [h]
  · rw [if_neg h]
    refine iff_of_false ?_ h
    cases checked with
    | true => simp
    | false =>
      intro heq
      have hlt : n*u%limit < limit := Nat.mod_lt _ (by decide)
      rw [Option.some.inj heq] at hlt
      exact h hlt

/-- A pack is printed with its exact total when it has no product that does not fit. -/
theorem shownBy_eq_iff {checked : Bool} (p : Pack) : p.shownBy (times checked) = p.shownBy exact ↔
    ∀ n u, p = ⟨some n,some u⟩ → u ≠ 1 → n*u < limit := by
  obtain ⟨inners,units⟩ := p
  cases inners with
  | none => simp [Pack.shownBy]
  | some n =>
    cases units with
    | none => simp [Pack.shownBy]
    | some u =>
      by_cases hu : u = 1
      · subst hu
        simp [Pack.shownBy]
      · have hshown (mul : ℕ → ℕ → Option ℕ) :
            (Pack.mk (some n) (some u)).shownBy mul = (mul n u).map (innersOf n u) := by
          simp [Pack.shownBy]
        rw [hshown,hshown]
        have hmap : (times checked n u).map (innersOf n u) = (exact n u).map (innersOf n u) ↔
            times checked n u = exact n u := by
          refine ⟨fun h => ?_,fun h => by rw [h]⟩
          exact Option.map_injective (fun _ _ => innersOf_injective) h
        rw [hmap,times_eq_exact]
        constructor
        · intro hlt n' u' heq _
          cases heq
          exact hlt
        · intro hall
          exact hall n u rfl hu

/-- The packs read whose product may not fit are those of two counts. -/
theorem packOf_pair {carton : Bool} {ts : List Token} {n u : ℕ} (hfit : ∀ k, .n k ∈ ts → 0 < k ∧ k < limit)
    (h : packOf carton ts = some ⟨some n,some u⟩) (hmany : limit ≤ n*u) :
    ts = [.n n,.inner,.n u] ∨ ts = [.n n,.n u,.inner] := by
  unfold packOf at h
  split at h
  · split_ifs at h
    cases h
  · cases h
    have hlt := (hfit n (by simp)).2
    omega
  · cases h
    have hlt := (hfit n (by simp)).2
    omega
  · cases h
  · cases h
    exact .inl rfl
  · cases h
    exact .inr rfl
  · rename_i n' total
    split_ifs at h with hdiv
    cases h
    have hlt := (hfit total (by simp)).2
    rw [Nat.mul_div_cancel' (Nat.dvd_of_mod_eq_zero hdiv)] at hmany
    omega
  · cases h

theorem contents_eq (said : List Char) :
    contents letters said = (tokens (words letters said) false []).bind fun r => packOf r.1 r.2 := rfl

/-- A total that is read is made up by what is read of it. -/
theorem total_of_contents {said : List Char} {p : Pack} {n total : ℕ} (hp : contents letters said = some p)
    (hgives : GivesTotal letters said n total) : ∃ u, p = ⟨some n,some u⟩ ∧ n*u = total := by
  obtain ⟨carton,htokens⟩ := hgives
  rw [contents_eq,htokens,Option.bind_some,packOf] at hp
  split_ifs at hp with hdiv
  cases hp
  exact ⟨total/n,rfl,Nat.mul_div_cancel' (Nat.dvd_of_mod_eq_zero hdiv)⟩

/-- What a text says is printed exactly just when it does not give two counts whose product
does not fit. -/
theorem stated_exactly_iff (checked : Bool) (said : List Char) :
    StatedExactly letters checked said ↔ ¬TooMany letters said := by
  constructor
  · rintro hstated ⟨carton,n,u,htokens,hmany⟩
    have hread : contents letters said = some ⟨some n,some u⟩ := by
      rw [contents_eq]
      rcases htokens with h | h <;> rw [h] <;> rfl
    have hone : u ≠ 1 := by
      rintro rfl
      have hfit : n < limit := by
        rcases htokens with h | h
        · exact (tokens_fit h (by simp) n (by simp)).2
        · exact (tokens_fit h (by simp) n (by simp)).2
      omega
    have hlt := (shownBy_eq_iff _).mp (hstated.shown _ hread) n u rfl hone
    omega
  · intro hfew
    constructor
    case shown =>
      intro p hp
      rw [shownBy_eq_iff]
      rintro n u rfl -
      by_contra hmany
      rw [contents_eq] at hp
      obtain ⟨⟨carton,ts⟩,htokens,hpack⟩ := Option.bind_eq_some_iff.mp hp
      have hfit := tokens_fit htokens (by simp)
      apply hfew
      rcases packOf_pair hfit hpack (not_lt.mp hmany) with rfl | rfl
      · exact ⟨carton,n,u,.inl htokens,not_lt.mp hmany⟩
      · exact ⟨carton,n,u,.inr htokens,not_lt.mp hmany⟩
    case total =>
      intro p n total hp hgives
      exact total_of_contents letters hp hgives

/-! ## Rows -/

/-- What is decided of a row with a bracket, from what is said of the bracket. -/
def decidedFrom (name base said : List Char) (catalogue : Catalogue) (reading : List Char) : Decision :=
  let pack := contents letters said
  let unread := if pack.isNone then some said else none
  let (subject,because) := resolve base catalogue
  if subject.isContainer then
    if pack.isNone && !saysCarton letters said then whole name catalogue
    else ⟨.unresolved base,pack,unread,
      "the name says what is in it, so it is a product's carton and not a box, and the catalogue has never heard of ".toList++
        base++"; ".toList++reading⟩
  else ⟨subject,pack,unread,because++"; ".toList++reading⟩

theorem decideBy_eq (mul : ℕ → ℕ → Option ℕ) (name : List Char) (catalogue : Catalogue) :
    decideBy letters mul name catalogue =
      if catalogue.lookup (trim name) ≠ .nothing then some (whole (trim name) catalogue)
      else
        match bracket (trim name) with
        | none => some (whole (trim name) catalogue)
        | some (base,said) => (readingOf mul said (contents letters said)).map
            (decidedFrom letters (trim name) base said catalogue) := by
  simp only [decideBy]
  by_cases hknown : catalogue.lookup (trim name) ≠ .nothing
  · rw [if_pos hknown,if_pos hknown]
  · rw [if_neg hknown,if_neg hknown]
    cases hbracket : bracket (trim name) with
    | none => rfl
    | some r =>
      obtain ⟨base,said⟩ := r
      cases hreading : readingOf mul said (contents letters said) with
      | none => simp [hreading]
      | some reading =>
        simp only [hreading,Option.bind_eq_bind,Option.bind_some,Option.map_some,decidedFrom]
        split_ifs <;> rfl

/-- Where a bracket is read, what is said of it is in the decision. -/
theorem decidedFrom_injective {name base said : List Char} {catalogue : Catalogue} {p : Pack}
    (hp : contents letters said = some p) : Function.Injective (decidedFrom letters name base said catalogue) := by
  intro s t h
  simp only [decidedFrom,hp,Option.isNone_some,Bool.false_and,Bool.false_eq_true,if_false] at h
  split_ifs at h
  · exact List.append_cancel_left (congrArg Decision.because h)
  · exact List.append_cancel_left (congrArg Decision.because h)

/-- A row is decided, and what it prints has the exact total. -/
def RowStated (checked : Bool) (name : List Char) (catalogue : Catalogue) : Prop :=
  ∃ d, decideRow letters checked name catalogue = some d ∧ decideBy letters exact name catalogue = some d

/-- A row's bracket is read, and gives two counts whose product does not fit. -/
def PrintsTooMany (name : List Char) (catalogue : Catalogue) : Prop :=
  catalogue.lookup (trim name) = .nothing ∧
    ∃ base said, bracket (trim name) = some (base,said) ∧ TooMany letters said

theorem readingOf_exact (said : List Char) (o : Option Pack) : ∃ t, readingOf exact said o = some t := by
  cases o with
  | none => exact ⟨_,rfl⟩
  | some p =>
    have hshown : ∃ t, p.shownBy exact = some t := by
      unfold Pack.shownBy
      split
      · exact ⟨_,rfl⟩
      · exact ⟨_,rfl⟩
      · exact ⟨_,rfl⟩
      · exact ⟨_,rfl⟩
    obtain ⟨t,ht⟩ := hshown
    exact ⟨_,by rw [readingOf,ht];rfl⟩

/-- What is said of a bracket has the exact total when the pack read is printed with it. -/
theorem readingOf_agrees {checked : Bool} {said : List Char} {o : Option Pack} :
    readingOf (times checked) said o = readingOf exact said o ↔
      ∀ p, o = some p → p.shownBy (times checked) = p.shownBy exact := by
  cases o with
  | none => simp [readingOf]
  | some p =>
    simp only [readingOf,Option.some.injEq,forall_eq']
    constructor
    · intro heq
      exact Option.map_injective (fun _ _ => List.append_cancel_left) heq
    · intro heq
      rw [heq]

/-- A bracket is decided on as its exact total has it when what is said of it is the same. -/
theorem decided_agrees {checked : Bool} {name base said : List Char} {catalogue : Catalogue} :
    (∃ d, (readingOf (times checked) said (contents letters said)).map
        (decidedFrom letters name base said catalogue) = some d ∧
      (readingOf exact said (contents letters said)).map
        (decidedFrom letters name base said catalogue) = some d) ↔
      StatedExactly letters checked said := by
  constructor
  · rintro ⟨d,hd,hd'⟩
    constructor
    case shown =>
      intro p hp
      have heq := Option.map_injective (decidedFrom_injective letters hp) (hd.trans hd'.symm)
      rw [hp] at heq
      exact readingOf_agrees.mp heq p rfl
    case total =>
      intro p n total hp hgives
      exact total_of_contents letters hp hgives
  · intro hstated
    obtain ⟨t,ht⟩ := readingOf_exact said (contents letters said)
    rw [readingOf_agrees.mpr hstated.shown,ht]
    exact ⟨_,rfl,rfl⟩

/-- A row is printed with its exact total just when its bracket does not give two counts whose
product does not fit. -/
theorem row_stated_iff (checked : Bool) (name : List Char) (catalogue : Catalogue) :
    RowStated letters checked name catalogue ↔ ¬PrintsTooMany letters name catalogue := by
  unfold RowStated PrintsTooMany decideRow
  rw [decideBy_eq,decideBy_eq]
  by_cases hknown : catalogue.lookup (trim name) = .nothing
  · rw [if_neg (not_not.mpr hknown),if_neg (not_not.mpr hknown)]
    cases hbracket : bracket (trim name) with
    | none => simp
    | some r =>
      obtain ⟨base,said⟩ := r
      simp only [hknown,true_and,decided_agrees,stated_exactly_iff]
      simp
  · rw [if_pos hknown,if_pos hknown]
    refine iff_of_true ⟨_,rfl,rfl⟩ ?_
    rintro ⟨hnothing,-⟩
    exact hknown hnothing

/-- A count read of a text, and one printed of a row, is exact just where two counts it gives
do not make more than 32 bits hold. -/
theorem total_exact_iff (checked : Bool) :
    (∀ said, StatedExactly letters checked said ↔ ¬TooMany letters said) ∧
      ∀ name catalogue, RowStated letters checked name catalogue ↔ ¬PrintsTooMany letters name catalogue :=
  ⟨stated_exactly_iff letters checked,row_stated_iff letters checked⟩

/-- Small letters and letters of ASCII. -/
def ascii : Letters where
  lower := List.map Char.toLower
  isAlphabetic := Char.isAlpha
  lower_ascii := fun _ _ => rfl
  isAlphabetic_ascii := fun _ _ => rfl

/-- 65536 boxes of 65536 are printed as none per carton, and stop a build that checks. -/
theorem boxes_overflow :
    ¬(∀ (letters : Letters) (checked : Bool),
      (∀ said, StatedExactly letters checked said) ∧
        ∀ name catalogue, RowStated letters checked name catalogue) ∧
    contents ascii "65536 x box 65536".toList = some ⟨some 65536,some 65536⟩ ∧
    (Pack.mk (some 65536) (some 65536)).shownBy (times false) =
      some "65536 inners of 65536, 0 per carton".toList ∧
    (Pack.mk (some 65536) (some 65536)).shownBy (times true) = none := by
  have hread : tokens (words ascii "65536 x box 65536".toList) false [] =
      some (false,[.n 65536,.inner,.n 65536]) := by
    decide +kernel
  refine ⟨?_,by rw [contents_eq,hread];rfl,by decide +kernel,by decide +kernel⟩
  intro hall
  have hfew := (stated_exactly_iff ascii true _).mp ((hall ascii true).1 "65536 x box 65536".toList)
  exact hfew ⟨false,65536,65536,.inl hread,by decide⟩

end Prepack
end Spork
