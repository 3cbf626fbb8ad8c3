import Spork.Layout.Draft
import Spork.Lib.Fallible

/-! What a family of codes is: its codes share their first part, their separators and how
many parts they have, each part reads as a number, and so the family has a grid and a
pattern (`layout.rs`, draft). Every code is in one family or in none. -/
namespace Spork
namespace Layout

/-! ## A code's parts -/

theorem splitFrom_parts (part s : List Char) (hpart : ∀ c ∈ part, isSeparator c = false) :
    (splitFrom part s).1.length = (splitFrom part s).2.length+1 ∧
      ∀ p ∈ (splitFrom part s).1, ∀ c ∈ p, isSeparator c = false := by
  induction s generalizing part with
  | nil =>
    refine ⟨rfl,?_⟩
    intro p hp
    rw [splitFrom,List.mem_singleton] at hp
    exact hp ▸ hpart
  | cons c s ih =>
    rw [splitFrom]
    cases hc : isSeparator c with
    | true =>
      obtain ⟨hlength,hparts⟩ := ih [] (by simp)
      refine ⟨by simpa using hlength,?_⟩
      intro p hp
      rcases List.mem_cons.mp hp with rfl | hin
      · exact hpart
      · exact hparts p hin
    | false =>
      apply ih
      intro d hd
      rcases List.mem_append.mp hd with hold | hnew
      · exact hpart d hold
      · rw [List.mem_singleton.mp hnew]
        exact hc

/-- A number that reads without letters reads with them, and as the same. -/
theorem readNumber_letters {t : List Char} (h : (readNumber t false).isSome = true) :
    (readNumber t true).isSome = true := by
  unfold readNumber at h ⊢
  split at h
  · rename_i hdigits
    rw [if_pos hdigits]
    rfl
  · simp at h

theorem familyOf_some {code : List Char} {k : FamilyKey} (h : familyOf code = some k) :
    ∃ first more, split code = (k.head :: first :: more,k.seps) ∧ more.length ≤ 2 ∧
      k.n = more.length+2 ∧ k.head ≠ [] ∧ (readNumber first false).isSome = true ∧
      ∀ p ∈ more, (readNumber p true).isSome = true := by
  unfold familyOf at h
  split at h
  · rename_i head first more seps hsplit
    split_ifs at h with hall
    obtain ⟨hlength,hhead,hfirst,hmore⟩ := hall
    cases h
    exact ⟨first,more,hsplit,hlength,rfl,hhead,hfirst,List.all_eq_true.mp hmore⟩
  · cases h

/-- What a code's family is like. -/
structure FamilyKey.Sound (k : FamilyKey) : Prop where
  atLeast : 2 ≤ k.n
  atMost : k.n ≤ 4
  seps : k.seps.length+1 = k.n
  head : k.head ≠ [] ∧ ∀ c ∈ k.head, isSeparator c = false

theorem familyOf_sound {code : List Char} {k : FamilyKey} (h : familyOf code = some k) : k.Sound := by
  obtain ⟨first,more,hsplit,hmore,hn,hhead,-⟩ := familyOf_some h
  obtain ⟨hlength,hparts⟩ := splitFrom_parts [] code (by simp)
  change splitFrom [] code = _ at hsplit
  rw [hsplit] at hlength hparts
  simp only [List.length_cons] at hlength
  exact ⟨by omega,by omega,by omega,hhead,hparts k.head List.mem_cons_self⟩

/-! ## The list by families -/

theorem numbered_eq (bins : List (List Char × Bool)) :
    (bins.filterMap fun b => (familyOf b.1).map fun k => (k,b)).map Prod.snd =
      bins.filter fun b => (familyOf b.1).isSome := by
  induction bins with
  | nil => rfl
  | cons b bins ih =>
    cases hb : familyOf b.1 with
    | none => simpa [hb] using ih
    | some k => simpa [hb] using ih

theorem mem_families {bins : List (List Char × Bool)} {f : Family} (hf : f ∈ families bins) :
    f.codes ≠ [] ∧ f.codes.Sublist bins ∧ ∀ c ∈ f.codes, familyOf c.1 = some f.key := by
  obtain ⟨g,hg,rfl⟩ := List.mem_map.mp hf
  rw [Sorted.mem_sortBy] at hg
  obtain ⟨⟨r,hr,hkey⟩,hrows⟩ := GroupBy.mem_groups hg
  have hsub : (g.2.map Prod.snd).Sublist bins := by
    rw [hrows]
    apply (List.filter_sublist.map Prod.snd).trans
    rw [numbered_eq]
    exact List.filter_sublist
  refine ⟨?_,hsub,?_⟩
  · have hin : r ∈ g.2 := by
      rw [hrows]
      exact List.mem_filter.mpr ⟨hr,by simp [hkey]⟩
    exact List.ne_nil_of_mem (List.mem_map_of_mem hin)
  · intro c hc
    obtain ⟨r,hr,rfl⟩ := List.mem_map.mp hc
    rw [hrows,List.mem_filter] at hr
    obtain ⟨hr,hkey⟩ := hr
    obtain ⟨b,-,hb⟩ := List.mem_filterMap.mp hr
    obtain ⟨k,hk,rfl⟩ := Option.map_eq_some_iff.mp hb
    rw [hk]
    simpa using hkey

theorem family_sound {bins : List (List Char × Bool)} {f : Family} (hf : f ∈ families bins) :
    f.key.Sound := by
  obtain ⟨hsome,-,hkeys⟩ := mem_families hf
  obtain ⟨c,hc⟩ := List.exists_mem_of_ne_nil _ hsome
  exact familyOf_sound (hkeys c hc)

/-- Every code is in one family, or strange. -/
theorem families_perm (bins : List (List Char × Bool)) :
    ((bins.filter fun b => (familyOf b.1).isNone)++(families bins).flatMap Family.codes).Perm bins := by
  have hgroups : ((families bins).flatMap Family.codes).Perm
      (bins.filter fun b => (familyOf b.1).isSome) := by
    rw [← numbered_eq,families,List.flatMap_map]
    have hsort := (Sorted.sortBy_perm (fun a b => a.1.order b.1) (GroupBy.groups Prod.fst
      (bins.filterMap fun b => (familyOf b.1).map fun k => (k,b)))).flatMap_right
        fun g => g.2.map Prod.snd
    refine hsort.trans ?_
    rw [← List.map_flatMap]
    exact (GroupBy.flatMap_groups_perm Prod.fst _).map Prod.snd
  have hsplit := List.filter_append_perm (fun b : List Char × Bool => (familyOf b.1).isNone) bins
  refine (hgroups.append_left _).trans ?_
  simpa using hsplit

/-! ## A family's grid and pattern -/

/-- Every number a family's codes are read for is there. -/
theorem readCodes_some {k : FamilyKey} {codes : List (List Char × Bool)}
    (hcodes : ∀ c ∈ codes, familyOf c.1 = some k) :
    ∃ read, readCodes codes = some read ∧
      List.Forall₂ (fun _ r => r.2.length+1 = k.n) codes read := by
  apply Fallible.mapM_some
  intro c hc
  obtain ⟨first,more,hsplit,-,hn,-,hfirst,hmore⟩ := familyOf_some (hcodes c hc)
  have hread : ∀ p ∈ first :: more, ∃ y, readNumber p true = some y ∧ True := by
    intro p hp
    have hsome : (readNumber p true).isSome = true := by
      rcases List.mem_cons.mp hp with rfl | hin
      · exact readNumber_letters hfirst
      · exact hmore p hin
    obtain ⟨y,hy⟩ := Option.isSome_iff_exists.mp hsome
    exact ⟨y,hy,trivial⟩
  obtain ⟨numbers,hnumbers,hlength⟩ := Fallible.mapM_some hread
  refine ⟨(c.1,numbers),?_,?_⟩
  · rw [hsplit,List.tail_cons,hnumbers]
    rfl
  · have hsame := hlength.length_eq
    rw [List.length_cons] at hsame
    rw [hn,← hsame]

/-- The bays, levels or positions of the codes are there, one for each. -/
theorem axis_ne_nil {read : Reading} {i : ℕ} (hsome : read ≠ []) (hlong : ∀ r ∈ read, i < r.2.length) :
    (axis read i).1 ≠ [] := by
  obtain ⟨r,hr⟩ := List.exists_mem_of_ne_nil _ hsome
  apply List.ne_nil_of_mem
  exact List.mem_filterMap.mpr ⟨r,hr,by rw [List.getElem?_eq_getElem (hlong r hr)];rfl⟩

theorem exists_min {xs : List ℤ} (h : xs ≠ []) : ∃ m, xs.min? = some m := by
  cases hm : xs.min? with
  | none => exact absurd (List.min?_eq_none_iff.mp hm) h
  | some m => exact ⟨m,rfl⟩

theorem exists_max {xs : List ℤ} (h : xs ≠ []) : ∃ m, xs.max? = some m := by
  cases hm : xs.max? with
  | none => exact absurd (List.max?_eq_none_iff.mp hm) h
  | some m => exact ⟨m,rfl⟩

/-- Each code's level is one of those counted. -/
theorem mostPositions_some {read : Reading} {minL maxL : ℤ} (hlong : ∀ r ∈ read, 2 < r.2.length)
    (hmin : (axis read 1).1.min? = some minL) (hmax : (axis read 1).1.max? = some maxL) :
    ∃ most, mostPositions minL (maxL-minL+1) read = some most := by
  have hinv : ∃ most, mostPositions minL (maxL-minL+1) read = some most ∧
      most.length = (maxL-minL+1).toNat := by
    apply Fallible.foldlM_some fun most : List ℤ => most.length = (maxL-minL+1).toNat
    · simp
    · intro most hmost r hr
      have hlong' := hlong r hr
      obtain ⟨level,hlevel⟩ : ∃ level, r.2[1]? = some level :=
        ⟨_,List.getElem?_eq_getElem (by omega)⟩
      obtain ⟨position,hposition⟩ : ∃ position, r.2[2]? = some position :=
        ⟨_,List.getElem?_eq_getElem hlong'⟩
      have hin : level.1 ∈ (axis read 1).1 := List.mem_filterMap.mpr ⟨r,hr,by rw [hlevel];rfl⟩
      have hle := (List.min?_eq_some_iff.mp hmin).2 _ hin
      have hge := (List.max?_eq_some_iff.mp hmax).2 _ hin
      have hl : ¬level.1-minL < 0 := by
        omega
      have hlt : (level.1-minL).toNat < most.length := by
        omega
      refine ⟨most.set (level.1-minL).toNat (max most[(level.1-minL).toNat] position.1),?_,?_⟩
      · rw [hlevel,hposition]
        simp only [Option.bind_eq_bind,Option.bind_some,if_neg hl,List.getElem?_eq_getElem hlt]
        rfl
      · simpa using hmost
  obtain ⟨most,hmost,-⟩ := hinv
  exact ⟨most,hmost⟩

theorem shapeOf_some {n : ℕ} {read : Reading} (hsome : read ≠ []) (hn : 2 ≤ n)
    (hlength : ∀ r ∈ read, r.2.length+1 = n) : ∃ shape, shapeOf n read = some shape := by
  have hbays : (axis read 0).1 ≠ [] := by
    apply axis_ne_nil hsome
    intro r hr
    have := hlength r hr
    omega
  obtain ⟨minB,hminB⟩ := exists_min hbays
  obtain ⟨maxB,hmaxB⟩ := exists_max hbays
  unfold shapeOf
  simp only [Option.bind_eq_bind,hminB,hmaxB,Option.bind_some]
  by_cases h3 : n ≥ 3
  · have hlevels : (axis read 1).1 ≠ [] := by
      apply axis_ne_nil hsome
      intro r hr
      have := hlength r hr
      omega
    obtain ⟨minL,hminL⟩ := exists_min hlevels
    obtain ⟨maxL,hmaxL⟩ := exists_max hlevels
    simp only [if_pos h3,hminL,hmaxL,Option.bind_some]
    by_cases h4 : n = 4
    · have hlong : ∀ r ∈ read, 2 < r.2.length := by
        intro r hr
        have := hlength r hr
        omega
      obtain ⟨most,hmost⟩ := mostPositions_some hlong hminL hmaxL
      rw [if_pos h4,hmost]
      exact ⟨_,rfl⟩
    · rw [if_neg h4]
      exact ⟨_,rfl⟩
  · have h4 : n ≠ 4 := by
      omega
    simp only [if_neg h3,if_neg h4,List.min?_singleton,List.max?_singleton,Option.bind_some]
    exact ⟨_,rfl⟩

theorem patternText_some {k : FamilyKey} (hk : k.Sound) (shape : Shape) :
    ∃ text, patternText k shape = some text := by
  have hinv : ∃ text, patternText k shape = some text ∧ True := by
    apply Fallible.foldlM_some fun _ => True
    · trivial
    · intro text _ x hx
      have hlt : x.2 < k.seps.length := by
        have hmem := List.mem_zipIdx hx
        have hseps := hk.seps
        rw [List.length_take] at hmem
        omega
      refine ⟨text++[k.seps[x.2]]++x.1,?_,trivial⟩
      rw [List.getElem?_eq_getElem hlt]
      rfl
  obtain ⟨text,htext,-⟩ := hinv
  exact ⟨text,htext⟩

/-- Every family has a grid and a pattern. -/
theorem shaped_some {bins : List (List Char × Bool)} {f : Family} (hf : f ∈ families bins) :
    ∃ grid text, f.shaped = some (grid,text) := by
  obtain ⟨hsome,-,hkeys⟩ := mem_families hf
  obtain ⟨read,hread,hlength⟩ := readCodes_some hkeys
  have hsound := family_sound hf
  have hnil : read ≠ [] := by
    rintro rfl
    exact hsome (List.eq_nil_of_length_eq_zero hlength.length_eq)
  have hall : ∀ r ∈ read, r.2.length+1 = f.key.n := by
    intro r hr
    obtain ⟨i,hi,rfl⟩ := List.getElem_of_mem hr
    exact hlength.get (hlength.length_eq ▸ hi) hi
  obtain ⟨shape,hshape⟩ := shapeOf_some hnil hsound.atLeast hall
  obtain ⟨text,htext⟩ := patternText_some hsound shape
  exact ⟨shape.grid,text,by simp [Family.shaped,hread,hshape,htext]⟩

end Layout
end Spork
