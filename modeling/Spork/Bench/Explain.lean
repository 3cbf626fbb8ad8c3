import Mathlib

/-! What would explain a carton's weight that does not agree: so many more or fewer of one
thing in it (client/app/outbound/pack/check.ts). Weights are whole grams, their quotients
exact. -/
namespace Spork
namespace Explain

/-- The weight a carton should have, and how far the scale is off it. -/
structure ExpectedWeight where
  grams : ℤ
  /-- Weighed less expected; nothing until it is on a scale. -/
  delta : Option ℤ
  tolerancePerMille : ℤ
  agrees : Option Bool
  deriving DecidableEq, Repr

structure PackedRow where
  itemCode : List Char
  quantity : ℤ
  /-- What one weighs. -/
  each : Option ℤ
  deriving DecidableEq, Repr

/-- So many more of one thing than the carton is said to hold, or fewer when negative. -/
structure Miscount where
  code : List Char
  more : ℤ
  each : ℤ
  deriving DecidableEq, Repr

structure Fit extends Miscount where
  residual : ℤ
  deriving DecidableEq, Repr

/-- Most of one thing a weight is explained by: past this, it is not a miscount. -/
def most : ℕ := 12

def ExpectedWeight.within (e : ExpectedWeight) : ℚ := (e.grams*e.tolerancePerMille : ℤ)/1000

/-- `Math.round`: to the nearest, and a half up. -/
def round (x : ℚ) : ℤ := ⌊x+1/2⌋

/-- What a row explains: the rounded quotient is the one count tried. -/
def fitOf (e : ExpectedWeight) (delta : ℤ) (row : PackedRow) : Option Fit :=
  row.each.bind fun each =>
    if each ≤ 0 then none
    else
      let k := round (delta/each)
      if k = 0 ∨ k.natAbs > most ∨ -k > row.quantity then none
      else
        let residual := |delta-k*each|
        if residual ≤ e.within then some ⟨⟨row.itemCode,k,each⟩,residual⟩ else none

/-- The fewest miscounted first, and of as few the nearest. -/
def Fit.before (a b : Fit) : Prop :=
  a.more.natAbs < b.more.natAbs ∨ a.more.natAbs = b.more.natAbs ∧ a.residual ≤ b.residual

instance : DecidableRel Fit.before := fun a b => by unfold Fit.before; infer_instance

/-- The first, and any others as few. -/
def fewestOf (fits : List Fit) : List Miscount :=
  match fits with
  | [] => []
  | fewest :: _ => (fits.filter fun f => f.more.natAbs = fewest.more.natAbs).map Fit.toMiscount

def fits (e : ExpectedWeight) (delta : ℤ) (contents : List PackedRow) : List Fit := contents.filterMap (fitOf e delta)

def explain (e : ExpectedWeight) (contents : List PackedRow) : List Miscount :=
  match e.delta with
  | none => []
  | some delta =>
    if e.agrees = some false then fewestOf ((fits e delta contents).insertionSort Fit.before) else []

/-! ## What explains a weight -/

/-- So many more of a row's thing explain the weight, to within the tolerance. -/
def Explains (e : ExpectedWeight) (delta : ℤ) (row : PackedRow) (k : ℤ) : Prop :=
  k ≠ 0 ∧ k.natAbs ≤ most ∧ -k ≤ row.quantity ∧
    ∃ each ∈ row.each, 0 < each ∧ ((|delta-k*each| : ℤ) : ℚ) ≤ e.within

instance (e : ExpectedWeight) (delta : ℤ) (row : PackedRow) (k : ℤ) : Decidable (Explains e delta row k) := by
  unfold Explains; infer_instance

/-- The counts there are. -/
def counts : List ℤ := (List.range (2*most+1)).map fun n : ℕ => (n : ℤ)-most

theorem mem_counts {k : ℤ} : k ∈ counts ↔ k.natAbs ≤ most := by
  unfold counts
  rw [List.mem_map]
  constructor
  · rintro ⟨n,hn,rfl⟩
    rw [List.mem_range] at hn
    omega
  · intro hk
    exact ⟨(k+most).toNat,by rw [List.mem_range]; omega,by omega⟩

theorem nodup_counts : counts.Nodup := List.nodup_range.map fun a b h => by simpa using h

/-- It explains the weight, and nothing explains it with fewer. -/
def Fewest (e : ExpectedWeight) (delta : ℤ) (contents : List PackedRow) (row : PackedRow) (k : ℤ) : Prop :=
  Explains e delta row k ∧ ∀ row' ∈ contents, ∀ k', Explains e delta row' k' → k.natAbs ≤ k'.natAbs

instance (e : ExpectedWeight) (delta : ℤ) (contents : List PackedRow) (row : PackedRow) (k : ℤ) :
    Decidable (Fewest e delta contents row k) :=
  decidable_of_iff (Explains e delta row k ∧ ∀ row' ∈ contents, ∀ k' ∈ counts, Explains e delta row' k' → k.natAbs ≤ k'.natAbs)
    (and_congr_right fun _ => forall₂_congr fun _ _ =>
      ⟨fun h k' hk' => h k' (mem_counts.mpr hk'.2.1) hk',fun h k' _ => h k'⟩)

/-- Each row's counts that explain the weight with the fewest miscounted. -/
def explanations (e : ExpectedWeight) (delta : ℤ) (contents : List PackedRow) : List Miscount :=
  contents.flatMap fun row =>
    (counts.filter fun k => Fewest e delta contents row k).map fun k => ⟨row.itemCode,k,row.each.getD 0⟩

/-- Of the multiples of one's weight it is the nearest to what the scale is off by: a half
goes up. -/
def Nearest (delta each k : ℤ) : Prop := (2*k-1)*each ≤ 2*delta ∧ 2*delta < (2*k+1)*each

theorem round_eq_iff {delta each k : ℤ} (heach : 0 < each) : round ((delta : ℚ)/each) = k ↔ Nearest delta each k := by
  have hpos : (0 : ℚ) < each := by exact_mod_cast heach
  unfold round Nearest
  rw [Int.floor_eq_iff,← sub_le_iff_le_add,← lt_sub_iff_add_lt,le_div_iff₀ hpos,div_lt_iff₀ hpos]
  constructor
  · rintro ⟨hlow,hhigh⟩
    have hlow' : ((2*k-1)*each : ℚ) ≤ 2*delta := by linarith
    have hhigh' : (2*delta : ℚ) < (2*k+1)*each := by linarith
    exact ⟨by exact_mod_cast hlow',by exact_mod_cast hhigh'⟩
  · rintro ⟨hlow,hhigh⟩
    have hlow' : ((2*k-1)*each : ℚ) ≤ 2*delta := by exact_mod_cast hlow
    have hhigh' : (2*delta : ℚ) < (2*k+1)*each := by exact_mod_cast hhigh
    exact ⟨by linarith,by linarith⟩

variable {e : ExpectedWeight} {delta : ℤ} {contents : List PackedRow} {row : PackedRow} {f : Fit}

/-- What a row is tried with explains the weight where it fits. -/
theorem fitOf_eq_some : fitOf e delta row = some f ↔
    ∃ each, row.each = some each ∧ 0 < each ∧ Explains e delta row (round (delta/each)) ∧
      f = ⟨⟨row.itemCode,round (delta/each),each⟩,|delta-round (delta/each)*each|⟩ := by
  unfold fitOf Explains
  rw [Option.bind_eq_some_iff]
  refine exists_congr fun each => and_congr_right fun heach => ?_
  rw [heach]
  simp only [Option.mem_def,Option.some.injEq,exists_eq_left']
  generalize round ((delta : ℚ)/each) = k
  by_cases hnone : each ≤ 0
  · rw [if_pos hnone]
    simp [not_lt.mpr hnone]
  · rw [if_neg hnone]
    by_cases hout : k = 0 ∨ k.natAbs > most ∨ -k > row.quantity
    · rw [if_pos hout]
      constructor
      · intro h
        cases h
      · rintro ⟨-,⟨hzero,hmost,hfewer,-⟩,-⟩
        omega
    · rw [if_neg hout]
      obtain ⟨hzero,hmost,hfewer⟩ : k ≠ 0 ∧ k.natAbs ≤ most ∧ -k ≤ row.quantity := by omega
      by_cases hnear : ((|delta-k*each| : ℤ) : ℚ) ≤ e.within
      · rw [if_pos hnear,Option.some.injEq]
        constructor
        · rintro rfl
          exact ⟨not_le.mp hnone,⟨hzero,hmost,hfewer,not_le.mp hnone,hnear⟩,rfl⟩
        · rintro ⟨-,-,rfl⟩
          rfl
      · rw [if_neg hnear]
        constructor
        · intro h
          cases h
        · rintro ⟨-,⟨-,-,-,-,h⟩,-⟩
          exact absurd h hnear

instance : Std.Total Fit.before := ⟨fun a b => by unfold Fit.before; omega⟩

instance : IsTrans Fit Fit.before := ⟨fun a b c => by unfold Fit.before; omega⟩

/-- The fits with the fewest miscounted are given, each once. -/
theorem explain_perm (hdelta : e.delta = some delta) (hoff : e.agrees = some false) :
    (explain e contents).Perm (((fits e delta contents).filter fun f =>
      ∀ g ∈ fits e delta contents, f.more.natAbs ≤ g.more.natAbs).map Fit.toMiscount) := by
  have hsorted := List.perm_insertionSort Fit.before (fits e delta contents)
  have hinorder := List.pairwise_insertionSort Fit.before (fits e delta contents)
  have heq : explain e contents = fewestOf ((fits e delta contents).insertionSort Fit.before) := by
    unfold explain
    rw [hdelta]
    exact if_pos hoff
  rw [heq]
  cases hs : (fits e delta contents).insertionSort Fit.before with
  | nil =>
    rw [hs] at hsorted
    rw [hsorted.nil_eq.symm]
    exact List.Perm.refl []
  | cons fewest rest =>
    rw [hs] at hsorted hinorder
    refine List.Perm.map _ (List.Perm.trans (List.Perm.of_eq ?_) (hsorted.filter _))
    refine List.filter_congr fun f hf => decide_eq_decide.mpr ?_
    have hleast : ∀ g ∈ fewest :: rest, fewest.more.natAbs ≤ g.more.natAbs := by
      intro g hg
      rcases List.mem_cons.mp hg with rfl | hg
      · exact le_rfl
      · have hbefore := (List.pairwise_cons.mp hinorder).1 g hg
        unfold Fit.before at hbefore
        omega
    constructor
    · intro hsame g hg
      rw [hsame]
      exact hleast g (hsorted.mem_iff.mpr hg)
    · intro hall
      exact le_antisymm (hall fewest (hsorted.mem_iff.mp List.mem_cons_self)) (hleast f hf)

/-- What explains the weight has a fewest. -/
theorem exists_fewest {k : ℤ} (hrow : row ∈ contents) (h : Explains e delta row k) :
    ∃ row' ∈ contents, ∃ k', Fewest e delta contents row' k' := by
  classical
  let some_ : ℕ → Prop := fun n => ∃ row' ∈ contents, ∃ k', Explains e delta row' k' ∧ k'.natAbs = n
  have hsome : ∃ n, some_ n := ⟨k.natAbs,row,hrow,k,h,rfl⟩
  obtain ⟨row',hrow',k',hk',hn⟩ := Nat.find_spec hsome
  refine ⟨row',hrow',k',hk',fun r hr j hj => ?_⟩
  rw [hn]
  exact Nat.find_min' hsome ⟨r,hr,j,hj,rfl⟩

/-- A row's fit explains the weight, and is the nearest that could. -/
theorem fitOf_sound (h : fitOf e delta row = some f) :
    ∃ each, row.each = some each ∧ f.toMiscount = ⟨row.itemCode,f.more,each⟩ ∧ Explains e delta row f.more ∧
      Nearest delta each f.more := by
  obtain ⟨each,heach,hpos,hexplains,rfl⟩ := fitOf_eq_some.mp h
  exact ⟨each,heach,rfl,hexplains,(round_eq_iff hpos).mp rfl⟩

/-- What explains the weight and is the nearest is the row's fit. -/
theorem fitOf_complete {each k : ℤ} (heach : row.each = some each) (h : Explains e delta row k) (hnear : Nearest delta each k) :
    ∃ f, fitOf e delta row = some f ∧ f.toMiscount = ⟨row.itemCode,k,each⟩ := by
  obtain ⟨each',heach',hpos,-⟩ := h.2.2.2
  obtain rfl : each = each' := Option.some.inj (heach.symm.trans heach')
  have hround := (round_eq_iff hpos).mpr hnear
  exact ⟨_,fitOf_eq_some.mpr ⟨each,heach,hpos,hround ▸ h,rfl⟩,by rw [hround]⟩

/-- In every row the count that explains the weight with the fewest of all is the nearest
multiple of what one weighs. -/
def FewestIsNearest (e : ExpectedWeight) (delta : ℤ) (contents : List PackedRow) : Prop :=
  ∀ row ∈ contents, ∀ each ∈ row.each, ∀ k, Fewest e delta contents row k → Nearest delta each k

/-- Nothing else is the nearest. -/
theorem Nearest.unique {each k k' : ℤ} (heach : 0 < each) (h : Nearest delta each k) (h' : Nearest delta each k') : k = k' :=
  ((round_eq_iff heach).mpr h).symm.trans ((round_eq_iff heach).mpr h')

theorem mem_explanations (hrow : row ∈ contents) {k each : ℤ} (heach : row.each = some each)
    (h : Fewest e delta contents row k) : ⟨row.itemCode,k,each⟩ ∈ explanations e delta contents := by
  refine List.mem_flatMap.mpr ⟨row,hrow,List.mem_map.mpr ⟨k,?_,by rw [heach]; rfl⟩⟩
  exact List.mem_filter.mpr ⟨mem_counts.mpr h.1.2.1,decide_eq_true h⟩

/-- Where they agree, each row's fewest is the nearest it could be. -/
theorem nearest_of_perm (hdelta : e.delta = some delta) (hoff : e.agrees = some false)
    (h : (explain e contents).Perm (explanations e delta contents)) : FewestIsNearest e delta contents := by
  intro row hrow each heach k hk
  have hin := h.mem_iff.mpr (mem_explanations hrow heach hk)
  obtain ⟨f,hf,hsame⟩ := List.mem_map.mp ((explain_perm hdelta hoff).mem_iff.mp hin)
  obtain ⟨row',-,hfit⟩ := List.mem_filterMap.mp (List.mem_of_mem_filter hf)
  obtain ⟨each',-,hmis,-,hnear⟩ := fitOf_sound hfit
  obtain ⟨-,hmore,heach'⟩ := Miscount.mk.inj (hmis.symm.trans hsame)
  rwa [hmore,heach'] at hnear

/-- A row's one fit, where it is kept. -/
theorem filter_fits (keep : Fit → Bool) (rows : List PackedRow) :
    ((fits e delta rows).filter keep).map Fit.toMiscount =
      rows.flatMap fun row => (((fitOf e delta row).filter keep).map Fit.toMiscount).toList := by
  induction rows with
  | nil => rfl
  | cons row rows ih =>
    rw [List.flatMap_cons,← ih]
    cases hfit : fitOf e delta row with
    | none => simp [fits,hfit]
    | some f => cases hkeep : keep f <;> simp [fits,hfit,hkeep,Option.filter_some]

/-- Where each row's fewest is the nearest it could be, a row's fit is kept for the fewest. -/
theorem row_explained (h : FewestIsNearest e delta contents) (hrow : row ∈ contents) :
    (((fitOf e delta row).filter fun f => ∀ g ∈ fits e delta contents, f.more.natAbs ≤ g.more.natAbs).map
      Fit.toMiscount).toList =
    (counts.filter fun k => Fewest e delta contents row k).map fun k => ⟨row.itemCode,k,row.each.getD 0⟩ := by
  by_cases hsome : ∃ k, Fewest e delta contents row k
  · obtain ⟨k,hk⟩ := hsome
    obtain ⟨each,heach,hpos,-⟩ := hk.1.2.2.2
    have hnear := h row hrow each heach k hk
    obtain ⟨f,hfit,hmis⟩ := fitOf_complete heach hk.1 hnear
    have hmore : f.more = k := congrArg Miscount.more hmis
    have hleast : ∀ g ∈ fits e delta contents, f.more.natAbs ≤ g.more.natAbs := by
      intro g hg
      obtain ⟨row',hrow',hgfit⟩ := List.mem_filterMap.mp hg
      obtain ⟨_,-,-,hexplains,-⟩ := fitOf_sound hgfit
      rw [hmore]
      exact hk.2 row' hrow' g.more hexplains
    have hone : (counts.filter fun k' => Fewest e delta contents row k') = [k] := by
      have hcongr : (counts.filter fun k' => Fewest e delta contents row k') = counts.filter fun k' => k' = k :=
        List.filter_congr fun k' _ => decide_eq_decide.mpr
          ⟨fun hk' => (h row hrow each heach k' hk').unique hpos hnear,fun heq => heq ▸ hk⟩
      rw [hcongr,List.filter_eq,List.count_eq_one_of_mem nodup_counts (mem_counts.mpr hk.1.2.1)]
      rfl
    rw [hfit,Option.filter_some,if_pos (decide_eq_true hleast),hone,heach]
    simp [hmis]
  · have hnone : (counts.filter fun k => Fewest e delta contents row k) = [] :=
      List.filter_eq_nil_iff.mpr fun k _ => by simpa using fun hk => hsome ⟨k,hk⟩
    rw [hnone]
    cases hfit : fitOf e delta row with
    | none => rfl
    | some f =>
      -- a fit kept would explain the weight with the fewest
      obtain ⟨each,heach,-,hexplains,-⟩ := fitOf_sound hfit
      have hnot : ¬∀ g ∈ fits e delta contents, f.more.natAbs ≤ g.more.natAbs := by
        intro hleast
        obtain ⟨row',hrow',k',hk'⟩ := exists_fewest hrow hexplains
        obtain ⟨each',heach',hpos',-⟩ := hk'.1.2.2.2
        obtain ⟨g,hg,hmis⟩ := fitOf_complete heach' hk'.1 (h row' hrow' each' heach' k' hk')
        have hmore : g.more = k' := congrArg Miscount.more hmis
        have hle := hleast g (List.mem_filterMap.mpr ⟨row',hrow',hg⟩)
        rw [hmore] at hle
        exact hsome ⟨f.more,hexplains,fun r hr j hj => hle.trans (hk'.2 r hr j hj)⟩
      rw [Option.filter_some,if_neg (by simpa using hnot)]
      rfl

/-- Ten kilograms expected, and half a kilogram light. -/
def light : ExpectedWeight := ⟨10000,some (-500),30,some false⟩

/-- One bottle of 300 g and a drum. -/
def bottleAndDrum : List PackedRow := [⟨"bottle".toList,1,some 300⟩,⟨"drum".toList,1,some 9000⟩]

/-- Where less than half of one of each thing is allowed, the fewest is the nearest. -/
theorem fewestIsNearest_of_narrow (h : ∀ row ∈ contents, ∀ each ∈ row.each, 2*e.within < each) :
    FewestIsNearest e delta contents := by
  intro row hrow each heach k hk
  obtain ⟨each',heach',-,hwithin⟩ := hk.1.2.2.2
  obtain rfl : each = each' := Option.some.inj (heach.symm.trans heach')
  have hnarrow := h row hrow each heach
  have hlt : 2*|delta-k*each| < each := by
    have hcast : ((2*|delta-k*each| : ℤ) : ℚ) < each := by
      push_cast at hwithin ⊢
      linarith
    exact_mod_cast hcast
  have hbounds := abs_lt.mp (show |2*(delta-k*each)| < each by rw [abs_mul]; exact hlt)
  exact ⟨by linarith,by linarith⟩

end Explain
end Spork
