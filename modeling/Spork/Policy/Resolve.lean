import Spork.Lib.Sorted

/-! Which policy binding speaks for a request (`resolve`): the candidates by their depth
vectors, in the order of precedence their kind declares. -/
namespace Spork
namespace Policy

open Sorted

inductive Dimension
  | tenancy | product | counterparty | space | ownership | metric
  deriving DecidableEq, Repr

inductive PolicyKind
  | allocation | putaway | receiving | orderTolerance | countTolerance | shelfLife | sampling
  | cycleCount | specification | observationPrecedence | observationAcceptance
  deriving DecidableEq, Repr

/-- The precedence order for a kind, most significant first. -/
def PolicyKind.dimensions : PolicyKind → List Dimension
  | .allocation => [.tenancy,.counterparty,.product,.space,.ownership,.metric]
  | .putaway => [.tenancy,.product,.space,.counterparty,.ownership,.metric]
  | .receiving => [.tenancy,.counterparty,.product,.space,.ownership,.metric]
  | .orderTolerance => [.tenancy,.counterparty,.product,.space,.ownership,.metric]
  | .countTolerance => [.tenancy,.product,.space,.counterparty,.ownership,.metric]
  | .shelfLife => [.tenancy,.counterparty,.product,.space,.ownership,.metric]
  | .sampling => [.tenancy,.product,.counterparty,.space,.ownership,.metric]
  | .cycleCount => [.tenancy,.product,.space,.counterparty,.ownership,.metric]
  | .specification => [.tenancy,.metric,.product,.counterparty,.space,.ownership]
  | .observationPrecedence => [.tenancy,.metric,.counterparty,.product,.space,.ownership]
  | .observationAcceptance => [.tenancy,.counterparty,.metric,.product,.space,.ownership]

/-- Every kind ranks every dimension, and tenancy first. -/
theorem mem_dimensions (kind : PolicyKind) (d : Dimension) : d ∈ kind.dimensions := by
  cases kind <;> cases d <;> decide

theorem dimensions_tenancy (kind : PolicyKind) : ∃ ds, kind.dimensions = .tenancy :: ds := by
  cases kind <;> exact ⟨_,rfl⟩

/-- A binding's depth vector. -/
structure Candidate where
  binding : ℕ
  tenancy : ℤ
  product : ℤ
  counterparty : ℤ
  space : ℤ
  ownership : ℤ
  metric : ℤ
  deriving DecidableEq, Repr

def Candidate.on (c : Candidate) : Dimension → ℤ
  | .tenancy => c.tenancy
  | .product => c.product
  | .counterparty => c.counterparty
  | .space => c.space
  | .ownership => c.ownership
  | .metric => c.metric

/-- The deeper first on the first dimension that tells them apart; the lower binding first
when none does. -/
def better : List Dimension → Candidate → Candidate → Ordering
  | [], a, b => compare a.binding b.binding
  | d :: ds, a, b =>
    match compare (b.on d) (a.on d) with
    | .eq => better ds a b
    | other => other

structure Resolution where
  winner : Candidate
  decidedOn : Option Dimension
  runnerUp : Option Candidate
  ambiguousWith : List Candidate
  deriving DecidableEq, Repr

def resolve (kind : PolicyKind) (candidates : List Candidate) : Option Resolution :=
  match sortBy (better kind.dimensions) candidates with
  | [] => none
  | winner :: rest => some {
    winner
    decidedOn := rest.head?.bind fun r => kind.dimensions.find? fun d => winner.on d ≠ r.on d
    runnerUp := rest.head?
    ambiguousWith := rest.filter fun c => kind.dimensions.all fun d => c.on d = winner.on d}

/-! ## The comparison -/

/-- A depth vector in a kind's order. -/
def vector (kind : PolicyKind) (c : Candidate) : List ℤ := kind.dimensions.map c.on

theorem better_eq_lex (d : Dimension) (ds : List Dimension) :
    better (d :: ds) = compareLex (fun a b => compare (b.on d) (a.on d)) (better ds) := by
  funext a b
  rw [better,compareLex]
  cases compare (b.on d) (a.on d) <;> rfl

instance better_trans (ds : List Dimension) : Std.TransCmp (better ds) := by
  induction ds with
  | nil => exact (inferInstance : Std.TransCmp (compareOn Candidate.binding))
  | cons d ds ih =>
    have hdepth : Std.TransCmp (compareOn fun c : Candidate => c.on d) := inferInstance
    have hdeeper : Std.TransCmp fun a b : Candidate => compare (b.on d) (a.on d) := hdepth.opposite
    rw [better_eq_lex]
    infer_instance

theorem better_binding {ds : List Dimension} {a b : Candidate} (h : better ds a b = .eq) :
    a.binding = b.binding := by
  induction ds with
  | nil => exact compare_eq_iff_eq.mp h
  | cons d ds ih =>
    rw [better] at h
    cases hcmp : compare (b.on d) (a.on d) with
    | eq =>
      rw [hcmp] at h
      exact ih h
    | lt => rw [hcmp] at h; cases h
    | gt => rw [hcmp] at h; cases h

/-- What comes first has the greater vector. -/
theorem better_vector {ds : List Dimension} {a b : Candidate} (h : (better ds a b).isLE = true) :
    ds.map b.on ≤ ds.map a.on := by
  induction ds with
  | nil => exact le_rfl
  | cons d ds ih =>
    rw [better] at h
    rw [List.map_cons,List.map_cons]
    cases hcmp : compare (b.on d) (a.on d) with
    | eq =>
      rw [hcmp] at h
      rw [compare_eq_iff_eq.mp hcmp]
      exact List.cons_le_cons _ (ih h)
    | lt => exact le_of_lt (List.Lex.rel (compare_lt_iff_lt.mp hcmp))
    | gt => rw [hcmp] at h; cases h

/-! ## The resolution -/

/-- A resolution tells which binding wins and by what. -/
structure Resolution.Explains (kind : PolicyKind) (candidates : List Candidate) (r : Resolution) :
    Prop where
  winner_mem : r.winner ∈ candidates
  greatest : ∀ c ∈ candidates, vector kind c ≤ vector kind r.winner
  tenancy : ∀ c ∈ candidates, c.tenancy ≤ r.winner.tenancy
  alone : r.runnerUp = none → ∀ c ∈ candidates, c = r.winner
  runnerUp : ∀ u ∈ r.runnerUp, u ∈ candidates ∧ u ≠ r.winner ∧
    ∀ c ∈ candidates, c ≠ r.winner → vector kind c ≤ vector kind u
  decided : ∀ d, r.decidedOn = some d ↔ ∃ u ∈ r.runnerUp, ∃ before after,
    kind.dimensions = before++d :: after ∧ r.winner.on d ≠ u.on d ∧
      ∀ d' ∈ before, r.winner.on d' = u.on d'
  ambiguous : ∀ c, c ∈ r.ambiguousWith ↔
    c ∈ candidates ∧ c ≠ r.winner ∧ ∀ d, c.on d = r.winner.on d

variable {kind : PolicyKind} {candidates candidates' : List Candidate} {r : Resolution}

/-- The order candidates came in is nothing to the resolution. -/
theorem resolve_perm (hids : (candidates.map Candidate.binding).Nodup)
    (hperm : candidates.Perm candidates') : resolve kind candidates' = resolve kind candidates := by
  have hsame : sortBy (better kind.dimensions) candidates = sortBy (better kind.dimensions) candidates' :=
    sortBy_eq hperm fun a ha b hb hab => List.inj_on_of_nodup_map hids ha hb (better_binding hab)
  rw [resolve,resolve,hsame]

theorem tenancy_le {c c' : Candidate} (h : vector kind c ≤ vector kind c') : c.tenancy ≤ c'.tenancy := by
  obtain ⟨ds,hds⟩ := dimensions_tenancy kind
  rw [vector,vector,hds,List.map_cons,List.map_cons] at h
  rcases le_iff_lt_or_eq.mp h with hlt | heq
  · exact List.head_le_of_lt hlt
  · exact (List.cons.inj heq).1.le

theorem resolve_explains (hids : (candidates.map Candidate.binding).Nodup)
    (hr : resolve kind candidates = some r) : r.Explains kind candidates := by
  rw [resolve] at hr
  cases hranked : sortBy (better kind.dimensions) candidates with
  | nil =>
    rw [hranked] at hr
    cases hr
  | cons winner rest =>
    rw [hranked] at hr
    obtain rfl := Option.some.inj hr
    have hmem (c : Candidate) : c ∈ candidates ↔ c = winner ∨ c ∈ rest := by
      have hsort : c ∈ sortBy (better kind.dimensions) candidates ↔ c ∈ candidates := mem_sortBy
      rw [← hsort,hranked,List.mem_cons]
    have hnodup : (winner :: rest).Nodup :=
      hranked ▸ (sortBy_perm _ _).nodup_iff.mpr hids.of_map
    have hne : ∀ c ∈ rest, c ≠ winner := fun c hc heq => (List.nodup_cons.mp hnodup).1 (heq ▸ hc)
    have hsorted : (sortBy (better kind.dimensions) candidates).Pairwise fun a b =>
        (better kind.dimensions a b).isLE = true := sortBy_sorted candidates
    rw [hranked,List.pairwise_cons] at hsorted
    have hgreatest : ∀ c ∈ candidates, vector kind c ≤ vector kind winner := by
      intro c hc
      rcases (hmem c).mp hc with rfl | hc
      · exact le_rfl
      · exact better_vector (hsorted.1 c hc)
    exact {
      winner_mem := (hmem winner).mpr (Or.inl rfl)
      greatest := hgreatest
      tenancy := fun c hc => tenancy_le (hgreatest c hc)
      alone := by
        intro hnone c hc
        rw [List.head?_eq_none_iff.mp hnone] at hmem
        simpa using (hmem c).mp hc
      runnerUp := by
        intro u hu
        obtain ⟨others,rfl⟩ := List.head?_eq_some_iff.mp hu
        refine ⟨(hmem u).mpr (Or.inr List.mem_cons_self),hne u List.mem_cons_self,fun c hc hcw => ?_⟩
        rcases (hmem c).mp hc with rfl | hc
        · exact absurd rfl hcw
        · rcases List.mem_cons.mp hc with rfl | hc
          · exact le_rfl
          · exact better_vector ((List.pairwise_cons.mp hsorted.2).1 c hc)
      decided := by
        intro d
        rw [Option.bind_eq_some_iff]
        refine exists_congr fun u => and_congr_right fun _ => ?_
        rw [List.find?_eq_some_iff_append]
        simp [and_left_comm]
      ambiguous := by
        intro c
        simp only [List.mem_filter,List.all_eq_true,decide_eq_true_eq]
        constructor
        · rintro ⟨hc,hsame⟩
          exact ⟨(hmem c).mpr (Or.inr hc),hne c hc,fun d => hsame d (mem_dimensions kind d)⟩
        · rintro ⟨hc,hcw,hsame⟩
          exact ⟨((hmem c).mp hc).resolve_left hcw,fun d _ => hsame d⟩ }

end Policy
end Spork
