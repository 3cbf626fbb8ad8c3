import Spork.Acts.Containing
import Spork.Packages.Rebuilt

/-! The columns of packages as they were when the projection last ran: what they show is
of a first part of the log, and what came since is nothing to them. -/
namespace Spork
namespace Acts

open Packages

variable {packages : List ℕ}

/-! ## What a rebuild over a log shows -/

section
variable (es : List (Event packages)) (p : ℕ)

def Placed : Prop := (winningPlacement es p).isSome = true

/-- A package's newest status event is one of these kinds. -/
def Standing (kinds : List Kind) : Prop := ∃ e, winningStatus es p = some e ∧ e.kind ∈ kinds

/-- There is a package whose newest placement is in this one. -/
def Holds : Prop := ∃ q e, winningPlacement es q = some e ∧ e.parentPackageId = some p

end

/-- The columns were last rebuilt over a first part of the log, whatever rebuilds there
were before. -/
structure Lags (s : Store packages) (seen since : List (Event packages)) : Prop where
  log_eq : s.log = seen++since
  table_eq : ∃ acts, (run acts).events = seen ∧ s.table = (run (acts++[.rebuild])).table

variable {s : Store packages} {seen since : List (Event packages)} {p : ℕ}

/-- The newest event is the same, or it came since. -/
theorem winner_since (tells : Event packages → Bool) (seen since : List (Event packages)) (p : ℕ) :
    winner tells (seen++since) p = winner tells seen p ∨
      ∃ e ∈ since, winner tells (seen++since) p = some e := by
  induction since using List.reverseRecOn with
  | nil => exact Or.inl (by rw [List.append_nil])
  | append_singleton since e ih =>
    rw [← List.append_assoc]
    rcases winner_append tells (seen++since) e p with hsame | ⟨-,-,hwins⟩
    · rw [hsame]
      exact ih.imp_right fun ⟨e',he',hwins⟩ => ⟨e',List.mem_append_left _ he',hwins⟩
    · exact Or.inr ⟨e,List.mem_append_right _ (List.mem_singleton_self e),hwins⟩

theorem Placed.append (h : Placed seen p) (since : List (Event packages)) : Placed (seen++since) p :=
  winner_more (List.subset_append_left seen since) h

/-- A package's status and parent as a rebuild leaves them are its log's, if it was placed. -/
theorem run_rebuild_columns (acts : List (Packages.Act packages)) (p : ℕ) :
    ((run (acts++[.rebuild])).table p).status = (if (winningPlacement (run acts).events p).isSome then
        (winningStatus (run acts).events p).map Event.kind else none) ∧
      ((run (acts++[.rebuild])).table p).parentPackageId =
        (winningPlacement (run acts).events p).bind Event.parentPackageId := by
  have hkept := run_kept acts
  have htable : (run (acts++[.rebuild])).table = (projectionPackageRebuild (run acts).events (run acts).table).1 := by
    rw [run,List.foldl_append]
    rfl
  rw [htable]
  cases hplaced : winningPlacement (run acts).events p with
  | none => rw [rebuild_unplaced hkept.unplaced hplaced,hkept.unplaced p hplaced]; exact ⟨rfl,rfl⟩
  | some e =>
    have hstatus : ((projectionPackageRebuild (run acts).events (run acts).table).1 p).status =
        (placeRow (run acts).events p ((run acts).table p)).status := resolveRow_status _ p _
    have hparent : ((projectionPackageRebuild (run acts).events (run acts).table).1 p).parentPackageId =
        (placeRow (run acts).events p ((run acts).table p)).parentPackageId := resolveRow_parentPackageId _ p _
    rw [hstatus,hparent,placeRow,hplaced]
    exact ⟨rfl,rfl⟩

/-- Events that arrive are more of the log, and nothing to the table. -/
theorem foldl_arrive (es : List (Event packages)) (t : State packages) :
    (es.map Packages.Act.arrive).foldl act t = ⟨t.events++es,t.table⟩ := by
  induction es generalizing t with
  | nil => simp
  | cons e es ih => simp [ih,act]

/-- After a rebuild nothing lags. -/
theorem Lags.rebuildPackages (h : Lags s seen since) : Lags s.rebuildPackages s.log [] := by
  obtain ⟨acts,hseen,htable⟩ := h.table_eq
  have hevents : (run (acts++[.rebuild])).events = seen := by
    rw [run,List.foldl_append,← hseen]
    rfl
  have hrun : run (acts++[.rebuild]++since.map .arrive) = ⟨s.log,s.table⟩ := by
    rw [run,List.foldl_append,foldl_arrive,← run,htable,h.log_eq,hevents]
  refine ⟨(List.append_nil _).symm,acts++[.rebuild]++since.map .arrive,by rw [hrun],?_⟩
  rw [run,List.foldl_append,← run,hrun]
  rfl

/-- What is projected of a package's status. -/
theorem Lags.status_mem_iff (h : Lags s seen since) (kinds : List Kind) (p : ℕ) :
    (s.table p).status ∈ kinds.map some ↔ Placed seen p ∧ Standing seen p kinds := by
  obtain ⟨acts,rfl,htable⟩ := h.table_eq
  rw [htable,(run_rebuild_columns acts p).1,Placed,Standing]
  by_cases hplaced : (winningPlacement (run acts).events p).isSome = true
  · rw [if_pos hplaced]
    simp [hplaced,and_comm]
  · simp [hplaced]

/-- What is projected to be in a package. -/
theorem Lags.parent_iff (h : Lags s seen since) (p : ℕ) :
    (∃ q, q ∈ packages ∧ (s.table q).parentPackageId = some p) ↔ Holds seen p := by
  obtain ⟨acts,rfl,htable⟩ := h.table_eq
  simp only [htable,(run_rebuild_columns acts _).2,Option.bind_eq_some_iff]
  constructor
  · rintro ⟨q,-,e,he,hparent⟩
    exact ⟨q,e,he,hparent⟩
  · rintro ⟨q,e,he,hparent⟩
    exact ⟨q,(winner_tells he).2.1 ▸ e.there,e,he,hparent⟩

/-- What the whole log says of a package's status and of what is in it. -/
theorem Lags.packageStatusNow_mem_iff (h : Lags s seen since) (kinds : List Kind) (p : ℕ) :
    s.packageStatusNow p ∈ kinds.map some ↔ Standing (seen++since) p kinds := by
  rw [Store.packageStatusNow,h.log_eq,Standing]
  simp [and_comm]

theorem Lags.packageParentNow_iff (h : Lags s seen since) (p : ℕ) :
    (∃ q, q ∈ packages ∧ s.packageParentNow q = some p) ↔ Holds (seen++since) p := by
  simp only [Store.packageParentNow,h.log_eq,Option.bind_eq_some_iff]
  constructor
  · rintro ⟨q,-,e,he,hparent⟩
    exact ⟨q,e,he,hparent⟩
  · rintro ⟨q,e,he,hparent⟩
    exact ⟨q,(winner_tells he).2.1 ▸ e.there,e,he,hparent⟩

/-! ## What came since -/

/-- The kinds that keep a package from being voided, and those that end it. -/
def bars : List Kind := [.sealed,.despatched,.voided]

def ends : List Kind := [.despatched,.voided]

/-- What a rebuild over a log shows keeps a package from being voided: a status, of one
ever placed, or another package in it. -/
def Closed (es : List (Event packages)) (p : ℕ) : Prop := (Placed es p ∧ Standing es p bars) ∨ Holds es p

/-- A rebuild over a log shows that a package has left or was voided. -/
def Gone (es : List (Event packages)) (p : ℕ) : Prop := Placed es p ∧ Standing es p ends

/-- What came since a package was last projected makes no difference to voiding it. -/
structure VoidUnturned (seen since : List (Event packages)) (p : ℕ) : Prop where
  /-- One shut since, or never placed by then, was shown closed already. -/
  shut : ∀ e, winningStatus (seen++since) p = some e → e.kind ∈ bars → e ∈ since ∨ ¬Placed seen p → Closed seen p
  /-- So was one that another was put in since. -/
  entered : ∀ q e, winningPlacement (seen++since) q = some e → e.parentPackageId = some p → e ∈ since → Closed seen p
  /-- One shown shut and opened since has another in it. -/
  reopened : ∀ e, winningStatus (seen++since) p = some e → e.kind ∉ bars → e ∈ since →
    Placed seen p ∧ Standing seen p bars → Holds (seen++since) p
  /-- One that another was moved out of since is shut, or has yet another in it. -/
  left : ∀ q e e', winningPlacement seen q = some e → e.parentPackageId = some p →
    winningPlacement (seen++since) q = some e' → e' ∈ since → e'.parentPackageId ≠ some p → Closed (seen++since) p

/-- What came since makes no difference to putting one package in or on another. -/
structure ContainUnturned (seen since : List (Event packages)) (child parent : ℕ) : Prop where
  /-- Where one of the two ended since, or was never placed by then, one was shown gone already. -/
  ended : ∀ p ∈ [child,parent], ∀ e, Placed (seen++since) p → winningStatus (seen++since) p = some e → e.kind ∈ ends →
    e ∈ since ∨ ¬Placed seen p → Gone seen child ∨ Gone seen parent
  /-- Where one shown gone was sealed or opened since, one of the two is gone. -/
  revived : ∀ p ∈ [child,parent], ∀ e, Gone seen p → winningStatus (seen++since) p = some e → e.kind ∉ ends →
    e ∈ since → Gone (seen++since) child ∨ Gone (seen++since) parent

/-- A package shown open is open by the log, and shown so once the projection has caught
up, and one shown open then is shown so before, just when what came since makes no
difference. -/
theorem voidUnturned_iff (seen since : List (Event packages)) (p : ℕ) :
    ((¬Closed seen p ↔ ¬Closed (seen++since) p) ∧
      (¬Closed seen p → ¬Standing (seen++since) p bars ∧ ¬Holds (seen++since) p)) ↔ VoidUnturned seen since p := by
  constructor
  · rintro ⟨hsame,hopen⟩
    rw [not_iff_not] at hsame
    refine ⟨fun e he hbars _ => ?_,fun q e he hparent _ => ?_,fun e he hnot _ hshown => ?_,
      fun q e e' he hparent _ _ _ => ?_⟩
    · by_contra hclosed
      exact (hopen hclosed).1 ⟨e,he,hbars⟩
    · by_contra hclosed
      exact (hopen hclosed).2 ⟨q,e,he,hparent⟩
    · rcases hsame.mp (Or.inl hshown) with ⟨-,e',he',hbars⟩ | hholds
      · exact absurd (Option.some.inj (he.symm.trans he') ▸ hbars) hnot
      · exact hholds
    · exact hsame.mp (Or.inr ⟨q,e,he,hparent⟩)
  · intro h
    have hopen (hclosed : ¬Closed seen p) : ¬Standing (seen++since) p bars ∧ ¬Holds (seen++since) p := by
      refine ⟨?_,?_⟩
      · rintro ⟨e,he,hbars⟩
        rcases winner_since Event.assertsStatus seen since p with hsame | ⟨e',he',hwins⟩
        · have hstanding : Standing seen p bars := ⟨e,hsame.symm.trans he,hbars⟩
          exact hclosed (h.shut e he hbars (Or.inr fun hplaced => hclosed (Or.inl ⟨hplaced,hstanding⟩)))
        · obtain rfl : e = e' := Option.some.inj (he.symm.trans hwins)
          exact hclosed (h.shut e he hbars (Or.inl he'))
      · rintro ⟨q,e,he,hparent⟩
        rcases winner_since (fun e => e.kind.assertsPlacement) seen since q with hsame | ⟨e',he',hwins⟩
        · exact hclosed (Or.inr ⟨q,e,hsame.symm.trans he,hparent⟩)
        · obtain rfl : e = e' := Option.some.inj (he.symm.trans hwins)
          exact hclosed (h.entered q e he hparent he')
    refine ⟨not_congr ⟨?_,fun hclosed => ?_⟩,hopen⟩
    · rintro (⟨hplaced,e,he,hbars⟩ | ⟨q,e,he,hparent⟩)
      · rcases winner_since Event.assertsStatus seen since p with hsame | ⟨e',he',hwins⟩
        · exact Or.inl ⟨hplaced.append since,e,hsame.trans he,hbars⟩
        · by_cases hbars' : e'.kind ∈ bars
          · exact Or.inl ⟨hplaced.append since,e',hwins,hbars'⟩
          · exact Or.inr (h.reopened e' hwins hbars' he' ⟨hplaced,e,he,hbars⟩)
      · rcases winner_since (fun e => e.kind.assertsPlacement) seen since q with hsame | ⟨e',he',hwins⟩
        · exact Or.inr ⟨q,e,hsame.trans he,hparent⟩
        · by_cases hparent' : e'.parentPackageId = some p
          · exact Or.inr ⟨q,e',hwins,hparent'⟩
          · exact h.left q e e' he hparent hwins he' hparent'
    · by_contra hnot
      obtain ⟨hstanding,hholds⟩ := hopen hnot
      exact hclosed.elim (fun hshut => hstanding hshut.2) hholds

theorem containUnturned_iff (seen since : List (Event packages)) (child parent : ℕ) :
    (Gone seen child ∨ Gone seen parent ↔ Gone (seen++since) child ∨ Gone (seen++since) parent) ↔
      ContainUnturned seen since child parent := by
  have hor (es : List (Event packages)) : (∃ p ∈ [child,parent], Gone es p) ↔ Gone es child ∨ Gone es parent := by
    simp
  rw [← hor,← hor]
  constructor
  · intro hsame
    refine ⟨fun p hp e hplaced he hends _ => (hor seen).mp (hsame.mpr ⟨p,hp,hplaced,e,he,hends⟩),
      fun p hp e hgone _ _ _ => (hor _).mp (hsame.mp ⟨p,hp,hgone⟩)⟩
  · intro h
    constructor
    · rintro ⟨p,hp,hplaced,e,he,hends⟩
      rcases winner_since Event.assertsStatus seen since p with hsame | ⟨e',he',hwins⟩
      · exact ⟨p,hp,hplaced.append since,e,hsame.trans he,hends⟩
      · by_cases hends' : e'.kind ∈ ends
        · exact ⟨p,hp,hplaced.append since,e',hwins,hends'⟩
        · exact (hor _).mpr (h.revived p hp e' ⟨hplaced,e,he,hends⟩ hwins hends' he')
    · rintro ⟨p,hp,hplaced,e,he,hends⟩
      rcases winner_since Event.assertsStatus seen since p with hsame | ⟨e',he',hwins⟩
      · by_cases hthen : Placed seen p
        · exact ⟨p,hp,hthen,e,hsame.symm.trans he,hends⟩
        · exact (hor seen).mpr (h.ended p hp e hplaced he hends (Or.inr hthen))
      · obtain rfl : e = e' := Option.some.inj (he.symm.trans hwins)
        exact (hor seen).mpr (h.ended p hp e hplaced he hends (Or.inl he'))

end Acts
end Spork
