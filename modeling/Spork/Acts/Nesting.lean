import Spork.Acts.Containing
import Spork.Lib.Depth
import Spork.Lib.Loop

/-! No package is ever inside itself: what an accepted place or contain makes of the
nesting, whatever the device's clock said, and what any run of them keeps. -/
namespace Spork
namespace Acts

open Packages Forest

variable {packages : List ℕ}

/-! ## The walks -/

theorem mem_upTurn (s : Store packages) (parent : ℕ) {turn : ℕ} (hturn : turn < 16) (u : ℕ × ℕ) :
    u ∈ upTurn s parent turn ↔ up s.packageParentNow turn parent = some u.1 ∧ u.2 = turn+1 := by
  induction turn generalizing u with
  | zero =>
    rw [upTurn,List.mem_singleton,Prod.ext_iff,up]
    constructor
    · rintro ⟨hfst,hsnd⟩
      exact ⟨congrArg some hfst.symm,hsnd⟩
    · rintro ⟨hfst,hsnd⟩
      exact ⟨(Option.some.inj hfst).symm,hsnd⟩
  | succ turn ih =>
    rw [upTurn,List.mem_filterMap,up]
    constructor
    · rintro ⟨below,hbelow,hrow⟩
      obtain ⟨hup,hlevel⟩ := (ih (by omega) below).mp hbelow
      rw [if_pos (by omega)] at hrow
      obtain ⟨q,hq,rfl⟩ := Option.map_eq_some_iff.mp hrow
      rw [hup,Option.bind_some]
      exact ⟨hq,by rw [hlevel]⟩
    · rintro ⟨hup,hlevel⟩
      obtain ⟨b,hb,hparent⟩ := Option.bind_eq_some_iff.mp hup
      refine ⟨(b,turn+1),(ih (by omega) _).mpr ⟨hb,rfl⟩,?_⟩
      rw [if_pos hturn,hparent,Option.map_some,← hlevel]

theorem up_bind (parent : ℕ → Option ℕ) (n a : ℕ) : up parent (n+1) a = (parent a).bind (up parent n) := by
  rw [Nat.add_comm,up_add]
  rfl

theorem mem_downTurn (s : Store packages) (child : ℕ) {turn : ℕ} (hturn : turn < 16) (d : ℕ × ℕ) :
    d ∈ downTurn s child turn ↔ up s.packageParentNow turn d.1 = some child ∧ d.2 = turn+1 := by
  induction turn generalizing d with
  | zero =>
    rw [downTurn,List.mem_singleton,Prod.ext_iff,up,Option.some_inj]
  | succ turn ih =>
    rw [downTurn,List.mem_dedup,List.mem_flatMap,up_bind]
    constructor
    · rintro ⟨above,habove,hrow⟩
      obtain ⟨e,he,rfl⟩ := List.mem_map.mp hrow
      obtain ⟨hup,hlevel⟩ := (ih (by omega) above).mp habove
      obtain ⟨-,hkept⟩ := List.mem_filter.mp he
      have hheld : s.packageParentNow e.packageId = some above.1 := by
        have hand := of_decide_eq_true hkept
        exact hand.2.2.1
      rw [hheld,Option.bind_some]
      exact ⟨hup,by rw [hlevel]⟩
    · rintro ⟨hup,hlevel⟩
      obtain ⟨b,hb,hrest⟩ := Option.bind_eq_some_iff.mp hup
      refine ⟨(b,turn+1),(ih (by omega) _).mpr ⟨hrest,rfl⟩,?_⟩
      obtain ⟨e,hwin,hparent⟩ := Option.bind_eq_some_iff.mp (show
        (winningPlacement s.log d.1).bind Event.parentPackageId = some b from hb)
      obtain ⟨hmem,hpackage,hplaces⟩ := winner_tells hwin
      refine List.mem_map.mpr ⟨e,List.mem_filter.mpr ⟨hmem,?_⟩,?_⟩
      · rw [decide_eq_true_iff,hpackage]
        exact ⟨hparent,hplaces,hb,hturn⟩
      · rw [hpackage,← hlevel]

/-- Both walks end by the sixteenth turn. -/
theorem turns_end (s : Store packages) (p : ℕ) : upTurn s p 16 = [] ∧ downTurn s p 16 = [] := by
  constructor
  · refine List.filterMap_eq_nil_iff.mpr fun u hu => ?_
    rw [((mem_upTurn s p (by decide) u).mp hu).2]
    simp
  · rw [downTurn,List.dedup_eq_nil,List.flatMap_eq_nil_iff]
    intro d hd
    rw [((mem_downTurn s p (by decide) d).mp hd).2]
    simp

theorem le_deepest {rows : List (ℕ × ℕ)} {r : ℕ × ℕ} (hr : r ∈ rows) : r.2 ≤ deepest rows := by
  induction rows with
  | nil => cases hr
  | cons x rows ih =>
    have hcons : deepest (x :: rows) = max x.2 (deepest rows) := rfl
    rcases List.mem_cons.mp hr with rfl | hr
    · exact hcons ▸ le_max_left _ _
    · exact hcons ▸ le_trans (ih hr) (le_max_right _ _)

theorem mem_walk {turns : ℕ → List (ℕ × ℕ)} {turn : ℕ} (hturn : turn < 16) {r : ℕ × ℕ}
    (hr : r ∈ turns turn) : r ∈ walk turns :=
  List.mem_flatMap.mpr ⟨turn,List.mem_range.mpr hturn,hr⟩

/-! ## What the check lets through -/

/-- Among chains of three at most, what a containment that makes no loop and no fourth
level leaves are chains of three at most. -/
theorem atMost_of_nesting {s : Store packages} (h : AtMost s.packageParentNow mostLevels) {child parent : ℕ}
    (hloops : (nesting s child parent).loops = false) (hlevels : (nesting s child parent).levels ≤ mostLevels) :
    AtMost (Function.update s.packageParentNow child (some parent)) mostLevels := by
  have hbound {n a b : ℕ} (hup : up s.packageParentNow n a = some b) : n < 3 := by
    by_contra hge
    rw [up_past (h a) (not_lt.mp hge)] at hup
    cases hup
  have hup : up s.packageParentNow (deepest (walk (upTurn s parent))) parent = none := by
    cases hend : up s.packageParentNow (deepest (walk (upTurn s parent))) parent with
    | none => rfl
    | some b =>
      have hlt : deepest (walk (upTurn s parent)) < 16 := by have := hbound hend; omega
      have hrow := le_deepest (mem_walk hlt ((mem_upTurn s parent hlt (b,_)).mpr ⟨hend,rfl⟩))
      exact absurd hrow (by simp)
  have hdown : ∀ a, up s.packageParentNow (deepest (walk (downTurn s child))) a ≠ some child := by
    intro a hend
    have hlt : deepest (walk (downTurn s child)) < 16 := by have := hbound hend; omega
    have hrow := le_deepest (mem_walk hlt ((mem_downTurn s child hlt (a,_)).mpr ⟨hend,rfl⟩))
    exact absurd hrow (by simp)
  have hfree : ∀ k, up s.packageParentNow k parent ≠ some child := by
    intro k hk
    have hlt : k < 16 := by have := hbound hk; omega
    have hrow := mem_walk hlt ((mem_upTurn s parent hlt (child,k+1)).mpr ⟨hk,rfl⟩)
    have hany : (nesting s child parent).loops = true :=
      List.any_eq_true.mpr ⟨_,hrow,by simp⟩
    rw [hany] at hloops
    cases hloops
  exact h.hang hup hdown hfree hlevels

/-! ## Runs -/

/-- What is done, one at a time: a request, a package act of another handler's (only a
containment names a parent), or the projection's rebuild. -/
inductive NestingAct
  | place (who : Caller) (minted : Minted) (packageId : ℕ) (body : PlacePackageRequest)
  | contain (who : Caller) (minted : Minted) (packageId : ℕ) (body : ContainPackageRequest)
  | event (clientEventId : ℕ) (row : NewEvent) (apart : row.parentPackageId = none)
  | rebuild

def nestingStep (s : Store packages) : NestingAct → Store packages
  | .place who minted packageId body => after s (placePackage s who minted packageId body)
  | .contain who minted packageId body => after s (containPackage s who minted packageId body)
  | .event clientEventId row _ => after s (recordPackageEvent s clientEventId row [])
  | .rebuild => s.rebuildPackages

/-- An event that names no parent leaves no longer chains. -/
theorem atMost_of_apart {s s' : Store packages} (h : AtMost s.packageParentNow mostLevels)
    {e : Event packages} (hlog : s'.log = s.log++[e]) (hnone : e.parentPackageId = none) :
    AtMost s'.packageParentNow mostLevels := by
  rcases packageParentNow_append hlog with hsame | ⟨-,hwins⟩
  · exact hsame ▸ h
  · refine h.of_fewer fun p => ?_
    by_cases hp : p = e.packageId
    · exact Or.inr (by rw [hwins,hnone,hp,Function.update_self])
    · exact Or.inl (by rw [hwins,Function.update_of_ne hp])

theorem nestingStep_atMost {s : Store packages} (h : AtMost s.packageParentNow mostLevels) (a : NestingAct) :
    AtMost (nestingStep s a).packageParentNow mostLevels := by
  have hlog {s' : Store packages} (hsame : s'.log = s.log) : AtMost s'.packageParentNow mostLevels := by
    have hparent : s'.packageParentNow = s.packageParentNow := by
      funext p
      rw [Store.packageParentNow,hsame]
      rfl
    exact hparent ▸ h
  have hrecorded {clientEventId : ℕ} {row : NewEvent} {warnings : List String}
      {out : PackageActResponse × Store packages}
      (hrecord : recordPackageEvent s clientEventId row warnings = .ok out) (hnone : row.parentPackageId = none) :
      AtMost out.2.packageParentNow mostLevels := by
    rcases recordPackageEvent_log hrecord with hsame | ⟨hallowed,hnew⟩
    · exact hlog hsame
    · exact atMost_of_apart h hnew hnone
  cases a with
  | place who minted packageId body =>
    cases hout : placePackage s who minted packageId body with
    | error e =>
      have hstep : nestingStep s (.place who minted packageId body) = s := by rw [nestingStep,hout]; rfl
      exact hstep.symm ▸ h
    | ok out =>
      have hstep : nestingStep s (.place who minted packageId body) = out.2 := by
        rw [nestingStep,hout]
        rfl
      rw [hstep]
      obtain ⟨warnings,hrecord⟩ := placePackage_passes hout
      exact hrecorded hrecord rfl
  | contain who minted packageId body =>
    cases hout : containPackage s who minted packageId body with
    | error e =>
      have hstep : nestingStep s (.contain who minted packageId body) = s := by rw [nestingStep,hout]; rfl
      exact hstep.symm ▸ h
    | ok out =>
      have hstep : nestingStep s (.contain who minted packageId body) = out.2 := by
        rw [nestingStep,hout]
        rfl
      rw [hstep]
      obtain ⟨hnone,warnings,hrecord⟩ := containPackage_passes hout
      have hclear := ((containChecked_nil_iff s who packageId body).mp hnone).1
      rcases recordPackageEvent_log hrecord with hsame | ⟨hallowed,hnew⟩
      · exact hlog hsame
      · -- the newest placement, or the one before it stays
        rcases packageParentNow_append hnew with hold | ⟨-,hwins⟩
        · exact hold ▸ h
        · rw [hwins]
          exact atMost_of_nesting h hclear.loops hclear.levels
  | event clientEventId row apart =>
    cases hout : recordPackageEvent s clientEventId row [] with
    | error e =>
      have hstep : nestingStep s (.event clientEventId row apart) = s := by rw [nestingStep,hout]; rfl
      exact hstep.symm ▸ h
    | ok out =>
      have hstep : nestingStep s (.event clientEventId row apart) = out.2 := by
        rw [nestingStep,hout]
        rfl
      rw [hstep]
      exact hrecorded hout apart
  | rebuild => exact hlog rfl

/-- Whatever is placed and contained, in whatever order the clocks put it, nothing is in
itself and no chain is of more than three. -/
theorem never_inside_itself {s : Store packages} (h : AtMost s.packageParentNow mostLevels)
    (acts : List NestingAct) :
    (∀ p, ¬Relation.TransGen (fun c q => (acts.foldl nestingStep s).packageParentNow c = some q) p p) ∧
    ∀ chain : List ℕ, (chain.IsChain fun c q => (acts.foldl nestingStep s).packageParentNow c = some q) →
      chain.length ≤ 3 := by
  have hrun : AtMost (acts.foldl nestingStep s).packageParentNow mostLevels :=
    Loop.foldl_keeps (fun s : Store packages => AtMost s.packageParentNow mostLevels) h
      fun s a _ hs => nestingStep_atMost hs a
  exact ⟨hrun.not_cyclic,fun chain hchain => hrun.chain_le hchain⟩

/-- Four packages nothing is recorded of. -/
def floor : Store [1,2,3,4] where
  clientEvents := []
  packageEvents := []
  stockMovements := []
  package := fun _ => ⟨7,none,false⟩
  table := fun _ => Row.empty
  stock := []
  adjustmentReasons := []
  discrepancies := []
  stockCounts := []
  locations := [⟨11,7⟩]
  lines := []
  event_act := by decide
  movement_act := by decide

/-- One package put on another, by a clock. -/
def onto (act : ℕ) (clock : ℤ) (child parent : ℕ) : NestingAct :=
  .contain ⟨7⟩ ⟨act,act⟩ child ⟨parent,act,clock,none⟩

/-- A carton on a pallet, the pallet wrapped, by a clock that is behind, and then the wrap
on the carton and on a fourth, both refused. -/
def wrapping : List NestingAct := [onto 1 10 1 2,onto 2 5 2 3,.rebuild,onto 3 20 3 1,onto 4 20 3 4]

example : ((wrapping.foldl nestingStep floor).clientEvents,
    [1,2,3,4].map (wrapping.foldl nestingStep floor).packageParentNow) =
      ([1,2],[some 2,some 3,none,none]) := by decide

theorem never_inside_itself_wrapping :
    (∀ p, ¬Relation.TransGen
      (fun c q => (wrapping.foldl nestingStep floor).packageParentNow c = some q) p p) ∧
    ∀ chain : List ℕ, (chain.IsChain fun c q =>
      (wrapping.foldl nestingStep floor).packageParentNow c = some q) → chain.length ≤ 3 :=
  never_inside_itself (fun _ => rfl) wrapping

end Acts
end Spork
