import Spork.Lib.Newest

/-! The package log (`package_event`), and which of its events say where a package is,
what it is called and how it stands (migrations 4, 51 and 58). One tenant's, over the
packages there are rows of. -/
namespace Spork
namespace Packages

open Newest

inductive Kind
  | created | placed | contained | observed | identified | sealed | opened | relabelled | despatched
  | voided
  deriving DecidableEq, Repr

/-- The column generated from the kind. -/
def Kind.assertsPlacement : Kind → Bool
  | .created | .placed | .contained => true
  | _ => false

/-- A fact about a package, as the table's constraints let it be. -/
structure Event (packages : List ℕ) where
  id : ℕ
  occurredAt : ℤ
  recordedAt : ℤ
  packageId : ℕ
  kind : Kind
  parentPackageId : Option ℕ
  locationId : Option ℕ
  sscc : Option String
  barcode : Option String
  there : packageId ∈ packages
  parent_there : ∀ q ∈ parentPackageId, q ∈ packages
  /-- A placement tells what the thing is placed in, and only one thing. -/
  holder : kind.assertsPlacement = true → parentPackageId.isSome ≠ locationId.isSome
  not_own_parent : parentPackageId ≠ some packageId
  deriving DecidableEq

inductive IdentifierKind
  | sscc | barcode
  deriving DecidableEq, Repr

variable {packages : List ℕ}

namespace Event

/-- Register order: when it happened, when it was recorded, its id. -/
def key (e : Event packages) : ℤ ×ₗ ℤ ×ₗ ℕ := toLex (e.occurredAt,toLex (e.recordedAt,e.id))

def assertsIdentity (e : Event packages) : Bool :=
  decide (e.kind ∈ [.identified,.relabelled,.created]) && (e.sscc.isSome || e.barcode.isSome)

def assertsStatus (e : Event packages) : Bool :=
  decide (e.kind ∈ [Kind.sealed,.opened,.despatched,.voided])

def identifierKind (e : Event packages) : Option IdentifierKind :=
  if e.sscc.isSome then some .sscc else if e.barcode.isSome then some .barcode else none

theorem key_injective {e e' : Event packages} (h : e.key = e'.key) : e.id = e'.id := by
  have h₂ := congrArg (fun k => (ofLex (ofLex k).2).2) h
  exact h₂

end Event

section
variable (tells : Event packages → Bool) (es : List (Event packages)) (p : ℕ)

/-- The last event of a package in register order that tells something of a kind. -/
def winner : Option (Event packages) :=
  newest Event.key (es.filter fun e => decide (e.packageId = p) && tells e)

def winningPlacement : Option (Event packages) := winner (fun e => e.kind.assertsPlacement) es p

def winningIdentity : Option (Event packages) := winner Event.assertsIdentity es p

def winningStatus : Option (Event packages) := winner Event.assertsStatus es p

end

variable {tells : Event packages → Bool} {es es' : List (Event packages)} {p : ℕ} {e : Event packages}

theorem winner_tells (h : winner tells es p = some e) : e ∈ es ∧ e.packageId = p ∧ tells e = true := by
  obtain ⟨hmem,htells⟩ := List.mem_filter.mp (newest_mem h)
  rw [Bool.and_eq_true,decide_eq_true_iff] at htells
  exact ⟨hmem,htells⟩

theorem winner_last (h : winner tells es p = some e) {e' : Event packages} (he' : e' ∈ es)
    (hp : e'.packageId = p) (htells : tells e' = true) : e'.key ≤ e.key := by
  have hmem : e' ∈ es.filter fun e => decide (e.packageId = p) && tells e :=
    List.mem_filter.mpr ⟨he',by simp [hp,htells]⟩
  exact List.le_of_mem_argmax hmem h

/-- With more events there is a winner if there was one. -/
theorem winner_more (hsub : es ⊆ es') (h : (winner tells es p).isSome = true) :
    (winner tells es' p).isSome = true := by
  obtain ⟨e,he⟩ := Option.isSome_iff_exists.mp h
  obtain ⟨hmem,htells⟩ := List.mem_filter.mp (newest_mem he)
  exact newest_isSome_iff.mpr (List.ne_nil_of_mem (List.mem_filter.mpr ⟨hsub hmem,htells⟩))

/-- A further event wins, or nothing changes. -/
theorem winner_append (tells : Event packages → Bool) (es : List (Event packages)) (e : Event packages) (p : ℕ) :
    winner tells (es++[e]) p = winner tells es p ∨
      (e.packageId = p ∧ tells e = true ∧ winner tells (es++[e]) p = some e) := by
  by_cases htells : (decide (e.packageId = p) && tells e) = true
  · have hand : e.packageId = p ∧ tells e = true := by simpa using htells
    rw [winner,winner,newest,newest,List.filter_append,List.filter_cons_of_pos (by exact htells),
      List.filter_nil,List.argmax_concat]
    cases (es.filter fun e => decide (e.packageId = p) && tells e).argmax Event.key with
    | none => exact Or.inr ⟨hand.1,hand.2,rfl⟩
    | some last =>
      by_cases hlater : last.key < e.key
      · exact Or.inr ⟨hand.1,hand.2,if_pos hlater⟩
      · exact Or.inl (if_neg hlater)
  · refine Or.inl ?_
    rw [winner,winner,List.filter_append,List.filter_cons_of_neg (by exact htells),List.filter_nil,
      List.append_nil]

/-- The order events arrived in is nothing to a winner. -/
theorem winner_perm (hperm : es.Perm es') (hids : (es.map Event.id).Nodup) :
    winner tells es p = winner tells es' p := by
  refine newest_perm (hperm.filter _) ?_
  refine List.Nodup.map_on (fun x hx y hy hkey => ?_) ((List.Nodup.of_map _ hids).filter _)
  exact List.inj_on_of_nodup_map hids (List.mem_filter.mp hx).1 (List.mem_filter.mp hy).1
    (Event.key_injective hkey)

end Packages
end Spork
