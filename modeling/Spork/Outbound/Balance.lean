import Spork.Ledger.Corrections
import Spork.Lib.Runs
import Spork.Outbound.Content

/-! What a line has in each cell of stock by its movements: how a movement more changes
it, and what a package's content is of it. -/
namespace Spork
namespace Outbound

open Ledger GroupBy
open Acts (StockMovement)

def ledgerOf (ms : List StockMovement) : List Movement := ms.map StockMovement.movement

/-- A movement is a line's where it names it, and a correction where what it corrects is. -/
inductive Serves (ms : List StockMovement) (line : ℕ) : Movement → Prop
  | root {x : StockMovement} (hx : x ∈ ms) (hroot : x.movement.reversesMovementId = none)
      (hline : x.fulfilmentLineId = some line) : Serves ms line x.movement
  | correction {r t : Movement} (hr : r ∈ ledgerOf ms) (ht : Serves ms line t)
      (hrev : r.reversesMovementId = some t.id) : Serves ms line r

/-- A sum over what is left of a line's movements. -/
def lineSum (ms : List StockMovement) (line : ℕ) (w : Movement → ℤ) : ℤ :=
  (((effectives ms).filter fun x => x.1.fulfilmentLineId = some line).map fun x => x.2*w x.1.movement).sum

/-- The rows are a register's, and corrections run the other way to what they correct. -/
structure Traced (ms : List StockMovement) (b : Register) : Prop where
  same : b.movements = ledgerOf ms
  mirrors : ∀ m ∈ b.movements, ∀ r ∈ corrections b.movements m, Mirrors r m

variable {ms : List StockMovement} {b : Register} {line : ℕ} {m : Movement}

def Traced.lines (h : Traced ms b) : LineLedger where
  movements := ms
  ids := by
    have hids := b.ids
    rwa [h.same] at hids
  reverses := by
    have hreverses := b.reverses
    rwa [h.same] at hreverses

theorem Serves.mem (h : Serves ms line m) : m ∈ ledgerOf ms := by
  cases h with
  | root hx _ _ => exact List.mem_map_of_mem hx
  | correction hr _ _ => exact hr

/-- A line's movement that corrects nothing names it. -/
theorem Serves.named (h : Serves ms line m) (hroot : m.reversesMovementId = none) :
    ∃ x ∈ ms, x.movement = m ∧ x.fulfilmentLineId = some line := by
  cases h with
  | root hx _ hline => exact ⟨_,hx,rfl,hline⟩
  | correction _ _ hrev =>
    rw [hroot] at hrev
    cases hrev

theorem Traced.serves_root (h : Traced ms b) {x : StockMovement} (line : ℕ) (hx : x ∈ ms)
    (hroot : x.movement.reversesMovementId = none) : Serves ms line x.movement ↔ x.fulfilmentLineId = some line := by
  constructor
  · intro hserves
    obtain ⟨y,hy,heq,hline⟩ := hserves.named hroot
    have hids : (ms.map fun z => z.movement.id).Nodup := by
      have hnodup := b.ids
      rwa [h.same,ledgerOf,List.map_map] at hnodup
    have hsame : y = x := List.inj_on_of_nodup_map hids hy hx (congrArg Movement.id heq)
    exact hsame ▸ hline
  · exact Serves.root hx hroot

theorem Traced.serves_correction (h : Traced ms b) {r t : Movement} (hr : r ∈ ledgerOf ms) (ht : t ∈ ledgerOf ms)
    (hrev : r.reversesMovementId = some t.id) : Serves ms line r ↔ Serves ms line t := by
  constructor
  · intro hserves
    cases hserves with
    | root _ hroot _ =>
      rw [hrev] at hroot
      cases hroot
    | @correction _ t' _ ht' hrev' =>
      have hid : t'.id = t.id := Option.some.inj (hrev'.symm.trans hrev)
      have hmem : t' ∈ b.movements := h.same ▸ ht'.mem
      rwa [b.eq_of_id hmem (h.same ▸ ht) hid] at ht'
  · exact fun hserves => Serves.correction hr hserves hrev

/-- What is left of a root by the walk is what is left by the definition. -/
theorem walked_effective {m : Movement} (hm : m ∈ b.movements.filter isRoot) :
    walked b.movements m = effective b.acyclic m := by
  have hrows := view_rows (b := b.toBook) (List.mem_filter.mp hm).1
  have hfind := view_effective b.acyclic hm
  rw [if_pos (List.mem_filter.mp hm).2] at hrows
  rw [← List.head?_filter,hrows,List.head?_cons] at hfind
  exact congrArg EffectiveRow.effectiveQuantity (Option.some.inj hfind)

theorem Traced.effectives_eq (h : Traced ms b) : effectives ms =
    (ms.filter fun x => isRoot x.movement).map fun x => (x,effective b.acyclic x.movement) := by
  refine (Outbound.effectives_eq h.lines).trans (List.map_congr_left fun x hx => ?_)
  obtain ⟨hmem,hroot⟩ := List.mem_filter.mp hx
  have hin : x.movement ∈ b.movements.filter isRoot :=
    List.mem_filter.mpr ⟨h.same ▸ List.mem_map_of_mem (f := StockMovement.movement) hmem,hroot⟩
  have hledger : h.lines.ledger = b.movements := h.same.symm
  rw [hledger,walked_effective hin]

open Classical in
/-- Where a correction counts against what it corrects, a line's sum is over all of its
movements as they stand. -/
theorem Traced.lineSum_eq (h : Traced ms b) {w : Movement → ℤ} (hodd : ∀ r t, Mirrors r t → w r = -w t) :
    lineSum ms line w = ((ledgerOf ms).map fun m => m.quantity*if Serves ms line m then w m else 0).sum := by
  have hsign : ∀ m ∈ b.movements, ∀ r ∈ corrections b.movements m,
      (if Serves ms line r then w r else 0) = -(if Serves ms line m then w m else 0) := by
    intro m hm r hr
    obtain ⟨hrmem,hrev⟩ := List.mem_filter.mp hr
    have hiff : Serves ms line r ↔ Serves ms line m :=
      h.serves_correction (h.same ▸ hrmem) (h.same ▸ hm) (by simpa using hrev)
    by_cases hserves : Serves ms line m
    · rw [if_pos hserves,if_pos (hiff.mpr hserves),hodd r m (h.mirrors m hm r hr)]
    · rw [if_neg hserves,if_neg (hiff.not.mpr hserves),neg_zero]
  have hroots := Forest.sum_roots b.acyclic Movement.quantity (fun m => if Serves ms line m then w m else 0) isRoot
    b.toBook.corrections_perm hsign
  have hfilter : b.movements.filter isRoot = (ms.filter fun x => isRoot x.movement).map StockMovement.movement := by
    rw [h.same,ledgerOf,List.filter_map]
    rfl
  rw [← h.same,hroots,hfilter,List.map_map,lineSum,h.effectives_eq,List.filter_map,List.map_map,sum_filter]
  refine congrArg List.sum (List.map_congr_left fun x hx => ?_)
  obtain ⟨hmem,hroot⟩ := List.mem_filter.mp hx
  have hserves := h.serves_root line hmem (Option.isNone_iff_eq_none.mp hroot)
  simp only [Function.comp_apply,hserves,decide_eq_true_eq]
  split
  · rfl
  · rw [mul_zero]

/-! ## A movement more -/

/-- What is there serves what it did. -/
theorem serves_append {c : StockMovement} (hids : ((ledgerOf (ms++[c])).map Movement.id).Nodup)
    (hreverses : ∀ r ∈ ledgerOf ms, ∀ t ∈ r.reversesMovementId, ∃ m ∈ ledgerOf ms, m.id = t) (hm : m ∈ ledgerOf ms) :
    Serves (ms++[c]) line m ↔ Serves ms line m := by
  have hsub : ∀ {r}, r ∈ ledgerOf ms → r ∈ ledgerOf (ms++[c]) := fun hr => by
    rw [ledgerOf,List.map_append]
    exact List.mem_append_left _ hr
  constructor
  · intro hserves
    induction hserves with
    | @root x hx hroot hline =>
      rcases List.mem_append.mp hx with hx | hx
      · exact Serves.root hx hroot hline
      · rw [List.mem_singleton.mp hx] at hm
        rw [ledgerOf,List.map_append,List.map_append] at hids
        exact absurd rfl ((List.nodup_append.mp hids).2.2 _ (List.mem_map_of_mem hm) c.movement.id (by simp))
    | @correction r t hr ht hrev ih =>
      obtain ⟨t',ht',hid⟩ := hreverses r hm t.id hrev
      have hsame : t' = t := List.inj_on_of_nodup_map hids (hsub ht') ht.mem hid
      exact Serves.correction hm (ih (hsame ▸ ht')) hrev
  · intro hserves
    induction hserves with
    | root hx hroot hline => exact Serves.root (List.mem_append_left _ hx) hroot hline
    | correction hr ht hrev ih => exact Serves.correction (hsub hr) (ih ht.mem) hrev

/-- What a movement corrects is there. -/
theorem Traced.target_mem (h : Traced ms b) : ∀ r ∈ ledgerOf ms, ∀ t ∈ r.reversesMovementId, ∃ m ∈ ledgerOf ms, m.id = t := by
  intro r hr t ht
  rw [← h.same] at hr ⊢
  obtain ⟨m,hm,hid,-⟩ := b.reverses r hr t ht
  exact ⟨m,hm,hid⟩

/-- A movement more, that corrects one there is, serves what that does. -/
theorem Traced.serves_last_correction (h : Traced ms b) {c : StockMovement} {t : Movement}
    (hids : ((ledgerOf (ms++[c])).map Movement.id).Nodup) (ht : t ∈ ledgerOf ms)
    (hrev : c.movement.reversesMovementId = some t.id) : Serves (ms++[c]) line c.movement ↔ Serves ms line t := by
  have hmem : t ∈ ledgerOf (ms++[c]) := by
    rw [ledgerOf,List.map_append]
    exact List.mem_append_left _ ht
  have hlast : c.movement ∈ ledgerOf (ms++[c]) := List.mem_map_of_mem (by simp)
  rw [← serves_append hids h.target_mem ht]
  constructor
  · intro hserves
    generalize c.movement = r at hserves hrev
    cases hserves with
    | root _ hroot _ =>
      rw [hrev] at hroot
      cases hroot
    | @correction _ t' _ ht' hrev' =>
      have hid : t'.id = t.id := Option.some.inj (hrev'.symm.trans hrev)
      exact List.inj_on_of_nodup_map hids ht'.mem hmem hid ▸ ht'
  · exact fun hserves => Serves.correction hlast hserves hrev

open Classical in
/-- A movement more counts as itself. -/
theorem Traced.lineSum_append {c : StockMovement} {b' : Register} (h : Traced ms b) (h' : Traced (ms++[c]) b')
    {w : Movement → ℤ} (hodd : ∀ r t, Mirrors r t → w r = -w t) : lineSum (ms++[c]) line w =
      lineSum ms line w+if Serves (ms++[c]) line c.movement then c.movement.quantity*w c.movement else 0 := by
  have hids : ((ledgerOf (ms++[c])).map Movement.id).Nodup := h'.same ▸ b'.ids
  rw [h'.lineSum_eq hodd,h.lineSum_eq hodd,ledgerOf,List.map_append,List.map_append,List.sum_append]
  congr 1
  · refine congrArg List.sum (List.map_congr_left fun m hm => ?_)
    rw [serves_append hids h.target_mem hm]
  · rw [List.map_singleton,List.map_singleton,List.sum_singleton]
    split
    · rfl
    · rw [mul_zero]

/-! ## Cells -/

/-- How a movement counts in the cells that pass a test. -/
def cellSign (test : Cell → Bool) (m : Movement) : ℤ :=
  (if test (m.toSide.cell m.itemId) then 1 else 0)-if test (m.fromSide.cell m.itemId) then 1 else 0

/-- What a line has in the cells that pass a test. -/
def balance (ms : List StockMovement) (line : ℕ) (test : Cell → Bool) : ℤ := lineSum ms line (cellSign test)

theorem cellSign_mirrors {test : Cell → Bool} {r t : Movement} (h : Mirrors r t) : cellSign test r = -cellSign test t := by
  obtain ⟨hfrom,hto,hitem⟩ := h
  rw [cellSign,cellSign,hfrom,hto,hitem]
  ring

/-- What each of a line's movements puts in cells and takes from them. -/
def cellRows (ms : List StockMovement) (line : ℕ) : List (Cell × ℤ) :=
  ((effectives ms).filter fun x => x.1.fulfilmentLineId = some line).flatMap fun x =>
    [(x.1.movement.toSide.cell x.1.movement.itemId,x.2),(x.1.movement.fromSide.cell x.1.movement.itemId,-x.2)]

theorem balance_eq_rows (ms : List StockMovement) (line : ℕ) (test : Cell → Bool) :
    balance ms line test = (((cellRows ms line).filter fun x => test x.1).map Prod.snd).sum := by
  rw [balance,lineSum,cellRows,List.filter_flatMap,Forest.sum_flatMap]
  refine congrArg List.sum (List.map_congr_left fun x _ => ?_)
  rw [cellSign,List.filter_cons,List.filter_cons,List.filter_nil]
  split <;> split <;> simp

/-- Where no cell that passes a test has less than nothing, they have not together. -/
theorem balance_nonneg {test : Cell → Bool} (h : ∀ c, test c = true → 0 ≤ balance ms line fun c' => c' = c) :
    0 ≤ balance ms line test := by
  rw [balance_eq_rows,← sum_groups Prod.fst (cellRows ms line) Prod.snd test]
  refine List.sum_nonneg fun q hq => ?_
  obtain ⟨g,hg,rfl⟩ := List.mem_map.mp hq
  obtain ⟨hmem,htest⟩ := List.mem_filter.mp hg
  have hcell := h g.1 htest
  rwa [balance_eq_rows,← (mem_groups hmem).2] at hcell

/-! ## What packages hold -/

/-- A test of what a package holds, on the cells there are of it. -/
def onPackage (test : ℕ → ℕ → Option ℕ → Bool) (c : Cell) : Bool := c.holderPackageId.any fun p => test p c.itemId c.lotId

/-- The movements that stand went somewhere, and are one tenant's. -/
structure Landed (ms : List StockMovement) (tenant : ℕ) : Prop where
  tenant : ∀ x ∈ effectives ms, x.1.movement.tenantId = tenant
  somewhere : ∀ x ∈ effectives ms, x.1.fulfilmentLineId.isSome = true →
    (x.1.movement.toSide.packageId.isSome || x.1.movement.toSide.locationId.isSome) = true

theorem sum_filterMap {α β : Type} (xs : List α) (f : α → Option (β × ℤ)) (test : β × ℤ → Bool) :
    (((xs.filterMap f).filter test).map Prod.snd).sum = (xs.map fun x => ((f x).filter test).elim 0 Prod.snd).sum := by
  induction xs with
  | nil => rfl
  | cons x xs ih =>
    rw [List.map_cons,List.sum_cons,← ih]
    cases hf : f x with
    | none => simp [hf]
    | some y =>
      rw [List.filterMap_cons,hf,List.filter_cons,Option.filter_some]
      split <;> simp

/-- Rows of what went into packages and on from them are a balance over their cells. -/
theorem content_rows {tenant : ℕ} (h : Landed ms tenant) (line : ℕ) (test : ℕ → ℕ → Option ℕ → Bool) :
    (((wentIn ms++wentOn ms).filter fun x => decide (x.1.fulfilmentLineId = line) &&
      test x.1.packageId x.1.itemId x.1.lotId).map Prod.snd).sum = balance ms line (onPackage test) := by
  rw [balance,lineSum,List.filter_append,List.map_append,List.sum_append,wentIn,wentOn,List.filterMap_filter,
    sum_filterMap,sum_filterMap,← List.sum_map_add,sum_filter]
  refine congrArg List.sum (List.map_congr_left fun x hx => ?_)
  have hto := h.somewhere x hx
  cases hline : x.1.fulfilmentLineId with
  | none => simp
  | some l =>
    rw [if_pos (hto (by rw [hline]; rfl))]
    by_cases hl : l = line
    · subst hl
      cases hin : x.1.movement.toSide.packageId <;> cases hout : x.1.movement.fromSide.packageId <;>
        simp [cellSign,onPackage,Side.cell,hin,hout,Option.filter] <;> split_ifs <;> simp
    · cases hin : x.1.movement.toSide.packageId <;> cases hout : x.1.movement.fromSide.packageId <;>
        simp [Option.filter,hl]

/-- What packages that pass a test hold of a line, by the view. -/
def content (ms : List StockMovement) (line : ℕ) (test : ℕ → ℕ → Option ℕ → Bool) : ℤ :=
  (((packageLineContent ms).filter fun c => decide (c.1.fulfilmentLineId = line) &&
    test c.1.packageId c.1.itemId c.1.lotId).map Prod.snd).sum

/-- Where no package has less than nothing of a line in any cell, the view clips nothing. -/
theorem content_eq_balance {tenant : ℕ} (h : Landed ms tenant)
    (hcells : ∀ c : Cell, c.holderPackageId.isSome = true → 0 ≤ balance ms line fun c' => c' = c)
    (test : ℕ → ℕ → Option ℕ → Bool) : content ms line test = balance ms line (onPackage test) := by
  rw [← content_rows h line test,
    ← sum_groups Prod.fst (wentIn ms++wentOn ms) Prod.snd fun k => decide (k.fulfilmentLineId = line) &&
      test k.packageId k.itemId k.lotId,content,packageLineContent,List.filter_map,List.map_map]
  refine congrArg List.sum (List.map_congr_left fun g hg => ?_)
  obtain ⟨hmem,htest⟩ := List.mem_filter.mp hg
  have hline : g.1.fulfilmentLineId = line := of_decide_eq_true (Bool.and_eq_true_iff.mp htest).1
  obtain ⟨⟨x,hx,hkey⟩,hrows⟩ := mem_groups hmem
  -- the rows of a group are those of its package, line, item and lot: there is one tenant
  have htenant : ∀ y ∈ wentIn ms++wentOn ms, y.1.tenantId = tenant := by
    intro y hy
    rcases List.mem_append.mp hy with hin | hon
    · obtain ⟨z,hz,hsome⟩ := List.mem_filterMap.mp hin
      obtain ⟨p,-,hsome⟩ := Option.bind_eq_some_iff.mp hsome
      obtain ⟨l,-,rfl⟩ := Option.map_eq_some_iff.mp hsome
      exact h.tenant z hz
    · obtain ⟨z,hz,hsome⟩ := List.mem_filterMap.mp hon
      obtain ⟨p,-,hsome⟩ := Option.bind_eq_some_iff.mp hsome
      obtain ⟨l,-,rfl⟩ := Option.map_eq_some_iff.mp hsome
      exact h.tenant z (List.mem_filter.mp hz).1
  have hsum : (g.2.map Prod.snd).sum = balance ms line (onPackage fun p i lot =>
      decide (p = g.1.packageId ∧ i = g.1.itemId ∧ lot = g.1.lotId)) := by
    rw [← content_rows h line,hrows]
    refine congrArg (fun l : List (ContentKey × ℤ) => (l.map Prod.snd).sum) (List.filter_congr fun y hy => ?_)
    have hy' := htenant y hy
    have hg' := htenant x hx
    rw [hkey] at hg'
    rw [← hline,← Bool.decide_and,decide_eq_decide,ContentKey.ext_iff]
    simp only [hy',hg',true_and]
    tauto
  show max (g.2.map Prod.snd).sum 0 = (g.2.map Prod.snd).sum
  refine max_eq_left ?_
  rw [hsum]
  refine balance_nonneg fun c hc => hcells c ?_
  obtain ⟨p,hp,-⟩ := Runs.run_passes _ hc
  rw [hp]
  rfl

end Outbound
end Spork
