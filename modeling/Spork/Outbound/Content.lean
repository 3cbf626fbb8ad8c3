import Spork.Acts.Store
import Spork.Lib.Walk

/-! What each package holds of each line (`package_line_content`, migration 138): what
went into it, less what has since gone from it into another holder. -/
namespace Spork
namespace Outbound

open Ledger GroupBy
open Acts (StockMovement)

/-- The movements of a tenant, with the lines they serve: one row an id, and a correction
names one of them. -/
structure LineLedger where
  movements : List StockMovement
  ids : ((movements.map StockMovement.movement).map Movement.id).Nodup
  reverses : ∀ r ∈ movements.map StockMovement.movement, ∀ t ∈ r.reversesMovementId,
    ∃ m ∈ movements.map StockMovement.movement, m.id = t ∧ m.tenantId = r.tenantId

namespace LineLedger

def ledger (b : LineLedger) : List Movement := b.movements.map StockMovement.movement

def book (b : LineLedger) : Book := ⟨b.ledger,b.ids,b.reverses⟩

end LineLedger

section
variable (ms : List StockMovement)

/-- Each movement, joined with what the view gives of it. -/
def effectives : List (StockMovement × ℤ) :=
  ms.flatMap fun m => ((stockMovementEffective (ms.map StockMovement.movement)).filter fun v =>
    v.movementId = m.movement.id ∧ v.tenantId = m.movement.tenantId).map fun v => (m,v.effectiveQuantity)

@[ext]
structure ContentKey where
  tenantId : ℕ
  packageId : ℕ
  fulfilmentLineId : ℕ
  itemId : ℕ
  lotId : Option ℕ
  deriving DecidableEq, Repr

/-- What went into packages. -/
def wentIn : List (ContentKey × ℤ) :=
  (effectives ms).filterMap fun x => x.1.movement.toSide.packageId.bind fun p => x.1.fulfilmentLineId.map fun l =>
    (⟨x.1.movement.tenantId,p,l,x.1.movement.itemId,x.1.movement.toSide.lotId⟩,x.2)

/-- What has gone from packages into another holder. -/
def wentOn : List (ContentKey × ℤ) :=
  ((effectives ms).filter fun x =>
    x.1.movement.toSide.packageId.isSome || x.1.movement.toSide.locationId.isSome).filterMap fun x =>
      x.1.movement.fromSide.packageId.bind fun p => x.1.fulfilmentLineId.map fun l =>
        (⟨x.1.movement.tenantId,p,l,x.1.movement.itemId,x.1.movement.fromSide.lotId⟩,-x.2)

def packageLineContent : List (ContentKey × ℤ) :=
  (groups Prod.fst (wentIn ms++wentOn ms)).map fun g => (g.1,max (g.2.map Prod.snd).sum 0)

end

/-! ## What is left of each root -/

/-- How a row of the view's query counts. -/
def signed (c : ChainRow) : ℤ := if c.depth%2 = 0 then c.quantity else -c.quantity

def rootRow (m : Movement) : ChainRow := ⟨m.id,m.tenantId,m.id,m.quantity,0,[m.id],false⟩

/-- What is left of a root: its own rows of the query, put together. -/
def walked (ms : List Movement) (m : Movement) : ℤ :=
  ((Walk.rows (chainNext ms) (ms.length+1) [rootRow m]).map signed).sum

/-- A row read on from a root: nothing is on the way to it twice, as each movement there
corrects the one before. -/
structure FromRoot (ms : List Movement) (m : Movement) (n : ℕ) (c : ChainRow) : Prop where
  root : (c.rootId,c.rootTenantId) = (m.id,m.tenantId)
  fresh : c.isCycle = false
  nodup : c.correctionPath.Nodup
  length : c.correctionPath.length = n+1
  first : c.correctionPath[0]? = some m.id
  last : c.correctionPath[n]? = some c.movementId
  linked : ∀ i x y, c.correctionPath[i]? = some x → c.correctionPath[i+1]? = some y →
    ∃ r ∈ ms, r.id = y ∧ r.reversesMovementId = some x

theorem working_eq_level (ms : List Movement) (n : ℕ) :
    working ms n = Walk.level (chainNext ms) n ((ms.filter isRoot).map rootRow) := by
  induction n with
  | zero => rfl
  | succ n ih => rw [working,ih,Walk.level]

section
variable {b : Book} {m : Movement}

theorem fromRoot_start : FromRoot b.movements m 0 (rootRow m) where
  root := rfl
  fresh := rfl
  nodup := List.nodup_singleton _
  length := rfl
  first := rfl
  last := rfl
  linked i x y _ hy := by
    rw [rootRow,List.getElem?_cons_succ] at hy
    cases hy

theorem fromRoot_next (hm : m ∈ b.movements.filter isRoot) (n : ℕ) (c : ChainRow) (h : FromRoot b.movements m n c) :
    ∀ d ∈ chainNext b.movements c, FromRoot b.movements m (n+1) d := by
  intro d hd
  rw [chainNext,h.fresh,if_neg Bool.false_ne_true] at hd
  obtain ⟨r,hr,rfl⟩ := List.mem_map.mp hd
  obtain ⟨hmem,hrev⟩ := List.mem_filter.mp hr
  have hrev' : r.reversesMovementId = some c.movementId := by simpa using hrev
  -- what is on the way and corrects this row's movement would be the next of it
  have hnew : r.id ∉ c.correctionPath := by
    intro hin
    obtain ⟨k,hk⟩ := List.mem_iff_getElem?.mp hin
    cases k with
    | zero =>
      obtain ⟨hmmem,hroot⟩ := List.mem_filter.mp hm
      have hid : m.id = r.id := Option.some.inj (h.first.symm.trans hk)
      rw [b.eq_of_id hmmem hmem hid,isRoot,hrev'] at hroot
      cases hroot
    | succ i =>
      obtain ⟨hlt,-⟩ := List.getElem?_eq_some_iff.mp hk
      rw [h.length] at hlt
      have hi : i < c.correctionPath.length := by rw [h.length]; omega
      obtain ⟨r',hr',hid,hrev''⟩ := h.linked i _ _ (List.getElem?_eq_getElem hi) hk
      rw [b.eq_of_id hr' hmem hid,hrev'] at hrev''
      have hlast := h.last
      rw [Option.some.inj hrev'',← List.getElem?_eq_getElem hi] at hlast
      have hsame := (List.getElem?_inj (by rw [h.length]; omega) h.nodup).mp hlast
      omega
  refine ⟨h.root,decide_eq_false hnew,?_,by simp [h.length],?_,?_,?_⟩
  · refine List.nodup_append.mpr ⟨h.nodup,List.nodup_singleton _,fun x hx y hy heq => hnew ?_⟩
    rwa [← List.mem_singleton.mp hy,← heq]
  · rw [List.getElem?_append_left (by rw [h.length]; omega)]
    exact h.first
  · rw [← h.length,List.getElem?_concat_length]
  · intro i x y hx hy
    by_cases hi : i+1 < c.correctionPath.length
    · rw [List.getElem?_append_left hi] at hy
      rw [List.getElem?_append_left (by omega)] at hx
      exact h.linked i x y hx hy
    · obtain ⟨hlt,-⟩ := List.getElem?_eq_some_iff.mp hy
      rw [List.length_append,List.length_singleton,h.length] at hlt
      rw [h.length] at hi
      have hin : i = n := by omega
      subst hin
      rw [List.getElem?_append_left (by rw [h.length]; omega),h.last] at hx
      rw [← h.length,List.getElem?_concat_length] at hy
      exact ⟨r,hmem,Option.some.inj hy,by rw [hrev',Option.some.inj hx]⟩

theorem level_fromRoot (hm : m ∈ b.movements.filter isRoot) (n : ℕ) :
    ∀ c ∈ Walk.level (chainNext b.movements) n [rootRow m], FromRoot b.movements m n c :=
  Walk.level_keeps (fromRoot_next hm) (fun _ hc => List.mem_singleton.mp hc ▸ fromRoot_start) n

/-- A root's rows of a turn are those read on from it. -/
theorem working_of_root (hm : m ∈ b.movements.filter isRoot) (n : ℕ) :
    ((working b.movements n).filter fun c => !c.isCycle).filter
      (fun c => (c.rootId,c.rootTenantId) = (m.id,m.tenantId)) = Walk.level (chainNext b.movements) n [rootRow m] := by
  have hnodup : (b.movements.filter isRoot).Nodup := (List.Nodup.of_map _ b.ids).filter _
  rw [working_eq_level,Walk.level_each,List.flatMap_map,List.filter_filter,List.filter_flatMap]
  refine Eq.trans (List.flatMap_congr fun m' hm' => ?_) (flatMap_single hnodup hm fun m' =>
    Walk.level (chainNext b.movements) n [rootRow m'])
  split_ifs with hsame
  · subst hsame
    refine List.filter_eq_self.mpr fun c hc => ?_
    have hfrom := level_fromRoot hm' n c hc
    simp only [hfrom.root,hfrom.fresh,decide_true,Bool.not_false,Bool.and_self]
  · refine List.filter_eq_nil_iff.mpr fun c hc hkey => hsame ?_
    have hfrom := level_fromRoot hm' n c hc
    rw [hfrom.root] at hkey
    have hids : m'.id = m.id ∧ m'.tenantId = m.tenantId := by simpa [hfrom.fresh] using hkey
    exact b.eq_of_id (List.mem_filter.mp hm').1 (List.mem_filter.mp hm).1 hids.1

/-- The view's rows of a movement: one of a root, none of a correction. -/
theorem view_rows (hm : m ∈ b.movements) : (stockMovementEffective b.movements).filter (fun v =>
    v.movementId = m.id ∧ v.tenantId = m.tenantId) =
      if isRoot m then [⟨m.id,m.tenantId,walked b.movements m⟩] else [] := by
  rw [stockMovementEffective,List.filter_map]
  have hkey : ((fun v : EffectiveRow => decide (v.movementId = m.id ∧ v.tenantId = m.tenantId)) ∘
      fun g : (ℕ × ℕ) × List ChainRow => ⟨g.1.1,g.1.2,
        (g.2.map fun c => if c.depth%2 = 0 then c.quantity else -c.quantity).sum⟩) =
        fun g => decide (g.1 = (m.id,m.tenantId)) := by
    funext g
    simp [Prod.ext_iff]
  rw [hkey,filter_groups]
  by_cases hroot : isRoot m = true
  · have hmroot : m ∈ b.movements.filter isRoot := List.mem_filter.mpr ⟨hm,hroot⟩
    have hrows : ((chain b.movements).filter fun c => !c.isCycle).filter
        (fun c => (c.rootId,c.rootTenantId) = (m.id,m.tenantId)) =
          Walk.rows (chainNext b.movements) (b.movements.length+1) [rootRow m] := by
      rw [chain,List.filter_flatMap,List.filter_flatMap,Walk.rows]
      exact List.flatMap_congr fun n _ => working_of_root hmroot n
    have hmem : (m.id,m.tenantId) ∈ ((chain b.movements).filter fun c => !c.isCycle).map
        fun c => (c.rootId,c.rootTenantId) := by
      have hin : rootRow m ∈ ((chain b.movements).filter fun c => !c.isCycle).filter
          (fun c => (c.rootId,c.rootTenantId) = (m.id,m.tenantId)) := by
        rw [hrows]
        exact List.mem_flatMap.mpr ⟨0,by simp,List.mem_singleton.mpr rfl⟩
      exact List.mem_map.mpr ⟨rootRow m,(List.mem_filter.mp hin).1,rfl⟩
    rw [if_pos hmem,if_pos hroot,List.map_singleton,hrows]
    rfl
  · have hnot : (m.id,m.tenantId) ∉ ((chain b.movements).filter fun c => !c.isCycle).map
        fun c => (c.rootId,c.rootTenantId) := by
      intro hin
      obtain ⟨c,hc,hkey⟩ := List.mem_map.mp hin
      obtain ⟨n,-,hwork⟩ := List.mem_flatMap.mp (List.mem_filter.mp hc).1
      rw [working_eq_level,Walk.level_each,List.flatMap_map] at hwork
      obtain ⟨m',hm',hlevel⟩ := List.mem_flatMap.mp hwork
      have hid := (level_fromRoot hm' n c hlevel).root.symm.trans hkey
      obtain ⟨hmem',hroot'⟩ := List.mem_filter.mp hm'
      rw [b.eq_of_id hmem' hm (Prod.ext_iff.mp hid).1] at hroot'
      exact hroot hroot'
    rw [if_neg hnot,if_neg hroot,List.map_nil]

end

/-- The join gives every root, with what is left of it. -/
theorem effectives_eq (b : LineLedger) : effectives b.movements =
    (b.movements.filter fun m => isRoot m.movement).map fun m => (m,walked b.ledger m.movement) := by
  have hsplit : ∀ ms : List StockMovement, (ms.flatMap fun m =>
      if isRoot m.movement then [(m,walked b.ledger m.movement)] else []) =
        (ms.filter fun m => isRoot m.movement).map fun m => (m,walked b.ledger m.movement) := by
    intro ms
    induction ms with
    | nil => rfl
    | cons m ms ih =>
      rw [List.flatMap_cons,ih,List.filter_cons]
      split <;> rfl
  rw [effectives,← hsplit]
  refine List.flatMap_congr fun m hm => ?_
  have hrows := view_rows (b := b.book) (List.mem_map_of_mem (f := StockMovement.movement) hm)
  rw [show b.movements.map StockMovement.movement = b.book.movements from rfl,hrows]
  split <;> rfl

end Outbound
end Spork
