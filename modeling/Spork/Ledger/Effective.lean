import Spork.Ledger.Movement

/-! What is left of each movement after its corrections, as the view
`stock_movement_effective` works it out: a walk from the roots down, a level at a time,
and one signed sum for each root. -/
namespace Spork
namespace Ledger

open GroupBy

/-- A row of the view's recursive query. -/
structure ChainRow where
  rootId : ℕ
  rootTenantId : ℕ
  movementId : ℕ
  quantity : ℤ
  depth : ℕ
  /-- The movements on the way here, this one last. -/
  correctionPath : List ℕ
  /-- Whether this one was on the way already. Nothing is read on from there. -/
  isCycle : Bool
  deriving DecidableEq, Repr

structure EffectiveRow where
  movementId : ℕ
  tenantId : ℕ
  effectiveQuantity : ℤ
  deriving DecidableEq, Repr

section
variable (ms : List Movement)

/-- The roots. A correction is never one. -/
def chainRoots : List ChainRow :=
  (ms.filter isRoot).map fun m => ⟨m.id,m.tenantId,m.id,m.quantity,0,[m.id],false⟩

/-- The corrections to a row's movement. -/
def chainNext (c : ChainRow) : List ChainRow :=
  if c.isCycle then []
  else (ms.filter fun r => r.reversesMovementId = some c.movementId).map fun r =>
    ⟨c.rootId,c.rootTenantId,r.id,r.quantity,c.depth+1,c.correctionPath++[r.id],
      decide (r.id ∈ c.correctionPath)⟩

/-- The rows each turn of the query adds. -/
def working : ℕ → List ChainRow
  | 0 => chainRoots ms
  | n+1 => (working n).flatMap (chainNext ms)

/-- All rows: no turn past as many as there are movements adds one (`working_ends`). -/
def chain : List ChainRow := (List.range (ms.length+1)).flatMap (working ms)

def stockMovementEffective : List EffectiveRow :=
  (groups (fun c => (c.rootId,c.rootTenantId)) ((chain ms).filter fun c => !c.isCycle)).map fun g =>
    ⟨g.1.1,g.1.2,(g.2.map fun c => if c.depth%2 = 0 then c.quantity else -c.quantity).sum⟩

end

/-! ## The query ends -/

/-- What is so of the rows of a turn: each goes one movement further, and none but the
last a second time. -/
structure Walked (ms : List Movement) (n : ℕ) (c : ChainRow) : Prop where
  length : c.correctionPath.length = n+1
  ids : ∀ i ∈ c.correctionPath, i ∈ ms.map Movement.id
  nodup : c.isCycle = false → c.correctionPath.Nodup

theorem working_walked {ms : List Movement} {n : ℕ} {c : ChainRow} (hc : c ∈ working ms n) :
    Walked ms n c := by
  induction n generalizing c with
  | zero =>
    obtain ⟨m,hm,rfl⟩ := List.mem_map.mp hc
    have hmem := List.mem_map_of_mem (f := Movement.id) (List.mem_filter.mp hm).1
    exact ⟨rfl,by simpa using List.mem_map.mp hmem,fun _ => List.nodup_singleton _⟩
  | succ n ih =>
    obtain ⟨p,hp,hnext⟩ := List.mem_flatMap.mp hc
    obtain ⟨hlength,hids,hnodup⟩ := ih hp
    unfold chainNext at hnext
    split_ifs at hnext with hcycle
    · cases hnext
    · obtain ⟨r,hr,rfl⟩ := List.mem_map.mp hnext
      have hmem := List.mem_map_of_mem (f := Movement.id) (List.mem_filter.mp hr).1
      refine ⟨by simp [hlength],fun i hi => ?_,fun hfresh => ?_⟩
      · rcases List.mem_append.mp hi with hi | hi
        · exact hids i hi
        · rwa [List.mem_singleton.mp hi]
      · refine List.nodup_append.mpr ⟨hnodup (by simpa using hcycle),List.nodup_singleton _,?_⟩
        intro x hx y hy heq
        rw [List.mem_singleton.mp hy] at heq
        simp [← heq,hx] at hfresh

/-- The query ends, whatever the links: no turn past as many as there are movements adds
a row. -/
theorem working_ends (ms : List Movement) : working ms (ms.length+1) = [] := by
  rw [working,List.flatMap_eq_nil_iff]
  intro c hc
  obtain ⟨hlength,hids,hnodup⟩ := working_walked hc
  unfold chainNext
  split_ifs with hcycle
  · rfl
  · have hle := ((hnodup (by simpa using hcycle)).subperm hids).length_le
    rw [hlength,List.length_map] at hle
    omega

/-! ## The rows are the branches below the roots -/

variable {b : Book} {h : Acyclic b.movements}

/-- The row at the end of a branch below a root. -/
def branchRow (root : Movement) (n : ℕ) (x : Movement × List Movement) : ChainRow :=
  ⟨root.id,root.tenantId,x.1.id,x.1.quantity,n,((x.1 :: x.2).map Movement.id).reverse,false⟩

theorem branches_mem {ms : List Movement} {root : Movement} (hroot : root ∈ ms) {n : ℕ}
    {x : Movement × List Movement} (hx : x ∈ Forest.branches (corrections ms) n root) :
    ∀ m ∈ x.1 :: x.2, m ∈ ms := by
  induction n generalizing x with
  | zero =>
    obtain rfl := List.mem_singleton.mp hx
    simpa using hroot
  | succ n ih =>
    obtain ⟨p,hp,hmem⟩ := List.mem_flatMap.mp hx
    obtain ⟨c,hc,rfl⟩ := List.mem_map.mp hmem
    intro m hm
    rcases List.mem_cons.mp hm with rfl | hm
    · exact (List.mem_filter.mp hc).1
    · exact ih hp m hm

/-- A correction to the end of a branch was not on the way there. -/
theorem chainNext_branchRow (h : Acyclic b.movements) {root : Movement} (hroot : root ∈ b.movements)
    {n : ℕ} {x : Movement × List Movement}
    (hx : x ∈ Forest.branches (corrections b.movements) n root) :
    chainNext b.movements (branchRow root n x) =
      (corrections b.movements x.1).map fun r => branchRow root (n+1) (r,x.1 :: x.2) := by
  rw [chainNext,if_neg (by simp [branchRow])]
  refine List.map_congr_left fun r hr => ?_
  have hfresh : r.id ∉ (branchRow root n x).correctionPath := by
    intro hin
    obtain ⟨y,hy,hid⟩ := List.mem_map.mp (List.mem_reverse.mp hin)
    have hsame : y = r := b.eq_of_id (branches_mem hroot hx y hy) (List.mem_filter.mp hr).1 hid
    have hbelow : Relation.TransGen (fun c p => c ∈ corrections b.movements p) r x.1 :=
      Relation.TransGen.single hr
    rcases List.mem_cons.mp hy with heq | hy
    · rw [hsame.symm.trans heq] at hbelow
      exact h.not_below x.1 hbelow
    · rw [hsame] at hy
      exact h.not_below r (hbelow.trans (Forest.branches_below hx r hy))
  rw [decide_eq_false hfresh]
  simp [branchRow]

theorem working_eq (h : Acyclic b.movements) (n : ℕ) : working b.movements n =
    (b.movements.filter isRoot).flatMap fun m =>
      (Forest.branches (corrections b.movements) n m).map (branchRow m n) := by
  induction n with
  | zero =>
    simp only [working,chainRoots,Forest.branches,List.map_cons,List.map_nil]
    exact List.map_eq_flatMap
  | succ n ih =>
    rw [working,ih,List.flatMap_assoc]
    refine List.flatMap_congr fun m hm => ?_
    rw [List.flatMap_map,Forest.branches,List.map_flatMap]
    refine List.flatMap_congr fun x hx => ?_
    rw [chainNext_branchRow h (List.mem_filter.mp hm).1 hx,List.map_map]
    rfl

theorem flatMap_single {α β : Type*} [DecidableEq α] {xs : List α} (hnodup : xs.Nodup) {a : α}
    (ha : a ∈ xs) (f : α → List β) : (xs.flatMap fun x => if x = a then f x else []) = f a := by
  induction xs with
  | nil => cases ha
  | cons x xs ih =>
    obtain ⟨hfresh,hrest⟩ := List.nodup_cons.mp hnodup
    rw [List.flatMap_cons]
    rcases List.mem_cons.mp ha with rfl | ha
    · have hothers : (xs.flatMap fun x => if x = a then f x else []) = [] := by
        refine List.flatMap_eq_nil_iff.mpr fun x hx => if_neg ?_
        rintro rfl
        exact hfresh hx
      rw [if_pos rfl,hothers,List.append_nil]
    · have hne : x ≠ a := by
        rintro rfl
        exact hfresh ha
      rw [if_neg hne,List.nil_append,ih hrest ha]

/-- A root's rows of a turn are its branches of that length. -/
theorem working_root (h : Acyclic b.movements) {m : Movement} (hm : m ∈ b.movements.filter isRoot) (n : ℕ) :
    ((working b.movements n).filter fun c => !c.isCycle).filter
      (fun c => (c.rootId,c.rootTenantId) = (m.id,m.tenantId)) =
        (Forest.branches (corrections b.movements) n m).map (branchRow m n) := by
  have hnodup : (b.movements.filter isRoot).Nodup := (List.Nodup.of_map _ b.ids).filter _
  rw [working_eq h,List.filter_filter,List.filter_flatMap]
  refine Eq.trans (List.flatMap_congr fun m' hm' => ?_) (flatMap_single hnodup hm fun m' =>
    (Forest.branches (corrections b.movements) n m').map (branchRow m' n))
  rw [List.filter_map]
  split_ifs with hsame
  · subst hsame
    congr 1
    refine List.filter_eq_self.mpr fun x _ => ?_
    simp [branchRow]
  · rw [List.map_eq_nil_iff]
    refine List.filter_eq_nil_iff.mpr fun x _ hkey => hsame ?_
    have hids : m'.id = m.id ∧ m'.tenantId = m.tenantId := by simpa [branchRow] using hkey
    exact b.eq_of_id (List.mem_filter.mp hm').1 (List.mem_filter.mp hm).1 hids.1

/-- A root's rows, put together, are what is left of it. -/
theorem rows_net (h : Acyclic b.movements) {m : Movement} (hm : m ∈ b.movements.filter isRoot) :
    ((((chain b.movements).filter fun c => !c.isCycle).filter
      fun c => (c.rootId,c.rootTenantId) = (m.id,m.tenantId)).map fun c =>
        if c.depth%2 = 0 then c.quantity else -c.quantity).sum = effective h m := by
  have hend : Forest.level (corrections b.movements) (b.movements.length+1) m = [] := by
    have hnone := working_ends b.movements
    rw [working_eq h,List.flatMap_eq_nil_iff] at hnone
    rw [Forest.level,List.map_eq_nil_iff.mp (hnone m hm),List.map_nil]
  rw [effective,← Forest.signed_eq_net h Movement.quantity hend,Forest.signed,chain,
    List.filter_flatMap,List.filter_flatMap]
  simp only [working_root h hm]
  rw [Forest.sum_flatMap]
  simp [branchRow,Forest.level,Forest.alternate,Function.comp_def]

/-- The view gives each root what is left of it. -/
theorem view_effective (h : Acyclic b.movements) {m : Movement} (hm : m ∈ b.movements.filter isRoot) :
    (stockMovementEffective b.movements).find? (fun v => v.movementId = m.id ∧ v.tenantId = m.tenantId) =
      some ⟨m.id,m.tenantId,effective h m⟩ := by
  have hrow : ∃ c ∈ (chain b.movements).filter fun c => !c.isCycle,
      (c.rootId,c.rootTenantId) = (m.id,m.tenantId) := by
    refine ⟨branchRow m 0 (m,[]),List.mem_filter.mpr ⟨?_,rfl⟩,rfl⟩
    refine List.mem_flatMap.mpr ⟨0,by simp,List.mem_map.mpr ⟨m,hm,rfl⟩⟩
  have hgroup := find_groups (fun c : ChainRow => (c.rootId,c.rootTenantId)) _ hrow
  rw [stockMovementEffective,List.find?_map]
  have hkey : ((fun v : EffectiveRow => decide (v.movementId = m.id ∧ v.tenantId = m.tenantId)) ∘
      fun g : (ℕ × ℕ) × List ChainRow => ⟨g.1.1,g.1.2,
        (g.2.map fun c => if c.depth%2 = 0 then c.quantity else -c.quantity).sum⟩) =
        fun g => decide (g.1 = (m.id,m.tenantId)) := by
    funext g
    simp [Prod.ext_iff]
  rw [hkey,hgroup,Option.map_some,rows_net h hm]

end Ledger
end Spork
