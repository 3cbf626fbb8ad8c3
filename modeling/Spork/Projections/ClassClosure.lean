import Spork.Lib.Depth
import Spork.Lib.Settle
import Spork.Lib.Walk

/-! The closure of a tenant's classes, each with what it is under and how far
(`projection_item_class_closure_rebuild`, and the same for a party's classes). -/
namespace Spork
namespace ClassClosure

open Forest (up)

variable {ι : Type} [DecidableEq ι]

structure Class (ι : Type) where
  tenant : ι
  id : ι
  parent : Option ι
  deriving DecidableEq, Repr

/-- The classes of every tenant, by their ids. -/
structure Classes (ι : Type) where
  rows : List (Class ι)
  ids : (rows.map (·.id)).Nodup

structure ClosureRow (ι : Type) where
  tenant : ι
  ancestor : ι
  descendant : ι
  depth : ℕ
  deriving DecidableEq, Repr

def ClosureRow.key (r : ClosureRow ι) : ι × ι := (r.ancestor,r.descendant)

/-- The closure as it is stored, by its primary key. -/
structure Closure (ι : Type) [DecidableEq ι] where
  rows : List (ClosureRow ι)
  keys : (rows.map ClosureRow.key).Nodup

/-- A row of the query down the classes: `cycle_path` holds the descendants so far, and the
row that closes a loop is not read on from. -/
structure TreeRow (ι : Type) extends ClosureRow ι where
  isCycle : Bool
  cyclePath : List ι
  deriving DecidableEq, Repr

variable (tenant : ι) (classes : Classes ι)

/-- A tenant's own. -/
def own : List (Class ι) := classes.rows.filter fun c => c.tenant = tenant

/-- Every node is its own ancestor at depth zero. -/
def start : List (TreeRow ι) := (own tenant classes).map fun c => ⟨⟨c.tenant,c.id,c.id,0⟩,false,[c.id]⟩

/-- The rows read on from a row: one for each class under its descendant. -/
def next (t : TreeRow ι) : List (TreeRow ι) :=
  if t.isCycle then []
  else (classes.rows.filter fun c => c.parent = some t.descendant ∧ c.tenant = t.tenant).map fun c =>
    ⟨⟨t.tenant,t.ancestor,c.id,t.depth+1⟩,decide (c.id ∈ t.cyclePath),t.cyclePath++[c.id]⟩

/-- All rows: no turn past as many as there are classes adds one (`tree_ends`). -/
def tree : List (TreeRow ι) := Walk.rows (next classes) ((own tenant classes).length+1) (start tenant classes)

/-- Each pair once, with its least depth. -/
def computed : List (ClosureRow ι) :=
  (GroupBy.groups (fun t : TreeRow ι => (t.tenant,t.key)) ((tree tenant classes).filter fun t => !t.isCycle)).map
    fun g => ⟨g.1.1,g.1.2.1,g.1.2.2,((g.2.map fun t => t.depth).min?).getD 0⟩

/-- Whether the stored row is distinct from the one computed. -/
def differs (x r : ClosureRow ι) : Bool := (x.depth,x.tenant) ≠ (r.depth,r.tenant)

theorem differs_self (r : ClosureRow ι) : differs r r = false := by simp [differs]

/-- On a conflict the depth and tenant are written where they differ. -/
def upsert (x r : ClosureRow ι) : ClosureRow ι := if differs x r then {x with depth := r.depth, tenant := r.tenant} else x

theorem upsert_eq {x r : ClosureRow ι} (h : x.key = r.key) : upsert x r = r := by
  obtain ⟨ta,a,c,d⟩ := x
  obtain ⟨tb,b,e,f⟩ := r
  obtain ⟨rfl,rfl⟩ := Prod.mk.inj h
  unfold upsert differs
  split
  · rfl
  · rename_i hsame
    simp at hsame
    rw [hsame.1,hsame.2]

/-! ## The way down -/

/-- What a tenant's class is under. -/
def parentOf (c : ι) : Option ι := ((own tenant classes).find? fun x => x.id = c).bind (·.parent)

variable {tenant classes} {a c : ι} {n : ℕ} {t : TreeRow ι}

theorem own_ids : ((own tenant classes).map (·.id)).Nodup := classes.ids.sublist (List.filter_sublist.map _)

theorem parentOf_eq_some : parentOf tenant classes c = some a ↔ ∃ x ∈ own tenant classes, x.id = c ∧ x.parent = some a := by
  constructor
  · intro h
    obtain ⟨x,hfind,hparent⟩ := Option.bind_eq_some_iff.mp h
    exact ⟨x,List.mem_of_find?_eq_some hfind,by simpa using List.find?_some hfind,hparent⟩
  · rintro ⟨x,hx,rfl,hparent⟩
    rw [parentOf,GroupBy.find_keyed own_ids hx,Option.bind_some,hparent]

/-- A row's path is the way up from its class to its ancestor, from the top. -/
structure Down (tenant : ι) (classes : Classes ι) (n : ℕ) (t : TreeRow ι) : Prop where
  tenant_eq : t.tenant = tenant
  depth : t.depth = n
  path : t.cyclePath.map some = (List.range (n+1)).reverse.map fun i => up (parentOf tenant classes) i t.descendant
  top : up (parentOf tenant classes) n t.descendant = some t.ancestor
  there : t.cyclePath ⊆ (own tenant classes).map (·.id)
  cycle : t.isCycle = false ↔ t.cyclePath.Nodup

theorem start_down : ∀ t ∈ start tenant classes, Down tenant classes 0 t := by
  intro t ht
  obtain ⟨c,hc,rfl⟩ := List.mem_map.mp ht
  exact {
    tenant_eq := by simpa using (List.mem_filter.mp hc).2
    depth := rfl
    path := rfl
    top := rfl
    there := by simpa using ⟨c,hc,rfl⟩
    cycle := by simp }

theorem mem_next {t' : TreeRow ι} : t' ∈ next classes t ↔ t.isCycle = false ∧
    ∃ c ∈ classes.rows, c.parent = some t.descendant ∧ c.tenant = t.tenant ∧
      t' = ⟨⟨t.tenant,t.ancestor,c.id,t.depth+1⟩,decide (c.id ∈ t.cyclePath),t.cyclePath++[c.id]⟩ := by
  unfold next
  cases hcycle : t.isCycle with
  | true => simp
  | false =>
    rw [if_neg Bool.false_ne_true,List.mem_map]
    constructor
    · rintro ⟨c,hc,rfl⟩
      obtain ⟨hmem,hof⟩ := List.mem_filter.mp hc
      obtain ⟨hparent,htenant⟩ := of_decide_eq_true hof
      exact ⟨rfl,c,hmem,hparent,htenant,rfl⟩
    · rintro ⟨-,c,hmem,hparent,htenant,rfl⟩
      exact ⟨c,List.mem_filter.mpr ⟨hmem,decide_eq_true ⟨hparent,htenant⟩⟩,rfl⟩

/-- A step down is a step longer way up. -/
theorem up_next {x : Class ι} (hx : x ∈ own tenant classes) (hparent : x.parent = some a) (i : ℕ) :
    up (parentOf tenant classes) (i+1) x.id = up (parentOf tenant classes) i a := by
  have hone : parentOf tenant classes x.id = some a := parentOf_eq_some.mpr ⟨x,hx,rfl,hparent⟩
  rw [Nat.add_comm,Forest.up_add,up,up,Option.bind_some,hone,Option.bind_some]

theorem Down.next (h : Down tenant classes n t) : ∀ t' ∈ next classes t, Down tenant classes (n+1) t' := by
  intro t' ht'
  obtain ⟨hcycle,x,hx,hparent,htenant,rfl⟩ := mem_next.mp ht'
  have hown : x ∈ own tenant classes := List.mem_filter.mpr ⟨hx,decide_eq_true (htenant.trans h.tenant_eq)⟩
  exact {
    tenant_eq := h.tenant_eq
    depth := by simp [h.depth]
    path := by
      rw [List.map_append,h.path,List.range_succ_eq_map (n := n+1),List.reverse_cons,List.map_append,← List.map_reverse,
        List.map_map]
      refine congrArg (·++[some x.id]) (List.map_congr_left fun i _ => ?_)
      exact (up_next hown hparent i).symm
    top := (up_next hown hparent n).trans h.top
    there := by
      intro y hy
      rcases List.mem_append.mp hy with hin | hlast
      · exact h.there hin
      · rw [List.mem_singleton.mp hlast]
        exact List.mem_map_of_mem hown
    cycle := by
      have hnodup := h.cycle.mp hcycle
      simp only [decide_eq_false_iff_not,List.nodup_append,hnodup,List.nodup_singleton,true_and,List.mem_singleton]
      exact ⟨fun hout a ha b hb hab => hout (hb ▸ hab ▸ ha),fun hall hin => hall _ hin _ rfl rfl⟩ }

/-- Every row's way up is its path. -/
theorem level_down (n : ℕ) : ∀ t ∈ Walk.level (next classes) n (start tenant classes), Down tenant classes n t :=
  Walk.level_keeps (fun _ _ h t' ht' => h.next t' ht') start_down n

theorem Down.length (h : Down tenant classes n t) : t.cyclePath.length = n+1 := by
  have hlength := congrArg List.length h.path
  simpa using hlength

/-- A way up a step long at least starts at one of the tenant's own. -/
theorem mem_of_up {n : ℕ} (h : up (parentOf tenant classes) (n+1) c = some a) : c ∈ (own tenant classes).map (·.id) := by
  rw [Nat.add_comm,Forest.up_add,up,up,Option.bind_some] at h
  obtain ⟨p,hp,-⟩ := Option.bind_eq_some_iff.mp h
  obtain ⟨x,hx,rfl,-⟩ := parentOf_eq_some.mp hp
  exact List.mem_map_of_mem hx

/-- So many steps up and no fewer. -/
def Steps (tenant : ι) (classes : Classes ι) (n : ℕ) (c a : ι) : Prop :=
  up (parentOf tenant classes) n c = some a ∧ ∀ m < n, up (parentOf tenant classes) m c ≠ some a

/-- A row that closes no loop is as many steps down as it can be. -/
theorem Down.steps (h : Down tenant classes n t) (hcycle : t.isCycle = false) :
    Steps tenant classes n t.descendant t.ancestor := by
  refine ⟨h.top,fun m hm hagain => ?_⟩
  have hnodup : ((List.range (n+1)).reverse.map fun i => up (parentOf tenant classes) i t.descendant).Nodup := by
    rw [← h.path]
    exact (h.cycle.mp hcycle).map (Option.some_injective ι)
  rw [List.map_reverse,List.nodup_reverse] at hnodup
  have hsame := List.inj_on_of_nodup_map hnodup (List.mem_range.mpr (show m < n+1 by omega))
    (List.mem_range.mpr n.lt_succ_self) (hagain.trans h.top.symm)
  omega

/-- A class's own row, or that of the class it is under read on from, for each it is under. -/
theorem exists_row (n : ℕ) : ∀ c, Steps tenant classes n c a → c ∈ (own tenant classes).map (·.id) →
    a ∈ (own tenant classes).map (·.id) →
    ∃ t ∈ Walk.level (next classes) n (start tenant classes), t.isCycle = false ∧ t.ancestor = a ∧ t.descendant = c := by
  induction n with
  | zero =>
    intro c h hc _
    obtain rfl : c = a := Option.some.inj h.1
    obtain ⟨x,hx,rfl⟩ := List.mem_map.mp hc
    exact ⟨_,List.mem_map.mpr ⟨x,hx,rfl⟩,rfl,rfl,rfl⟩
  | succ n ih =>
    intro c h hc ha
    obtain ⟨x,hx,rfl⟩ := List.mem_map.mp hc
    have hparent : ∃ p, x.parent = some p := by
      have hup := h.1
      rw [Nat.add_comm,Forest.up_add,up,up,Option.bind_some] at hup
      obtain ⟨p,hp,-⟩ := Option.bind_eq_some_iff.mp hup
      obtain ⟨y,hy,hid,hp⟩ := parentOf_eq_some.mp hp
      rw [List.inj_on_of_nodup_map own_ids hy hx hid] at hp
      exact ⟨p,hp⟩
    obtain ⟨p,hp⟩ := hparent
    have hsteps : Steps tenant classes n p a := by
      refine ⟨(up_next hx hp n).symm.trans h.1,fun m hm hagain => ?_⟩
      exact h.2 (m+1) (by omega) ((up_next hx hp m).trans hagain)
    have hpmem : p ∈ (own tenant classes).map (·.id) := by
      cases n with
      | zero =>
        obtain rfl : p = a := Option.some.inj hsteps.1
        exact ha
      | succ n => exact mem_of_up hsteps.1
    obtain ⟨t,ht,hcycle,hancestor,rfl⟩ := ih p hsteps hpmem ha
    have hdown := level_down n t ht
    -- a class on the way up to the top would be as far from it again
    have hfree : x.id ∉ t.cyclePath := by
      intro hin
      have hon : some x.id ∈ (List.range (n+1)).reverse.map fun i => up (parentOf tenant classes) i t.descendant := by
        rw [← hdown.path]
        exact List.mem_map_of_mem hin
      obtain ⟨i,hi,hup⟩ := List.mem_map.mp hon
      rw [List.mem_reverse,List.mem_range] at hi
      have hround : up (parentOf tenant classes) (i+1) x.id = some x.id := (up_next hx hp i).trans hup
      have htop := h.1
      rw [show n+1 = i+1+(n-i) by omega,Forest.up_add,hround,Option.bind_some] at htop
      exact h.2 (n-i) (by omega) htop
    refine ⟨⟨⟨t.tenant,t.ancestor,x.id,t.depth+1⟩,decide (x.id ∈ t.cyclePath),t.cyclePath++[x.id]⟩,
      List.mem_flatMap.mpr ⟨t,ht,mem_next.mpr ⟨hcycle,x,(List.mem_filter.mp hx).1,hp,?_,rfl⟩⟩,decide_eq_false hfree,hancestor,rfl⟩
    exact (of_decide_eq_true (List.mem_filter.mp hx).2).trans hdown.tenant_eq.symm

/-- The query ends: a path that closes no loop has each class once. -/
theorem tree_ends {n : ℕ} (hn : (own tenant classes).length < n) : Walk.level (next classes) n (start tenant classes) = [] := by
  refine List.eq_nil_iff_forall_not_mem.mpr fun t ht => ?_
  obtain ⟨n,rfl⟩ := Nat.exists_eq_add_of_le' (show 1 ≤ n by omega)
  obtain ⟨before,hbefore,hnext⟩ := List.mem_flatMap.mp ht
  have hdown := level_down n before hbefore
  have hnodup := hdown.cycle.mp (mem_next.mp hnext).1
  have hle := (hnodup.subperm hdown.there).length_le
  rw [hdown.length,List.length_map] at hle
  omega

theorem steps_unique {n m : ℕ} (hn : Steps tenant classes n c a) (hm : Steps tenant classes m c a) : n = m := by
  rcases lt_trichotomy n m with h | h | h
  · exact absurd hn.1 (hm.2 n h)
  · exact h
  · exact absurd hm.1 (hn.2 m h)

/-- What is on a row's way up is on its path. -/
theorem Down.mem_path (h : Down tenant classes n t) {i : ℕ} (hi : i ≤ n)
    (hup : up (parentOf tenant classes) i t.descendant = some a) : a ∈ t.cyclePath := by
  have hon : some a ∈ (List.range (n+1)).reverse.map fun i => up (parentOf tenant classes) i t.descendant :=
    List.mem_map.mpr ⟨i,by rw [List.mem_reverse,List.mem_range]; omega,hup⟩
  rw [← h.path] at hon
  obtain ⟨b,hb,heq⟩ := List.mem_map.mp hon
  exact Option.some.inj heq ▸ hb

/-- A row that closes no loop is of two of the tenant's own, so many steps apart. -/
theorem tree_sound (ht : t ∈ tree tenant classes) (hcycle : t.isCycle = false) :
    t.tenant = tenant ∧ t.ancestor ∈ (own tenant classes).map (·.id) ∧ t.descendant ∈ (own tenant classes).map (·.id) ∧
      Steps tenant classes t.depth t.descendant t.ancestor := by
  obtain ⟨n,-,ht⟩ := List.mem_flatMap.mp ht
  have hdown := level_down n t ht
  refine ⟨hdown.tenant_eq,hdown.there (hdown.mem_path le_rfl hdown.top),hdown.there (hdown.mem_path n.zero_le rfl),?_⟩
  rw [hdown.depth]
  exact hdown.steps hcycle

theorem tree_complete {d : ℕ} (h : Steps tenant classes d c a) (hc : c ∈ (own tenant classes).map (·.id))
    (ha : a ∈ (own tenant classes).map (·.id)) :
    ∃ t ∈ tree tenant classes, t.isCycle = false ∧ t.toClosureRow = ⟨tenant,a,c,d⟩ := by
  obtain ⟨t,ht,hcycle,rfl,rfl⟩ := exists_row d c h hc ha
  have hdown := level_down d t ht
  have hd : d < (own tenant classes).length+1 := by
    by_contra hlong
    rw [tree_ends (show (own tenant classes).length < d by omega)] at ht
    cases ht
  refine ⟨t,List.mem_flatMap.mpr ⟨d,List.mem_range.mpr hd,ht⟩,hcycle,?_⟩
  rw [← hdown.tenant_eq,← hdown.depth]

/-- A pair's rows that close no loop have one depth. -/
theorem group_depth {g : (ι × ι × ι) × List (TreeRow ι)} (hg : g ∈ GroupBy.groups (fun t : TreeRow ι => (t.tenant,t.key))
    ((tree tenant classes).filter fun t => !t.isCycle)) :
    ∃ t ∈ tree tenant classes, t.isCycle = false ∧ (t.tenant,t.key) = g.1 ∧
      ((g.2.map fun t => t.depth).min?).getD 0 = t.depth := by
  obtain ⟨⟨t,ht,hkey⟩,hrows⟩ := GroupBy.mem_groups hg
  obtain ⟨htree,hcycle⟩ := List.mem_filter.mp ht
  have hno : t.isCycle = false := by simpa using hcycle
  refine ⟨t,htree,hno,hkey,?_⟩
  have hall : ∀ d ∈ g.2.map fun t => t.depth, t.depth ≤ d := by
    intro d hd
    obtain ⟨s,hs,rfl⟩ := List.mem_map.mp hd
    rw [hrows] at hs
    obtain ⟨hin,hsame⟩ := List.mem_filter.mp hs
    obtain ⟨hstree,hscycle⟩ := List.mem_filter.mp hin
    have hskey : (s.tenant,s.key) = (t.tenant,t.key) := (of_decide_eq_true hsame).trans hkey.symm
    obtain ⟨-,hanc,hdesc⟩ : s.tenant = t.tenant ∧ s.ancestor = t.ancestor ∧ s.descendant = t.descendant := by
      simpa [ClosureRow.key] using hskey
    have hs' := (tree_sound hstree (by simpa using hscycle)).2.2.2
    rw [hanc,hdesc] at hs'
    exact (steps_unique (tree_sound htree hno).2.2.2 hs').le
  have hmem : t.depth ∈ g.2.map fun t => t.depth := by
    rw [hrows]
    exact List.mem_map_of_mem (List.mem_filter.mpr ⟨ht,decide_eq_true hkey⟩)
  rw [List.min?_eq_some_iff.mpr ⟨hmem,hall⟩,Option.getD_some]

/-- The computed rows are the pairs of the tenant's own of which one is under the other,
with the steps between them. -/
theorem mem_computed {r : ClosureRow ι} : r ∈ computed tenant classes ↔ r.tenant = tenant ∧
    r.ancestor ∈ (own tenant classes).map (·.id) ∧ r.descendant ∈ (own tenant classes).map (·.id) ∧
      Steps tenant classes r.depth r.descendant r.ancestor := by
  constructor
  · intro hr
    obtain ⟨g,hg,rfl⟩ := List.mem_map.mp hr
    obtain ⟨t,ht,hcycle,hkey,hdepth⟩ := group_depth hg
    rw [← hkey,hdepth]
    exact tree_sound ht hcycle
  · rintro ⟨htenant,ha,hc,hsteps⟩
    obtain ⟨t,ht,hcycle,heq⟩ := tree_complete hsteps hc ha
    have hrow : t ∈ (tree tenant classes).filter fun t => !t.isCycle := List.mem_filter.mpr ⟨ht,by simpa using hcycle⟩
    have hg := List.mem_of_find?_eq_some (GroupBy.find_groups (fun t : TreeRow ι => (t.tenant,t.key)) _ ⟨t,hrow,rfl⟩)
    refine List.mem_map.mpr ⟨_,hg,?_⟩
    obtain ⟨s,hs,hscycle,hskey,hdepth⟩ := group_depth hg
    simp only at hdepth ⊢
    have hsame : (s.tenant,s.ancestor,s.descendant) = (r.tenant,r.ancestor,r.descendant) := by
      refine hskey.trans ?_
      rw [heq]
      exact congrArg (fun x => (x,r.ancestor,r.descendant)) htenant.symm
    obtain ⟨-,hanc,hdesc⟩ : s.tenant = r.tenant ∧ s.ancestor = r.ancestor ∧ s.descendant = r.descendant := by
      simpa using hsame
    have hsteps' := (tree_sound hs hscycle).2.2.2
    rw [hanc,hdesc] at hsteps'
    rw [hdepth,steps_unique hsteps' hsteps]
    rw [heq]
    exact congrArg (fun x => ClosureRow.mk x r.ancestor r.descendant r.depth) htenant.symm

theorem computed_keys : ((computed tenant classes).map ClosureRow.key).Nodup := by
  have hkeys : (computed tenant classes).map (fun r => (r.tenant,r.key)) =
      (((tree tenant classes).filter fun t => !t.isCycle).map fun t => (t.tenant,t.key)).dedup := by
    simp [computed,GroupBy.groups,ClosureRow.key,Function.comp_def]
  have hnodup : ((computed tenant classes).map fun r => (r.tenant,r.key)).Nodup := hkeys ▸ List.nodup_dedup _
  have hsnd : (computed tenant classes).map ClosureRow.key = ((computed tenant classes).map fun r => (r.tenant,r.key)).map Prod.snd := by
    simp [Function.comp_def]
  rw [hsnd]
  refine hnodup.map_on fun x hx y hy hxy => ?_
  obtain ⟨r,hr,rfl⟩ := List.mem_map.mp hx
  obtain ⟨q,hq,rfl⟩ := List.mem_map.mp hy
  exact Prod.ext ((mem_computed.mp hr).1.trans (mem_computed.mp hq).1.symm) hxy

/-! ## The rebuild -/

/-- The stored closure brought to the one computed, and how many rows it touched. -/
def closureRebuild (tenant : ι) (classes : Classes ι) (x : Closure ι) : Closure ι × ℕ :=
  (⟨Settle.settle ClosureRow.key (fun r => r.tenant = tenant) upsert (computed tenant classes) x.rows,
    Settle.settle_keys computed_keys (fun _ _ => upsert_eq) x.keys⟩,
    Settle.touched ClosureRow.key (fun r => r.tenant = tenant) differs (computed tenant classes) x.rows)

def projectionItemClassClosureRebuild (tenant : ι) (itemClasses : Classes ι) (itemClassClosure : Closure ι) : Closure ι × ℕ :=
  closureRebuild tenant itemClasses itemClassClosure

def projectionPartyClassClosureRebuild (tenant : ι) (partyClasses : Classes ι) (partyClassClosure : Closure ι) :
    Closure ι × ℕ :=
  closureRebuild tenant partyClasses partyClassClosure

/-- The rebuild ends, and leaves for each of the tenant's classes one row for each class it
is or is under, with the least number of steps up for its depth; done again it touches nothing. -/
theorem item_class_closure_exact (tenant : ι) (itemClasses : Classes ι) (x : Closure ι) :
    (∀ n, (own tenant itemClasses).length < n → Walk.level (next itemClasses) n (start tenant itemClasses) = []) ∧
    (∀ r : ClosureRow ι, r.tenant = tenant → (r ∈ (projectionItemClassClosureRebuild tenant itemClasses x).1.rows ↔
      r.ancestor ∈ (own tenant itemClasses).map (·.id) ∧ r.descendant ∈ (own tenant itemClasses).map (·.id) ∧
        Steps tenant itemClasses r.depth r.descendant r.ancestor)) ∧
    ((projectionItemClassClosureRebuild tenant itemClasses x).1.rows.map ClosureRow.key).Nodup ∧
    projectionItemClassClosureRebuild tenant itemClasses (projectionItemClassClosureRebuild tenant itemClasses x).1 =
      ((projectionItemClassClosureRebuild tenant itemClasses x).1,0) := by
  refine ⟨fun n hn => tree_ends hn,fun r hr => ?_,(projectionItemClassClosureRebuild tenant itemClasses x).1.keys,?_⟩
  · refine (Settle.mem_settle computed_keys fun _ _ => upsert_eq).trans ?_
    rw [mem_computed]
    constructor
    · rintro (⟨-,ha,hc,hsteps⟩ | ⟨-,hother,-⟩)
      · exact ⟨ha,hc,hsteps⟩
      · exact absurd hr (of_decide_eq_false hother)
    · rintro ⟨ha,hc,hsteps⟩
      exact .inl ⟨hr,ha,hc,hsteps⟩
  · have hagain : Settle.settle ClosureRow.key (fun r => r.tenant = tenant) upsert (computed tenant itemClasses)
          (projectionItemClassClosureRebuild tenant itemClasses x).1.rows =
            (projectionItemClassClosureRebuild tenant itemClasses x).1.rows ∧
        Settle.touched ClosureRow.key (fun r => r.tenant = tenant) differs (computed tenant itemClasses)
          (projectionItemClassClosureRebuild tenant itemClasses x).1.rows = 0 :=
      Settle.settle_again computed_keys (fun _ _ => upsert_eq) differs_self x.keys
    refine Prod.ext ?_ hagain.2
    show Closure.mk _ _ = Closure.mk _ _
    congr 1
    exact hagain.1

end ClassClosure
end Spork
