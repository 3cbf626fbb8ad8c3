import Spork.Lib.Forest

/-! Forests where each node has one parent at most: what a weight on one node is to the
nodes above it, and what a leaf put on a node does to what is left of them. -/
namespace Spork
namespace Forest

variable {α : Type*} {children children' : α → List α} {parent : α → Option α} {nodes : List α}

/-- So many parents up. -/
def up (parent : α → Option α) : ℕ → α → Option α
  | 0, a => some a
  | n+1, a => (up parent n a).bind parent

theorem up_root {a : α} (h : parent a = none) (n : ℕ) : up parent (n+1) a = none := by
  induction n with
  | zero => exact h
  | succ n ih =>
    rw [up,ih]
    rfl

/-- The children of each node are those it is the parent of, each once. -/
structure Lineage (children : α → List α) (parent : α → Option α) (nodes : List α) : Prop where
  nodup : ∀ a, (children a).Nodup
  closed : ∀ a, ∀ c ∈ children a, c ∈ nodes
  parent_mem : ∀ c, ∀ a ∈ parent c, a ∈ nodes
  parent_iff : ∀ a ∈ nodes, ∀ c ∈ nodes, c ∈ children a ↔ parent c = some a

theorem up_mem (h : Lineage children parent nodes) {t a : α} (ht : t ∈ nodes) {n : ℕ}
    (ha : up parent n t = some a) : a ∈ nodes := by
  cases n with
  | zero => exact Option.some.inj ha ▸ ht
  | succ n =>
    obtain ⟨c,-,hc⟩ := Option.bind_eq_some_iff.mp ha
    exact h.parent_mem c a hc

/-- A child of a node that is up a node's line is one step below it. -/
theorem up_succ (h : Lineage children parent nodes) {t a c : α} (hc : c ∈ children a) (ha : a ∈ nodes)
    {n : ℕ} (hup : up parent n t = some c) : up parent (n+1) t = some a := by
  rw [up,hup,Option.bind_some]
  exact (h.parent_iff a ha c (h.closed a c hc)).mp hc

theorem up_add (t : α) (n k : ℕ) : up parent (n+k) t = (up parent n t).bind (up parent k) := by
  induction k with
  | zero => cases up parent n t <;> simp [up]
  | succ k ih =>
    rw [Nat.add_succ,up,ih]
    cases up parent n t <;> rfl

/-- Nobody is up their own line. -/
theorem up_below (h : Lineage children parent nodes) {t a : α} (ht : t ∈ nodes) {n : ℕ}
    (hup : up parent (n+1) t = some a) : Relation.TransGen (fun c p => c ∈ children p) t a := by
  induction n generalizing a with
  | zero =>
    have hparent : parent t = some a := hup
    exact Relation.TransGen.single ((h.parent_iff a (h.parent_mem t a hparent) t ht).mpr hparent)
  | succ n ih =>
    obtain ⟨c,hc,hparent⟩ := Option.bind_eq_some_iff.mp hup
    have hmem := h.parent_mem c a hparent
    exact (ih hc).tail ((h.parent_iff a hmem c (up_mem h ht hc)).mpr hparent)

/-- One is up a line at one distance only. -/
theorem up_unique (hg : Grounded children) (h : Lineage children parent nodes) {t a : α} (ht : t ∈ nodes)
    {n k : ℕ} (hn : up parent n t = some a) (hk : up parent k t = some a) : n = k := by
  by_contra hne
  wlog hlt : n < k generalizing n k
  · exact this hk hn (Ne.symm hne) (by omega)
  obtain ⟨d,rfl⟩ : ∃ d, k = n+(d+1) := ⟨k-n-1,by omega⟩
  rw [up_add,hn,Option.bind_some] at hk
  exact hg.not_below a (up_below h (up_mem h ht hn) hk)

/-! ## A weight on one node -/

section
variable [DecidableEq α] {G : Type*} [AddCommGroup G]

def single (t : α) (x : G) : α → G := fun a => if a = t then x else 0

/-- It is nothing to who is not up its line. -/
theorem net_single_apart (hg : Grounded children) (h : Lineage children parent nodes) {t : α} (x : G)
    {a : α} (ha : a ∈ nodes) (hapart : ∀ n, up parent n t ≠ some a) : net hg (single t x) a = 0 := by
  induction a using hg.induction with
  | h a ih =>
    have hne : a ≠ t := fun heq => hapart 0 (congrArg some heq.symm)
    have hchildren : ∀ c ∈ children a, net hg (single t x) c = 0 := fun c hc =>
      ih c hc (h.closed a c hc) fun n hup => hapart (n+1) (up_succ h hc ha hup)
    rw [net_eq,single,if_neg hne,List.map_congr_left hchildren]
    simp

/-- Up its line it counts in turn for and against. -/
theorem net_single_up (hg : Grounded children) (h : Lineage children parent nodes) {t : α} (ht : t ∈ nodes)
    (x : G) {n : ℕ} {a : α} (hup : up parent n t = some a) :
    net hg (single t x) a = alternate n x := by
  -- a child is up the line only where it is the one before
  have hapart : ∀ {n : ℕ} {a : α}, up parent n t = some a → ∀ c ∈ children a,
      (∀ k, up parent k t = some c → n ≠ k+1) → net hg (single t x) c = 0 := by
    intro n a hup c hc hnot
    have ha := up_mem h ht hup
    exact net_single_apart hg h x (h.closed a c hc) fun k hk =>
      hnot k hk (up_unique hg h ht hup (up_succ h hc ha hk))
  induction n generalizing a with
  | zero =>
    obtain rfl : t = a := Option.some.inj hup
    have hchildren : ∀ c ∈ children t, net hg (single t x) c = 0 := fun c hc =>
      hapart hup c hc fun k _ => (Nat.succ_ne_zero k).symm
    rw [net_eq,List.map_congr_left hchildren]
    simp [single,alternate]
  | succ n ih =>
    obtain ⟨c,hc,hparent⟩ := Option.bind_eq_some_iff.mp hup
    have hne : a ≠ t := fun heq => by
      have hzero : up parent 0 t = some a := congrArg some heq.symm
      cases up_unique hg h ht hzero hup
    have hchild : c ∈ children a :=
      (h.parent_iff a (up_mem h ht hup) c (up_mem h ht hc)).mpr hparent
    have hothers : ∀ c', c' ≠ c → c' ∈ children a → net hg (single t x) c' = 0 := by
      intro c' hne hc'
      refine hapart hup c' hc' fun k hk heq => hne ?_
      rw [Nat.succ_injective heq,hk] at hc
      exact Option.some.inj hc
    rw [net_eq,single,if_neg hne,List.sum_map_eq_nsmul_single c _ hothers,ih hc,
      List.count_eq_one_of_mem (h.nodup a) hchild,one_nsmul,zero_sub,alternate_succ]

/-! ## A leaf put on a node -/

/-- Over a forest with a leaf more each node up the leaf's line has lost or won its
weight. -/
theorem net_leaf (hg : Grounded children) (hg' : Grounded children') (h : Lineage children parent nodes)
    {t r : α} (hleaf : ∀ a ∈ nodes, children' a = children a++if a = t then [r] else [])
    (hend : children' r = []) (w : α → G) {a : α} (ha : a ∈ nodes) :
    net hg' w a = net hg w a+net hg (single t (-w r)) a := by
  have hr : net hg' w r = w r := by rw [net_eq,hend]; simp
  induction a using hg.induction with
  | h a ih =>
    have hold : ((children a).map (net hg' w)).sum =
        ((children a).map (net hg w)).sum+((children a).map (net hg (single t (-w r)))).sum := by
      rw [← List.sum_map_add]
      congr 1
      exact List.map_congr_left fun c hc => ih c hc (h.closed a c hc)
    rw [net_eq hg',net_eq hg w,net_eq hg (single t _),hleaf a ha,List.map_append,List.sum_append,hold]
    by_cases hat : a = t
    · rw [if_pos hat,single,if_pos hat,List.map_singleton,List.sum_singleton,hr]
      abel
    · rw [if_neg hat,single,if_neg hat,List.map_nil,List.sum_nil]
      abel

end

/-- A node alone changes nothing for the others. -/
theorem net_same (hg : Grounded children) (hg' : Grounded children')
    (hclosed : ∀ a ∈ nodes, ∀ c ∈ children a, c ∈ nodes) (hsame : ∀ a ∈ nodes, children' a = children a)
    {G : Type*} [AddCommGroup G] (w : α → G) {a : α} (ha : a ∈ nodes) :
    net hg' w a = net hg w a := by
  induction a using hg.induction with
  | h a ih =>
    rw [net_eq hg',net_eq hg,hsame a ha]
    congr 2
    exact List.map_congr_left fun c hc => ih c hc (hclosed a ha c hc)

/-- A leaf more grounds nothing less. -/
theorem Grounded.leaf (hg : Grounded children) {r : α} (hmore : ∀ a, ∀ c ∈ children' a, c ∈ children a ∨ c = r)
    (hend : children' r = []) : Grounded children' := by
  have hr : Acc (fun c a => c ∈ children' a) r := by
    refine ⟨r,fun c hc => ?_⟩
    rw [hend] at hc
    cases hc
  refine ⟨fun a => ?_⟩
  induction a using hg.induction with
  | h a ih =>
    refine ⟨a,fun c hc => ?_⟩
    rcases hmore a c hc with hold | rfl
    · exact ih c hold
    · exact hr

end Forest
end Spork
