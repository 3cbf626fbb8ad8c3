import Mathlib

/-! Trees given by the children of each node: what is left of a node after its children,
each after its own, is one signed sum over all there is below it. -/
namespace Spork
namespace Forest

variable {α G : Type*} [AddCommGroup G] (children : α → List α)

/-- The nodes so far below a node, each with the nodes above it, the nearest first. -/
def branches : ℕ → α → List (α × List α)
  | 0, a => [(a,[])]
  | n+1, a => (branches n a).flatMap fun b => (children b.1).map fun c => (c,b.1 :: b.2)

def level (n : ℕ) (a : α) : List α := (branches children n a).map Prod.fst

/-- No node is below itself. -/
def Grounded : Prop := WellFounded fun c a => c ∈ children a

/-- A term of a level's sign. -/
def alternate (n : ℕ) (x : G) : G := if n%2 = 0 then x else -x

/-- The levels' terms, those of odd levels taken off. -/
def signed (w : α → G) (n : ℕ) (a : α) : G :=
  ((List.range n).map fun k => ((level children k a).map fun x => alternate k (w x)).sum).sum

variable {children}

/-- What is left of a node after its children. -/
noncomputable def net (h : Grounded children) (w : α → G) : α → G :=
  h.fix fun a left => w a-((children a).attach.map fun c => left c.1 c.2).sum

theorem net_eq (h : Grounded children) (w : α → G) (a : α) :
    net h w a = w a-((children a).map (net h w)).sum := by
  rw [net,h.fix_eq]
  have hvals := congrArg (List.map (net h w)) (List.attach_map_subtype_val (children a))
  rw [List.map_map] at hvals
  exact congrArg (fun xs => w a-xs.sum) hvals

@[simp] theorem level_zero (a : α) : level children 0 a = [a] := rfl

theorem level_succ_last (n : ℕ) (a : α) :
    level children (n+1) a = (level children n a).flatMap children := by
  simp [level,branches,List.map_flatMap,List.flatMap_map,Function.comp_def]

/-- A level is the level above of each child. -/
theorem level_succ (n : ℕ) (a : α) :
    level children (n+1) a = (children a).flatMap (level children n) := by
  induction n with
  | zero =>
    rw [level_succ_last]
    show [a].flatMap children = (children a).flatMap fun c => [c]
    simp
  | succ n ih =>
    rw [level_succ_last,ih,List.flatMap_assoc]
    exact List.flatMap_congr fun c _ => (level_succ_last n c).symm

theorem alternate_succ (n : ℕ) (x : G) : alternate (n+1) x = -alternate n x := by
  unfold alternate
  rcases Nat.mod_two_eq_zero_or_one n with h | h
  · simp [Nat.add_mod,h]
  · simp [Nat.add_mod,h]

theorem sum_neg (xs : List α) (f : α → G) : (xs.map fun x => -f x).sum = -(xs.map f).sum := by
  induction xs with
  | nil => simp
  | cons x xs ih => simp [ih,add_comm]

theorem sum_flatMap {β : Type*} (xs : List β) (f : β → List α) (g : α → G) :
    ((xs.flatMap f).map g).sum = (xs.map fun x => ((f x).map g).sum).sum := by
  induction xs with
  | nil => rfl
  | cons x xs ih => simp [ih]

/-- Sums over two lists one in the other can change places. -/
theorem sum_swap {β : Type*} (xs : List α) (ys : List β) (f : α → β → G) :
    (xs.map fun x => (ys.map fun y => f x y).sum).sum =
      (ys.map fun y => (xs.map fun x => f x y).sum).sum := by
  induction xs with
  | nil => simp
  | cons x xs ih =>
    simp only [List.map_cons,List.sum_cons,ih]
    exact (List.sum_map_add ..).symm

/-- One level more is the node's own term less its children's levels. -/
theorem signed_succ (w : α → G) (n : ℕ) (a : α) :
    signed children w (n+1) a = w a-((children a).map (signed children w n)).sum := by
  have hlevel (k : ℕ) : ((level children (k+1) a).map fun x => alternate (k+1) (w x)).sum =
      -((children a).map fun c => ((level children k c).map fun x => alternate k (w x)).sum).sum := by
    simp only [alternate_succ]
    rw [sum_neg,level_succ,sum_flatMap]
  have hfirst : ((level children 0 a).map fun x => alternate 0 (w x)).sum = w a := by
    simp [alternate]
  unfold signed
  rw [List.range_succ_eq_map,List.map_cons,List.sum_cons,List.map_map,hfirst,sub_eq_add_neg]
  congr 1
  simp only [Function.comp_def,Nat.succ_eq_add_one,hlevel]
  rw [sum_neg,sum_swap]

/-- The signed sum of all levels is what is left of a node. -/
theorem signed_eq_net (h : Grounded children) (w : α → G) {n : ℕ} {a : α}
    (hend : level children n a = []) : signed children w n a = net h w a := by
  induction n generalizing a with
  | zero => cases hend
  | succ n ih =>
    rw [level_succ,List.flatMap_eq_nil_iff] at hend
    rw [signed_succ,net_eq]
    congr 2
    exact List.map_congr_left fun c hc => ih (hend c hc)

/-- A node is below every node above it. -/
theorem branches_below {n : ℕ} {a : α} {b : α × List α} (hb : b ∈ branches children n a) :
    ∀ x ∈ b.2, Relation.TransGen (fun c p => c ∈ children p) b.1 x := by
  induction n generalizing b with
  | zero =>
    obtain rfl := List.mem_singleton.mp hb
    simp
  | succ n ih =>
    obtain ⟨p,hp,hmem⟩ := List.mem_flatMap.mp hb
    obtain ⟨c,hc,rfl⟩ := List.mem_map.mp hmem
    intro x hx
    rcases List.mem_cons.mp hx with rfl | hx
    · exact Relation.TransGen.single hc
    · exact Relation.TransGen.head hc (ih hp x hx)

theorem Grounded.not_below (h : Grounded children) (a : α) :
    ¬Relation.TransGen (fun c p => c ∈ children p) a a :=
  fun hbelow => (WellFounded.transGen h).irrefl.irrefl a hbelow

/-- Where children count against their parents, a sum over all nodes is the sum over
those that are nobody's child, each with what is left of it. -/
theorem sum_roots (h : Grounded children) (w s : α → ℤ) (isRoot : α → Bool) {nodes : List α}
    (hchildren : (nodes.flatMap children).Perm (nodes.filter fun a => !isRoot a))
    (hsign : ∀ a ∈ nodes, ∀ c ∈ children a, s c = -s a) :
    (nodes.map fun a => w a*s a).sum = ((nodes.filter isRoot).map fun a => net h w a*s a).sum := by
  have hnode : ∀ a ∈ nodes, w a*s a =
      net h w a*s a+-((children a).map fun c => net h w c*s c).sum := by
    intro a ha
    have hterm : ((children a).map fun c => net h w c*s c) =
        (children a).map fun c => -(net h w c*s a) := by
      apply List.map_congr_left
      intro c hc
      rw [hsign a ha c hc]
      ring
    rw [hterm,sum_neg,neg_neg,List.sum_map_mul_right,net_eq h w a]
    ring
  have hsplit : ((nodes.filter isRoot).map fun a => net h w a*s a).sum+
      ((nodes.filter fun a => !isRoot a).map fun a => net h w a*s a).sum =
        (nodes.map fun a => net h w a*s a).sum := by
    rw [← List.sum_append,← List.map_append]
    exact ((List.filter_append_perm isRoot nodes).map _).sum_eq
  calc (nodes.map fun a => w a*s a).sum
      = (nodes.map fun a => net h w a*s a+-((children a).map fun c => net h w c*s c).sum).sum := by
        rw [List.map_congr_left hnode]
    _ = (nodes.map fun a => net h w a*s a).sum-
          ((nodes.flatMap children).map fun c => net h w c*s c).sum := by
        rw [List.sum_map_add,sum_neg,sum_flatMap,sub_eq_add_neg]
    _ = ((nodes.filter isRoot).map fun a => net h w a*s a).sum := by
        rw [(hchildren.map _).sum_eq,← hsplit]
        ring

end Forest
end Spork
