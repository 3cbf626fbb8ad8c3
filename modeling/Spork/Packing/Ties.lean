import Spork.Packing.Recombine
import Spork.Lib.StableSort

/-! The sort is stable, so pieces it does not tell apart keep the order they come in, and
pooling what is in the carton with what is still to pack keeps it while no such piece
is put in before one it comes after. -/
namespace Spork
namespace Packing

/-- Where a level comes among those a line's units go as. -/
def Level.rank : Level → ℕ
  | .carton => 0
  | .inner => 1
  | .each => 2

/-- The sort does not tell them apart. -/
def Kind.Tied (k k' : Kind) : Prop :=
  footprint k.size = footprint k'.size ∧ volume k.size = volume k'.size ∧ k.index = k'.index

instance Kind.tiedDecidable (k k' : Kind) : Decidable (k.Tied k') := by
  unfold Kind.Tied; infer_instance

theorem notAfter_tied {a b : Left} (hab : notAfter a b) (hba : notAfter b a) : a.kind.Tied b.kind := by
  unfold notAfter at hab hba
  unfold Kind.Tied
  omega

instance notAfterTotal : Std.Total notAfter := ⟨fun a b => by unfold notAfter; omega⟩

instance notAfterTrans : IsTrans Left notAfter := ⟨fun a b c hab hbc => by
  unfold notAfter at hab hbc ⊢; omega⟩

/-- Tied kinds come with the bigger level first. -/
def Ranked (ks : List Kind) : Prop :=
  ks.Pairwise fun k k' => k.Tied k' → k.level.rank < k'.level.rank

theorem own_ranked (l : BenchLine) (index : ℕ) : Ranked ((own l index).map Left.kind) := by
  have hlevels : ((own l index).map fun e => e.kind.level).Pairwise fun a b => a.rank < b.rank :=
    List.Pairwise.sublist (piecesFrom_levels l index false levels _) (by decide)
  apply List.pairwise_map.mpr
  apply (List.pairwise_map.mp hlevels).imp
  intro a b hrank htied
  exact hrank

theorem pieces_ranked (index : ℕ) (lines : List BenchLine) :
    Ranked ((pieces index lines).map Left.kind) := by
  induction lines generalizing index with
  | nil => exact List.Pairwise.nil
  | cons l ls ih =>
    rw [pieces_cons,List.map_append]
    refine List.pairwise_append.mpr ⟨own_ranked l index,ih (index+1),?_⟩
    intro k hk k' hk' htied
    have hindex := (own_kind hk).2.2
    have hlater := (pieces_kind hk').2.2
    have hsame := htied.2.2
    omega

/-- No kind is put in while one tied with it and before it, of a bigger level, is not. -/
def Steady (put : Kind → ℕ) (ks : List Kind) : Prop :=
  ∀ k ∈ ks, ∀ k' ∈ ks, k.Tied k' → k'.level.rank < k.level.rank → 0 < put k → 0 < put k'

theorem kinds_filter_sublist (ps : List Left) (f : Left → ℕ) :
    (((ps.map fun e => (⟨e.kind,f e⟩ : Left)).filter (·.count > 0)).map Left.kind).Sublist
      (ps.map Left.kind) := by
  have hsub := (List.filter_sublist (p := fun e : Left => e.count > 0)
    (l := ps.map fun e => (⟨e.kind,f e⟩ : Left))).map Left.kind
  simpa [List.map_map,Function.comp_def] using hsub

theorem taken_kinds (put : Kind → ℕ) (ps : List Left) :
    ((taken put ps).map Left.kind).Sublist (ps.map Left.kind) := kinds_filter_sublist ps _

theorem still_kinds (put : Kind → ℕ) (ps : List Left) :
    ((still put ps).map Left.kind).Sublist (ps.map Left.kind) := kinds_filter_sublist ps _

theorem mem_taken {put : Kind → ℕ} {ps : List Left} {k : Kind} :
    k ∈ (taken put ps).map Left.kind ↔ k ∈ ps.map Left.kind ∧ 0 < put k := by
  simp only [taken,List.mem_map,List.mem_filter]
  constructor
  · rintro ⟨e,⟨⟨d,hd,rfl⟩,hpos⟩,rfl⟩
    exact ⟨⟨d,hd,rfl⟩,by simpa using hpos⟩
  · rintro ⟨⟨d,hd,rfl⟩,hpos⟩
    exact ⟨⟨d.kind,put d.kind⟩,⟨⟨d,hd,rfl⟩,by simpa using hpos⟩,rfl⟩

/-- Pooling puts the kinds not in the pool yet after those that are. -/
theorem pooled_kinds {ps acc : List Left} (h : OneEach ps) :
    (ps.foldl addTo acc).map Left.kind =
      acc.map Left.kind++(ps.map Left.kind).filter (· ∉ acc.map Left.kind) := by
  induction ps generalizing acc with
  | nil => simp
  | cons p ps ih =>
    obtain ⟨hp,hps⟩ := List.nodup_cons.mp h
    rw [List.foldl_cons,ih hps,addTo_kinds]
    by_cases hmem : p.kind ∈ acc.map Left.kind
    · simp only [if_pos hmem,List.map_cons]
      rw [List.filter_cons_of_neg (by simpa using hmem)]
    · simp only [if_neg hmem,List.map_cons]
      rw [List.filter_cons_of_pos (by simpa using hmem),List.append_assoc,List.singleton_append]
      congr 2
      apply List.filter_congr
      intro k hk
      have hne : k ≠ p.kind := fun heq => hp (heq ▸ hk)
      simp [hne]

/-- Steady pressing keeps ties in order, pooled with what is still to pack. -/
theorem pooled_ranked {put : Kind → ℕ} {ps : List Left} (hone : OneEach ps)
    (hranked : Ranked (ps.map Left.kind)) (hsteady : Steady put (ps.map Left.kind)) :
    Ranked (((taken put ps++still put ps).foldl addTo []).map Left.kind) := by
  have htaken : OneEach (taken put ps) := hone.sublist (taken_kinds put ps)
  have hstill : OneEach (still put ps) := hone.sublist (still_kinds put ps)
  rw [List.foldl_append,pooled_kinds hstill,pooled_kinds htaken]
  simp only [List.map_nil,List.not_mem_nil,not_false_eq_true,decide_true,List.filter_true,List.nil_append]
  refine List.pairwise_append.mpr ⟨hranked.sublist (taken_kinds put ps),
    hranked.sublist (List.filter_sublist.trans (still_kinds put ps)),?_⟩
  intro k hk k' hk' htied
  obtain ⟨hkin,hput⟩ := mem_taken.mp hk
  obtain ⟨hk'still,hk'not⟩ := List.mem_filter.mp hk'
  have hk'in : k' ∈ ps.map Left.kind := (still_kinds put ps).subset hk'still
  have hnone : put k' = 0 := by
    by_contra hpos
    simp [mem_taken,hk'in,Nat.pos_of_ne_zero hpos] at hk'not
  by_contra hrank
  rcases Nat.lt_or_ge k'.level.rank k.level.rank with hless | hge
  · exact absurd (hsteady k hkin k' hk'in htied hless hput) (by omega)
  · -- two tied kinds of one level are one kind, and one is put in and the other is not
    have hne : k ≠ k' := by
      rintro rfl
      omega
    have hsym : (ps.map Left.kind).Pairwise fun a b => a.Tied b → a.level.rank ≠ b.level.rank :=
      hranked.imp fun h htied => (h htied).ne
    have : Std.Symm fun a b : Kind => a.Tied b → a.level.rank ≠ b.level.rank :=
      ⟨fun a b h htied heq => h ⟨htied.1.symm,htied.2.1.symm,htied.2.2.symm⟩ heq.symm⟩
    have hdistinct := hsym.forall hkin hk'in hne htied
    omega

/-- Entries of one or more, one for each kind, are told by their counts. -/
theorem mem_iff_countOf {ps : List Left} (hone : OneEach ps) (hpos : ∀ e ∈ ps, 0 < e.count) (e : Left) :
    e ∈ ps ↔ countOf e.kind ps = e.count ∧ 0 < e.count := by
  constructor
  · intro he
    exact ⟨countOf_mem hone he,hpos e he⟩
  · rintro ⟨hcount,he⟩
    have hmem : e.kind ∈ ps.map Left.kind := by
      by_contra hnone
      rw [countOf_eq_zero hnone] at hcount
      omega
    obtain ⟨d,hd,hkind⟩ := List.mem_map.mp hmem
    have hsame : d = e := by
      rw [← hkind,countOf_mem hone hd] at hcount
      cases d
      cases e
      simp_all
    exact hsame ▸ hd

theorem perm_of_countOf {ps qs : List Left} (hps : OneEach ps) (hqs : OneEach qs)
    (hppos : ∀ e ∈ ps, 0 < e.count) (hqpos : ∀ e ∈ qs, 0 < e.count)
    (h : ∀ k, countOf k ps = countOf k qs) : ps.Perm qs := by
  apply (List.perm_ext_iff_of_nodup hps.of_map hqs.of_map).mpr
  intro e
  rw [mem_iff_countOf hps hppos,mem_iff_countOf hqs hqpos,h]

/-- What is put in and what is left are what there was. -/
theorem countOf_taken_still {put : Kind → ℕ} {ps : List Left} (hput : Among put ps) (k : Kind) :
    countOf k (taken put ps)+countOf k (still put ps) = countOf k ps := by
  induction ps with
  | nil => rfl
  | cons e es ih =>
    have he : put e.kind ≤ e.count := hput e (by simp)
    have hes := ih fun d hd => hput d (List.mem_cons_of_mem e hd)
    unfold taken still at hes ⊢
    rw [countOf_filter,countOf_filter] at hes ⊢
    simp only [List.map_cons,countOf_cons]
    split_ifs <;> omega

theorem countOf_taken {ps : List Left} (hone : OneEach ps) {k : Kind} (hk : k ∈ ps.map Left.kind)
    (put : Kind → ℕ) : countOf k (taken put ps) = put k := by
  induction ps with
  | nil => cases hk
  | cons e es ih =>
    obtain ⟨he,hes⟩ := List.nodup_cons.mp hone
    unfold taken at ih ⊢
    rw [countOf_filter] at ih ⊢
    rw [List.map_cons,countOf_cons]
    rcases List.mem_cons.mp hk with rfl | hmem
    · have hnone : e.kind ∉ (es.map fun e => (⟨e.kind,put e.kind⟩ : Left)).map Left.kind := by
        simpa [List.map_map,Function.comp_def] using he
      rw [countOf_eq_zero hnone,if_pos rfl,Nat.add_zero]
    · have hne : e.kind ≠ k := fun heq => he (heq ▸ hmem)
      rw [if_neg hne,ih hes hmem,Nat.zero_add]

theorem total_still (put : Kind → ℕ) (ps : List Left) : total (still put ps) ≤ total ps := by
  induction ps with
  | nil => exact le_rfl
  | cons e es ih =>
    rw [show e :: es = [e]++es from rfl,still_append,total_append,total_append]
    apply Nat.add_le_add _ ih
    by_cases hnone : e.count-put e.kind > 0 <;> simp [still,hnone]

theorem addTo_pos {ps : List Left} (hps : ∀ e ∈ ps, 0 < e.count) {p : Left} (hp : 0 < p.count) :
    ∀ e ∈ addTo ps p, 0 < e.count := by
  induction ps with
  | nil => simpa [addTo] using hp
  | cons d ds ih =>
    have hd := hps d (by simp)
    have hds := ih fun e he => hps e (List.mem_cons_of_mem d he)
    simp only [addTo]
    split_ifs
    · intro e he
      rcases List.mem_cons.mp he with rfl | he
      · simp only
        omega
      · exact hps e (List.mem_cons_of_mem d he)
    · intro e he
      rcases List.mem_cons.mp he with rfl | he
      · exact hd
      · exact hds e he

theorem pooled_pos {ps acc : List Left} (hps : ∀ e ∈ ps, 0 < e.count) (hacc : ∀ e ∈ acc, 0 < e.count) :
    ∀ e ∈ ps.foldl addTo acc, 0 < e.count := by
  induction ps generalizing acc with
  | nil => exact hacc
  | cons p ps ih =>
    exact ih (fun e he => hps e (List.mem_cons_of_mem p he)) (addTo_pos hacc (hps p (by simp)))

/-- The pool sorts as the pieces do. -/
theorem sorted_pooled {put : Kind → ℕ} {ps : List Left} (hone : OneEach ps)
    (hcount : ∀ e ∈ ps, 0 < e.count) (hranked : Ranked (ps.map Left.kind))
    (hput : Among put ps) (hsteady : Steady put (ps.map Left.kind)) :
    sorted ((taken put ps++still put ps).foldl addTo []) = sorted ps := by
  have hinOrder {xs : List Left} (h : Ranked (xs.map Left.kind)) :
      StableSort.InOrder notAfter (fun a b => a.kind.level.rank < b.kind.level.rank) xs := by
    apply (List.pairwise_map.mp h).imp
    intro a b hrank hab hba
    exact hrank (notAfter_tied hab hba)
  obtain ⟨honePool,hcountPool⟩ := together_spec (taken put ps++still put ps) [] List.nodup_nil
  have hposPool : ∀ e ∈ (taken put ps++still put ps).foldl addTo [], 0 < e.count := by
    apply pooled_pos _ (by simp)
    intro e he
    rcases List.mem_append.mp he with he | he
    · simpa using (List.mem_filter.mp he).2
    · simpa using (List.mem_filter.mp he).2
  have hperm : ((taken put ps++still put ps).foldl addTo []).Perm ps := by
    apply perm_of_countOf honePool hone hposPool hcount
    intro k
    rw [hcountPool,countOf_append,countOf_taken_still hput,countOf_nil,Nat.zero_add]
  exact StableSort.insertionSort_eq (fun a b h h' => by omega) hperm
    (hinOrder (pooled_ranked hone hranked hsteady)) (hinOrder hranked)

/-- Packing looks at its pieces sorted. -/
theorem pack_sorted {xs ys : List Left} (h : sorted xs = sorted ys) (size : Dims)
    (maxWeight : Option ℚ) : pack size xs maxWeight = pack size ys maxWeight := by
  have htotal : total xs = total ys := by
    rw [← total_perm (List.perm_insertionSort notAfter xs),
      ← total_perm (List.perm_insertionSort notAfter ys)]
    exact congrArg total h
  have hx := packWithin_eq size xs maxWeight (total xs+1) (by omega)
  have hy := packWithin_eq size ys maxWeight (total xs+1) (by omega)
  rw [packWithin,h] at hx
  rw [packWithin] at hy
  exact Option.some.inj (hx.symm.trans hy)

end Packing
end Spork
