import Spork.Lib.Loop

/-! Searching a graph least cost first, from one node until all of those wanted are
reached or nothing is left to look at. Steps out of a node have lengths none of which is
negative; an entry is bettered only by more than a slack, and stays in the queue when
it is, to be passed over later. -/
namespace Spork
namespace LeastFirst

variable {ν : Type*} [LinearOrder ν]

/-- The best cost found for each node, and the nodes to look at, the cheapest first. -/
structure Search (ν : Type*) where
  best : ν → WithTop ℚ
  queue : List (ℚ ×ₗ ν)

/-- A node's cost bettered, and the node to look at again. -/
def Search.put (s : Search ν) (n : ν) (v : ℚ) : Search ν :=
  ⟨Function.update s.best n v,s.queue.orderedInsert (· ≤ ·) (toLex (v,n))⟩

@[simp] theorem Search.put_best_self (s : Search ν) (n : ν) (v : ℚ) : (s.put n v).best n = v :=
  Function.update_self _ _ _
theorem Search.put_best_of_ne (s : Search ν) {n k : ν} (v : ℚ) (h : k ≠ n) :
    (s.put n v).best k = s.best k := Function.update_of_ne h _ _
@[simp] theorem Search.mem_put_queue (s : Search ν) (n : ν) (v : ℚ) (d : ℚ ×ₗ ν) :
    d ∈ (s.put n v).queue ↔ d = toLex (v,n) ∨ d ∈ s.queue := List.mem_orderedInsert _

section
variable (steps : ν → List (ν × ℚ)) (slack : ℚ)

/-- A node one step further on, when that betters what is known of it. -/
def relax (cost : ℚ) (s : Search ν) (e : ν × ℚ) : Search ν :=
  let via := cost+e.2
  if ((via+slack : ℚ) : WithTop ℚ) < s.best e.1 then s.put e.1 via else s

/-- The search, at most so many nodes looked at. -/
def run : ℕ → Finset ν → Search ν → Option (Search ν)
  | 0, _, _ => none
  | more+1, wanted, s =>
    match s.queue with
    | [] => some s
    | e :: queue =>
      let cost := (ofLex e).1
      let node := (ofLex e).2
      if s.best node < cost then run more wanted ⟨s.best,queue⟩
      else if wanted.erase node = ∅ then some ⟨s.best,queue⟩
      else run more (wanted.erase node) ((steps node).foldl (relax slack cost) ⟨s.best,queue⟩)

/-- Before anything is looked at but where the search starts. -/
def start (source : ν) : Search ν := ⟨Function.update (fun _ => ⊤) source 0,[toLex (0,source)]⟩

/-- One step leads from a node to another. -/
def Adjacent (n m : ν) : Prop := ∃ len, (m,len) ∈ steps n

/-- Steps lead from `source` to a node. -/
def Reached (source n : ν) : Prop := Relation.ReflTransGen (Adjacent steps) source n

/-- What the search keeps. `settled` are the nodes looked at, `opened` those of them all
of whose steps have been taken, and `last` the cost of the last one looked at. -/
structure Kept (source : ν) (settled opened : Finset ν) (last : ℚ) (s : Search ν) : Prop where
  sorted : s.queue.Pairwise (· ≤ ·)
  nodup : s.queue.Nodup
  ahead : ∀ e ∈ s.queue, last ≤ (ofLex e).1
  least : ∀ e ∈ s.queue, s.best (ofLex e).2 ≤ (ofLex e).1
  queued : ∀ n, ∀ v : ℚ, s.best n = v → n ∈ settled ∨ toLex (v,n) ∈ s.queue
  behind : ∀ n ∈ settled, s.best n ≤ last
  passed : ∀ n ∈ settled, ∀ e ∈ s.queue, (ofLex e).2 = n → s.best n < (ofLex e).1
  closed : ∀ n ∈ opened, ∀ e ∈ steps n, s.best e.1 ≠ ⊤
  reached : ∀ n, s.best n ≠ ⊤ → Reached steps source n

end

section
variable {steps : ν → List (ν × ℚ)} {slack : ℚ} {source : ν}

theorem start_kept : Kept steps source ∅ ∅ 0 (start source) where
  sorted := List.pairwise_singleton _ _
  nodup := List.nodup_singleton _
  ahead := by simp [start]
  least := by simp [start]
  queued n v hv := by
    by_cases hn : n = source
    · subst hn
      have hzero : v = 0 := by
        simp only [start,Function.update_self] at hv
        exact_mod_cast hv.symm
      simp [start,hzero]
    · simp [start,hn] at hv
  behind := by simp
  passed := by simp
  closed := by simp
  reached n hn := by
    by_cases hsource : n = source
    · subst hsource
      exact Relation.ReflTransGen.refl
    · simp [start,hsource] at hn

theorem Search.put_finite (s : Search ν) {n k : ν} (v : ℚ) (h : s.best k ≠ ⊤) :
    (s.put n v).best k ≠ ⊤ := by
  by_cases heq : k = n
  · subst heq
    simp
  · rwa [s.put_best_of_ne v heq]

/-- A cost past the last one looked at, better than the one there is. -/
theorem put_kept {settled opened : Finset ν} {last v : ℚ} {n : ν} {s : Search ν}
    (hs : Kept steps source settled opened last s) (hn : Reached steps source n) (hlast : last ≤ v)
    (hless : (v : WithTop ℚ) < s.best n) :
    Kept steps source settled opened last (s.put n v) := by
  have hfresh : n ∉ settled := by
    intro hin
    have hle := (hs.behind n hin).trans (WithTop.coe_le_coe.mpr hlast)
    exact absurd hless (not_lt.mpr hle)
  have hnotin : toLex (v,n) ∉ s.queue := fun hin => absurd hless (not_lt.mpr (hs.least _ hin))
  refine ⟨hs.sorted.orderedInsert _ _,?_,?_,?_,?_,?_,?_,?_,?_⟩
  · have hperm : (s.put n v).queue.Perm (toLex (v,n) :: s.queue) := List.perm_orderedInsert _ _ _
    rw [hperm.nodup_iff]
    exact List.nodup_cons.mpr ⟨hnotin,hs.nodup⟩
  · intro d hd
    rcases (s.mem_put_queue n v d).mp hd with rfl | hd
    · exact hlast
    · exact hs.ahead d hd
  · intro d hd
    rcases (s.mem_put_queue n v d).mp hd with rfl | hd
    · simp
    · by_cases heq : (ofLex d).2 = n
      · have hold := hs.least d hd
        rw [heq] at hold ⊢
        rw [s.put_best_self]
        exact hless.le.trans hold
      · rw [s.put_best_of_ne v heq]
        exact hs.least d hd
  · intro k u hu
    by_cases heq : k = n
    · subst heq
      rw [s.put_best_self] at hu
      obtain rfl := WithTop.coe_injective hu
      exact Or.inr ((s.mem_put_queue _ _ _).mpr (Or.inl rfl))
    · rw [s.put_best_of_ne v heq] at hu
      exact (hs.queued k u hu).imp_right fun h => (s.mem_put_queue _ _ _).mpr (Or.inr h)
  · intro k hk
    have hne : k ≠ n := fun heq => hfresh (heq ▸ hk)
    rw [s.put_best_of_ne v hne]
    exact hs.behind k hk
  · intro k hk d hd heq
    have hne : k ≠ n := fun heq => hfresh (heq ▸ hk)
    rw [s.put_best_of_ne v hne]
    rcases (s.mem_put_queue n v d).mp hd with rfl | hd
    · exact absurd heq.symm hne
    · exact hs.passed k hk d hd heq
  · intro k hk d hd
    exact s.put_finite v (hs.closed k hk d hd)
  · intro k hk
    by_cases heq : k = n
    · exact heq ▸ hn
    · rw [s.put_best_of_ne v heq] at hk
      exact hs.reached k hk

/-- A step from the node looked at, taken or not. -/
theorem relax_kept (hslack : 0 ≤ slack) {settled opened : Finset ν} {cost : ℚ} {node : ν} {s : Search ν}
    (hs : Kept steps source settled opened cost s) (hnode : Reached steps source node)
    {e : ν × ℚ} (he : e ∈ steps node) (hlen : 0 ≤ e.2) :
    Kept steps source settled opened cost (relax slack cost s e) ∧
      (∀ n, s.best n ≠ ⊤ → (relax slack cost s e).best n ≠ ⊤) ∧
      (relax slack cost s e).best e.1 ≠ ⊤ ∧
      (relax slack cost s e).queue.length ≤ s.queue.length+1 := by
  unfold relax
  dsimp only
  split_ifs with hless
  · have hless' : ((cost+e.2 : ℚ) : WithTop ℚ) < s.best e.1 := by
      refine lt_of_le_of_lt ?_ hless
      exact_mod_cast (by linarith : cost+e.2 ≤ cost+e.2+slack)
    refine ⟨put_kept hs (hnode.tail ⟨e.2,he⟩) (by linarith) hless',fun n hn => s.put_finite _ hn,by simp,?_⟩
    simp [Search.put,List.orderedInsert_length]
  · refine ⟨hs,fun n hn => hn,?_,Nat.le_succ _⟩
    intro htop
    rw [htop] at hless
    exact hless (WithTop.coe_lt_top _)

/-- All the steps from the node looked at. -/
theorem relaxAll_kept (hslack : 0 ≤ slack) {settled opened : Finset ν} {cost : ℚ} {node : ν}
    (hnode : Reached steps source node) {es : List (ν × ℚ)} (hes : ∀ e ∈ es, e ∈ steps node)
    (hlen : ∀ e ∈ es, 0 ≤ e.2) {s : Search ν} (hs : Kept steps source settled opened cost s) :
    Kept steps source settled opened cost (es.foldl (relax slack cost) s) ∧
      (∀ n, s.best n ≠ ⊤ → (es.foldl (relax slack cost) s).best n ≠ ⊤) ∧
      (∀ e ∈ es, (es.foldl (relax slack cost) s).best e.1 ≠ ⊤) ∧
      (es.foldl (relax slack cost) s).queue.length ≤ s.queue.length+es.length := by
  induction es generalizing s with
  | nil => exact ⟨hs,fun n hn => hn,by simp,by simp⟩
  | cons e es ih =>
    obtain ⟨hone,hkeep,hthis,hcount⟩ := relax_kept hslack hs hnode (hes e (by simp)) (hlen e (by simp))
    obtain ⟨hall,hkeeps,hthese,hcounts⟩ := ih (fun d hd => hes d (List.mem_cons_of_mem e hd))
      (fun d hd => hlen d (List.mem_cons_of_mem e hd)) hone
    refine ⟨hall,fun n hn => hkeeps n (hkeep n hn),?_,?_⟩
    · intro d hd
      rcases List.mem_cons.mp hd with rfl | hd
      · exact hkeeps _ hthis
      · exact hthese d hd
    · simp only [List.foldl_cons,List.length_cons]
      omega

/-- An entry passed over: the node has been looked at for less. -/
theorem skip_kept {settled : Finset ν} {last : ℚ} {best : ν → WithTop ℚ} {e : ℚ ×ₗ ν}
    {queue : List (ℚ ×ₗ ν)} (hs : Kept steps source settled settled last ⟨best,e :: queue⟩)
    (hstale : best (ofLex e).2 < (ofLex e).1) :
    Kept steps source settled settled last ⟨best,queue⟩ where
  sorted := hs.sorted.of_cons
  nodup := hs.nodup.of_cons
  ahead d hd := hs.ahead d (List.mem_cons_of_mem e hd)
  least d hd := hs.least d (List.mem_cons_of_mem e hd)
  queued n v hv := by
    rcases hs.queued n v hv with h | h
    · exact Or.inl h
    · rcases List.mem_cons.mp h with rfl | h
      · exact absurd (hv : best n = v) hstale.ne
      · exact Or.inr h
  behind := hs.behind
  passed n hn d hd := hs.passed n hn d (List.mem_cons_of_mem e hd)
  closed := hs.closed
  reached := hs.reached

/-- The cheapest entry looked at: its node was not before, and its cost is its best. -/
theorem settle_kept {settled : Finset ν} {last : ℚ} {best : ν → WithTop ℚ} {e : ℚ ×ₗ ν}
    {queue : List (ℚ ×ₗ ν)} (hs : Kept steps source settled settled last ⟨best,e :: queue⟩)
    (hfresh : ¬best (ofLex e).2 < (ofLex e).1) :
    (ofLex e).2 ∉ settled ∧ best (ofLex e).2 = (ofLex e).1 ∧
      Kept steps source (insert (ofLex e).2 settled) settled (ofLex e).1 ⟨best,queue⟩ := by
  have hbest : best (ofLex e).2 = (ofLex e).1 := le_antisymm (hs.least e (by simp)) (not_lt.mp hfresh)
  obtain ⟨hhead,hsorted⟩ := List.pairwise_cons.mp hs.sorted
  obtain ⟨hne,hnodup⟩ := List.nodup_cons.mp hs.nodup
  have hlast : last ≤ (ofLex e).1 := hs.ahead e (by simp)
  have hahead (d : ℚ ×ₗ ν) (hd : d ∈ queue) : (ofLex e).1 ≤ (ofLex d).1 := by
    rcases Prod.Lex.le_iff.mp (hhead d hd) with h | h
    · exact h.le
    · exact h.1.le
  refine ⟨fun hin => hfresh (hs.passed _ hin e (by simp) rfl),hbest,?_⟩
  refine ⟨hsorted,hnodup,hahead,fun d hd => hs.least d (List.mem_cons_of_mem e hd),?_,?_,?_,
    hs.closed,hs.reached⟩
  · intro n v hv
    rcases hs.queued n v hv with h | h
    · exact Or.inl (Finset.mem_insert_of_mem h)
    · rcases List.mem_cons.mp h with rfl | h
      · exact Or.inl (Finset.mem_insert_self _ _)
      · exact Or.inr h
  · intro n hn
    rcases Finset.mem_insert.mp hn with rfl | hn
    · exact hbest.le
    · exact (hs.behind n hn).trans (WithTop.coe_le_coe.mpr hlast)
  · intro n hn d hd heq
    rcases Finset.mem_insert.mp hn with rfl | hn
    · have hother : (ofLex e).1 ≠ (ofLex d).1 := by
        intro hsame
        have hde : d = e := ofLex.injective (Prod.ext hsame.symm heq)
        exact hne (hde ▸ hd)
      show best (ofLex e).2 < _
      rw [hbest]
      exact_mod_cast lt_of_le_of_ne (hahead d hd) hother
    · exact hs.passed n hn d (List.mem_cons_of_mem e hd) heq

/-- The cheapest entry looked at, and all the steps from its node taken. -/
theorem open_kept (hslack : 0 ≤ slack) (hlen : ∀ n, ∀ e ∈ steps n, 0 ≤ e.2) {settled : Finset ν} {last : ℚ}
    {best : ν → WithTop ℚ} {e : ℚ ×ₗ ν} {queue : List (ℚ ×ₗ ν)}
    (hs : Kept steps source settled settled last ⟨best,e :: queue⟩) (hfresh : ¬best (ofLex e).2 < (ofLex e).1) :
    Kept steps source (insert (ofLex e).2 settled) (insert (ofLex e).2 settled) (ofLex e).1
        ((steps (ofLex e).2).foldl (relax slack (ofLex e).1) ⟨best,queue⟩) ∧
      (∀ n, best n ≠ ⊤ → ((steps (ofLex e).2).foldl (relax slack (ofLex e).1) ⟨best,queue⟩).best n ≠ ⊤) ∧
      ((steps (ofLex e).2).foldl (relax slack (ofLex e).1) ⟨best,queue⟩).queue.length ≤
        queue.length+(steps (ofLex e).2).length := by
  obtain ⟨-,hbest,hsettle⟩ := settle_kept hs hfresh
  have hnode : Reached steps source (ofLex e).2 := by
    apply hs.reached
    show best (ofLex e).2 ≠ ⊤
    rw [hbest]
    exact WithTop.coe_ne_top
  obtain ⟨hkept,hkeep,hsteps,hcount⟩ := relaxAll_kept hslack hnode (fun d hd => hd)
    (hlen (ofLex e).2) hsettle
  refine ⟨{hkept with closed := ?_},hkeep,hcount⟩
  intro n hn d hd
  rcases Finset.mem_insert.mp hn with rfl | hn
  · exact hsteps d hd
  · exact hkept.closed n hn d hd

/-- The search ends, once it may look at as many nodes as there are steps to them; what it
finds a cost for is reached, and of what is wanted all that is reached has one. -/
theorem run_spec (hslack : 0 ≤ slack) (hlen : ∀ n, ∀ e ∈ steps n, 0 ≤ e.2) {nodes : Finset ν}
    (hnodes : ∀ n, Reached steps source n → n ∈ nodes) {width : ℕ}
    (hwidth : ∀ n, (steps n).length ≤ width) (more : ℕ) (wanted settled : Finset ν) (last : ℚ)
    (s : Search ν) (hs : Kept steps source settled settled last s)
    (hmore : s.queue.length+width*(nodes.card-settled.card) < more) :
    ∃ s', run steps slack more wanted s = some s' ∧ (∀ n, s'.best n ≠ ⊤ → Reached steps source n) ∧
      ∀ n, n ∈ wanted ∨ n ∈ settled → Reached steps source n → s.best source ≠ ⊤ → s'.best n ≠ ⊤ := by
  induction more generalizing wanted settled last s with
  | zero => omega
  | succ more ih =>
    obtain ⟨best,queue⟩ := s
    cases queue with
    | nil =>
      suffices hall : ∀ n, Reached steps source n → best source ≠ ⊤ → best n ≠ ⊤ from
        ⟨⟨best,[]⟩,rfl,hs.reached,fun n _ => hall n⟩
      intro n hn hsource
      induction hn with
      | refl => exact hsource
      | tail _ hadj hbefore =>
        obtain ⟨len,hlen⟩ := hadj
        obtain ⟨v,hv⟩ := WithTop.ne_top_iff_exists.mp hbefore
        have hsettled := (hs.queued _ v hv.symm).resolve_right (by simp)
        exact hs.closed _ hsettled _ hlen
    | cons e queue =>
      simp only [run]
      split_ifs with hstale hlast
      · have hcount : queue.length+width*(nodes.card-settled.card) < more := by
          simp only [List.length_cons] at hmore
          omega
        exact ih wanted settled last _ (skip_kept hs hstale) hcount
      · refine ⟨⟨best,queue⟩,rfl,hs.reached,fun n hn _ _ => ?_⟩
        obtain ⟨-,hbest,-⟩ := settle_kept hs hstale
        have hfinite {n : ν} (hn : n ∈ settled) : best n ≠ ⊤ :=
          ne_top_of_le_ne_top (WithTop.coe_ne_top) (hs.behind n hn)
        rcases hn with hn | hn
        · have heq : n = (ofLex e).2 := by
            by_contra hne
            have hmem : n ∈ wanted.erase (ofLex e).2 := Finset.mem_erase.mpr ⟨hne,hn⟩
            simp [hlast] at hmem
          subst heq
          show best (ofLex e).2 ≠ ⊤
          rw [hbest]
          exact WithTop.coe_ne_top
        · exact hfinite hn
      · obtain ⟨hfresh,-,-⟩ := settle_kept hs hstale
        obtain ⟨hopen,hkeep,hcount⟩ := open_kept hslack hlen hs hstale
        have hin : insert (ofLex e).2 settled ⊆ nodes := by
          intro n hn
          exact hnodes n (hopen.reached n (ne_top_of_le_ne_top WithTop.coe_ne_top (hopen.behind n hn)))
        have hcard := Finset.card_le_card hin
        rw [Finset.card_insert_of_notMem hfresh] at hcard
        have hfuel : ((steps (ofLex e).2).foldl (relax slack (ofLex e).1) ⟨best,queue⟩).queue.length+
            width*(nodes.card-(insert (ofLex e).2 settled).card) < more := by
          have hroom : nodes.card-settled.card = (nodes.card-(settled.card+1))+1 := by omega
          have hwide := hwidth (ofLex e).2
          rw [Finset.card_insert_of_notMem hfresh]
          rw [hroom,Nat.mul_succ] at hmore
          simp only [List.length_cons] at hmore hcount
          omega
        obtain ⟨s',hrun,hsound,hall⟩ := ih (wanted.erase (ofLex e).2) _ _ _ hopen hfuel
        refine ⟨s',hrun,hsound,fun n hn hreach hsource => hall n ?_ hreach (hkeep _ hsource)⟩
        by_cases heq : n = (ofLex e).2
        · exact Or.inr (by simp [heq])
        · rcases hn with hn | hn
          · exact Or.inl (Finset.mem_erase.mpr ⟨heq,hn⟩)
          · exact Or.inr (Finset.mem_insert_of_mem hn)

end

end LeastFirst
end Spork
