import Spork.Lib.LeastFirst

/-! Walks by their costs, and when the costs a search has found are the least there are: for
every node it is done with no walk is cheaper, and a walk that is cheaper than what is known
of its end goes by a node still to be looked at. With no slack, what `LeastFirst` finds is the
least. -/
namespace Spork
namespace LeastFirst

section
variable {ν : Type*} (steps : ν → List (ν × ℚ))

/-- A walk from `source` to a node has this cost. -/
inductive Leads (source : ν) : ν → ℚ → Prop
  | refl : Leads source source 0
  | tail {n m : ν} {c len : ℚ} : Leads source n c → (m,len) ∈ steps n → Leads source m (c+len)

/-- A list of nodes is a walk, each a step from the one before, of this cost. -/
inductive Along : List ν → ℚ → Prop
  | one (n : ν) : Along [n] 0
  | cons {n m : ν} {rest : List ν} {c len : ℚ} :
      (m,len) ∈ steps n → Along (m :: rest) c → Along (n :: m :: rest) (len+c)

end

section
variable {ν : Type*} {steps : ν → List (ν × ℚ)} {source : ν}

theorem Leads.reached {n : ν} {c : ℚ} (h : Leads steps source n c) : Reached steps source n := by
  induction h with
  | refl => exact Relation.ReflTransGen.refl
  | tail _ hstep ih => exact ih.tail ⟨_,hstep⟩

theorem Leads.nonneg (hlen : ∀ n, ∀ e ∈ steps n, 0 ≤ e.2) {n : ν} {c : ℚ} (h : Leads steps source n c) : 0 ≤ c := by
  induction h with
  | refl => exact le_rfl
  | tail _ hstep ih => exact add_nonneg ih (hlen _ _ hstep)

theorem Reached.leads {n : ν} (h : Reached steps source n) : ∃ c, Leads steps source n c := by
  induction h with
  | refl => exact ⟨0,.refl⟩
  | tail _ hadj ih =>
    obtain ⟨len,hlen⟩ := hadj
    obtain ⟨c,hc⟩ := ih
    exact ⟨c+len,hc.tail hlen⟩

/-- A walk goes on by a step from its last node. -/
theorem Along.snoc {path : List ν} {n m : ν} {c len : ℚ} (h : Along steps (path++[n]) c)
    (hstep : (m,len) ∈ steps n) : Along steps (path++[n]++[m]) (c+len) := by
  induction path generalizing c with
  | nil =>
    cases h
    have hone := Along.cons hstep (Along.one m)
    rwa [add_comm] at hone
  | cons k path ih =>
    cases path with
    | nil =>
      cases h with
      | cons hfirst hrest =>
        rw [add_assoc]
        exact .cons hfirst (ih hrest)
    | cons l path =>
      cases h with
      | cons hfirst hrest =>
        rw [add_assoc]
        exact .cons hfirst (ih hrest)

/-- A walk onward from where one leads. -/
theorem Leads.along {path : List ν} {n m : ν} {c d : ℚ} (hlead : Leads steps source n c)
    (h : Along steps path d) (hhead : path.head? = some n) (hlast : path.getLast? = some m) :
    Leads steps source m (c+d) := by
  induction h generalizing n c with
  | one k =>
    cases hhead
    cases hlast
    rwa [add_zero]
  | cons hstep _ ih =>
    cases hhead
    rw [← add_assoc]
    exact ih (hlead.tail hstep) rfl (by rwa [List.getLast?_cons_cons] at hlast)

end

/-! ## Costs that are the least -/

section
variable {ν : Type*} [DecidableEq ν] (steps : ν → List (ν × ℚ)) (source : ν)

/-- What is so of the costs found: each is of a walk, those of the nodes `settled` are the
least, and all steps from the nodes `opened` have been taken. -/
structure Least (settled opened : Finset ν) (best : ν → WithTop ℚ) : Prop where
  start : best source ≤ 0
  within : opened ⊆ settled
  walks : ∀ n, ∀ v : ℚ, best n = v → Leads steps source n v
  closed : ∀ n ∈ opened, ∀ e ∈ steps n, best e.1 ≤ best n+e.2
  least : ∀ n ∈ settled, ∀ c, Leads steps source n c → best n ≤ c

variable {steps source} {settled opened : Finset ν} {best : ν → WithTop ℚ}

/-- A walk to a node costs no less than is known of it, or goes by one not opened yet whose
cost, with what is guessed of the way on, is no more. -/
theorem Least.frontier (hs : Least steps source settled opened best) (guess : ν → ℚ)
    (hguess : ∀ n, ∀ e ∈ steps n, guess n ≤ e.2+guess e.1) {n : ν} {c : ℚ} (h : Leads steps source n c) :
    best n ≤ c ∨ ∃ m, ∃ v : ℚ, m ∉ opened ∧ best m = v ∧ v+guess m ≤ c+guess n := by
  induction h with
  | refl => exact .inl hs.start
  | @tail n m c len _ hstep ih =>
    have hon := hguess n _ hstep
    rcases ih with hle | ⟨k,v,hk,hv,hle⟩
    · by_cases hopen : n ∈ opened
      · left
        calc best m ≤ best n+len := hs.closed n hopen _ hstep
          _ ≤ c+len := by gcongr
          _ = ((c+len : ℚ) : WithTop ℚ) := rfl
      · right
        obtain ⟨v,hv⟩ := WithTop.ne_top_iff_exists.mp (ne_top_of_le_ne_top WithTop.coe_ne_top hle)
        rw [← hv] at hle
        have hvc : v ≤ c := WithTop.coe_le_coe.mp hle
        exact ⟨n,v,hopen,hv.symm,by simp only at hon; linarith⟩
    · exact .inr ⟨k,v,hk,hv,by simp only at hon; linarith⟩

/-- A node's cost bettered by a walk: it was not settled. -/
theorem Least.put (hs : Least steps source settled opened best) {n : ν} {v : ℚ} (hwalk : Leads steps source n v)
    (hless : v < best n) : n ∉ settled ∧ Least steps source settled opened (Function.update best n v) := by
  have hfresh : n ∉ settled := fun hn => absurd hless (not_lt.mpr (hs.least n hn v hwalk))
  have hdown (k : ν) : Function.update best n (v : WithTop ℚ) k ≤ best k := by
    by_cases hk : k = n
    · subst hk
      rw [Function.update_self]
      exact hless.le
    · rw [Function.update_of_ne hk]
  have hsame (k : ν) (hk : k ∈ settled) : Function.update best n (v : WithTop ℚ) k = best k :=
    Function.update_of_ne (by rintro rfl; exact hfresh hk) _ _
  refine ⟨hfresh,(hdown source).trans hs.start,hs.within,?_,?_,?_⟩
  · intro k u hu
    by_cases hk : k = n
    · subst hk
      rw [Function.update_self] at hu
      rwa [← WithTop.coe_injective hu]
    · rw [Function.update_of_ne hk] at hu
      exact hs.walks k u hu
  · intro k hk e he
    rw [hsame k (hs.within hk)]
    exact (hdown e.1).trans (hs.closed k hk e he)
  · intro k hk c hc
    exact (hdown k).trans (hs.least k hk c hc)

/-- A node no walk to which is cheaper is settled. -/
theorem Least.settle (hs : Least steps source settled opened best) {n : ν}
    (hleast : ∀ c, Leads steps source n c → best n ≤ c) :
    Least steps source (insert n settled) opened best where
  start := hs.start
  within := hs.within.trans (Finset.subset_insert _ _)
  walks := hs.walks
  closed := hs.closed
  least k hk := by
    rcases Finset.mem_insert.mp hk with rfl | hk
    · exact hleast
    · exact hs.least k hk

/-- A settled node is opened once all the steps from it have been taken. -/
theorem Least.opens (hs : Least steps source settled opened best) {n : ν} (hn : n ∈ settled)
    (hsteps : ∀ e ∈ steps n, best e.1 ≤ best n+e.2) : Least steps source settled (insert n opened) best where
  start := hs.start
  within := Finset.insert_subset hn hs.within
  walks := hs.walks
  closed k hk := by
    rcases Finset.mem_insert.mp hk with rfl | hk
    · exact hsteps
    · exact hs.closed k hk
  least := hs.least

/-- A node's cost, with a step taken to it that betters it. -/
def lower (cost : ℚ) (best : ν → WithTop ℚ) (e : ν × ℚ) : ν → WithTop ℚ :=
  if ((cost+e.2 : ℚ) : WithTop ℚ) < best e.1 then Function.update best e.1 (cost+e.2 : ℚ) else best

/-- Steps taken from a settled node. -/
theorem lowerAll_least {node : ν} {cost : ℚ} (hnode : node ∈ settled) {es : List (ν × ℚ)}
    (hes : ∀ e ∈ es, e ∈ steps node) (hs : Least steps source settled opened best) (hcost : best node = cost) :
    Least steps source settled opened (es.foldl (lower cost) best) ∧ (es.foldl (lower cost) best) node = cost ∧
      (∀ n, (es.foldl (lower cost) best) n ≤ best n) ∧
      ∀ e ∈ es, (es.foldl (lower cost) best) e.1 ≤ (cost+e.2 : ℚ) := by
  induction es generalizing best with
  | nil => exact ⟨hs,hcost,fun _ => le_rfl,by simp⟩
  | cons e es ih =>
    have hmore : ∀ e ∈ es, e ∈ steps node := fun d hd => hes d (List.mem_cons_of_mem e hd)
    have hwalk := (hs.walks node cost hcost).tail (hes e (by simp))
    have hone : Least steps source settled opened (lower cost best e) ∧ lower cost best e node = cost ∧
        (∀ n, lower cost best e n ≤ best n) ∧ lower cost best e e.1 ≤ (cost+e.2 : ℚ) := by
      unfold lower
      split_ifs with hless
      · obtain ⟨hfresh,hput⟩ := hs.put hwalk hless
        refine ⟨hput,?_,?_,by simp⟩
        · rw [Function.update_of_ne (by rintro rfl; exact hfresh hnode),hcost]
        · intro n
          by_cases hn : n = e.1
          · subst hn
            rw [Function.update_self]
            exact hless.le
          · rw [Function.update_of_ne hn]
      · exact ⟨hs,hcost,fun _ => le_rfl,not_lt.mp hless⟩
    obtain ⟨hthis,hhere,hdown,htaken⟩ := hone
    obtain ⟨hall,hthere,hdowns,htakens⟩ := ih hmore hthis hhere
    refine ⟨hall,hthere,fun n => (hdowns n).trans (hdown n),?_⟩
    intro d hd
    rcases List.mem_cons.mp hd with rfl | hd
    · exact (hdowns _).trans htaken
    · exact htakens d hd

/-- A settled node opened. -/
theorem Least.look {node : ν} {cost : ℚ} (hs : Least steps source settled opened best) (hnode : node ∈ settled)
    (hcost : best node = cost) :
    Least steps source settled (insert node opened) ((steps node).foldl (lower cost) best) := by
  obtain ⟨hall,hhere,-,htaken⟩ := lowerAll_least hnode (fun e he => he) hs hcost
  apply hall.opens hnode
  intro e he
  rw [hhere]
  exact htaken e he

end

/-! ## With no slack -/

section
variable {ν : Type*} [LinearOrder ν] {steps : ν → List (ν × ℚ)} {source : ν}

theorem start_least : Least steps source ∅ ∅ (start source).best where
  start := by simp [start]
  within := Finset.Subset.refl _
  walks n v hv := by
    by_cases hn : n = source
    · subst hn
      simp only [start,Function.update_self] at hv
      obtain rfl : 0 = v := by exact_mod_cast hv
      exact .refl
    · simp [start,hn] at hv
  closed := by simp
  least := by simp

theorem relax_best (cost : ℚ) (s : Search ν) (e : ν × ℚ) : (relax 0 cost s e).best = lower cost s.best e := by
  unfold relax lower
  simp only [add_zero]
  split_ifs <;> rfl

theorem relaxAll_best (cost : ℚ) (es : List (ν × ℚ)) (s : Search ν) :
    (es.foldl (relax 0 cost) s).best = es.foldl (lower cost) s.best :=
  (List.foldl_hom Search.best fun s e => (relax_best cost s e).symm).symm

/-- What is known of a node costs no more than a walk to it, or something in the queue
does not. -/
theorem Kept.frontier {settled : Finset ν} {last : ℚ} {s : Search ν} (hs : Kept steps source settled settled last s)
    (hlen : ∀ n, ∀ e ∈ steps n, 0 ≤ e.2) (hleast : Least steps source settled settled s.best) {n : ν} {c : ℚ}
    (h : Leads steps source n c) : s.best n ≤ c ∨ ∃ d ∈ s.queue, (ofLex d).1 ≤ c := by
  rcases hleast.frontier (fun _ => 0) (fun n e he => by simpa using hlen n e he) h with hle | ⟨m,v,hm,hv,hle⟩
  · exact .inl hle
  · right
    refine ⟨toLex (v,m),(hs.queued m v hv).resolve_left hm,?_⟩
    simpa using hle

/-- The cheapest entry's cost is that of the cheapest walk to its node. -/
theorem Kept.head_least {settled : Finset ν} {last : ℚ} {best : ν → WithTop ℚ} {e : ℚ ×ₗ ν}
    {queue : List (ℚ ×ₗ ν)} (hs : Kept steps source settled settled last ⟨best,e :: queue⟩)
    (hlen : ∀ n, ∀ e ∈ steps n, 0 ≤ e.2) (hleast : Least steps source settled settled best)
    (hbest : best (ofLex e).2 = (ofLex e).1) {c : ℚ} (h : Leads steps source (ofLex e).2 c) :
    best (ofLex e).2 ≤ c := by
  rcases hs.frontier hlen hleast h with hle | ⟨d,hd,hle⟩
  · exact hle
  · have hfirst : (ofLex e).1 ≤ (ofLex d).1 := by
      rcases List.mem_cons.mp hd with rfl | hd
      · exact le_rfl
      · rcases Prod.Lex.le_iff.mp ((List.pairwise_cons.mp hs.sorted).1 d hd) with h | h
        · exact h.le
        · exact h.1.le
    rw [hbest]
    exact_mod_cast hfirst.trans hle

/-- Of what is wanted and what has been settled, the search ends with the costs that are the
least, and every cost it ends with is of a walk. -/
theorem run_least (hlen : ∀ n, ∀ e ∈ steps n, 0 ≤ e.2) (more : ℕ) (wanted settled : Finset ν) (last : ℚ)
    (s : Search ν) (hs : Kept steps source settled settled last s)
    (hleast : Least steps source settled settled s.best) {s' : Search ν}
    (hrun : run steps 0 more wanted s = some s') :
    (∀ n, ∀ v : ℚ, s'.best n = v → Leads steps source n v) ∧
      ∀ n, n ∈ wanted ∨ n ∈ settled → ∀ c, Leads steps source n c → s'.best n ≤ c := by
  induction more generalizing wanted settled last s with
  | zero => cases hrun
  | succ more ih =>
    obtain ⟨best,queue⟩ := s
    cases queue with
    | nil =>
      cases hrun
      refine ⟨hleast.walks,fun n _ c hc => ?_⟩
      rcases hs.frontier hlen hleast hc with hle | ⟨d,hd,-⟩
      · exact hle
      · cases hd
    | cons e queue =>
      simp only [run] at hrun
      split_ifs at hrun with hstale hlast
      · exact ih wanted settled last _ (skip_kept hs hstale) hleast hrun
      · -- the last of what is wanted
        cases hrun
        obtain ⟨-,hbest,-⟩ := settle_kept hs hstale
        refine ⟨hleast.walks,fun n hn c hc => ?_⟩
        rcases hn with hn | hn
        · have heq : n = (ofLex e).2 := by
            by_contra hne
            have hmem : n ∈ wanted.erase (ofLex e).2 := Finset.mem_erase.mpr ⟨hne,hn⟩
            simp [hlast] at hmem
          subst heq
          exact hs.head_least hlen hleast hbest hc
        · exact hleast.least n hn c hc
      · obtain ⟨-,hbest,-⟩ := settle_kept hs hstale
        obtain ⟨hopen,-,-⟩ := open_kept le_rfl hlen hs hstale
        have hsettle := hleast.settle fun c hc => hs.head_least hlen hleast hbest hc
        have hlook := hsettle.look (Finset.mem_insert_self _ _) hbest
        obtain ⟨hwalks,hall⟩ := ih (wanted.erase (ofLex e).2) _ _ _ hopen (by rwa [relaxAll_best]) hrun
        refine ⟨hwalks,fun n hn => hall n ?_⟩
        by_cases heq : n = (ofLex e).2
        · exact .inr (by simp [heq])
        · rcases hn with hn | hn
          · exact .inl (Finset.mem_erase.mpr ⟨heq,hn⟩)
          · exact .inr (Finset.mem_insert_of_mem hn)

end

end LeastFirst
end Spork
