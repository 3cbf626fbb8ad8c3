import Spork.Lib.Shortest

/-! Searching a graph for one goal, least cost and guess of the way on first. Every entry in the
queue is looked at, those bettered since with no more to find, until the goal is; the way back
is by the node each was reached from. With no slack, and a guess that no step gains on, what is
found is a cheapest walk. -/
namespace Spork
namespace Guided

open LeastFirst

variable {ν : Type*} [LinearOrder ν]

/-- The best cost found for each node, which node it was reached from, and the nodes to look at,
the one of least cost and guess first. -/
structure Trail (ν : Type*) where
  best : ν → WithTop ℚ
  came : ν → Option ν
  queue : List (ℚ ×ₗ ν)

/-- The way back to `source`, at most so many nodes of it. -/
def trace (came : ν → Option ν) (source : ν) : ℕ → ν → Option (List ν)
  | 0, _ => none
  | more+1, n => if n = source then some [n] else (came n).bind fun m => (trace came source more m).map (n :: ·)

section
variable (steps : ν → List (ν × ℚ)) (guess : ν → ℚ) (slack : ℚ)

/-- A node's cost bettered by a step from another, and the node to look at again. -/
def Trail.put (s : Trail ν) (node n : ν) (v : ℚ) : Trail ν :=
  ⟨Function.update s.best n v,Function.update s.came n (some node),
    s.queue.orderedInsert (· ≤ ·) (toLex (v+guess n,n))⟩

/-- A node one step further on, when that betters what is known of it. -/
def relax (node : ν) (here : ℚ) (s : Trail ν) (e : ν × ℚ) : Trail ν :=
  let via := here+e.2
  if ((via+slack : ℚ) : WithTop ℚ) < s.best e.1 then s.put guess node e.1 via else s

/-- All the steps from a node. From one with no cost none betters anything. -/
def look (node : ν) (s : Trail ν) : Trail ν :=
  if s.best node = ⊤ then s
  else (steps node).foldl (relax guess slack node ((s.best node).untopD 0)) s

/-- The search, at most so many nodes looked at, and whether the goal was. -/
def run (goal : ν) : ℕ → Trail ν → Option (Trail ν × Bool)
  | 0, _ => none
  | more+1, s =>
    match s.queue with
    | [] => some (s,false)
    | e :: queue =>
      let node := (ofLex e).2
      if node = goal then some (⟨s.best,s.came,queue⟩,true)
      else run goal more (look steps guess slack node ⟨s.best,s.came,queue⟩)

/-- Before anything is looked at but where the search starts. -/
def start (source : ν) : Trail ν :=
  ⟨Function.update (fun _ => ⊤) source 0,fun _ => none,[toLex (guess source,source)]⟩

/-- A cost is that of the node it was reached from and a step. -/
def Parent (best : ν → WithTop ℚ) (came : ν → Option ν) (among : Set ν) (n : ν) (v : ℚ) : Prop :=
  ∃ m ∈ among, ∃ len u : ℚ, came n = some m ∧ (n,len) ∈ steps m ∧ best m = u ∧ v = u+len

/-- What the search keeps: `settled` are the nodes looked at, `opened` those of them all of
whose steps have been taken. -/
structure Kept (source : ν) (settled opened : Finset ν) (s : Trail ν) : Prop where
  sorted : s.queue.Pairwise (· ≤ ·)
  keyed : ∀ e ∈ s.queue, ∃ v : ℚ, s.best (ofLex e).2 = v ∧ v+guess (ofLex e).2 ≤ (ofLex e).1
  queued : ∀ n, ∀ v : ℚ, s.best n = v → n ∈ settled ∨ toLex (v+guess n,n) ∈ s.queue
  parent : ∀ n, ∀ v : ℚ, s.best n = v → n ≠ source → Parent steps s.best s.came settled n v
  least : Least steps source settled opened s.best

end

/-! ## Going on longer -/

theorem run_mono {steps : ν → List (ν × ℚ)} {guess : ν → ℚ} {slack : ℚ} {goal : ν} {more : ℕ} {s : Trail ν}
    {r : Trail ν × Bool} (h : run steps guess slack goal more s = some r) {more' : ℕ} (hle : more ≤ more') :
    run steps guess slack goal more' s = some r := by
  induction more generalizing s more' with
  | zero => cases h
  | succ more ih =>
    obtain ⟨later,rfl⟩ : ∃ later, more' = later+1 := ⟨more'-1,by omega⟩
    obtain ⟨best,came,queue⟩ := s
    cases queue with
    | nil => exact h
    | cons e queue =>
      simp only [run] at h ⊢
      split_ifs at h ⊢
      · exact h
      · exact ih h (by omega)

theorem trace_mono {came : ν → Option ν} {source n : ν} {more : ℕ} {path : List ν}
    (h : trace came source more n = some path) {more' : ℕ} (hle : more ≤ more') :
    trace came source more' n = some path := by
  induction more generalizing n path more' with
  | zero => cases h
  | succ more ih =>
    obtain ⟨later,rfl⟩ : ∃ later, more' = later+1 := ⟨more'-1,by omega⟩
    rw [trace] at h ⊢
    split_ifs at h ⊢
    · exact h
    · obtain ⟨m,hm,h⟩ := Option.bind_eq_some_iff.mp h
      obtain ⟨rest,hrest,hpath⟩ := Option.map_eq_some_iff.mp h
      rw [hm,Option.bind_some,ih hrest (by omega),Option.map_some,hpath]

section
variable {steps : ν → List (ν × ℚ)} {guess : ν → ℚ} {source goal : ν}

theorem start_kept : Kept steps guess source ∅ ∅ (start guess source) where
  sorted := List.pairwise_singleton _ _
  keyed := by simp [start]
  queued n v hv := by
    by_cases hn : n = source
    · subst hn
      simp only [start,Function.update_self] at hv
      obtain rfl : 0 = v := by exact_mod_cast hv
      simp [start]
    · simp [start,hn] at hv
  parent n v hv hn := by
    simp [start,hn] at hv
  least := start_least

@[simp] theorem Trail.put_best_self (s : Trail ν) (node n : ν) (v : ℚ) : (s.put guess node n v).best n = v :=
  Function.update_self _ _ _
theorem Trail.put_best_of_ne (s : Trail ν) (node : ν) {n k : ν} (v : ℚ) (h : k ≠ n) :
    (s.put guess node n v).best k = s.best k := Function.update_of_ne h _ _
@[simp] theorem Trail.put_came_self (s : Trail ν) (node n : ν) (v : ℚ) :
    (s.put guess node n v).came n = some node := Function.update_self _ _ _
theorem Trail.put_came_of_ne (s : Trail ν) (node : ν) {n k : ν} (v : ℚ) (h : k ≠ n) :
    (s.put guess node n v).came k = s.came k := Function.update_of_ne h _ _
@[simp] theorem Trail.mem_put_queue (s : Trail ν) (node n : ν) (v : ℚ) (d : ℚ ×ₗ ν) :
    d ∈ (s.put guess node n v).queue ↔ d = toLex (v+guess n,n) ∨ d ∈ s.queue := List.mem_orderedInsert _

/-- A step that betters a node's cost. -/
theorem put_kept {settled opened : Finset ν} {node : ν} {here : ℚ} {s : Trail ν}
    (hs : Kept steps guess source settled opened s) (hnode : node ∈ settled) (hhere : s.best node = here)
    {e : ν × ℚ} (he : e ∈ steps node) (hless : ((here+e.2 : ℚ) : WithTop ℚ) < s.best e.1) :
    e.1 ∉ settled ∧ Kept steps guess source settled opened (s.put guess node e.1 (here+e.2)) := by
  obtain ⟨hfresh,hleast⟩ := hs.least.put ((hs.least.walks node here hhere).tail he) hless
  have hsame (m : ν) (hm : m ∈ settled) : (s.put guess node e.1 (here+e.2)).best m = s.best m :=
    s.put_best_of_ne node _ (by rintro rfl; exact hfresh hm)
  refine ⟨hfresh,hs.sorted.orderedInsert _ _,?_,?_,?_,hleast⟩
  · intro d hd
    rcases (s.mem_put_queue node e.1 _ d).mp hd with rfl | hd
    · exact ⟨here+e.2,s.put_best_self node e.1 _,le_rfl⟩
    · obtain ⟨v,hv,hle⟩ := hs.keyed d hd
      by_cases hto : (ofLex d).2 = e.1
      · refine ⟨here+e.2,by rw [hto,s.put_best_self],?_⟩
        rw [← hto,hv] at hless
        have hlt : here+e.2 < v := WithTop.coe_lt_coe.mp hless
        linarith
      · exact ⟨v,by rw [s.put_best_of_ne node _ hto,hv],hle⟩
  · intro n v hv
    by_cases hn : n = e.1
    · subst hn
      rw [s.put_best_self] at hv
      rw [← WithTop.coe_injective hv]
      exact .inr ((s.mem_put_queue node _ _ _).mpr (.inl rfl))
    · rw [s.put_best_of_ne node _ hn] at hv
      exact (hs.queued n v hv).imp_right fun h => (s.mem_put_queue node _ _ _).mpr (.inr h)
  · intro n v hv hsource
    by_cases hn : n = e.1
    · subst hn
      rw [s.put_best_self] at hv
      exact ⟨node,hnode,e.2,here,s.put_came_self node _ _,he,by rw [hsame node hnode,hhere],
        (WithTop.coe_injective hv).symm⟩
    · rw [s.put_best_of_ne node _ hn] at hv
      obtain ⟨m,hm,len,u,hcame,hstep,hu,hsum⟩ := hs.parent n v hv hsource
      exact ⟨m,hm,len,u,by rw [s.put_came_of_ne node _ hn,hcame],hstep,by rw [hsame m hm,hu],hsum⟩

/-- All the steps from a settled node, with no slack. -/
theorem relaxAll_kept {settled opened : Finset ν} {node : ν} {here : ℚ} (hnode : node ∈ settled)
    {es : List (ν × ℚ)} (hes : ∀ e ∈ es, e ∈ steps node) {s : Trail ν}
    (hs : Kept steps guess source settled opened s) (hhere : s.best node = here) :
    Kept steps guess source settled opened (es.foldl (relax guess 0 node here) s) ∧
      (es.foldl (relax guess 0 node here) s).queue.length ≤ s.queue.length+es.length := by
  induction es generalizing s with
  | nil => exact ⟨hs,by simp⟩
  | cons e es ih =>
    have hmore : ∀ e ∈ es, e ∈ steps node := fun d hd => hes d (List.mem_cons_of_mem e hd)
    have hone : Kept steps guess source settled opened (relax guess 0 node here s e) ∧
        (relax guess 0 node here s e).best node = here ∧
        (relax guess 0 node here s e).queue.length ≤ s.queue.length+1 := by
      unfold relax
      simp only [add_zero]
      split_ifs with hless
      · obtain ⟨hfresh,hput⟩ := put_kept hs hnode hhere (hes e (by simp)) hless
        refine ⟨hput,?_,?_⟩
        · rw [← hhere]
          exact s.put_best_of_ne node _ (by rintro rfl; exact hfresh hnode)
        · simp [Trail.put,List.orderedInsert_length]
      · exact ⟨hs,hhere,Nat.le_succ _⟩
    obtain ⟨hthis,hthere,hcount⟩ := hone
    obtain ⟨hall,hcounts⟩ := ih hmore hthis hthere
    refine ⟨hall,?_⟩
    simp only [List.foldl_cons,List.length_cons]
    omega

theorem relaxAll_best (node : ν) (here : ℚ) (es : List (ν × ℚ)) (s : Trail ν) :
    (es.foldl (relax guess 0 node here) s).best = es.foldl (lower here) s.best := by
  refine (List.foldl_hom Trail.best fun s e => ?_).symm
  unfold relax lower
  simp only [add_zero]
  split_ifs <;> rfl

/-- From a settled node there is nothing left to better. -/
theorem look_settled {settled : Finset ν} {s : Trail ν} (hleast : Least steps source settled settled s.best)
    {node : ν} (hnode : node ∈ settled) : look steps guess 0 node s = s := by
  unfold look
  split_ifs with htop
  · rfl
  · obtain ⟨here,hhere⟩ := WithTop.ne_top_iff_exists.mp htop
    have hnone : ∀ e ∈ steps node, relax guess 0 node here s e = s := by
      intro e he
      have hclosed := hleast.closed node hnode e he
      rw [← hhere] at hclosed
      unfold relax
      simp only [add_zero]
      exact if_neg (not_lt.mpr hclosed)
    rw [← hhere,WithTop.untopD_coe]
    generalize steps node = es at hnone
    induction es with
    | nil => rfl
    | cons e es ih =>
      rw [List.foldl_cons,hnone e (by simp)]
      exact ih fun d hd => hnone d (List.mem_cons_of_mem e hd)

/-- An entry of a settled node taken off the queue. -/
theorem skip_kept {settled : Finset ν} {best : ν → WithTop ℚ} {came : ν → Option ν} {e : ℚ ×ₗ ν}
    {queue : List (ℚ ×ₗ ν)} (hs : Kept steps guess source settled settled ⟨best,came,e :: queue⟩)
    (hold : (ofLex e).2 ∈ settled) : Kept steps guess source settled settled ⟨best,came,queue⟩ where
  sorted := hs.sorted.of_cons
  keyed d hd := hs.keyed d (List.mem_cons_of_mem e hd)
  queued n v hv := by
    rcases hs.queued n v hv with h | h
    · exact .inl h
    · rcases List.mem_cons.mp h with rfl | h
      · exact .inl hold
      · exact .inr h
  parent := hs.parent
  least := hs.least

/-- The first entry's node, when it is not settled, has the cost of a cheapest walk to it. -/
theorem Kept.head_least {settled : Finset ν} {best : ν → WithTop ℚ} {came : ν → Option ν} {e : ℚ ×ₗ ν}
    {queue : List (ℚ ×ₗ ν)} (hs : Kept steps guess source settled settled ⟨best,came,e :: queue⟩)
    (hguess : ∀ n, ∀ e ∈ steps n, guess n ≤ e.2+guess e.1) :
    ∃ v : ℚ, best (ofLex e).2 = v ∧ ∀ c, Leads steps source (ofLex e).2 c → v ≤ c := by
  obtain ⟨v,hv,hkey⟩ := hs.keyed e (by simp)
  refine ⟨v,hv,fun c hc => ?_⟩
  rcases hs.least.frontier guess hguess hc with hle | ⟨m,u,hm,hu,hle⟩
  · have hbest : best (ofLex e).2 = v := hv
    change best (ofLex e).2 ≤ c at hle
    rw [hbest] at hle
    exact WithTop.coe_le_coe.mp hle
  · have hin := (hs.queued m u hu).resolve_left hm
    have hfirst : (ofLex e).1 ≤ u+guess m := by
      rcases List.mem_cons.mp hin with heq | hin
      · exact (congrArg (fun d => (ofLex d).1) heq).ge
      · rcases Prod.Lex.le_iff.mp ((List.pairwise_cons.mp hs.sorted).1 _ hin) with h | h
        · exact h.le
        · exact h.1.le
    linarith

/-- The first entry's node looked at, when it was not before. -/
theorem look_kept {settled : Finset ν} {best : ν → WithTop ℚ} {came : ν → Option ν} {e : ℚ ×ₗ ν}
    {queue : List (ℚ ×ₗ ν)} (hs : Kept steps guess source settled settled ⟨best,came,e :: queue⟩)
    (hguess : ∀ n, ∀ e ∈ steps n, guess n ≤ e.2+guess e.1) :
    Kept steps guess source (insert (ofLex e).2 settled) (insert (ofLex e).2 settled)
        (look steps guess 0 (ofLex e).2 ⟨best,came,queue⟩) ∧
      (look steps guess 0 (ofLex e).2 ⟨best,came,queue⟩).queue.length ≤ queue.length+(steps (ofLex e).2).length := by
  obtain ⟨here,hhere,hleast⟩ := hs.head_least hguess
  have hnode : (ofLex e).2 ∈ insert (ofLex e).2 settled := Finset.mem_insert_self _ _
  have hsettle : Least steps source (insert (ofLex e).2 settled) settled best := by
    apply hs.least.settle
    intro c hc
    show best (ofLex e).2 ≤ c
    rw [hhere]
    exact WithTop.coe_le_coe.mpr (hleast c hc)
  have hmid : Kept steps guess source (insert (ofLex e).2 settled) settled ⟨best,came,queue⟩ := by
    refine ⟨hs.sorted.of_cons,fun d hd => hs.keyed d (List.mem_cons_of_mem e hd),?_,?_,hsettle⟩
    · intro n v hv
      rcases hs.queued n v hv with h | h
      · exact .inl (Finset.mem_insert_of_mem h)
      · rcases List.mem_cons.mp h with rfl | h
        · exact .inl hnode
        · exact .inr h
    · intro n v hv hn
      obtain ⟨m,hm,hrest⟩ := hs.parent n v hv hn
      exact ⟨m,Finset.mem_insert_of_mem hm,hrest⟩
  obtain ⟨hall,hcount⟩ := relaxAll_kept hnode (fun d hd => hd) hmid hhere
  have hlook : look steps guess 0 (ofLex e).2 ⟨best,came,queue⟩ =
      (steps (ofLex e).2).foldl (relax guess 0 (ofLex e).2 here) ⟨best,came,queue⟩ := by
    have hfinite : best (ofLex e).2 ≠ ⊤ := by
      rw [hhere]
      exact WithTop.coe_ne_top
    unfold look
    rw [if_neg hfinite]
    congr 1
    show relax guess 0 (ofLex e).2 ((best (ofLex e).2).untopD 0) = _
    rw [hhere,WithTop.untopD_coe]
  rw [hlook]
  refine ⟨{hall with least := ?_},hcount⟩
  rw [relaxAll_best]
  exact hsettle.look hnode hhere

/-- The search ends, once it may look at as many nodes as there are steps to them: with the
goal at the cost of a cheapest walk to it, or with no walk to it. -/
theorem run_spec (hguess : ∀ n, ∀ e ∈ steps n, guess n ≤ e.2+guess e.1) {nodes : Finset ν}
    (hnodes : ∀ n, Reached steps source n → n ∈ nodes) {width : ℕ} (hwidth : ∀ n, (steps n).length ≤ width)
    (more : ℕ) (settled : Finset ν) (s : Trail ν) (hs : Kept steps guess source settled settled s)
    (hgoal : goal ∉ settled) (hreached : ∀ n ∈ settled, Reached steps source n)
    (hmore : s.queue.length+width*(nodes.card-settled.card) < more) :
    (∃ s', run steps guess 0 goal more s = some (s',false) ∧ ¬Reached steps source goal) ∨
      ∃ s' v, run steps guess 0 goal more s = some (s',true) ∧ s'.best goal = ((v : ℚ) : WithTop ℚ) ∧
        (∀ c, Leads steps source goal c → v ≤ c) ∧ s'.best source ≤ 0 ∧
        (∀ n, ∀ u : ℚ, s'.best n = u → Leads steps source n u) ∧
        ∀ n, ∀ u : ℚ, s'.best n = u → n ≠ source → Parent steps s'.best s'.came Set.univ n u := by
  induction more generalizing settled s with
  | zero => omega
  | succ more ih =>
    obtain ⟨best,came,queue⟩ := s
    cases queue with
    | nil =>
      left
      refine ⟨_,rfl,fun hreach => ?_⟩
      obtain ⟨c,hc⟩ := hreach.leads
      rcases hs.least.frontier guess hguess hc with hle | ⟨m,v,hm,hv,-⟩
      · obtain ⟨v,hv⟩ := WithTop.ne_top_iff_exists.mp (ne_top_of_le_ne_top WithTop.coe_ne_top hle)
        rcases hs.queued goal v hv.symm with h | h
        · exact hgoal h
        · cases h
      · rcases hs.queued m v hv with h | h
        · exact hm h
        · cases h
    | cons e queue =>
      by_cases hfound : (ofLex e).2 = goal
      · right
        obtain ⟨v,hv,hleast⟩ := hs.head_least hguess
        refine ⟨⟨best,came,queue⟩,v,?_,?_,?_,hs.least.start,hs.least.walks,?_⟩
        · simp only [run,hfound,if_true]
        · rw [← hfound]
          exact hv
        · rw [← hfound]
          exact hleast
        · intro n u hu hn
          obtain ⟨m,-,hrest⟩ := hs.parent n u hu hn
          exact ⟨m,Set.mem_univ m,hrest⟩
      · have hrun : run steps guess 0 goal (more+1) ⟨best,came,e :: queue⟩ =
            run steps guess 0 goal more (look steps guess 0 (ofLex e).2 ⟨best,came,queue⟩) := by
          simp only [run,hfound,if_false]
        rw [hrun]
        by_cases hold : (ofLex e).2 ∈ settled
        · have hskip := skip_kept hs hold
          rw [look_settled hskip.least hold]
          apply ih settled _ hskip hgoal hreached
          simp only [List.length_cons] at hmore
          show queue.length+width*(nodes.card-settled.card) < more
          omega
        · obtain ⟨hlook,hcount⟩ := look_kept hs hguess
          obtain ⟨here,hhere,-⟩ := hs.head_least hguess
          have hreached' : ∀ n ∈ insert (ofLex e).2 settled, Reached steps source n := by
            intro n hn
            rcases Finset.mem_insert.mp hn with rfl | hn
            · exact (hs.least.walks _ here hhere).reached
            · exact hreached n hn
          have hin : insert (ofLex e).2 settled ⊆ nodes := fun n hn => hnodes n (hreached' n hn)
          apply ih _ _ hlook ?_ hreached' ?_
          · intro hin
            rcases Finset.mem_insert.mp hin with heq | hin
            · exact hfound heq.symm
            · exact hgoal hin
          · have hcard := Finset.card_le_card hin
            rw [Finset.card_insert_of_notMem hold] at hcard ⊢
            have hroom : nodes.card-settled.card = (nodes.card-(settled.card+1))+1 := by omega
            have hwide := hwidth (ofLex e).2
            rw [hroom,Nat.mul_succ] at hmore
            simp only [List.length_cons] at hmore
            omega

/-- The way back from a node is a walk to it, of its cost: each node on it costs less than the
one after, so it comes to `source`. -/
theorem trace_spec {best : ν → WithTop ℚ} {came : ν → Option ν} (hlen : ∀ n, ∀ e ∈ steps n, 0 < e.2)
    {nodes : Finset ν} (hnodes : ∀ n, best n ≠ ⊤ → n ∈ nodes) (hsource : best source = 0)
    (hparent : ∀ n, ∀ v : ℚ, best n = v → n ≠ source → Parent steps best came Set.univ n v) (more : ℕ)
    (n : ν) (v : ℚ) (hv : best n = v) (hmore : (nodes.filter fun m => best m < v).card < more) :
    ∃ path, trace came source more n = some (n :: path) ∧ Along steps (n :: path).reverse v ∧
      (n :: path).getLast? = some source := by
  induction more generalizing n v with
  | zero => omega
  | succ more ih =>
    by_cases hn : n = source
    · subst hn
      rw [hsource] at hv
      obtain rfl : 0 = v := by exact_mod_cast hv
      exact ⟨[],by simp [trace],.one n,rfl⟩
    · obtain ⟨m,-,len,u,hcame,hstep,hu,hsum⟩ := hparent n v hv hn
      have hlt : u < v := by
        have hpos := hlen m _ hstep
        simp only at hpos
        linarith
      have hfewer : (nodes.filter fun k => best k < u).card < (nodes.filter fun k => best k < v).card := by
        apply Finset.card_lt_card
        refine Finset.ssubset_iff_of_subset ?_ |>.mpr ⟨m,?_,?_⟩
        · intro k hk
          obtain ⟨hkin,hku⟩ := Finset.mem_filter.mp hk
          exact Finset.mem_filter.mpr ⟨hkin,hku.trans (WithTop.coe_lt_coe.mpr hlt)⟩
        · rw [Finset.mem_filter,hu]
          refine ⟨hnodes m ?_,WithTop.coe_lt_coe.mpr hlt⟩
          rw [hu]
          exact WithTop.coe_ne_top
        · rw [Finset.mem_filter,hu]
          exact fun h => lt_irrefl _ h.2
      obtain ⟨path,htrace,halong,hlast⟩ := ih m u hu (by omega)
      refine ⟨m :: path,?_,?_,?_⟩
      · rw [trace,if_neg hn,hcame,Option.bind_some,htrace,Option.map_some]
      · rw [List.reverse_cons,List.reverse_cons] at *
        rw [hsum]
        exact halong.snoc hstep
      · rw [List.getLast?_cons_cons]
        exact hlast

end

end Guided
end Spork
