import Spork.Routing.Order

/-! Whatever the clock does, an order of stops starts where it should and visits every
stop once; and the quick way is never longer than the routes it starts from. -/
namespace Spork
namespace Routing

/-- The same stops, from the same start. -/
def SameStops (route route' : List ℕ) : Prop := route'.Perm route ∧ route'.head? = route.head?

theorem SameStops.refl (route : List ℕ) : SameStops route route := ⟨List.Perm.refl _,rfl⟩

theorem SameStops.trans {r₁ r₂ r₃ : List ℕ} (h₁ : SameStops r₁ r₂) (h₂ : SameStops r₂ r₃) :
    SameStops r₁ r₃ := ⟨h₂.1.trans h₁.1,h₂.2.trans h₁.2⟩

theorem SameStops.visits {cost : Costs} {start : ℕ} {r₁ r₂ : List ℕ} (h : SameStops r₁ r₂)
    (h₁ : Visits cost start r₁) : Visits cost start r₂ := ⟨h.1.trans h₁.perm,h.2.trans h₁.starts⟩

/-- What a route is not moved from its first `i` on. -/
theorem head_take_append {route : List ℕ} {i : ℕ} (hi : 1 ≤ i) (rest : List ℕ)
    (hsome : route ≠ []) : (route.take i++rest).head? = route.head? := by
  cases route with
  | nil => exact absurd rfl hsome
  | cons a route =>
    obtain ⟨i,rfl⟩ := Nat.exists_eq_succ_of_ne_zero (by omega : i ≠ 0)
    simp

theorem turnedRound_same {route : List ℕ} {i k : ℕ} (hi : 1 ≤ i) (hk : i ≤ k) :
    SameStops route (turnedRound route i k) := by
  by_cases hsome : route = []
  · subst hsome
    simp [turnedRound,SameStops]
  · have hcut : route.take i++((route.drop i).take (k+1-i)++route.drop (k+1)) = route := by
      have hdrop : route.drop (k+1) = (route.drop i).drop (k+1-i) := by
        rw [List.drop_drop]
        congr 1
        omega
      rw [hdrop,List.take_append_drop,List.take_append_drop]
    refine ⟨?_,?_⟩
    · unfold turnedRound
      rw [List.append_assoc]
      conv_rhs => rw [← hcut]
      exact ((List.reverse_perm _).append_right _).append_left _
    · unfold turnedRound
      rw [List.append_assoc]
      exact head_take_append hi _ hsome

theorem putBack_same {route : List ℕ} {len i place : ℕ} {flipped : Bool} (hi : 1 ≤ i) (hplace : 1 ≤ place) :
    SameStops route (putBack (route.take i++route.drop (i+len)) ((route.drop i).take len) place flipped) := by
  by_cases hsome : route = []
  · subst hsome
    cases flipped <;> simp [putBack,SameStops]
  · set rest := route.take i++route.drop (i+len) with hrest
    set piece := (route.drop i).take len with hpiece
    have hparts : (piece++rest).Perm route := by
      have hcut : route.take i++(piece++route.drop (i+len)) = route := by
        rw [hpiece,← List.drop_drop,List.take_append_drop,List.take_append_drop]
      conv_rhs => rw [← hcut]
      rw [hrest,← List.append_assoc,← List.append_assoc]
      exact List.perm_append_comm.append_right _
    have hturn : (if flipped then piece.reverse else piece).Perm piece := by
      cases flipped
      · exact List.Perm.refl _
      · exact List.reverse_perm _
    refine ⟨?_,?_⟩
    · unfold putBack
      refine List.Perm.trans ?_ hparts
      refine ((hturn.append_left _).append_right _).trans ?_
      rw [List.append_assoc]
      conv_rhs => rw [← List.take_append_drop place rest]
      rw [← List.append_assoc,← List.append_assoc]
      exact List.perm_append_comm.append_right _
    · unfold putBack
      have hne : rest ≠ [] := by
        rw [hrest]
        cases route with
        | nil => exact absurd rfl hsome
        | cons a route =>
          obtain ⟨i,rfl⟩ := Nat.exists_eq_succ_of_ne_zero (by omega : i ≠ 0)
          simp
      rw [List.append_assoc,head_take_append hplace _ hne,hrest,head_take_append hi _ hsome]

theorem shaken_same {best : List ℕ} {c₀ c₁ c₂ : ℕ} (h₀ : 1 ≤ c₀) (h₁ : c₀ ≤ c₁) (h₂ : c₁ ≤ c₂) :
    SameStops best (shaken best c₀ c₁ c₂) := by
  by_cases hsome : best = []
  · subst hsome
    simp [shaken,SameStops]
  · have hcut : best.take c₀++((best.drop c₀).take (c₁-c₀)++((best.drop c₁).take (c₂-c₁)++best.drop c₂)) =
        best := by
      have hdrop₁ : best.drop c₁ = (best.drop c₀).drop (c₁-c₀) := by
        rw [List.drop_drop]
        congr 1
        omega
      have hdrop₂ : best.drop c₂ = (best.drop c₁).drop (c₂-c₁) := by
        rw [List.drop_drop]
        congr 1
        omega
      rw [hdrop₂,List.take_append_drop,hdrop₁,List.take_append_drop,List.take_append_drop]
    refine ⟨?_,?_⟩
    · unfold shaken
      conv_rhs => rw [← hcut]
      rw [List.append_assoc,List.append_assoc,← List.append_assoc (List.take (c₁-c₀) _),
        ← List.append_assoc (List.take (c₂-c₁) _)]
      exact (List.perm_append_comm.append_right _).append_left _
    · unfold shaken
      rw [List.append_assoc,List.append_assoc]
      exact head_take_append h₀ _ hsome

/-! ## Polishing keeps to what is kept -/

/-- What is kept of a route while it is polished: its stops, and whatever else holds of one that
is shorter. -/
structure Keeps (shorter : List ℕ → List ℕ → Bool) (Kept : List ℕ → List ℕ → Prop) : Prop where
  refl : ∀ route, Kept route route
  trans : ∀ {r₁ r₂ r₃}, Kept r₁ r₂ → Kept r₂ r₃ → Kept r₁ r₃
  stops : ∀ {route route'}, Kept route route' → SameStops route route'
  shorter : ∀ {route tried}, SameStops route tried → shorter tried route = true → Kept route tried

section
variable {late : ℕ → Bool} {shorter : List ℕ → List ℕ → Bool} {Kept : List ℕ → List ℕ → Prop}

/-- Whatever a shorter route is taken for, the stops are kept. -/
theorem keeps_stops (shorter : List ℕ → List ℕ → Bool) : Keeps shorter SameStops where
  refl := SameStops.refl
  trans := SameStops.trans
  stops h := h
  shorter h _ := h

theorem tryTurned_keeps (h : Keeps shorter Kept) {i k : ℕ} (hi : 1 ≤ i) (hk : i ≤ k) (acc : List ℕ × Bool) :
    Kept acc.1 (tryTurned shorter i acc k).1 := by
  unfold tryTurned
  dsimp only
  split_ifs with hshort
  · exact h.shorter (turnedRound_same hi hk) hshort
  · exact h.refl acc.1

theorem twoOpt_keeps (h : Keeps shorter Kept) {is : List ℕ} (his : ∀ i ∈ is, 1 ≤ i) (acc : List ℕ × Bool)
    (look : ℕ) : Kept acc.1 (twoOpt late shorter is acc look).1.1 := by
  induction is generalizing acc look with
  | nil => exact h.refl acc.1
  | cons i is ih =>
    unfold twoOpt
    split_ifs
    · exact h.refl acc.1
    · refine h.trans ?_ (ih (fun j hj => his j (List.mem_cons_of_mem i hj)) _ _)
      refine Loop.foldl_keeps (fun acc' : List ℕ × Bool => Kept acc.1 acc'.1)
        (h.refl acc.1) fun acc' k hk hacc => ?_
      have hik : i ≤ k := by
        have := List.mem_range'_1.mp hk
        omega
      exact h.trans hacc (tryTurned_keeps h (his i (by simp)) hik acc')

theorem moves_same {route : List ℕ} {len i : ℕ} (hi : 1 ≤ i) {tried : List ℕ}
    (h : tried ∈ moves route len i) : SameStops route tried := by
  obtain ⟨place,hplace,h⟩ := List.mem_flatMap.mp h
  obtain ⟨flipped,-,h⟩ := List.mem_filterMap.mp h
  split_ifs at h
  obtain rfl := Option.some.inj h
  exact putBack_same hi (List.mem_range'_1.mp hplace).1

theorem orOpt_keeps (h : Keeps shorter Kept) {len : ℕ} {is : List ℕ} (his : ∀ i ∈ is, 1 ≤ i)
    (acc : List ℕ × Bool) (look : ℕ) : Kept acc.1 (orOpt late shorter len is acc look).1.1 := by
  induction is generalizing acc look with
  | nil => exact h.refl acc.1
  | cons i is ih =>
    have hrest : ∀ j ∈ is, 1 ≤ j := fun j hj => his j (List.mem_cons_of_mem i hj)
    unfold orOpt
    split_ifs
    · exact h.refl acc.1
    · split
      · rename_i t hfound
        have hshort := List.find?_some hfound
        refine h.trans ?_ (ih hrest (t,true) _)
        exact h.shorter (moves_same (his i (by simp)) (List.mem_of_find?_eq_some hfound)) hshort
      · exact ih hrest acc _

theorem range'_one_le {n : ℕ} : ∀ i ∈ List.range' 1 n, 1 ≤ i := fun _ hi => (List.mem_range'_1.mp hi).1

theorem polishRound_keeps (h : Keeps shorter Kept) (route : List ℕ) (look : ℕ) :
    Kept route (polishRound late shorter route look).1.1 := by
  refine Loop.foldl_keeps (fun s : (List ℕ × Bool) × ℕ => Kept route s.1.1)
    (twoOpt_keeps h range'_one_le (route,false) look) fun s len _ hs => ?_
  exact h.trans hs (orOpt_keeps h range'_one_le s.1 s.2)

theorem polishBy_keeps (h : Keeps shorter Kept) (route : List ℕ) (look : ℕ) :
    Kept route (polishBy late shorter route look).1 := by
  suffices hrounds : ∀ rounds route look, Kept route (polishFrom late shorter rounds route look).1 from
    hrounds 50 route look
  intro rounds
  induction rounds with
  | zero => exact fun route _ => h.refl route
  | succ rounds ih =>
    intro route look
    unfold polishFrom
    dsimp only
    split_ifs
    · exact h.refl route
    · exact h.trans (polishRound_keeps h route _) (ih _ _)
    · exact polishRound_keeps h route _

theorem sorted_three (a b c : ℕ) (ha : 1 ≤ a) (hb : 1 ≤ b) (hc : 1 ≤ c) :
    1 ≤ ([a,b,c].insertionSort (· ≤ ·)).getD 0 0 ∧
    ([a,b,c].insertionSort (· ≤ ·)).getD 0 0 ≤ ([a,b,c].insertionSort (· ≤ ·)).getD 1 0 ∧
    ([a,b,c].insertionSort (· ≤ ·)).getD 1 0 ≤ ([a,b,c].insertionSort (· ≤ ·)).getD 2 0 := by
  simp only [List.insertionSort,List.foldr,List.orderedInsert]
  by_cases h₁ : b ≤ c <;> by_cases h₂ : a ≤ b <;> by_cases h₃ : a ≤ c <;> simp [h₁,h₂,h₃] <;> omega

theorem cuts_spec (n : ℕ) (seed : UInt64) :
    1 ≤ (cuts n seed).1.getD 0 0 ∧ (cuts n seed).1.getD 0 0 ≤ (cuts n seed).1.getD 1 0 ∧
      (cuts n seed).1.getD 1 0 ≤ (cuts n seed).1.getD 2 0 :=
  sorted_three _ _ _ (Nat.le_add_right 1 _) (Nat.le_add_right 1 _) (Nat.le_add_right 1 _)

theorem shakeFrom_keeps (h : Keeps shorter Kept) (more : ℕ) (seed : UInt64) (best : List ℕ) (look : ℕ) :
    Kept best (shakeFrom late shorter more seed best look) := by
  induction more generalizing seed best look with
  | zero => exact h.refl best
  | succ more ih =>
    obtain ⟨h₀,h₁,h₂⟩ := cuts_spec best.length seed
    unfold shakeFrom
    dsimp only
    split_ifs with hfew hlate hsame hshort
    · exact h.refl best
    · exact h.refl best
    · exact ih _ _ _
    · refine h.trans ?_ (ih _ _ _)
      exact h.shorter ((shaken_same h₀ h₁ h₂).trans (h.stops (polishBy_keeps h _ _))) hshort
    · exact ih _ _ _

/-- What is kept of the better of two routes, and so of the one or the other. -/
theorem improvedBy_keeps (h : Keeps shorter Kept) (less : List ℕ → List ℕ → Bool) (n : ℕ) (inserted nearest : List ℕ) :
    ∃ first other, Kept inserted first ∧ Kept nearest other ∧
      Kept (if less other first then other else first) (improvedBy late shorter less n inserted nearest) :=
  ⟨_,_,polishBy_keeps h _ _,polishBy_keeps h _ _,shakeFrom_keeps h _ _ _ _⟩

/-- Polished and shaken, a route has the stops of those it is made from. -/
theorem improvedBy_visits {cost : Costs} {start : ℕ} (less : List ℕ → List ℕ → Bool) (n : ℕ)
    {inserted nearest : List ℕ} (hinserted : Visits cost start inserted) (hnearest : Visits cost start nearest) :
    Visits cost start (improvedBy late shorter less n inserted nearest) := by
  obtain ⟨first,other,hfirst,hother,hbest⟩ :=
    @improvedBy_keeps late shorter _ (keeps_stops shorter) less n inserted nearest
  split_ifs at hbest
  · exact (hother.trans hbest).visits hnearest
  · exact (hfirst.trans hbest).visits hinserted

end

/-! ## The routes it starts from -/

theorem leastAt_lt {xs : List ℕ} (hsome : xs ≠ []) (key : ℕ → WithTop ℚ) : leastAt xs key < xs.length := by
  unfold leastAt
  cases harg : (List.range xs.length).argmin fun i => key (xs.getD i 0) with
  | none => simpa using List.length_pos_iff.mpr hsome
  | some i => exact List.mem_range.mp (List.argmin_mem (Option.mem_def.mpr harg))

/-- What is taken out and what is left are what there was. -/
theorem swapRemove_perm {xs : List ℕ} {i : ℕ} (hi : i < xs.length) :
    (xs.getD i 0 :: swapRemove xs i).Perm xs := by
  have hsome : xs ≠ [] := by
    rintro rfl
    simp at hi
  obtain ⟨ys,y,rfl⟩ : ∃ ys y, xs = ys++[y] := ⟨xs.dropLast,xs.getLast hsome,(List.dropLast_append_getLast hsome).symm⟩
  unfold swapRemove
  rw [List.getLastD_concat]
  by_cases hlast : i < ys.length
  · rw [List.set_append_left i y hlast,List.dropLast_concat]
    have hset : (ys.getD i 0 :: ys.set i y).Perm (y :: ys) := by
      have hget : ys.getD i 0 = ys[i] := by simp [hlast]
      have hcut : ys.take i++ys[i] :: ys.drop (i+1) = ys := by
        rw [List.cons_getElem_drop_succ,List.take_append_drop]
      rw [hget,List.set_eq_take_append_cons_drop,if_pos hlast]
      conv_rhs => rw [← hcut]
      refine (List.perm_middle.cons _).trans ((List.Perm.swap _ _ _).trans ?_)
      exact List.perm_middle.symm.cons y
    have hget : (ys++[y]).getD i 0 = ys.getD i 0 := by simp [hlast,List.getElem?_append_left hlast]
    rw [hget]
    exact hset.trans (List.perm_append_singleton y ys).symm
  · have heq : i = ys.length := by simp at hi; omega
    subst heq
    simpa using (List.perm_append_singleton y ys).symm

theorem leastPlace_mem {n : ℕ} (hn : 1 ≤ n) (adds : ℕ → WithTop ℚ) :
    1 ≤ leastPlace n adds ∧ leastPlace n adds ≤ n := by
  refine Loop.foldl_keeps (fun best : ℕ × WithTop ℚ => 1 ≤ best.1 ∧ best.1 ≤ n)
    ⟨hn,le_rfl⟩ fun best place hplace hbest => ?_
  obtain ⟨hlow,hhigh⟩ := List.mem_range'_1.mp hplace
  split_ifs
  · exact ⟨hlow,by simp only; omega⟩
  · exact hbest

theorem insertedFrom_spec (cost : Costs) {place : List ℕ → ℕ → ℕ}
    (hplace : ∀ route k, route ≠ [] → 1 ≤ place route k ∧ place route k ≤ route.length) (more : ℕ)
    (route left : List ℕ) (hsome : route ≠ []) (hleft : left.length = more) :
    (insertedFrom cost place more route left).Perm (route++left) ∧
      (insertedFrom cost place more route left).head? = route.head? := by
  induction more generalizing route left with
  | zero => simp [insertedFrom,List.length_eq_zero_iff.mp hleft]
  | succ more ih =>
    unfold insertedFrom
    set pick := leastAt left (nearestOf cost route)
    set k := left.getD pick 0
    have hpick : pick < left.length := leastAt_lt (by rintro rfl; simp at hleft) _
    have hremoved : (k :: swapRemove left pick).Perm left := swapRemove_perm hpick
    have hremovedLen := hremoved.length_eq
    obtain ⟨hlow,hhigh⟩ := hplace route k hsome
    have hput := List.perm_insertIdx k route hhigh
    obtain ⟨hperm,hhead⟩ := ih (route.insertIdx (place route k) k)
      (swapRemove left pick) (by
        rintro hnone
        have := hput.length_eq
        simp [hnone] at this) (by simp at hremovedLen; omega)
    refine ⟨hperm.trans ?_,hhead.trans ?_⟩
    · refine (hput.append_right _).trans ?_
      refine List.perm_middle.symm.trans (hremoved.append_left route)
    · obtain ⟨before,hbefore⟩ := Nat.exists_eq_succ_of_ne_zero (by omega : place route k ≠ 0)
      rw [hbefore]
      cases route with
      | nil => exact absurd rfl hsome
      | cons a route => simp

/-- Wherever each is put, the stops put in one by one are all visited. -/
theorem insertedFrom_visits {cost : Costs} {start : ℕ} (hstart : start < cost.length)
    {adds : List ℕ → ℕ → ℕ → WithTop ℚ} :
    Visits cost start (insertedFrom cost (fun route k => leastPlace route.length (adds route k))
      (othersOf cost start).length [start] (othersOf cost start)) := by
  obtain ⟨hperm,hhead⟩ := insertedFrom_spec cost
    (fun route k hsome => leastPlace_mem (List.length_pos_iff.mpr hsome) (adds route k))
    (othersOf cost start).length [start] (othersOf cost start) (by simp) rfl
  exact ⟨hperm.trans (othersOf_perm hstart),hhead⟩

theorem inserted_visits {cost : Costs} {start : ℕ} (closed : Bool) (hstart : start < cost.length) :
    Visits cost start (inserted cost start closed) := insertedFrom_visits hstart

theorem nearestFrom_spec (cost : Costs) (more : ℕ) (route left : List ℕ)
    (hsome : route ≠ []) (hleft : left.length = more) :
    (nearestFrom cost more route left).Perm (route++left) ∧
      (nearestFrom cost more route left).head? = route.head? := by
  induction more generalizing route left with
  | zero => simp [nearestFrom,List.length_eq_zero_iff.mp hleft]
  | succ more ih =>
    unfold nearestFrom
    set i := leastAt left fun k => walk cost (route.getLastD 0) k
    have hi : i < left.length := leastAt_lt (by rintro rfl; simp at hleft) _
    have hremoved : (left.getD i 0 :: swapRemove left i).Perm left := swapRemove_perm hi
    have hremovedLen := hremoved.length_eq
    obtain ⟨hperm,hhead⟩ := ih (route++[left.getD i 0]) (swapRemove left i) (by simp)
      (by simp at hremovedLen; omega)
    refine ⟨hperm.trans ?_,hhead.trans ?_⟩
    · rw [List.append_assoc,List.singleton_append]
      exact hremoved.append_left route
    · cases route with
      | nil => exact absurd rfl hsome
      | cons a route => simp

theorem nearest_visits {cost : Costs} {start : ℕ} (hstart : start < cost.length) :
    Visits cost start (nearest cost start) := by
  obtain ⟨hperm,hhead⟩ := nearestFrom_spec cost (othersOf cost start).length [start]
    (othersOf cost start) (by simp) rfl
  exact ⟨hperm.trans (othersOf_perm hstart),hhead⟩

/-! ## In exact arithmetic -/

/-- The same stops, walked no longer. -/
def NoLonger (cost : Costs) (closed : Bool) (route route' : List ℕ) : Prop :=
  SameStops route route' ∧ length cost route' closed ≤ length cost route closed

theorem keeps_noLonger (cost : Costs) (closed : Bool) : Keeps (shorter cost closed) (NoLonger cost closed) where
  refl route := ⟨SameStops.refl route,le_rfl⟩
  trans h₁ h₂ := ⟨h₁.1.trans h₂.1,h₂.2.trans h₁.2⟩
  stops h := h.1
  shorter hsame hshort := by
    have hpos : (0 : ℚ) ≤ nano := by norm_num [nano]
    have hless := of_decide_eq_true hshort
    exact ⟨hsame,by linarith⟩

/-- The quick way visits every stop, and is no longer than either of the routes it starts
from, whenever the time runs out. -/
theorem improved_spec (late : ℕ → Bool) {cost : Costs} {start : ℕ} (closed : Bool)
    (hstart : start < cost.length) : Visits cost start (improved late cost closed start) ∧
      length cost (improved late cost closed start) closed ≤
        length cost (inserted cost start closed) closed ∧
      length cost (improved late cost closed start) closed ≤ length cost (nearest cost start) closed := by
  refine ⟨improvedBy_visits _ _ (inserted_visits closed hstart) (nearest_visits hstart),?_⟩
  obtain ⟨first,other,⟨-,hfirst⟩,⟨-,hother⟩,-,hbest⟩ := @improvedBy_keeps late _ _ (keeps_noLonger cost closed)
    (less cost closed) cost.length (inserted cost start closed) (nearest cost start)
  split_ifs at hbest with hless
  · have hless := of_decide_eq_true hless
    exact ⟨hbest.trans (hless.le.trans hfirst),hbest.trans hother⟩
  · have hless := of_decide_eq_false (Bool.eq_false_iff.mpr hless)
    exact ⟨hbest.trans hfirst,hbest.trans ((not_lt.mp hless).trans hother)⟩

/-- Whatever the clock does, the quick way is a walk of every stop from the start, no longer
than nearest insertion's or nearest neighbour's; and polishing leaves any route its first
stop and its stops and never makes it longer. -/
theorem quick_order_valid (late : ℕ → Bool) {cost : Costs} {start : ℕ} (closed : Bool)
    (hstart : start < cost.length) :
    ((improved late cost closed start).Perm (List.range cost.length) ∧
      (improved late cost closed start).head? = some start ∧
      length cost (improved late cost closed start) closed ≤ length cost (inserted cost start closed) closed ∧
      length cost (improved late cost closed start) closed ≤ length cost (nearest cost start) closed) ∧
    ∀ (late : ℕ → Bool) route look, (polish late cost closed route look).1.Perm route ∧
      (polish late cost closed route look).1.head? = route.head? ∧
      length cost (polish late cost closed route look).1 closed ≤ length cost route closed := by
  obtain ⟨⟨hperm,hhead⟩,hinserted,hnearest⟩ := improved_spec late closed hstart
  refine ⟨⟨hperm,hhead,hinserted,hnearest⟩,fun late route look => ?_⟩
  obtain ⟨⟨hsame,hfirst⟩,hle⟩ := @polishBy_keeps late _ _ (keeps_noLonger cost closed) route look
  exact ⟨hsame,hfirst,hle⟩

/-- Three stops, the clock spent at the first look. -/
theorem quick_order_valid_three :
    (improved (fun _ => true) [[0,3,1],[3,0,1],[1,1,0]] true 2).Perm [0,1,2] ∧
      (improved (fun _ => true) [[0,3,1],[3,0,1],[1,1,0]] true 2).head? = some 2 :=
  have h := (@quick_order_valid (fun _ => true) [[0,3,1],[3,0,1],[1,1,0]] 2 true (by decide)).1
  ⟨h.1,h.2.1⟩

/-- An order of stops visits every one of them. -/
theorem order_visits (late : ℕ → Bool) {cost : Costs} {start : ℕ} (closed : Bool)
    (hstart : start < cost.length) : Visits cost start (order late cost closed start) := by
  unfold order
  split_ifs with hfew hexact
  · exact ⟨othersOf_perm hstart,rfl⟩
  · exact (exact_spec cost start closed hstart (by omega)).1
  · exact (improved_spec late closed hstart).1

end Routing
end Spork
