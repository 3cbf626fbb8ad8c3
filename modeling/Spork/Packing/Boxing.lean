import Spork.Packing.Arrange

/-! However what is left is boxed, each kind of it is in a box or still left: the ways
tried keep every piece, and so does filling the open carton with what is in it already. -/
namespace Spork
namespace Packing

/-- Every placement of every plan, in order. -/
def planned (plans : List BoxPlan) : List Placement := plans.flatMap fun b => placements b.layers

/-- How many of `k` are placed and not in already. -/
def toPlace (k : Kind) (ps : List Placement) : ℕ := ps.countP fun p => p.kind = k ∧ p.packed = false

@[simp] theorem planned_nil : planned [] = [] := rfl
@[simp] theorem planned_cons (b : BoxPlan) (bs : List BoxPlan) :
    planned (b :: bs) = placements b.layers++planned bs := rfl
@[simp] theorem planned_append (xs ys : List BoxPlan) :
    planned (xs++ys) = planned xs++planned ys := by simp [planned]

@[simp] theorem toPlace_nil (k : Kind) : toPlace k [] = 0 := rfl
@[simp] theorem toPlace_append (k : Kind) (ps qs : List Placement) :
    toPlace k (ps++qs) = toPlace k ps+toPlace k qs := by simp [toPlace]

theorem toPlace_cons (k : Kind) (p : Placement) (ps : List Placement) :
    toPlace k (p :: ps) = (if p.kind = k ∧ p.packed = false then 1 else 0)+toPlace k ps := by
  by_cases h : p.kind = k ∧ p.packed = false <;> simp [toPlace,h,Nat.add_comm]

theorem toPlace_unpacked {ps : List Placement} (h : ∀ p ∈ ps, p.packed = false) (k : Kind) :
    toPlace k ps = placed k ps := by
  apply List.countP_congr
  intro p hp
  simp [h p hp]

theorem pack_unpacked (size : Dims) (pieces : List Left) (maxWeight : Option ℚ) :
    ∀ p ∈ placements (pack size pieces maxWeight).layers, p.packed = false := by
  obtain ⟨left,used,-,-,htakes⟩ := pack_run size pieces maxWeight
  exact htakes.unpacked

/-- `plans` hold what `pieces` were, less `left`, and nothing in them is in already. -/
structure Boxing (pieces : List Left) (plans : List BoxPlan) (left : List Left) : Prop where
  kept : ∀ k, placed k (planned plans)+countOf k left = countOf k pieces
  unpacked : ∀ p ∈ planned plans, p.packed = false

theorem Boxing.nil (pieces : List Left) : Boxing pieces [] pieces := ⟨by simp,by simp⟩

/-- One more box, and the rest boxed. -/
theorem Boxing.cons {box : Box} {rest left : List Left} {plans : List BoxPlan}
    (h : Boxing (packBox box rest).left plans left) :
    Boxing rest (plan box (packBox box rest).layers :: plans) left where
  kept k := by
    have hpack := pack_kept (dims box.size) rest box.maxPayloadG k
    have hrest := h.kept k
    simp only [planned_cons,placed_append,plan]
    simp only [packBox] at hrest ⊢
    omega
  unpacked p hp := (List.mem_append.mp hp).elim
    (pack_unpacked (dims box.size) rest box.maxPayloadG p) (h.unpacked p)

theorem smallestTaking_some {rest : List Left} {boxes : List Box} {box : Box} {p : Packed}
    (h : smallestTaking rest boxes = some (box,p)) : p = packBox box rest := by
  induction boxes with
  | nil => cases h
  | cons b boxes ih =>
    simp only [smallestTaking] at h
    split_ifs at h
    · exact ih h
    · cases h
      rfl
    · exact ih h

theorem takingMost_some {rest : List Left} {boxes : List Box} {box : Box} {p : Packed}
    (h : takingMost rest boxes = some (box,p)) : p = packBox box rest := by
  suffices hloop : ∀ (boxes : List Box) (acc : ℤ × Option (Box × Packed)),
      (∀ b q, acc.2 = some (b,q) → q = packBox b rest) →
      ∀ b q, (boxes.foldl (takeMore rest) acc).2 = some (b,q) → q = packBox b rest from
    hloop boxes (0,none) (by simp) box p h
  intro boxes
  induction boxes with
  | nil => exact fun acc hacc => hacc
  | cons c boxes ih =>
    intro acc hacc
    refine ih _ fun b q hbq => ?_
    simp only [takeMore] at hbq
    split_ifs at hbq
    · cases hbq
      rfl
    · exact hacc b q hbq

theorem greedyFrom_boxing (boxes : List Box) (more : ℕ) (plans : List BoxPlan) (rest : List Left) :
    ∃ new, (greedyFrom boxes more plans rest).plans = plans++new ∧
      Boxing rest new (greedyFrom boxes more plans rest).left := by
  induction more generalizing plans rest with
  | zero => exact ⟨[],by simp [greedyFrom],Boxing.nil rest⟩
  | succ more ih =>
    simp only [greedyFrom]
    split_ifs
    · exact ⟨[],by simp,Boxing.nil rest⟩
    · split
      · exact ⟨[],by simp,Boxing.nil rest⟩
      · rename_i box p hchosen
        obtain rfl : p = packBox box rest := by
          rcases Option.or_eq_some_iff.mp hchosen with h | ⟨-,h⟩
          · exact smallestTaking_some h
          · exact takingMost_some h
        obtain ⟨new,hplans,hnew⟩ := ih (plans++[plan box (packBox box rest).layers])
          (packBox box rest).left
        exact ⟨_,by rw [hplans,List.append_assoc]; rfl,hnew.cons⟩

theorem uniformFrom_boxing (box : Box) (more : ℕ) (plans : List BoxPlan) (rest : List Left) :
    ∃ new, (uniformFrom box more plans rest).plans = plans++new ∧
      Boxing rest new (uniformFrom box more plans rest).left := by
  induction more generalizing plans rest with
  | zero => exact ⟨[],by simp [uniformFrom],Boxing.nil rest⟩
  | succ more ih =>
    simp only [uniformFrom]
    split_ifs
    · exact ⟨[],by simp,Boxing.nil rest⟩
    · exact ⟨[],by simp,Boxing.nil rest⟩
    · obtain ⟨new,hplans,hnew⟩ := ih (plans++[plan box (packBox box rest).layers])
        (packBox box rest).left
      exact ⟨_,by rw [hplans,List.append_assoc]; rfl,hnew.cons⟩

theorem best_mem (pieces : List Left) (boxes : List Box) (objective : Objective) :
    best pieces boxes objective = greedy pieces boxes ∨
      ∃ box ∈ boxes, best pieces boxes objective = uniform pieces box := by
  suffices hloop : ∀ (tried : List Candidate) (a : Candidate),
      tried.foldl (better objective) a = a ∨ tried.foldl (better objective) a ∈ tried by
    rcases hloop (if total pieces ≤ mostTried then boxes.map (uniform pieces) else [])
      (greedy pieces boxes) with h | h
    · exact Or.inl h
    · right
      split_ifs at h with hfew
      · obtain ⟨box,hbox,heq⟩ := List.mem_map.mp h
        exact ⟨box,hbox,by rw [best,if_pos hfew,heq]⟩
      · cases h
  intro tried
  induction tried with
  | nil => exact fun a => Or.inl rfl
  | cons c tried ih =>
    intro a
    have hone : better objective a c = a ∨ better objective a c = c := by
      simp only [better]
      split_ifs
      · exact Or.inr rfl
      · exact Or.inl rfl
    rcases ih (better objective a c) with h | h
    · rcases hone with hone | hone
      · exact Or.inl (by rw [List.foldl_cons,h,hone])
      · exact Or.inr (by rw [List.foldl_cons,h,hone]; simp)
    · exact Or.inr (List.mem_cons_of_mem c h)

theorem best_boxing (pieces : List Left) (boxes : List Box) (objective : Objective) :
    Boxing pieces (best pieces boxes objective).plans (best pieces boxes objective).left := by
  rcases best_mem pieces boxes objective with h | ⟨box,-,h⟩
  · obtain ⟨new,hplans,hnew⟩ := greedyFrom_boxing boxes 50 [] pieces
    rw [h,greedy,hplans]
    exact hnew
  · obtain ⟨new,hplans,hnew⟩ := uniformFrom_boxing box 50 [] pieces
    rw [h,uniform,hplans]
    exact hnew

/-! ## The open carton -/

/-- Each kind has one entry, as a map has. -/
def OneEach (left : List Left) : Prop := (left.map Left.kind).Nodup

theorem countOf_eq_zero {left : List Left} {k : Kind} (h : k ∉ left.map Left.kind) :
    countOf k left = 0 := by
  induction left with
  | nil => rfl
  | cons e es ih =>
    simp only [List.map_cons,List.mem_cons,not_or] at h
    simp [Ne.symm h.1,ih h.2]

theorem countOf_mem {left : List Left} (h : OneEach left) {e : Left} (he : e ∈ left) :
    countOf e.kind left = e.count := by
  induction left with
  | nil => cases he
  | cons d es ih =>
    obtain ⟨hd,hes⟩ := List.nodup_cons.mp h
    rcases List.mem_cons.mp he with rfl | he
    · simp [countOf_eq_zero hd]
    · have hne : d.kind ≠ e.kind := fun heq => hd (heq ▸ List.mem_map_of_mem he)
      simp [hne,ih hes he]

theorem counts_eq {left : List Left} (h : OneEach left) (k : Kind) :
    counts left k = countOf k left := by
  unfold counts
  cases hfind : left.reverse.find? (·.kind = k) with
  | none =>
    have habsent : k ∉ left.map Left.kind := by
      rintro hk
      obtain ⟨e,he,rfl⟩ := List.mem_map.mp hk
      simpa using List.find?_eq_none.mp hfind e (List.mem_reverse.mpr he)
    simp [countOf_eq_zero habsent]
  | some e =>
    obtain rfl : e.kind = k := by simpa using List.find?_some hfind
    have he : e ∈ left := List.mem_reverse.mp (List.mem_of_find?_eq_some hfind)
    simp [countOf_mem h he]

theorem countOf_addTo (k : Kind) (left : List Left) (p : Left) :
    countOf k (addTo left p) = countOf k left+countOf k [p] := by
  induction left with
  | nil => simp [addTo]
  | cons e es ih =>
    simp only [addTo]
    split_ifs with heq
    · simp only [countOf_cons,countOf_nil,heq]
      split_ifs <;> omega
    · simp only [countOf_cons,ih]
      omega

theorem addTo_kinds (left : List Left) (p : Left) :
    (addTo left p).map Left.kind =
      if p.kind ∈ left.map Left.kind then left.map Left.kind else left.map Left.kind++[p.kind] := by
  induction left with
  | nil => simp [addTo]
  | cons e es ih =>
    simp only [addTo]
    split_ifs with heq hmem hmem
    · rfl
    · simp [heq] at hmem
    · have hes : p.kind ∈ es.map Left.kind := by
        simpa [Ne.symm heq] using hmem
      simp [ih,hes]
    · have hes : p.kind ∉ es.map Left.kind := fun h => hmem (by simpa using Or.inr h)
      simp [ih,hes]

theorem addTo_oneEach {left : List Left} (h : OneEach left) (p : Left) : OneEach (addTo left p) := by
  rw [OneEach,addTo_kinds]
  split_ifs with hmem
  · exact h
  · exact List.nodup_append.mpr ⟨h,List.nodup_singleton _,fun a ha b hb hab =>
      hmem (by rw [← List.mem_singleton.mp hb,← hab]; exact ha)⟩

theorem countOf_min {left : List Left} (h : OneEach left) (most : Kind → ℕ) (k : Kind) :
    countOf k (left.map fun e => ⟨e.kind,min e.count (most e.kind)⟩) =
      min (countOf k left) (most k) := by
  induction left with
  | nil => simp
  | cons e es ih =>
    obtain ⟨he,hes⟩ := List.nodup_cons.mp h
    simp only [List.map_cons,countOf_cons,ih hes]
    by_cases hk : e.kind = k
    · subst hk
      simp [countOf_eq_zero he]
    · simp [hk]

/-- Pooling adds counts up kind by kind, under one entry for each. -/
theorem together_spec (ps acc : List Left) (h : OneEach acc) :
    OneEach (ps.foldl addTo acc) ∧
      ∀ k, countOf k (ps.foldl addTo acc) = countOf k acc+countOf k ps := by
  induction ps generalizing acc with
  | nil => exact ⟨h,by simp⟩
  | cons p ps ih =>
    obtain ⟨hone,hcount⟩ := ih (addTo acc p) (addTo_oneEach h p)
    refine ⟨hone,fun k => ?_⟩
    rw [List.foldl_cons,hcount,countOf_addTo]
    simp only [countOf_cons,countOf_nil]
    omega

/-- Marking changes the mark of a placement and nothing else. -/
def Placement.bare (p : Placement) : Placement := {p with packed := false}

theorem markOne_apply (toMark : Kind → ℕ) (k k' : Kind) :
    markOne toMark k k' = toMark k'-if k = k' then 1 else 0 := by
  by_cases hk : k = k'
  · subst hk
    by_cases hpos : toMark k > 0
    · simp [markOne,hpos]
    · simp [markOne,hpos]
      omega
  · by_cases hpos : toMark k > 0
    · simp [markOne,hpos,hk,Function.update_of_ne (Ne.symm hk)]
    · simp [markOne,hpos,hk]

theorem markPlacements_spec (toMark : Kind → ℕ) (ps : List Placement) :
    (markPlacements toMark ps).1.map Placement.bare = ps.map Placement.bare ∧
    (∀ k, (markPlacements toMark ps).2 k = toMark k-placed k ps) ∧
    ∀ k, toPlace k (markPlacements toMark ps).1 = placed k ps-toMark k := by
  induction ps generalizing toMark with
  | nil => exact ⟨rfl,by simp [markPlacements],by simp [markPlacements]⟩
  | cons p ps ih =>
    obtain ⟨hbare,hleft,hplace⟩ := ih (markOne toMark p.kind)
    refine ⟨?_,fun k => ?_,fun k => ?_⟩
    · simp only [markPlacements,List.map_cons,hbare]
      rfl
    · simp only [markPlacements,hleft,placed_cons,markOne_apply]
      omega
    · have htail := hplace k
      rw [markOne_apply] at htail
      simp only [markPlacements,placed_cons]
      rw [toPlace_cons,htail]
      by_cases hk : p.kind = k
      · subst hk
        simp only [true_and,if_true,decide_eq_false_iff_not]
        split_ifs <;> omega
      · simp [hk]

theorem markLayers_spec (toMark : Kind → ℕ) (layers : List Layer) :
    (placements (markLayers toMark layers)).map Placement.bare =
      (placements layers).map Placement.bare ∧
    ∀ k, toPlace k (placements (markLayers toMark layers)) = placed k (placements layers)-toMark k := by
  induction layers generalizing toMark with
  | nil => exact ⟨rfl,by simp [markLayers,placements]⟩
  | cons layer layers ih =>
    obtain ⟨hbare,hleft,hplace⟩ := markPlacements_spec toMark layer.placements
    obtain ⟨hbares,hplaces⟩ := ih (markPlacements toMark layer.placements).2
    have hcons (l : Layer) (ls : List Layer) : placements (l :: ls) = l.placements++placements ls := rfl
    refine ⟨?_,fun k => ?_⟩
    · simp only [markLayers,hcons,List.map_append,hbare,hbares]
    · simp only [markLayers,hcons,toPlace_append,placed_append,hplace,hplaces,hleft]
      omega

theorem pack_oneEach {size : Dims} {pieces : List Left} {maxWeight : Option ℚ}
    (h : OneEach pieces) : OneEach (pack size pieces maxWeight).left := by
  obtain ⟨left,used,-,hleft,htakes⟩ := pack_run size pieces maxWeight
  have hkinds : left.map Left.kind = (sorted pieces).map Left.kind := htakes.kinds
  have hperm : (sorted pieces).Perm pieces := List.perm_insertionSort _ _
  have hone : OneEach left := by
    rw [OneEach,hkinds]
    exact (hperm.map _).nodup_iff.mpr h
  rw [hleft]
  exact hone.sublist (List.filter_sublist.map _)

/-- What is not marked in the carton and what is passed on are what was still to pack:
the pieces in already count for the first of their kind. -/
theorem fillOpen_kept (carton : OpenCarton) (lines : List BenchLine) (remaining : List Left)
    (halready : OneEach (split (unitsIn carton.contents [] lines) true).pieces)
    (hremaining : OneEach remaining) (k : Kind) :
    toPlace k (placements (fillOpen carton lines remaining).plan.layers)+
      countOf k (fillOpen carton lines remaining).rest = countOf k remaining := by
  set already := (split (unitsIn carton.contents [] lines) true).pieces with hal
  set together := (already++remaining).foldl addTo [] with hto
  obtain ⟨hone,hcount⟩ := together_spec (already++remaining) [] List.nodup_nil
  set packed := pack (dims carton.size) together carton.maxPayloadG with hpacked
  have hkept : placed k (placements packed.layers)+countOf k packed.left =
      countOf k already+countOf k remaining := by
    rw [hpacked,pack_kept,hto,hcount,countOf_nil,Nat.zero_add,countOf_append]
  have hleft : OneEach packed.left := pack_oneEach hone
  have hplace : toPlace k (placements (fillOpen carton lines remaining).plan.layers) =
      placed k (placements packed.layers)-countOf k already := by
    rw [← counts_eq halready]
    exact (markLayers_spec _ _).2 k
  have hrest : countOf k (fillOpen carton lines remaining).rest =
      min (countOf k packed.left) (countOf k remaining) := by
    rw [← counts_eq hremaining]
    change countOf k ((packed.left.map fun e =>
      (⟨e.kind,min e.count (counts remaining e.kind)⟩ : Left)).filter (·.count > 0)) = _
    rw [countOf_filter]
    exact countOf_min hleft (counts remaining) k
  rw [hplace,hrest]
  omega

/-! ## What goes round the goods -/

theorem putRound_layers (things : List Aside) (b : BoxPlan) : (putRound things b).layers = b.layers := by
  show (putRound things b).layers = ({b with loose := b.loose++things} : BoxPlan).layers
  rw [putRound]
  generalize ({b with loose := b.loose++things} : BoxPlan) = b'
  induction things generalizing b' with
  | nil => rfl
  | cons a things ih =>
    rw [List.foldl_cons,ih]
    cases a.weightG <;> rfl

theorem modify_layers (plans : List BoxPlan) (i : ℕ) (things : List Aside) :
    (plans.modify i (putRound things)).map BoxPlan.layers = plans.map BoxPlan.layers := by
  induction plans generalizing i with
  | nil => simp
  | cons b bs ih =>
    cases i with
    | zero => simp [putRound_layers]
    | succ i => simp [ih]

theorem goRound_layers (carton : Option OpenCarton) (extraLoose loose : List Aside)
    (plans : List BoxPlan) :
    (goRound carton extraLoose loose plans).map BoxPlan.layers = plans.map BoxPlan.layers := by
  unfold goRound
  cases roomiest plans <;> cases carton <;> simp [modify_layers]

theorem planned_goRound (carton : Option OpenCarton) (extraLoose loose : List Aside)
    (plans : List BoxPlan) : planned (goRound carton extraLoose loose plans) = planned plans := by
  have hlayers (ps : List BoxPlan) : planned ps = (ps.map BoxPlan.layers).flatMap placements := by
    rw [List.flatMap_map]
    rfl
  rw [hlayers,hlayers,goRound_layers]

end Packing
end Spork
