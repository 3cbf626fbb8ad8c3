import Spork.Lib.Guided
import Spork.Routing.Floor

/-! The shortest walk between two nodes (`routing.rs`), and that with no slack it and the
distances to several are of one length, the least there is. -/
namespace Spork
namespace Routing

namespace Floor
variable (floor : Floor)

/-- The octile distance: what a walk would be with nothing in the way. -/
def guess (a b : ℕ) : ℚ :=
  let dx := |(floor.col a : ℚ)-floor.col b|
  let dy := |(floor.row a : ℚ)-floor.row b|
  (max dx dy+(sqrt2-1)*min dx dy)*floor.step

/-- The search of `path`, at most so many nodes looked at, and then the way back. None when it
does not end. -/
def pathWithin (slack : ℚ) (more a b : ℕ) : Option (Option (ℚ × List ℕ)) :=
  if floor.isOpen a = false ∨ floor.isOpen b = false then some none
  else
    match Guided.run floor.steps (fun n => floor.guess n b) slack b more
        (Guided.start (fun n => floor.guess n b) a) with
    | none => none
    | some (_,false) => some none
    | some (s,true) => (Guided.trace s.came a more b).map fun path => some ((s.best b).untopD 0,path.reverse)

/-- The shortest walk between two nodes, and its path, by a slack. The search has ended by
`enough` (`shortest_walks`). -/
def pathBy (slack : ℚ) (a b : ℕ) : Option (ℚ × List ℕ) := (floor.pathWithin slack floor.enough a b).join

/-- The code's, with its own slack. -/
def path (a b : ℕ) : Option (ℚ × List ℕ) := floor.pathBy pico a b

/-- `distances` by a slack. -/
def distancesBy (slack : ℚ) (source : ℕ) (dest : List ℕ) : List (WithTop ℚ) :=
  if floor.isOpen source = false then dest.map fun _ => ⊤
  else
    match LeastFirst.run floor.steps slack floor.enough dest.toFinset (LeastFirst.start source) with
    | none => dest.map fun _ => ⊤
    | some s => dest.map s.best

/-- The cost of a walk found, infinite where none is. -/
def costOf : Option (ℚ × List ℕ) → WithTop ℚ
  | some (cost,_) => cost
  | none => ⊤

/-- Walks from a node are found when there are any, and are the shortest, with `path` and with
`distances`. -/
structure ShortestWalks (a : ℕ) : Prop where
  ends : ∀ b more, floor.enough ≤ more → floor.pathWithin 0 more a b = some (floor.pathBy 0 a b)
  found : ∀ b, (floor.pathBy 0 a b).isSome = true ↔
    floor.isOpen a = true ∧ floor.isOpen b = true ∧ LeastFirst.Reached floor.steps a b
  walk : ∀ b cost path, floor.pathBy 0 a b = some (cost,path) →
    path.head? = some a ∧ path.getLast? = some b ∧ LeastFirst.Along floor.steps path cost
  shortest : ∀ b cost path, floor.pathBy 0 a b = some (cost,path) → ∀ other c,
    other.head? = some a → other.getLast? = some b → LeastFirst.Along floor.steps other c → cost ≤ c
  distances : ∀ dest, floor.distancesBy 0 a dest = dest.map fun b => costOf (floor.pathBy 0 a b)

/-! ## The guess -/

/-- A diagonal step gains no more than its length. -/
theorem octile_diagonal {c x y x' y' : ℚ} (hc : 1 ≤ c) (hx : x ≤ x'+1) (hy : y ≤ y'+1) :
    max x y+(c-1)*min x y ≤ c+(max x' y'+(c-1)*min x' y') := by
  have hmax : max x y ≤ max x' y'+1 :=
    max_le (hx.trans (by gcongr; exact le_max_left _ _)) (hy.trans (by gcongr; exact le_max_right _ _))
  have hmin : min x y ≤ min x' y'+1 := by
    rw [← min_add_add_right]
    exact min_le_min hx hy
  have hscaled := mul_le_mul_of_nonneg_left hmin (sub_nonneg.mpr hc)
  linarith

/-- Nor does a straight one. -/
theorem octile_straight {c x y x' y' : ℚ} (hc : 1 ≤ c) (hc' : c ≤ 2) (hx : x ≤ x'+1) (hy : y ≤ y') :
    max x y+(c-1)*min x y ≤ 1+(max x' y'+(c-1)*min x' y') := by
  have hmax : max x y ≤ max x' y'+1 :=
    max_le (hx.trans (by gcongr; exact le_max_left _ _)) ((hy.trans (le_max_right x' y')).trans (by linarith))
  have hsum : x+y ≤ x'+y'+1 := by linarith
  have hscaled := mul_le_mul_of_nonneg_left hmax (sub_nonneg.mpr hc')
  have hscaled' := mul_le_mul_of_nonneg_left hsum (sub_nonneg.mpr hc)
  have hmin := min_add_max x y
  have hmin' := min_add_max x' y'
  have hless : min x y = x+y-max x y := by linarith
  have hless' : min x' y' = x'+y'-max x' y' := by linarith
  rw [hless,hless']
  linarith

theorem sqrt2_bounds : 1 ≤ sqrt2 ∧ sqrt2 ≤ 2 := by
  norm_num [sqrt2]

/-- No step gains on the guess. -/
theorem guess_step (b n : ℕ) : ∀ e ∈ floor.steps n, floor.guess n b ≤ e.2+floor.guess e.1 b := by
  rintro ⟨m,len⟩ he
  obtain ⟨d,hd,hstep⟩ := floor.mem_steps he
  obtain ⟨hto,-,hm,hlen⟩ := floor.stepBy_some hstep
  obtain ⟨hx,hy,hxw,-,-⟩ := (floor.openAt_iff _ _).mp hto
  obtain ⟨hcol,hrow⟩ := floor.node_place hx hxw hy
  rw [← hm] at hcol hrow
  obtain ⟨hone,htwo⟩ := sqrt2_bounds
  have hsmall : ∀ d ∈ moves, |d.1| ≤ 1 ∧ |d.2| ≤ 1 := by decide
  obtain ⟨hdx,hdy⟩ := hsmall d hd
  have haway (i k t : ℤ) : |(i : ℚ)-t| ≤ |((i+k : ℤ) : ℚ)-t|+|(k : ℚ)| := by
    have h := abs_sub (((i+k : ℤ) : ℚ)-t) k
    have heq : ((i+k : ℤ) : ℚ)-t-k = i-t := by
      push_cast
      ring
    rwa [heq] at h
  have hnear (i k t : ℤ) (hk : |k| ≤ 1) : |(i : ℚ)-t| ≤ |((i+k : ℤ) : ℚ)-t|+1 := by
    have h := haway i k t
    have hcast : |(k : ℚ)| ≤ 1 := by exact_mod_cast hk
    linarith
  have hX := hnear (floor.col n) d.1 (floor.col b) hdx
  have hY := hnear (floor.row n) d.2 (floor.row b) hdy
  simp only [guess,hcol,hrow,hlen]
  rw [← add_mul]
  apply mul_le_mul_of_nonneg_right _ floor.step_pos.le
  split_ifs with hdiagonal
  · exact octile_diagonal hone hX hY
  · by_cases hx0 : d.1 = 0
    · rw [hx0,add_zero,max_comm,min_comm,max_comm |(floor.col n : ℚ)-_|,min_comm |(floor.col n : ℚ)-_|]
      exact octile_straight hone htwo hY le_rfl
    · have hy0 : d.2 = 0 := by
        by_contra hy0
        exact hdiagonal ⟨hx0,hy0⟩
      rw [hy0,add_zero]
      exact octile_straight hone htwo hX le_rfl

theorem steps_pos (n : ℕ) : ∀ e ∈ floor.steps n, 0 < e.2 := by
  rintro ⟨m,len⟩ he
  obtain ⟨d,-,hd⟩ := floor.mem_steps he
  obtain ⟨-,-,-,rfl⟩ := floor.stepBy_some hd
  have hcost : (0 : ℚ) < if d.1 ≠ 0 ∧ d.2 ≠ 0 then sqrt2 else 1 := by
    split_ifs <;> norm_num [sqrt2]
  exact mul_pos hcost floor.step_pos

/-! ## Walks found -/

/-- What the search of `path` comes to, from a node of the floor to one that is open. -/
theorem pathWithin_spec {a b : ℕ} (ha : a < floor.w*floor.h) (hopen : floor.isOpen a = true)
    (hopen' : floor.isOpen b = true) (more : ℕ) (hmore : floor.enough ≤ more) :
    (floor.pathWithin 0 more a b = some none ∧ ¬LeastFirst.Reached floor.steps a b) ∨
      ∃ cost path, floor.pathWithin 0 more a b = some (some (cost,path)) ∧ path.head? = some a ∧
        path.getLast? = some b ∧ LeastFirst.Along floor.steps path cost ∧
        LeastFirst.Leads floor.steps a b cost ∧ ∀ c, LeastFirst.Leads floor.steps a b c → cost ≤ c := by
  have hnodes (n : ℕ) (hn : LeastFirst.Reached floor.steps a n) : n ∈ Finset.range (floor.w*floor.h) :=
    Finset.mem_range.mpr (floor.reached_open ⟨ha,hopen⟩ hn).1
  have hfuel : (Guided.start (fun n => floor.guess n b) a).queue.length+
      8*((Finset.range (floor.w*floor.h)).card-(∅ : Finset ℕ).card) < more := by
    unfold enough at hmore
    simp only [Guided.start,List.length_singleton,Finset.card_range,Finset.card_empty,Nat.sub_zero]
    omega
  have hrun := Guided.run_spec (floor.guess_step b) hnodes floor.steps_length more ∅
    (Guided.start (fun n => floor.guess n b) a) Guided.start_kept (Finset.notMem_empty b) (by simp) hfuel
  have hgo : ¬(floor.isOpen a = false ∨ floor.isOpen b = false) := by simp [hopen,hopen']
  rcases hrun with ⟨s,hrun,hnot⟩ | ⟨s,v,hrun,hv,hleast,hsource,hwalks,hparent⟩
  · left
    refine ⟨?_,hnot⟩
    rw [pathWithin,if_neg hgo,hrun]
  · right
    have hzero : s.best a = 0 := by
      obtain ⟨u,hu⟩ := WithTop.ne_top_iff_exists.mp (ne_top_of_le_ne_top WithTop.zero_ne_top hsource)
      have hnonneg := (hwalks a u hu.symm).nonneg floor.steps_nonneg
      apply le_antisymm hsource
      rw [← hu]
      exact_mod_cast hnonneg
    have hin (n : ℕ) (hn : s.best n ≠ ⊤) : n ∈ Finset.range (floor.w*floor.h) := by
      obtain ⟨u,hu⟩ := WithTop.ne_top_iff_exists.mp hn
      exact hnodes n (hwalks n u hu.symm).reached
    have hcount : ((Finset.range (floor.w*floor.h)).filter fun m => s.best m < v).card < more := by
      have hle := Finset.card_filter_le (Finset.range (floor.w*floor.h)) fun m => s.best m < v
      rw [Finset.card_range] at hle
      unfold enough at hmore
      omega
    obtain ⟨path,htrace,halong,hlast⟩ := Guided.trace_spec floor.steps_pos hin hzero hparent more b v hv hcount
    refine ⟨v,(b :: path).reverse,?_,?_,?_,halong,hwalks b v hv,hleast⟩
    · simp only [pathWithin,if_neg hgo,hrun,htrace,Option.map_some,hv,WithTop.untopD_coe]
    · rw [List.head?_reverse]
      exact hlast
    · rw [List.getLast?_reverse,List.head?_cons]

/-- A search that ended is the same with more to look at. -/
theorem pathWithin_mono {slack : ℚ} {more a b : ℕ} {r : Option (ℚ × List ℕ)}
    (h : floor.pathWithin slack more a b = some r) {more' : ℕ} (hle : more ≤ more') :
    floor.pathWithin slack more' a b = some r := by
  unfold pathWithin at h ⊢
  split_ifs at h ⊢
  · exact h
  · cases hrun : Guided.run floor.steps (fun n => floor.guess n b) slack b more
        (Guided.start (fun n => floor.guess n b) a) with
    | none => simp [hrun] at h
    | some out =>
      obtain ⟨s,reached⟩ := out
      rw [hrun] at h
      rw [Guided.run_mono hrun hle]
      cases reached with
      | false => exact h
      | true =>
        obtain ⟨path,htrace,hr⟩ := Option.map_eq_some_iff.mp h
        simp only [Guided.trace_mono htrace hle,Option.map_some,hr]

theorem pathWithin_closed {slack : ℚ} {more a b : ℕ} (h : floor.isOpen a = false ∨ floor.isOpen b = false) :
    floor.pathWithin slack more a b = some none := if_pos h

/-- What `path` finds is a cheapest walk, and it finds nothing just when there is none or an end
is not open. -/
theorem pathBy_spec {a : ℕ} (ha : a < floor.w*floor.h) (b : ℕ) :
    (floor.pathBy 0 a b = none ∧
      ¬(floor.isOpen a = true ∧ floor.isOpen b = true ∧ LeastFirst.Reached floor.steps a b)) ∨
    ∃ cost path, floor.pathBy 0 a b = some (cost,path) ∧ path.head? = some a ∧ path.getLast? = some b ∧
      LeastFirst.Along floor.steps path cost ∧ floor.isOpen a = true ∧ floor.isOpen b = true ∧
      LeastFirst.Leads floor.steps a b cost ∧ ∀ c, LeastFirst.Leads floor.steps a b c → cost ≤ c := by
  unfold pathBy
  by_cases hends : floor.isOpen a = true ∧ floor.isOpen b = true
  · obtain ⟨hopen,hopen'⟩ := hends
    rcases floor.pathWithin_spec ha hopen hopen' _ le_rfl with ⟨heq,hnot⟩ | ⟨cost,path,heq,hwalk⟩
    · left
      rw [heq]
      exact ⟨rfl,fun h => hnot h.2.2⟩
    · right
      rw [heq]
      obtain ⟨hhead,hlast,halong,hleads,hleast⟩ := hwalk
      exact ⟨cost,path,rfl,hhead,hlast,halong,hopen,hopen',hleads,hleast⟩
  · left
    have hclosed : floor.isOpen a = false ∨ floor.isOpen b = false := by
      rw [← Bool.not_eq_true,← Bool.not_eq_true]
      tauto
    rw [floor.pathWithin_closed hclosed]
    exact ⟨rfl,fun h => hends ⟨h.1,h.2.1⟩⟩

/-- With no slack, what `distances` has for a node is the cost of a cheapest walk. -/
theorem distancesBy_spec {a : ℕ} (ha : a < floor.w*floor.h) (hopen : floor.isOpen a = true) (dest : List ℕ) :
    ∃ best : ℕ → WithTop ℚ, floor.distancesBy 0 a dest = dest.map best ∧
      (∀ n, ∀ v : ℚ, best n = v → LeastFirst.Leads floor.steps a n v) ∧
      ∀ n ∈ dest, ∀ c, LeastFirst.Leads floor.steps a n c → best n ≤ c := by
  have hfuel : (LeastFirst.start a).queue.length+
      8*((Finset.range (floor.w*floor.h)).card-(∅ : Finset ℕ).card) < floor.enough := by
    simp only [enough,LeastFirst.start,List.length_singleton,Finset.card_range,Finset.card_empty,Nat.sub_zero]
    omega
  obtain ⟨s,hrun,-⟩ := LeastFirst.run_spec le_rfl floor.steps_nonneg
    (fun n hn => Finset.mem_range.mpr (floor.reached_open ⟨ha,hopen⟩ hn).1) floor.steps_length floor.enough
    dest.toFinset ∅ 0 (LeastFirst.start a) LeastFirst.start_kept hfuel
  obtain ⟨hwalks,hleast⟩ := LeastFirst.run_least floor.steps_nonneg floor.enough dest.toFinset ∅ 0
    (LeastFirst.start a) LeastFirst.start_kept LeastFirst.start_least hrun
  refine ⟨s.best,?_,hwalks,fun n hn => hleast n (.inl (List.mem_toFinset.mpr hn))⟩
  unfold distancesBy
  rw [hopen,if_neg Bool.true_eq_false.mp,hrun]

/-- From a node of the floor, both searches have the shortest walks. -/
theorem shortest_walks {a : ℕ} (ha : a < floor.w*floor.h) : floor.ShortestWalks a where
  ends b more hmore := by
    have hended : ∃ r, floor.pathWithin 0 floor.enough a b = some r := by
      by_cases hends : floor.isOpen a = true ∧ floor.isOpen b = true
      · rcases floor.pathWithin_spec ha hends.1 hends.2 _ le_rfl with ⟨heq,-⟩ | ⟨cost,path,heq,-⟩
        · exact ⟨_,heq⟩
        · exact ⟨_,heq⟩
      · refine ⟨none,floor.pathWithin_closed ?_⟩
        rw [← Bool.not_eq_true,← Bool.not_eq_true]
        tauto
    obtain ⟨r,hr⟩ := hended
    rw [floor.pathWithin_mono hr hmore,pathBy,hr]
    rfl
  found b := by
    rcases floor.pathBy_spec ha b with ⟨heq,hnot⟩ | ⟨cost,path,heq,-,-,-,hopen,hopen',hleads,-⟩
    · rw [heq]
      exact iff_of_false Bool.false_ne_true hnot
    · rw [heq]
      exact iff_of_true rfl ⟨hopen,hopen',hleads.reached⟩
  walk b cost path hpath := by
    rcases floor.pathBy_spec ha b with ⟨heq,-⟩ | ⟨cost',path',heq,hhead,hlast,halong,-⟩
    · rw [heq] at hpath
      cases hpath
    · rw [heq] at hpath
      cases hpath
      exact ⟨hhead,hlast,halong⟩
  shortest b cost path hpath other c hhead hlast halong := by
    rcases floor.pathBy_spec ha b with ⟨heq,-⟩ | ⟨cost',path',heq,-,-,-,-,-,-,hleast⟩
    · rw [heq] at hpath
      cases hpath
    · rw [heq] at hpath
      cases hpath
      have hleads := LeastFirst.Leads.refl.along halong hhead hlast
      rw [zero_add] at hleads
      exact hleast c hleads
  distances dest := by
    cases hopen : floor.isOpen a with
    | false =>
      unfold distancesBy
      rw [if_pos hopen]
      apply List.map_congr_left
      intro b _
      rw [pathBy,floor.pathWithin_closed (.inl hopen)]
      rfl
    | true =>
      obtain ⟨best,hbest,hwalks,hleast⟩ := floor.distancesBy_spec ha hopen dest
      rw [hbest]
      apply List.map_congr_left
      intro b hb
      rcases floor.pathBy_spec ha b with ⟨heq,hnot⟩ | ⟨cost,path,heq,-,-,-,-,-,hleads,hcheapest⟩
      · rw [heq]
        show best b = ⊤
        by_contra hfinite
        obtain ⟨v,hv⟩ := WithTop.ne_top_iff_exists.mp hfinite
        have hreach := (hwalks b v hv.symm).reached
        exact hnot ⟨hopen,(floor.reached_open ⟨ha,hopen⟩ hreach).2,hreach⟩
      · rw [heq]
        show best b = cost
        have hle := hleast b hb cost hleads
        obtain ⟨v,hv⟩ := WithTop.ne_top_iff_exists.mp (ne_top_of_le_ne_top WithTop.coe_ne_top hle)
        apply le_antisymm hle
        rw [← hv]
        exact WithTop.coe_le_coe.mpr (hcheapest v (hwalks b v hv.symm))

/-- Two nodes in a row, one of them a wall, then open floor. -/
def threshold : Floor := ⟨1,2,1,[false,true],by norm_num,by norm_num⟩

/-- From within a wall a step leads onto the floor beside it, and no path is looked for. -/
theorem no_path_from_a_wall :
    ¬(∀ (floor : Floor) (a b : ℕ), a < floor.w*floor.h → b < floor.w*floor.h →
      ((floor.pathBy 0 a b).isSome = true ↔ LeastFirst.Reached floor.steps a b)) := by
  intro h
  have hreach : LeastFirst.Reached threshold.steps 0 1 :=
    Relation.ReflTransGen.single ⟨1,by decide +kernel⟩
  have hsome := (h threshold 0 1 (by decide) (by decide)).mpr hreach
  have hnone : threshold.pathBy 0 0 1 = none := by
    rw [pathBy,threshold.pathWithin_closed (.inl rfl)]
    rfl
  rw [hnone] at hsome
  exact Bool.false_ne_true hsome

/-- Around a wall that a diagonal would clip: the walk is of two straight steps. -/
def corner : Floor := ⟨1,2,2,[true,false,true,true],by norm_num,by norm_num⟩

theorem corner_walks : 0 < corner.w*corner.h ∧ corner.ShortestWalks 0 ∧
    corner.pathBy 0 0 3 = some (2,[0,2,3]) :=
  ⟨by decide,corner.shortest_walks (by decide),by decide +kernel⟩

end Floor

end Routing
end Spork
