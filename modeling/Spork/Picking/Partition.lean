import Spork.Lib.ShareOut
import Spork.Picking.Rounds

/-! A picking plan is a partition: every order on one trip, every pick taken once, under
the stop it names, by the trip that carries its order or gathers its shelf. It is not where the
stops of a trip are a few and no walk round them comes to a double: the walk is cut short, and
what is to be picked past there is on no trip. -/
namespace Spork
namespace Picking

open Routing

/-- The picks a trip takes, at its stops and off the route. -/
def Trip.taken (t : Trip) : List ℕ := t.stops.flatMap Prod.snd++t.offRoute

/-- What the trips of a plan are, put together. -/
structure Partition (orders : ℕ) (picks : List Pick) (settings : Settings) (trips : List Trip) : Prop where
  /-- Every order is on one trip, once. -/
  orders_once : (trips.flatMap Trip.orders).Perm (List.range orders)
  fits : ∀ t ∈ trips, t.orders.length ≤ cap orders settings
  /-- Every pick is taken once. -/
  picks_once : (trips.flatMap Trip.taken).Perm (List.range picks.length)
  under_its_stop : ∀ t ∈ trips, ∀ s ∈ t.stops, ∀ i ∈ s.2, stopAt picks i = some s.1
  off_route : ∀ t ∈ trips, ∀ i ∈ t.offRoute, stopAt picks i = none
  stops_once : ∀ t ∈ trips, (t.stops.map Prod.fst).Nodup
  stops_taken : ∀ t ∈ trips, ∀ s ∈ t.stops, s.2 ≠ []
  with_order : settings.gather = false → ∀ t ∈ trips, ∀ i ∈ t.taken, orderAt picks i ∈ t.orders
  gathered : settings.gather = true → ∀ t ∈ trips, ∀ i ∈ t.taken, ∀ j < picks.length,
    whatAt picks j = whatAt picks i → j ∈ t.taken

/-- The order the trips come in is nothing to them. -/
theorem Partition.perm {orders : ℕ} {picks : List Pick} {settings : Settings} {trips trips' : List Trip}
    (h : Partition orders picks settings trips) (hperm : trips'.Perm trips) :
    Partition orders picks settings trips' where
  orders_once := (hperm.flatMap_right _).trans h.orders_once
  fits t ht := h.fits t (hperm.mem_iff.mp ht)
  picks_once := (hperm.flatMap_right _).trans h.picks_once
  under_its_stop t ht := h.under_its_stop t (hperm.mem_iff.mp ht)
  off_route t ht := h.off_route t (hperm.mem_iff.mp ht)
  stops_once t ht := h.stops_once t (hperm.mem_iff.mp ht)
  stops_taken t ht := h.stops_taken t (hperm.mem_iff.mp ht)
  with_order hgather t ht := h.with_order hgather t (hperm.mem_iff.mp ht)
  gathered hgather t ht := h.gathered hgather t (hperm.mem_iff.mp ht)

/-! ## Trips carry each order once -/

/-- The trips carry each order once, and none more of them than it may. -/
structure Grouped (orders most : ℕ) (trips : List (Finset ℕ)) : Prop where
  disjoint : trips.Pairwise Disjoint
  carried : ∀ o, (∃ t ∈ trips, o ∈ t) ↔ o < orders
  fits : ∀ t ∈ trips, t.card ≤ most

variable {orders most : ℕ} {trips : List (Finset ℕ)}

theorem Grouped.perm {trips' : List (Finset ℕ)} (h : Grouped orders most trips)
    (hperm : trips.Perm trips') : Grouped orders most trips' where
  disjoint := (hperm.pairwise_iff fun hxy => hxy.symm).mp h.disjoint
  carried o := by
    rw [← h.carried o]
    simp only [hperm.mem_iff]
  fits t ht := h.fits t (hperm.mem_iff.mpr ht)

/-- Joining two trips takes them out and puts their union in. -/
theorem joined_perm {a b : ℕ} (hab : a < b) (hb : b < trips.length) : ∃ rest,
    trips.Perm (trips.getD a ∅ :: trips.getD b ∅ :: rest) ∧
      (joined trips a b).Perm ((trips.getD a ∅ ∪ trips.getD b ∅) :: rest) := by
  have ha : a < (trips.eraseIdx b).length := by
    rw [List.length_eraseIdx_of_lt hb]
    omega
  have hfirst : (trips.eraseIdx b)[a] = trips.getD a ∅ := by
    rw [List.getElem_eraseIdx_of_lt ha hab,List.getD_eq_getElem]
  have hsecond : trips[b] = trips.getD b ∅ := (List.getD_eq_getElem trips ∅ hb).symm
  refine ⟨(trips.eraseIdx b).eraseIdx a,?_,List.set_perm_cons_eraseIdx ha _⟩
  rw [← hfirst,← hsecond]
  refine (List.getElem_cons_eraseIdx_perm hb).symm.trans (List.Perm.trans ?_ (List.Perm.swap _ _ _))
  exact (List.getElem_cons_eraseIdx_perm ha).symm.cons _

theorem joined_grouped {a b : ℕ} (h : Grouped orders most trips) (hab : a < b) (hb : b < trips.length)
    (hfit : (trips.getD a ∅).card+(trips.getD b ∅).card ≤ most) :
    Grouped orders most (joined trips a b) := by
  obtain ⟨rest,htrips,hjoined⟩ := joined_perm hab hb
  set x := trips.getD a ∅
  set y := trips.getD b ∅
  have hsplit := h.perm htrips
  obtain ⟨hx,hyrest⟩ := List.pairwise_cons.mp hsplit.disjoint
  obtain ⟨hy,hrest⟩ := List.pairwise_cons.mp hyrest
  refine Grouped.perm ⟨?_,fun o => ?_,fun t ht => ?_⟩ hjoined.symm
  · refine List.pairwise_cons.mpr ⟨fun t ht => ?_,hrest⟩
    exact Finset.disjoint_union_left.mpr ⟨hx t (List.mem_cons_of_mem y ht),hy t ht⟩
  · rw [← hsplit.carried o]
    simp [or_assoc]
  · rcases List.mem_cons.mp ht with rfl | ht
    · exact (Finset.card_union_le x y).trans hfit
    · exact hsplit.fits t (by simp [ht])

section
variable (cost : Costs) (clocks : List ℕ → ℕ → Bool) (sign : Bool) (picks : List Pick)

theorem merge_grouped (pickers : ℕ) (h : Grouped orders most trips) :
    Grouped orders most (merge cost clocks sign picks most pickers trips) := by
  fun_induction merge cost clocks sign picks most pickers trips with
  | case1 trips hnone => exact h
  | case2 trips s a b hbest ih =>
    obtain ⟨hab,hb,hfit⟩ := bestPair_fits cost clocks sign picks most pickers hbest
    exact ih (joined_grouped h hab hb hfit)

/-- Every order starts as its own trip. -/
theorem singles_grouped (orders : ℕ) (hmost : 1 ≤ most) :
    Grouped orders most ((List.range orders).map fun o => {o}) where
  disjoint := by
    refine List.pairwise_map.mpr (List.nodup_range.imp ?_)
    intro a b hne
    simpa using hne
  carried o := by simp
  fits t ht := by
    obtain ⟨o,-,rfl⟩ := List.mem_map.mp ht
    simpa using hmost

theorem cap_pos (orders : ℕ) (settings : Settings) : 1 ≤ cap orders settings := le_max_right _ _

theorem trips_grouped (orders : ℕ) (settings : Settings) :
    Grouped orders (cap orders settings) (Picking.trips cost clocks sign orders picks settings) :=
  merge_grouped cost clocks sign picks _ (singles_grouped orders (cap_pos orders settings))

/-- The orders of all trips are the orders. -/
theorem sorted_perm (h : Grouped orders most trips) :
    (trips.flatMap fun t => t.sort (· ≤ ·)).Perm (List.range orders) := by
  have hnodup : (trips.flatMap fun t => t.sort (· ≤ ·)).Nodup := by
    refine List.nodup_flatMap.mpr ⟨fun t _ => Finset.sort_nodup t _,h.disjoint.imp ?_⟩
    intro x y hxy o hx hy
    exact Finset.disjoint_left.mp hxy ((Finset.mem_sort _).mp hx) ((Finset.mem_sort _).mp hy)
  refine (List.perm_ext_iff_of_nodup hnodup List.nodup_range).mpr fun o => ?_
  simp [← h.carried o]

/-- A trip that carries an order is found. -/
theorem tripOf_carries {o : ℕ} (h : ∃ t ∈ trips, o ∈ t) :
    tripOf trips o < trips.length ∧ o ∈ trips.getD (tripOf trips o) ∅ := by
  induction trips using List.reverseRecOn with
  | nil =>
    obtain ⟨t,ht,-⟩ := h
    cases ht
  | append_singleton trips t ih =>
    have hlast : tripOf (trips++[t]) o = if o ∈ t then trips.length else tripOf trips o := by
      simp [tripOf,List.zipIdx_append]
    rw [hlast]
    split_ifs with ho
    · simp [ho]
    · obtain ⟨x,hx,hox⟩ := h
      have hearlier : x ∈ trips := by
        rcases List.mem_append.mp hx with hx | hx
        · exact hx
        · rw [List.mem_singleton.mp hx] at hox
          exact absurd hox ho
      obtain ⟨hlt,hmem⟩ := ih ⟨x,hearlier,hox⟩
      refine ⟨by simp; omega,?_⟩
      rwa [List.getD_append _ _ _ _ hlt]

/-! ## Every pick has one taker -/

/-- Each of `n` picks is taken by one of `k` trips. -/
structure Takers (n k : ℕ) (taker : List ℕ) : Prop where
  length : taker.length = n
  lt : ∀ i < n, taker.getD i 0 < k

/-- The picks of a shelf are all taken by one trip. -/
def Together (what : ℕ) (taker : List ℕ) : Prop :=
  ∀ i < picks.length, ∀ j < picks.length, whatAt picks i = what → whatAt picks j = what →
    taker.getD i 0 = taker.getD j 0

theorem setAll_length (those : List ℕ) (keeper : ℕ) (taker : List ℕ) :
    (those.foldl (fun taker i => taker.set i keeper) taker).length = taker.length := by
  induction those generalizing taker with
  | nil => rfl
  | cons j those ih => rw [List.foldl_cons,ih,List.length_set]

theorem setAll_getD (those : List ℕ) (keeper : ℕ) {taker : List ℕ} {i : ℕ} (hi : i < taker.length) :
    (those.foldl (fun taker i => taker.set i keeper) taker).getD i 0 =
      if i ∈ those then keeper else taker.getD i 0 := by
  induction those generalizing taker with
  | nil => simp
  | cons j those ih =>
    rw [List.foldl_cons,ih (by simpa using hi)]
    by_cases hthose : i ∈ those
    · simp [hthose]
    · by_cases hij : i = j
      · subst hij
        simp [hthose,hi]
      · have hji : j ≠ i := fun heq => hij heq.symm
        simp [hthose,hij,hji]

/-- A shelf gathered stays with trips there are, all of it with one of them, and leaves
the other shelves as they were. -/
theorem gatherWhat_step {k what : ℕ} {taker : List ℕ} (h : Takers picks.length k taker) :
    Takers picks.length k (gatherWhat cost clocks sign picks taker what) ∧
    (∀ w, Together picks w taker → Together picks w (gatherWhat cost clocks sign picks taker what)) ∧
    Together picks what (gatherWhat cost clocks sign picks taker what) := by
  unfold gatherWhat
  dsimp only
  set those := (List.range picks.length).filter fun i => whatAt picks i = what with hthose
  have hmem {i : ℕ} (hi : i < picks.length) : i ∈ those ↔ whatAt picks i = what := by
    simp [hthose,hi]
  set wanting := (those.map (taker.getD · 0)).toFinset.sort (· ≤ ·) with hwanting
  have hwant {t : ℕ} : t ∈ wanting ↔ ∃ i ∈ those, taker.getD i 0 = t := by simp [hwanting]
  split_ifs with hone
  · have htogether : Together picks what taker := by
      intro i hi j hj hwi hwj
      have hle : (those.map (taker.getD · 0)).toFinset.card ≤ 1 := by
        rw [hwanting,Finset.length_sort] at hone
        omega
      apply Finset.card_le_one.mp hle
      · exact List.mem_toFinset.mpr (List.mem_map.mpr ⟨i,(hmem hi).mpr hwi,rfl⟩)
      · exact List.mem_toFinset.mpr (List.mem_map.mpr ⟨j,(hmem hj).mpr hwj,rfl⟩)
    exact ⟨h,fun _ hw => hw,htogether⟩
  · set keeper := (wanting.argmin fun t => (loss cost clocks sign picks what taker t).key).getD (wanting.headD 0)
    have hkeeper : keeper ∈ wanting := by
      cases harg : wanting.argmin (fun t => (loss cost clocks sign picks what taker t).key) with
      | none =>
        rw [List.argmin_eq_none.mp harg] at hone
        simp at hone
      | some t =>
        have ht := List.argmin_mem (Option.mem_def.mpr harg)
        simpa [keeper,harg] using ht
    obtain ⟨i₀,hi₀,hkept⟩ := hwant.mp hkeeper
    have hlt : keeper < k := by
      have hi := List.mem_range.mp (List.mem_filter.mp hi₀).1
      exact hkept ▸ h.lt i₀ hi
    have hget {i : ℕ} (hi : i < picks.length) :
        (those.foldl (fun taker i => taker.set i keeper) taker).getD i 0 =
          if whatAt picks i = what then keeper else taker.getD i 0 := by
      rw [setAll_getD those keeper (h.length ▸ hi)]
      simp only [hmem hi]
    refine ⟨⟨(setAll_length those keeper taker).trans h.length,fun i hi => ?_⟩,?_,?_⟩
    · rw [hget hi]
      split_ifs
      · exact hlt
      · exact h.lt i hi
    · intro w hw i hi j hj hwi hwj
      rw [hget hi,hget hj,hwi,hwj]
      split_ifs
      · rfl
      · exact hw i hi j hj hwi hwj
    · intro i hi j hj hwi hwj
      rw [hget hi,hget hj,if_pos hwi,if_pos hwj]

/-- Gathered, every shelf is taken from by one trip. -/
theorem gather_together {k : ℕ} {taker : List ℕ} (h : Takers picks.length k taker) :
    Takers picks.length k (gather cost clocks sign picks taker) ∧
      ∀ i < picks.length, ∀ j < picks.length, whatAt picks i = whatAt picks j →
        (gather cost clocks sign picks taker).getD i 0 = (gather cost clocks sign picks taker).getD j 0 := by
  obtain ⟨hend,-,hall⟩ := Loop.foldl_all (Takers picks.length k)
    (fun taker taker' => ∀ w, Together picks w taker → Together picks w taker')
    (Together picks) (fun _ _ hw => hw) (fun _ _ _ h₁ h₂ w hw => h₂ w (h₁ w hw))
    (fun _ _ w h hw => h w hw) h (fun _ what _ ht => gatherWhat_step cost clocks sign picks ht)
  refine ⟨hend,fun i hi j hj hwhat => hall (whatAt picks i) ?_ i hi j hj rfl hwhat.symm⟩
  rw [Finset.mem_sort,List.mem_toFinset]
  exact List.mem_map.mpr ⟨picks[i],List.getElem_mem hi,by simp [whatAt,hi]⟩

/-! ## What a trip takes -/

/-- The picks the trip at `t` is to take. -/
def mineOf (taker : List ℕ) (t : ℕ) : List ℕ :=
  (List.range picks.length).filter fun i => taker.getD i 0 = t

/-- Where it stops. -/
def placesAt (taker : List ℕ) (t : ℕ) : Finset ℕ := ((mineOf picks taker t).filterMap (stopAt picks)).toFinset

/-- Its walk goes to each of its stops. -/
def Whole (taker : List ℕ) (t : ℕ) : Prop :=
  (route cost clocks (placesAt picks taker t)).1.Perm ((placesAt picks taker t).sort (· ≤ ·))

variable {cost clocks picks} in
theorem makeTrip_fst (taker : List ℕ) (t : ℕ) (carried : Finset ℕ) :
    (makeTrip cost clocks picks taker t carried).stops.map Prod.fst = (route cost clocks (placesAt picks taker t)).1 := by
  simp only [makeTrip,List.map_map,Function.comp_def]
  exact List.map_id' _

section
variable {cost clocks picks} {taker : List ℕ} {t : ℕ} (carried : Finset ℕ)

theorem mem_places (h : Whole cost clocks picks taker t) {s : ℕ} :
    s ∈ (route cost clocks (placesAt picks taker t)).1 ↔ ∃ i ∈ mineOf picks taker t, stopAt picks i = some s := by
  rw [h.mem_iff,Finset.mem_sort,placesAt,List.mem_toFinset,List.mem_filterMap]

theorem places_nodup (h : Whole cost clocks picks taker t) : (route cost clocks (placesAt picks taker t)).1.Nodup :=
  h.nodup_iff.mpr (Finset.sort_nodup _ _)

/-- A trip takes its picks, each once. -/
theorem makeTrip_taken (h : Whole cost clocks picks taker t) :
    (makeTrip cost clocks picks taker t carried).taken.Perm (mineOf picks taker t) := by
  set places := (route cost clocks (placesAt picks taker t)).1 with hplaces
  have hkeys : (places.map some++[none]).Nodup := by
    refine List.nodup_append.mpr ⟨(places_nodup h).map (Option.some_injective ℕ),
      List.nodup_singleton none,?_⟩
    intro x hx y hy
    obtain ⟨s,-,rfl⟩ := List.mem_map.mp hx
    rw [List.mem_singleton.mp hy]
    exact Option.some_ne_none s
  have hall : ∀ i ∈ mineOf picks taker t, stopAt picks i ∈ places.map some++[none] := by
    intro i hi
    cases hstop : stopAt picks i with
    | none => simp
    | some s =>
      have hs : s ∈ places := (mem_places h).mpr ⟨i,hi,hstop⟩
      simp [hs]
  have hfibers := ShareOut.fibers_perm hkeys (stopAt picks) hall
  rw [List.flatMap_append,List.flatMap_map,List.flatMap_singleton] at hfibers
  rw [Trip.taken,makeTrip,List.flatMap_map]
  exact hfibers

/-- Each pick is under the stop it names, or off the route when it names none, and no
stop is made twice or for nothing. -/
theorem makeTrip_stops (h : Whole cost clocks picks taker t) :
    (∀ s ∈ (makeTrip cost clocks picks taker t carried).stops,
      s.2 ≠ [] ∧ ∀ i ∈ s.2, stopAt picks i = some s.1) ∧
    (∀ i ∈ (makeTrip cost clocks picks taker t carried).offRoute, stopAt picks i = none) ∧
    ((makeTrip cost clocks picks taker t carried).stops.map Prod.fst).Nodup := by
  refine ⟨fun s hs => ?_,fun i hi => ?_,?_⟩
  · obtain ⟨place,hplace,rfl⟩ := List.mem_map.mp hs
    obtain ⟨i,hi,hstop⟩ := (mem_places h).mp hplace
    refine ⟨List.ne_nil_of_mem (List.mem_filter.mpr ⟨hi,by simpa using hstop⟩),fun j hj => ?_⟩
    simpa using (List.mem_filter.mp hj).2
  · simpa using (List.mem_filter.mp hi).2
  · rw [makeTrip_fst]
    exact places_nodup h

end

/-! ## Trips shared between pickers -/

theorem give_flatten (settings : Settings) {pickers : ℕ} (hpickers : 0 < pickers)
    {s : List (List Trip) × List F64} (hlen : s.1.length = pickers) (trip : Trip) :
    (give sign settings pickers s trip).1.length = pickers ∧
      (give sign settings pickers s trip).1.flatten.Perm (s.1.flatten++[trip]) := by
  have hwho : ((List.range pickers).argmin fun p => (s.2.getD p (F64.fin 0)).key).getD 0 < pickers := by
    cases harg : (List.range pickers).argmin fun p => (s.2.getD p (F64.fin 0)).key with
    | none => simpa using hpickers
    | some p => exact List.mem_range.mp (List.argmin_mem (Option.mem_def.mpr harg))
  exact ⟨by simpa [give] using hlen,ShareOut.modify_flatten_perm (hlen ▸ hwho) trip⟩

/-- Every trip goes to one picker. -/
theorem share_flatten (settings : Settings) {pickers : ℕ} (hpickers : 0 < pickers)
    (trips : List Trip) {s : List (List Trip) × List F64} (hlen : s.1.length = pickers) :
    (trips.foldl (give sign settings pickers) s).1.length = pickers ∧
      (trips.foldl (give sign settings pickers) s).1.flatten.Perm (s.1.flatten++trips) := by
  induction trips generalizing s with
  | nil => simpa using hlen
  | cons trip trips ih =>
    obtain ⟨hlen',hgiven⟩ := give_flatten sign settings hpickers hlen trip
    obtain ⟨hend,hrest⟩ := ih hlen'
    refine ⟨hend,hrest.trans ?_⟩
    simpa using hgiven.append_right trips

/-! ## The plan -/

section
variable (orders : ℕ) (settings : Settings)

theorem plan_made : (plan cost clocks sign orders picks settings).pickers.length = max settings.pickers 1 ∧
    (plan cost clocks sign orders picks settings).pickers.flatten.Perm
      (made cost clocks sign orders picks settings) := by
  have hshared := share_flatten sign settings (lt_max_of_lt_right one_pos)
    ((made cost clocks sign orders picks settings).insertionSort (before sign settings))
    (s := (List.replicate (max settings.pickers 1) [],List.replicate (max settings.pickers 1) (F64.fin 0)))
    List.length_replicate
  refine ⟨hshared.1,hshared.2.trans ?_⟩
  simpa using List.perm_insertionSort (before sign settings) (made cost clocks sign orders picks settings)

theorem made_eq : made cost clocks sign orders picks settings =
    (List.range (Picking.trips cost clocks sign orders picks settings).length).map fun k =>
      makeTrip cost clocks picks (taker cost clocks sign orders picks settings) k
        ((Picking.trips cost clocks sign orders picks settings).getD k ∅) := by
  apply List.ext_getElem (by simp [made])
  intro k h₁ h₂
  have hk : k < (Picking.trips cost clocks sign orders picks settings).length := by simpa using h₂
  simp [made,hk]

theorem carrying_takers (hpicks : ∀ p ∈ picks, p.order < orders) :
    Takers picks.length (Picking.trips cost clocks sign orders picks settings).length
      (picks.map fun p => tripOf (Picking.trips cost clocks sign orders picks settings) p.order) where
  length := List.length_map _
  lt i hi := by
    have hgrouped := trips_grouped cost clocks sign picks orders settings
    have hcarried := tripOf_carries ((hgrouped.carried _).mpr (hpicks picks[i] (List.getElem_mem hi)))
    simpa [hi] using hcarried.1

theorem taker_takers (hpicks : ∀ p ∈ picks, p.order < orders) :
    Takers picks.length (Picking.trips cost clocks sign orders picks settings).length
      (taker cost clocks sign orders picks settings) := by
  have hcarrying := carrying_takers cost clocks sign picks orders settings hpicks
  unfold taker
  dsimp only
  split_ifs
  · exact (gather_together cost clocks sign picks hcarrying).1
  · exact hcarrying

theorem made_partition (hpicks : ∀ p ∈ picks, p.order < orders)
    (hwhole : ∀ t, Whole cost clocks picks (taker cost clocks sign orders picks settings) t) :
    Partition orders picks settings (made cost clocks sign orders picks settings) := by
  have hgrouped := trips_grouped cost clocks sign picks orders settings
  have htakers := taker_takers cost clocks sign picks orders settings hpicks
  have hmade := made_eq cost clocks sign picks orders settings
  set groups := Picking.trips cost clocks sign orders picks settings
  set who := taker cost clocks sign orders picks settings with hwho
  have hmem {t : Trip} (ht : t ∈ made cost clocks sign orders picks settings) : ∃ k < groups.length,
      t = makeTrip cost clocks picks who k (groups.getD k ∅) := by
    rw [hmade] at ht
    obtain ⟨k,hk,rfl⟩ := List.mem_map.mp ht
    exact ⟨k,List.mem_range.mp hk,rfl⟩
  have htaken {k i : ℕ} : i ∈ (makeTrip cost clocks picks who k (groups.getD k ∅)).taken ↔
      i < picks.length ∧ who.getD i 0 = k := by
    rw [(makeTrip_taken _ (hwhole k)).mem_iff]
    simp [mineOf]
  constructor
  case orders_once =>
    have hlist : (List.range groups.length).map (groups.getD · ∅) = groups := by
      apply List.ext_getElem (by simp)
      intro k h₁ h₂
      simp [h₂]
    have horders := sorted_perm hgrouped
    rw [← hlist,List.flatMap_map] at horders
    rw [hmade,List.flatMap_map]
    exact horders
  case fits =>
    intro t ht
    obtain ⟨k,hk,rfl⟩ := hmem ht
    have hfit := hgrouped.fits groups[k] (List.getElem_mem hk)
    simpa [makeTrip,hk] using hfit
  case picks_once =>
    rw [hmade,List.flatMap_map]
    refine (List.Perm.flatMap_left _ fun k _ => makeTrip_taken _ (hwhole k)).trans ?_
    refine ShareOut.fibers_perm List.nodup_range (who.getD · 0) fun i hi => ?_
    exact List.mem_range.mpr (htakers.lt i (List.mem_range.mp hi))
  case under_its_stop =>
    intro t ht s hs
    obtain ⟨k,-,rfl⟩ := hmem ht
    exact ((makeTrip_stops _ (hwhole k)).1 s hs).2
  case off_route =>
    intro t ht
    obtain ⟨k,-,rfl⟩ := hmem ht
    exact (makeTrip_stops _ (hwhole k)).2.1
  case stops_once =>
    intro t ht
    obtain ⟨k,-,rfl⟩ := hmem ht
    exact (makeTrip_stops _ (hwhole k)).2.2
  case stops_taken =>
    intro t ht s hs
    obtain ⟨k,-,rfl⟩ := hmem ht
    exact ((makeTrip_stops _ (hwhole k)).1 s hs).1
  case with_order =>
    intro hgather t ht i hi
    obtain ⟨k,-,rfl⟩ := hmem ht
    obtain ⟨hlt,rfl⟩ := htaken.mp hi
    have hcarried := tripOf_carries ((hgrouped.carried _).mpr (hpicks picks[i] (List.getElem_mem hlt)))
    have hsame : who.getD i 0 = tripOf groups picks[i].order := by
      simp [hwho,taker,hgather,hlt,groups]
    rw [hsame]
    simpa [makeTrip,orderAt,hlt] using hcarried.2
  case gathered =>
    intro hgather t ht i hi j hj hwhat
    obtain ⟨k,-,rfl⟩ := hmem ht
    obtain ⟨hlt,rfl⟩ := htaken.mp hi
    refine htaken.mpr ⟨hj,?_⟩
    have hcarrying := carrying_takers cost clocks sign picks orders settings hpicks
    have htogether := (gather_together cost clocks sign picks hcarrying).2 j hj i hlt hwhat
    rw [hwho,taker]
    simpa [hgather] using htogether

/-- A plan whose walks are whole has a group for every picker, and their trips are a partition of
the orders and of the picks. -/
theorem whole_partition (hpicks : ∀ p ∈ picks, p.order < orders)
    (hwhole : ∀ t, Whole cost clocks picks (taker cost clocks sign orders picks settings) t) :
    (plan cost clocks sign orders picks settings).pickers.length = max settings.pickers 1 ∧
    Partition orders picks settings (plan cost clocks sign orders picks settings).pickers.flatten := by
  obtain ⟨hlen,hperm⟩ := plan_made cost clocks sign picks orders settings
  exact ⟨hlen,(made_partition cost clocks sign picks orders settings hpicks hwhole).perm hperm⟩

end

/-! ## A walk cut short -/

/-- One order, with something to take at each of these stops. -/
def everyStop (stops : Finset ℕ) : List Pick := (stops.sort (· ≤ ·)).map fun s => ⟨0,some s,s⟩

def onePicker : Settings := ⟨1,none,false,F64.fin 0⟩

theorem everyStop_trips (stops : Finset ℕ) : Picking.trips cost clocks sign 1 (everyStop stops) onePicker = [{0}] := by
  rw [Picking.trips,List.range_one,List.map_singleton,merge]
  rfl

theorem everyStop_stopAt (stops : Finset ℕ) (i : ℕ) : stopAt (everyStop stops) i = (stops.sort (· ≤ ·))[i]? := by
  cases h : (stops.sort (· ≤ ·))[i]? <;> simp [stopAt,everyStop,h]

theorem everyStop_places (stops : Finset ℕ) :
    placesAt (everyStop stops) (taker cost clocks sign 1 (everyStop stops) onePicker) 0 = stops := by
  have htaker (i : ℕ) : (taker cost clocks sign 1 (everyStop stops) onePicker).getD i 0 = 0 := by
    have hfirst : tripOf [{0}] 0 = 0 := by simp [tripOf]
    rw [taker,everyStop_trips,List.getD_eq_getElem?_getD]
    cases h : (stops.sort (· ≤ ·))[i]? <;> simp [onePicker,everyStop,h,hfirst]
  ext s
  simp only [placesAt,mineOf,htaker,List.mem_toFinset,List.mem_filterMap,everyStop_stopAt]
  simp only [decide_true,List.filter_true,List.mem_range]
  rw [← Finset.mem_sort (· ≤ ·),List.mem_iff_getElem?]
  refine exists_congr fun i => and_iff_right_of_imp fun hi => ?_
  simpa [everyStop] using (List.getElem?_eq_some_iff.mp hi).1

/-- A plan for one order is not a partition when the walk round its stops is cut short. -/
theorem everyStop_lost {stops : Finset ℕ} (htwo : 2 ≤ stops.card)
    (hshort : (route cost clocks stops).1.length = 1) :
    ¬Partition 1 (everyStop stops) onePicker (plan cost clocks sign 1 (everyStop stops) onePicker).pickers.flatten := by
  intro h
  have hmade := h.perm (plan_made cost clocks sign (everyStop stops) 1 onePicker).2.symm
  rw [made_eq,everyStop_trips] at hmade
  set who := taker cost clocks sign 1 (everyStop stops) onePicker
  obtain ⟨t,ht⟩ : ∃ t, t = makeTrip cost clocks (everyStop stops) who 0 {0} := ⟨_,rfl⟩
  have honly : (List.range ([{0}] : List (Finset ℕ)).length).map (fun k =>
      makeTrip cost clocks (everyStop stops) who k (([{0}] : List (Finset ℕ)).getD k ∅)) = [t] := by
    rw [ht]
    rfl
  rw [honly] at hmade
  -- every stop is one the trip makes, and it makes one
  have hstops : t.stops.map Prod.fst = (route cost clocks stops).1 := by
    rw [ht,makeTrip_fst,everyStop_places]
  have hall : stops.sort (· ≤ ·) ⊆ t.stops.map Prod.fst := by
    intro s hs
    obtain ⟨i,hi⟩ := List.mem_iff_getElem?.mp hs
    have hlt : i < (everyStop stops).length := by simpa [everyStop] using (List.getElem?_eq_some_iff.mp hi).1
    have htaken := hmade.picks_once.mem_iff.mpr (List.mem_range.mpr hlt)
    have hstop : stopAt (everyStop stops) i = some s := (everyStop_stopAt stops i).trans hi
    rw [List.flatMap_singleton,Trip.taken,List.mem_append,List.mem_flatMap] at htaken
    rcases htaken with ⟨place,hplace,hin⟩ | hoff
    · have hunder := hmade.under_its_stop t (by simp) place hplace i hin
      rw [hstop] at hunder
      exact List.mem_map.mpr ⟨place,hplace,(Option.some.inj hunder).symm⟩
    · have hnone := hmade.off_route t (by simp) i hoff
      rw [hstop] at hnone
      cases hnone
  have hcount := ((stops.sort_nodup (· ≤ ·)).subperm hall).length_le
  rw [hstops,hshort,Finset.length_sort] at hcount
  omega

end

/-- Two orders that want one shelf, and something of the first's off the floor. -/
def shelfPicks : List Pick := [⟨0,some 1,0⟩,⟨0,some 2,5⟩,⟨1,some 2,5⟩,⟨0,none,7⟩]

theorem sort_one_two : ({1,2} : Finset ℕ).sort (· ≤ ·) = [1,2] := by
  rw [Finset.sort_insert (· ≤ ·) (by decide) (by decide),Finset.sort_singleton]

/-- Walks that are half of what is past every double. -/
def farCosts : Costs := [[0,2^1023,2^1023],[2^1023,0,2^1023],[2^1023,2^1023,0]]

end Picking
end Spork
