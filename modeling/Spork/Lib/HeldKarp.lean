import Spork.Lib.Loop

/-! Held and Karp's programme: the best walk over each set of stops ending at each of them,
built up from the start, for any way of walking on that keeps what is less less.

A set of stops is a number, a stop in it a bit set. `⊤` is no walk, or one that comes to more
than can be told. -/
namespace Spork
namespace HeldKarp

variable {α : Type*}

/-- The best walk over a set of stops ending at one of them, and the stop before it. -/
structure Table (α : Type*) where
  best : ℕ → ℕ → WithTop α
  prev : ℕ → ℕ → Option ℕ

/-- The entry of `set` and `j` written. -/
def Table.put (t : Table α) (set j : ℕ) (v : WithTop α) (p : ℕ) : Table α where
  best s i := if s = set ∧ i = j then v else t.best s i
  prev s i := if s = set ∧ i = j then some p else t.prev s i

section
variable [LinearOrder α] (first : ℕ → α) (onto : ℕ → ℕ → α → WithTop α) (m : ℕ)

/-- Every stop reached straight from the start. -/
def startTable : Table α where
  best s j := if j < m ∧ s = 1 <<< j then (first j : WithTop α) else ⊤
  prev _ _ := none

/-- The walk over `set` ending at `j`, walked on to `k`. -/
def extend (set j : ℕ) (here : α) (t : Table α) (k : ℕ) : Table α :=
  if set &&& (1 <<< k) ≠ 0 then t
  else
    let next := set ||| (1 <<< k)
    let via := onto j k here
    if via < t.best next k then t.put next k via j else t

def extendFrom (set : ℕ) (t : Table α) (j : ℕ) : Table α :=
  if set &&& (1 <<< j) = 0 then t
  else
    match t.best set j with
    | ⊤ => t
    | (here : α) => (List.range m).foldl (extend onto set j here) t

def extendSet (t : Table α) (set : ℕ) : Table α := (List.range m).foldl (extendFrom onto m set) t

def full : ℕ := (1 <<< m)-1

def table : Table α := (List.range' 1 (full m)).foldl (extendSet onto m) (startTable first m)

end

/-- The stops of the walk ending at `j`, the last first, read back stop before stop. -/
def back (t : Table α) : ℕ → ℕ → ℕ → Option (List ℕ)
  | 0, _, _ => none
  | depth+1, set, j =>
    match t.prev set j with
    | none => some [j]
    | some p => (back t depth (Nat.ldiff set (1 <<< j)) p).map (j :: ·)

/-! ## Sets as numbers -/

/-- The set of stops in a list. -/
def mask : List ℕ → ℕ
  | [] => 0
  | j :: js => mask js ||| (1 <<< j)

theorem testBit_one_shiftLeft (i j : ℕ) : (1 <<< j).testBit i = decide (i = j) := by
  rw [Nat.one_shiftLeft,Nat.testBit_two_pow]
  simp [eq_comm]

theorem and_one_shiftLeft (set j : ℕ) : set &&& (1 <<< j) = 0 ↔ set.testBit j = false := by
  rw [Nat.one_shiftLeft,Nat.and_two_pow]
  cases set.testBit j <;> simp

theorem testBit_mask (js : List ℕ) (i : ℕ) : (mask js).testBit i = decide (i ∈ js) := by
  induction js with
  | nil => simp [mask]
  | cons j js ih =>
    rw [mask,Nat.testBit_or,ih,testBit_one_shiftLeft]
    by_cases hi : i = j <;> simp [hi]

/-- A set with a stop put in and taken out again. -/
theorem ldiff_or (set j : ℕ) (h : set.testBit j = false) :
    Nat.ldiff (set ||| (1 <<< j)) (1 <<< j) = set := by
  apply Nat.eq_of_testBit_eq
  intro i
  rw [Nat.testBit_ldiff,Nat.testBit_or,testBit_one_shiftLeft]
  by_cases hi : i = j
  · subst hi
    simp [h]
  · simp [hi]

theorem lt_or_bit (set j : ℕ) (h : set.testBit j = false) : set < set ||| (1 <<< j) := by
  have hle : set ≤ set ||| (1 <<< j) := Nat.left_le_or
  have hne : set ≠ set ||| (1 <<< j) := by
    intro heq
    have hbit := congrArg (Nat.testBit · j) heq
    simp [Nat.testBit_or,h] at hbit
  omega

theorem mask_lt {m : ℕ} {js : List ℕ} (h : ∀ j ∈ js, j < m) : mask js < 2^m := by
  apply Nat.lt_pow_two_of_testBit
  intro i hi
  rw [testBit_mask]
  simpa using fun hmem : i ∈ js => absurd (h i hmem) (by omega)

theorem mask_perm {js ks : List ℕ} (h : js.Perm ks) : mask js = mask ks := by
  apply Nat.eq_of_testBit_eq
  intro i
  rw [testBit_mask,testBit_mask]
  simp [h.mem_iff]

theorem mask_range (m : ℕ) : mask (List.range m) = full m := by
  apply Nat.eq_of_testBit_eq
  intro i
  rw [testBit_mask,full,Nat.one_shiftLeft,Nat.testBit_two_pow_sub_one]
  simp

/-! ## What the table keeps -/

section
variable [LinearOrder α] {first : ℕ → α} {onto : ℕ → ℕ → α → WithTop α} {m : ℕ}

/-- A finite entry is a stop reached straight from the start, or a walk the table has
walked on from; none walked on from is of a set past `s`. -/
def Traced (first : ℕ → α) (onto : ℕ → ℕ → α → WithTop α) (m s : ℕ) (t : Table α) : Prop :=
  ∀ set j (v : α), t.best set j = v → j < m ∧
    ((t.prev set j = none ∧ set = 1 <<< j ∧ v = first j) ∨
    ∃ set' p, ∃ u : α, t.prev set j = some p ∧ set'.testBit j = false ∧ set = set' ||| (1 <<< j) ∧
      set' ≤ s ∧ t.best set' p = u ∧ onto p j u = v)

/-- Between two tables while `s` is worked on: no entry gets worse, and none of a set up
to `s` changes. -/
def Later (s : ℕ) (t t' : Table α) : Prop :=
  (∀ set j, t'.best set j ≤ t.best set j) ∧ ∀ set j, set ≤ s → t'.best set j = t.best set j

theorem Later.refl (s : ℕ) (t : Table α) : Later s t t := ⟨fun _ _ => le_rfl,fun _ _ _ => rfl⟩

theorem Later.trans {s : ℕ} {t₁ t₂ t₃ : Table α} (h₁ : Later s t₁ t₂) (h₂ : Later s t₂ t₃) :
    Later s t₁ t₃ :=
  ⟨fun set j => (h₂.1 set j).trans (h₁.1 set j),
    fun set j hs => (h₂.2 set j hs).trans (h₁.2 set j hs)⟩

theorem Later.mono {s s' : ℕ} {t t' : Table α} (hs : s ≤ s') (h : Later s' t t') : Later s t t' :=
  ⟨h.1,fun set j hset => h.2 set j (hset.trans hs)⟩

/-- The walk over `s` ending at `j` has been walked on to `k`. -/
def Walked (onto : ℕ → ℕ → α → WithTop α) (s j k : ℕ) (t : Table α) : Prop :=
  s.testBit k = false → ∀ u : α, t.best s j = u → t.best (s ||| (1 <<< k)) k ≤ onto j k u

theorem Walked.later {s s' j k : ℕ} {t t' : Table α} (hs : s ≤ s') (h : Later s' t t')
    (hwalked : Walked onto s j k t) : Walked onto s j k t' := by
  intro hbit u hu
  rw [h.2 s j hs] at hu
  exact (h.1 _ _).trans (hwalked hbit u hu)

theorem extend_step {s j k : ℕ} {here : α} {t : Table α} (ht : Traced first onto m s t)
    (hhere : t.best s j = here) (hk : k < m) :
    Traced first onto m s (extend onto s j here t k) ∧ Later s t (extend onto s j here t k) ∧
      Walked onto s j k (extend onto s j here t k) := by
  unfold extend
  by_cases hin : s &&& (1 <<< k) = 0
  · have hbit : s.testBit k = false := (and_one_shiftLeft s k).mp hin
    have hpast : s < s ||| (1 <<< k) := lt_or_bit s k hbit
    rw [if_neg (not_not.mpr hin)]
    by_cases hless : onto j k here < t.best (s ||| (1 <<< k)) k
    · rw [if_pos hless]
      have hold {set i : ℕ} (hset : set ≤ s) :
          (t.put (s ||| (1 <<< k)) k (onto j k here) j).best set i = t.best set i := by
        have hne : ¬(set = s ||| (1 <<< k) ∧ i = k) := by rintro ⟨rfl,-⟩; omega
        simp [Table.put,hne]
      refine ⟨?_,⟨?_,fun set i hset => hold hset⟩,?_⟩
      · intro set i v hv
        by_cases hnew : set = s ||| (1 <<< k) ∧ i = k
        · obtain ⟨rfl,rfl⟩ := hnew
          refine ⟨hk,Or.inr ⟨s,j,here,by simp [Table.put],hbit,rfl,le_rfl,?_,?_⟩⟩
          · rw [hold le_rfl,hhere]
          · simpa [Table.put] using hv
        · rw [Table.put] at hv ⊢
          simp only [hnew,if_false] at hv ⊢
          obtain ⟨hi,hstart | ⟨set',p,u,hp,hbit',hset,hle,hu,hvu⟩⟩ := ht set i v hv
          · exact ⟨hi,Or.inl hstart⟩
          · have hsame := hold (i := p) hle
            exact ⟨hi,Or.inr ⟨set',p,u,hp,hbit',hset,hle,hsame.trans hu,hvu⟩⟩
      · intro set i
        by_cases hnew : set = s ||| (1 <<< k) ∧ i = k
        · obtain ⟨rfl,rfl⟩ := hnew
          simpa [Table.put] using hless.le
        · simp [Table.put,hnew]
      · intro _ u hu
        rw [hold le_rfl,hhere] at hu
        obtain rfl := WithTop.coe_injective hu
        simp [Table.put]
    · rw [if_neg hless]
      refine ⟨ht,Later.refl s t,fun _ u hu => ?_⟩
      rw [hhere] at hu
      obtain rfl := WithTop.coe_injective hu
      exact not_lt.mp hless
  · rw [if_pos hin]
    refine ⟨ht,Later.refl s t,fun hbit => ?_⟩
    exact absurd ((and_one_shiftLeft s k).mpr hbit) hin

omit [LinearOrder α] in
theorem Traced.bit {s : ℕ} {t : Table α} (ht : Traced first onto m s t) {set j : ℕ} {v : α}
    (hv : t.best set j = v) : set.testBit j = true := by
  obtain ⟨-,⟨-,rfl,-⟩ | ⟨set',p,u,-,-,rfl,-⟩⟩ := ht set j v hv
  · simp
  · simp [Nat.testBit_or]

omit [LinearOrder α] in
theorem Traced.mono {s s' : ℕ} {t : Table α} (hs : s ≤ s') (ht : Traced first onto m s t) :
    Traced first onto m s' t := by
  intro set j v hv
  obtain ⟨hj,hstart | ⟨set',p,u,hp,hbit,hset,hle,hu,hvu⟩⟩ := ht set j v hv
  · exact ⟨hj,Or.inl hstart⟩
  · exact ⟨hj,Or.inr ⟨set',p,u,hp,hbit,hset,hle.trans hs,hu,hvu⟩⟩

/-- Every walk over `s` to `j` the table has is walked on to every stop. -/
theorem extendFrom_step {s j : ℕ} {t : Table α} (ht : Traced first onto m s t) :
    Traced first onto m s (extendFrom onto m s t j) ∧ Later s t (extendFrom onto m s t j) ∧
      ∀ k < m, Walked onto s j k (extendFrom onto m s t j) := by
  unfold extendFrom
  by_cases hin : s &&& (1 <<< j) = 0
  · rw [if_pos hin]
    refine ⟨ht,Later.refl s t,fun k _ _ u hu => ?_⟩
    have hbit := ht.bit hu
    rw [(and_one_shiftLeft s j).mp hin] at hbit
    cases hbit
  · rw [if_neg hin]
    cases hhere : t.best s j with
    | top =>
      refine ⟨ht,Later.refl s t,fun k _ _ u hu => ?_⟩
      rw [hhere] at hu
      cases hu
    | coe here =>
      obtain ⟨⟨hend,-⟩,hlater,hall⟩ := Loop.foldl_all
        (fun t => Traced first onto m s t ∧ t.best s j = here) (Later s) (Walked onto s j)
        (Later.refl s) (fun _ _ _ => Later.trans) (fun _ _ k h => Walked.later le_rfl h) ⟨ht,hhere⟩
        (by
          rintro t' k hk ⟨ht',hhere'⟩
          obtain ⟨htrace,hlater,hdone⟩ := extend_step ht' hhere' (List.mem_range.mp hk)
          exact ⟨⟨htrace,(hlater.2 s j le_rfl).trans hhere'⟩,hlater,hdone⟩)
      exact ⟨hend,hlater,fun k hk => hall k (List.mem_range.mpr hk)⟩

theorem extendSet_step {s : ℕ} {t : Table α} (ht : Traced first onto m s t) :
    Traced first onto m s (extendSet onto m t s) ∧ Later s t (extendSet onto m t s) ∧
      ∀ j < m, ∀ k < m, Walked onto s j k (extendSet onto m t s) := by
  obtain ⟨hend,hlater,hall⟩ := Loop.foldl_all (Traced first onto m s) (Later s)
    (fun j t => ∀ k < m, Walked onto s j k t) (Later.refl s) (fun _ _ _ => Later.trans)
    (fun _ _ j h hdone k hk => (hdone k hk).later le_rfl h) ht
    (fun t' j _ ht' => extendFrom_step (j := j) ht')
  exact ⟨hend,hlater,fun j hj => hall j (List.mem_range.mpr hj)⟩

omit [LinearOrder α] in
theorem startTable_traced : Traced first onto m 0 (startTable first m) := by
  intro set j v hv
  simp only [startTable] at hv ⊢
  split_ifs at hv with hj
  · exact ⟨hj.1,Or.inl ⟨trivial,hj.2,(WithTop.coe_injective hv).symm⟩⟩
  · cases hv

/-- After the sets up to `n` every walk over one of them is walked on, and every stop
reached straight from the start. -/
theorem sets_step (n : ℕ) :
    Traced first onto m n ((List.range' 1 n).foldl (extendSet onto m) (startTable first m)) ∧
    (∀ set, 1 ≤ set → set ≤ n → ∀ j < m, ∀ k < m,
      Walked onto set j k ((List.range' 1 n).foldl (extendSet onto m) (startTable first m))) ∧
    ∀ j < m, ((List.range' 1 n).foldl (extendSet onto m) (startTable first m)).best (1 <<< j) j ≤ first j := by
  induction n with
  | zero =>
    refine ⟨startTable_traced,fun set h₁ h₂ => by omega,fun j hj => ?_⟩
    simp [startTable,hj]
  | succ n ih =>
    obtain ⟨htrace,hwalked,hstart⟩ := ih
    rw [List.range'_concat,List.foldl_append]
    simp only [List.foldl_cons,List.foldl_nil,Nat.one_mul,Nat.add_comm 1 n]
    obtain ⟨hnew,hlater,hall⟩ := extendSet_step (htrace.mono (Nat.le_succ n))
    refine ⟨hnew,fun set h₁ h₂ j hj k hk => ?_,fun j hj => (hlater.1 _ _).trans (hstart j hj)⟩
    rcases Nat.lt_or_ge n set with hlast | hle
    · obtain rfl : set = n+1 := by omega
      exact hall j hj k hk
    · exact (hwalked set h₁ hle j hj k hk).later (Nat.le_succ_of_le hle) hlater

/-- A stop there is no walk to has none before it. -/
def Unreached (t : Table α) : Prop := ∀ set j, t.best set j = ⊤ → t.prev set j = none

theorem table_unreached : Unreached (table first onto m) := by
  refine Loop.foldl_keeps Unreached (fun _ _ _ => rfl) fun t set _ ht => ?_
  refine Loop.foldl_keeps Unreached ht fun t j _ ht => ?_
  unfold extendFrom
  split_ifs
  · exact ht
  · split
    · exact ht
    · refine Loop.foldl_keeps Unreached ht fun t k _ ht set' i htop => ?_
      unfold extend at htop ⊢
      dsimp only at htop ⊢
      split_ifs at htop ⊢ with hin hless
      · exact ht set' i htop
      · simp only [Table.put] at htop ⊢
        split_ifs at htop ⊢ with hnew
        · exact absurd htop (hless.trans_le le_top).ne
        · exact ht set' i htop
      · exact ht set' i htop

/-! ## Walks and what the table says of them -/

/-- How far it is from the start along stops, given the last first. -/
def along (first : ℕ → α) (onto : ℕ → ℕ → α → WithTop α) : List ℕ → WithTop α
  | j :: k :: rest =>
    match along first onto (k :: rest) with
    | ⊤ => ⊤
    | (u : α) => onto k j u
  | [j] => first j
  | [] => ⊤

/-- No walk is better than the table's over the same stops ending at the same one, where walking
on from less comes to no more. -/
theorem table_least (hmono : ∀ j k, Monotone (onto j k)) {j : ℕ} {rest : List ℕ} (hlt : ∀ i ∈ j :: rest, i < m)
    (hnodup : (j :: rest).Nodup) : (table first onto m).best (mask (j :: rest)) j ≤ along first onto (j :: rest) := by
  obtain ⟨-,hwalked,hstart⟩ : Traced first onto m (full m) (table first onto m) ∧
      (∀ set, 1 ≤ set → set ≤ full m → ∀ j < m, ∀ k < m,
        Walked onto set j k (table first onto m)) ∧
      ∀ j < m, (table first onto m).best (1 <<< j) j ≤ first j := sets_step (full m)
  induction rest generalizing j with
  | nil => simpa [mask,along] using hstart j (hlt j (by simp))
  | cons k rest ih =>
    have hlt' : ∀ i ∈ k :: rest, i < m := fun i hi => hlt i (List.mem_cons_of_mem j hi)
    have hbefore := ih hlt' hnodup.of_cons
    rw [along]
    cases hso : along first onto (k :: rest) with
    | top => exact le_top
    | coe u' =>
      rw [hso] at hbefore
      obtain ⟨u,hu,hle⟩ := WithTop.le_coe_iff.mp hbefore
      have hbit : (mask (k :: rest)).testBit j = false := by
        rw [testBit_mask]
        simpa using (List.nodup_cons.mp hnodup).1
      have hpos : 1 ≤ mask (k :: rest) := by
        have hk : (mask (k :: rest)).testBit k = true := by simp [testBit_mask]
        exact Nat.one_le_iff_ne_zero.mpr fun hzero => by simp [hzero] at hk
      have hfull : mask (k :: rest) ≤ full m := by
        have := mask_lt hlt'
        rw [full,Nat.one_shiftLeft]
        omega
      have hstep := hwalked _ hpos hfull k (hlt' k (by simp)) j (hlt j (by simp)) hbit u hu
      exact hstep.trans (hmono k j hle)

omit [LinearOrder α] in
/-- A finite entry is a walk over its stops, which `back` reads. -/
theorem traced_back {s : ℕ} {t : Table α} (ht : Traced first onto m s t) {set j : ℕ} {v : α}
    (hv : t.best set j = v) : ∃ rest, (∀ i ∈ j :: rest, i < m) ∧ (j :: rest).Nodup ∧
      mask (j :: rest) = set ∧ along first onto (j :: rest) = v ∧
      ∀ depth, rest.length < depth → back t depth set j = some (j :: rest) := by
  induction set using Nat.strong_induction_on generalizing j v with
  | _ set ih =>
    obtain ⟨hj,⟨hp,hset,rfl⟩ | ⟨set',p,u,hp,hbit,hset,-,hu,hvu⟩⟩ := ht set j v hv
    · refine ⟨[],by simpa using hj,by simp,by simp [mask,hset],rfl,fun depth hdepth => ?_⟩
      obtain ⟨depth,rfl⟩ := Nat.exists_eq_succ_of_ne_zero (by simp at hdepth; omega : depth ≠ 0)
      simp [back,hp]
    · obtain ⟨rest,hlt,hnodup,hmask,halong,hback⟩ := ih set' (hset ▸ lt_or_bit set' j hbit) hu
      have hfresh : j ∉ p :: rest := by
        rw [← hmask,testBit_mask] at hbit
        simpa using hbit
      refine ⟨p :: rest,?_,List.nodup_cons.mpr ⟨hfresh,hnodup⟩,?_,?_,fun depth hdepth => ?_⟩
      · intro i hi
        rcases List.mem_cons.mp hi with rfl | hi
        · exact hj
        · exact hlt i hi
      · rw [mask,hmask,hset]
      · rw [along,halong]
        exact hvu
      · obtain ⟨depth,rfl⟩ := Nat.exists_eq_succ_of_ne_zero (by omega : depth ≠ 0)
        rw [back,hp]
        simp only
        rw [hset,ldiff_or set' j hbit,hback depth (by simp at hdepth; omega)]
        rfl

end

/-- Stops by their places, told by the set they make. -/
theorem perm_range_of_mask {m : ℕ} {js : List ℕ} (hnodup : js.Nodup) (hmask : mask js = full m) :
    js.Perm (List.range m) := by
  apply (List.perm_ext_iff_of_nodup hnodup List.nodup_range).mpr
  intro i
  have hbit := congrArg (Nat.testBit · i) (hmask.trans (mask_range m).symm)
  simpa [testBit_mask] using hbit

/-! ## The walk over all stops -/

section
variable [LinearOrder α] {first : ℕ → α} {onto : ℕ → ℕ → α → WithTop α} {m : ℕ}

/-- No walk over all stops is better than the table's that ends where it does. -/
theorem table_le (hmono : ∀ j k, Monotone (onto j k)) {j : ℕ} {rest : List ℕ} (hperm : (j :: rest).Perm (List.range m)) :
    (table first onto m).best (full m) j ≤ along first onto (j :: rest) := by
  rw [← mask_range,← mask_perm hperm]
  exact table_least hmono (fun i hi => List.mem_range.mp (hperm.mem_iff.mp hi)) (hperm.nodup_iff.mpr List.nodup_range)

/-- The table's walk over all stops ending at one is read back. -/
theorem table_back {j : ℕ} {v : α} (hv : (table first onto m).best (full m) j = v) : ∃ rest,
    (j :: rest).Perm (List.range m) ∧ along first onto (j :: rest) = v ∧
      ∀ depth, rest.length < depth → back (table first onto m) depth (full m) j = some (j :: rest) := by
  obtain ⟨rest,-,hnodup,hmask,halong,hback⟩ :=
    traced_back (sets_step (full m)).1 hv
  exact ⟨rest,perm_range_of_mask hnodup hmask,halong,hback⟩

/-- Where there is none, the stop alone is read. -/
theorem table_back_none {j : ℕ} (htop : (table first onto m).best (full m) j = ⊤) {depth : ℕ} (hdepth : 0 < depth) :
    back (table first onto m) depth (full m) j = some [j] := by
  obtain ⟨depth,rfl⟩ := Nat.exists_eq_succ_of_ne_zero hdepth.ne'
  rw [back,table_unreached _ _ htop]

/-- The stop the best walk over all of them ends at, the first of those as good, where `home`
says what ending at each comes to. -/
def lastStop (home : ℕ → WithTop α → WithTop α) (m : ℕ) (t : Table α) : ℕ :=
  ((List.range m).argmin fun j => home j (t.best (full m) j)).getD 0

variable {home : ℕ → WithTop α → WithTop α} {t : Table α}

theorem lastStop_spec (hsome : 0 < m) : lastStop home m t < m ∧
    ∀ j < m, home (lastStop home m t) (t.best (full m) (lastStop home m t)) ≤ home j (t.best (full m) j) := by
  obtain ⟨j,hj⟩ : ∃ j, (List.range m).argmin (fun j => home j (t.best (full m) j)) = some j := by
    apply Option.ne_none_iff_exists'.mp
    intro hnone
    have := List.argmin_eq_none.mp hnone
    rw [List.range_eq_nil] at this
    omega
  have hlast : lastStop home m t = j := by rw [lastStop,hj,Option.getD_some]
  rw [hlast]
  refine ⟨List.mem_range.mp (List.argmin_mem (Option.mem_def.mpr hj)),fun i hi => ?_⟩
  exact List.le_of_mem_argmin (List.mem_range.mpr hi) (Option.mem_def.mpr hj)

/-- Where ending at each comes to more than can be told, it is the first. -/
theorem lastStop_none (hsome : 0 < m) (htop : ∀ j < m, home j (t.best (full m) j) = ⊤) : lastStop home m t = 0 := by
  have hfirst : (List.range m).argmin (fun j => home j (t.best (full m) j)) = some 0 := by
    refine List.argmin_eq_some_iff.mpr ⟨List.mem_range.mpr hsome,fun a ha => ?_,fun a ha hle => ?_⟩
    · rw [htop 0 hsome,htop a (List.mem_range.mp ha)]
    · obtain ⟨n,rfl⟩ := Nat.exists_eq_succ_of_ne_zero hsome.ne'
      rw [List.range_succ_eq_map,List.idxOf_cons_self]
      exact Nat.zero_le _
  rw [lastStop,hfirst,Option.getD_some]

end

end HeldKarp
end Spork
