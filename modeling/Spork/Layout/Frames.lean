import Spork.Lib.Descent

/-! Where each place is on the site (`layout.rs`): its own box composed with every
parent's, worked out for the whole map of places at once.

A number is any type with the operations the code uses, of which nothing is assumed: a
double is one. What is reached from several starts is worked out once and kept. -/
namespace Spork
namespace Layout

/-- What turning needs of a number of degrees: its sine and cosine, and the same angle
from 0 to 360. -/
structure Turning (N : Type*) where
  sinCos : N → N × N
  around : N → N

/-- Where a place's corner is on the site, and which way it faces. -/
structure Frame (N : Type*) where
  x : N
  y : N
  z : N
  turn : N
  deriving DecidableEq

/-- A place's parent, and its box in its parent's cells. -/
structure Place (K N : Type*) where
  parent : Option K
  x : N
  y : N
  z : N
  turn : N

/-- The map of places, its keys in the order it is walked. -/
structure Places (K N : Type*) where
  keys : List K
  get : K → Option (Place K N)
  nodup : keys.Nodup
  mem_keys : ∀ k, k ∈ keys ↔ (get k).isSome = true

variable {K N : Type*} [Zero N]

def Frame.site : Frame N := ⟨0,0,0,0⟩

section
variable [Add N] [Sub N] [Mul N]

/-- A point in a frame's cells, on the site. -/
def Frame.point (t : Turning N) (f : Frame N) (u v : N) : N × N :=
  let (s,c) := t.sinCos f.turn
  (f.x+u*c-v*s,f.y+u*s+v*c)

/-- A child's frame on the site, from its parent's and its own box. -/
def compose (t : Turning N) (parent : Frame N) (p : Place K N) : Frame N :=
  let (wx,wy) := parent.point t p.x p.y
  ⟨wx,wy,parent.z+p.z,t.around (parent.turn+p.turn)⟩

end

namespace Places
variable (m : Places K N)

def parentOf (k : K) : Option K := (m.get k).bind (·.parent)

/-- Every place's parent is a place too. -/
def Closed : Prop := ∀ k ∈ m.keys, ∀ q ∈ m.parentOf k, q ∈ m.keys

/-- What was climbed, the last first, hangs from where the climb ended. -/
def Hangs : Option K → List K → Prop
  | _, [] => True
  | o, k :: chain => k ∈ m.keys ∧ m.parentOf k = o ∧ Hangs (some k) chain

section
variable [Add N] [Sub N] [Mul N] (t : Turning N)

/-- The boxes of a line of places, composed from the site down. -/
def composed (ks : List K) : Frame N := (ks.filterMap m.get).foldl (compose t) Frame.site

variable {m} {t}

theorem composed_concat {k : K} {p : Place K N} (ks : List K) (hk : m.get k = some p) :
    m.composed t (ks++[k]) = compose t (m.composed t ks) p := by
  simp [composed,hk]

end

variable [DecidableEq K]

/-- The climb from a place towards the site, at most so many places looked at: what it
climbed, the last first, and the frame it ended under. None of the two when it looped. -/
def climb (out : K → Option (Frame N)) :
    ℕ → List K → Finset K → Option K → Option (Option (List K × Frame N))
  | _, chain, _, none => some (some (chain,Frame.site))
  | 0, _, _, some _ => none
  | n+1, chain, seen, some k =>
    match out k with
    | some f => some (some (chain,f))
    | none =>
      if k ∈ seen then some none else climb out n (k :: chain) (insert k seen) (m.parentOf k)

variable {m}

omit [Zero N] in
/-- One more seen leaves fewer unseen. -/
theorem card_unseen_lt {all seen : Finset K} {k : K} (hk : k ∈ all) (hseen : k ∉ seen) :
    (all \ insert k seen).card < (all \ seen).card := by
  apply Finset.card_lt_card
  rw [Finset.ssubset_iff_of_subset (Finset.sdiff_subset_sdiff le_rfl (Finset.subset_insert k seen))]
  exact ⟨k,by simp [hk,hseen],by simp⟩

/-- A climb ends: each place it looks at is one it has not seen. -/
theorem climb_total (out : K → Option (Frame N)) (hclosed : m.Closed) {n : ℕ} {chain : List K}
    {seen : Finset K} {o : Option K} (ho : ∀ k ∈ o, k ∈ m.keys)
    (hn : (m.keys.toFinset \ seen).card < n) : m.climb out n chain seen o ≠ none := by
  induction n generalizing chain seen o with
  | zero => cases hn
  | succ n ih =>
    cases o with
    | none => simp [climb]
    | some k =>
      rw [climb]
      cases hk : out k with
      | some f => simp
      | none =>
        simp only
        split_ifs with hseen
        · simp
        · have hin := ho k rfl
          apply ih (hclosed k hin)
          have hless := card_unseen_lt (List.mem_toFinset.mpr hin) hseen
          omega

/-- A climb from a place whose parents end does not loop. -/
theorem climb_of_line (out : K → Option (Frame N)) {n : ℕ} {chain : List K} {seen : Finset K}
    {o : Option K} {ks : List K} (hline : Forest.Line m.parentOf o ks) (hseen : ∀ k ∈ ks, k ∉ seen) :
    m.climb out n chain seen o ≠ some none := by
  induction n generalizing chain seen o ks with
  | zero => cases o <;> simp [climb]
  | succ n ih =>
    cases hline with
    | top => simp [climb]
    | @under k xs hxs =>
      rw [climb]
      cases hk : out k with
      | some f => simp
      | none =>
        simp only
        rw [if_neg (hseen k (by simp))]
        apply ih hxs
        intro j hj
        rw [Finset.mem_insert,not_or]
        constructor
        · rintro rfl
          exact hxs.not_above hj
        · exact hseen j (List.mem_append_left [k] hj)

variable [Add N] [Sub N] [Mul N] (t : Turning N) (m)

/-- The frames of what was climbed, from the last down. A place that is not in the map
would stop the program. -/
def settle : List K → Frame N → (K → Option (Frame N)) → Option (K → Option (Frame N))
  | [], _, out => some out
  | k :: chain, base, out => do
    let p ← m.get k
    let f := compose t base p
    settle chain f (Function.update out k (some f))

/-- One start of the walk. -/
def frameFrom (out : K → Option (Frame N)) (start : K) : Option (K → Option (Frame N)) := do
  match ← m.climb out (m.keys.length+1) [] ∅ (some start) with
  | none => some out
  | some (chain,base) => m.settle t chain base out

/-- Frames for every place, walking from the site down. A place whose chain of parents
loops gets no frame rather than an endless walk. -/
def frames : Option (K → Option (Frame N)) := m.keys.foldlM (m.frameFrom t) fun _ => none

/-- Every frame given is that of its place's line from the site down. -/
def Framed (out : K → Option (Frame N)) : Prop :=
  ∀ k f, out k = some f → k ∈ m.keys ∧ ∃ ks, Forest.Line m.parentOf (some k) ks ∧ f = m.composed t ks

variable {m} {t}

/-- A climb that does not loop ends under what its chain hangs from, and has what it
started at framed or in its chain. -/
theorem climb_ends {out : K → Option (Frame N)} (hclosed : m.Closed) (hout : m.Framed t out) {n : ℕ}
    {chain : List K} {seen : Finset K} {o : Option K} {chain' : List K} {base : Frame N}
    (hclimb : m.climb out n chain seen o = some (some (chain',base))) (hhangs : m.Hangs o chain)
    (ho : ∀ k ∈ o, k ∈ m.keys) :
    (∃ o' ks, Forest.Line m.parentOf o' ks ∧ base = m.composed t ks ∧ m.Hangs o' chain') ∧
      (∀ k ∈ chain, k ∈ chain') ∧ ∀ k ∈ o, k ∈ chain' ∨ (out k).isSome = true := by
  induction n generalizing chain seen o with
  | zero =>
    cases o with
    | none =>
      cases hclimb
      exact ⟨⟨none,[],.top,rfl,hhangs⟩,fun _ hk => hk,fun _ hk => nomatch hk⟩
    | some k => cases hclimb
  | succ n ih =>
    cases o with
    | none =>
      cases hclimb
      exact ⟨⟨none,[],.top,rfl,hhangs⟩,fun _ hk => hk,fun _ hk => nomatch hk⟩
    | some k =>
      rw [climb] at hclimb
      cases hk : out k with
      | some f =>
        simp only [hk,Option.some.injEq,Prod.mk.injEq] at hclimb
        obtain ⟨rfl,rfl⟩ := hclimb
        obtain ⟨-,ks,hks,hf⟩ := hout k f hk
        refine ⟨⟨some k,ks,hks,hf,hhangs⟩,fun _ hj => hj,?_⟩
        intro j hj
        right
        rw [← Option.mem_some_iff.mp hj,hk]
        rfl
      | none =>
        simp only [hk] at hclimb
        by_cases hseen : k ∈ seen
        · rw [if_pos hseen] at hclimb
          cases hclimb
        rw [if_neg hseen] at hclimb
        have hin := ho k rfl
        obtain ⟨hends,hkept,-⟩ := ih hclimb ⟨hin,rfl,hhangs⟩ (hclosed k hin)
        refine ⟨hends,fun j hj => hkept j (List.mem_cons_of_mem k hj),?_⟩
        intro j hj
        rw [← Option.mem_some_iff.mp hj]
        exact .inl (hkept k List.mem_cons_self)

/-- What one start, or several, makes of the frames: those given stay given, and all are right. -/
structure Gains (m : Places K N) (t : Turning N) (out out' : K → Option (Frame N)) : Prop where
  framed : m.Framed t out'
  kept : ∀ k, (out k).isSome = true → (out' k).isSome = true

/-- What hangs from a line is framed by it, down to the last. -/
theorem settle_gains {o : Option K} {ks chain : List K} {base : Frame N} {out : K → Option (Frame N)}
    (hline : Forest.Line m.parentOf o ks) (hbase : base = m.composed t ks) (hhangs : m.Hangs o chain)
    (hout : m.Framed t out) : ∃ out', m.settle t chain base out = some out' ∧
      m.Gains t out out' ∧ ∀ k ∈ chain, (out' k).isSome = true := by
  induction chain generalizing o ks base out with
  | nil => exact ⟨out,rfl,⟨hout,fun _ hk => hk⟩,fun _ hk => nomatch hk⟩
  | cons k chain ih =>
    obtain ⟨hk,hparent,hrest⟩ := hhangs
    obtain ⟨p,hp⟩ := Option.isSome_iff_exists.mp ((m.mem_keys k).mp hk)
    have hunder : Forest.Line m.parentOf (some k) (ks++[k]) := (hparent.symm ▸ hline).under
    have hf : compose t base p = m.composed t (ks++[k]) := by
      rw [composed_concat ks hp,hbase]
    have hnext : m.Framed t (Function.update out k (some (compose t base p))) := by
      intro j f hj
      by_cases hjk : j = k
      · subst hjk
        rw [Function.update_self,Option.some.injEq] at hj
        exact ⟨hk,ks++[j],hunder,hj ▸ hf⟩
      · rw [Function.update_of_ne hjk] at hj
        exact hout j f hj
    obtain ⟨out',hsettle,hgains,hall⟩ := ih hunder hf hrest hnext
    refine ⟨out',?_,⟨hgains.framed,?_⟩,?_⟩
    · rw [settle,hp]
      exact hsettle
    · intro j hj
      apply hgains.kept
      by_cases hjk : j = k
      · simp [hjk]
      · rwa [Function.update_of_ne hjk]
    · intro j hj
      rcases List.mem_cons.mp hj with rfl | hin
      · exact hgains.kept j (by simp)
      · exact hall j hin

theorem frameFrom_gains {out : K → Option (Frame N)} (hclosed : m.Closed) (hout : m.Framed t out)
    {start : K} (hstart : start ∈ m.keys) : ∃ out', m.frameFrom t out start = some out' ∧
      m.Gains t out out' ∧
      ((∃ ks, Forest.Line m.parentOf (some start) ks) → (out' start).isSome = true) := by
  have hin : ∀ k ∈ some start, k ∈ m.keys := by
    intro k hk
    exact Option.mem_some_iff.mp hk ▸ hstart
  have hfuel : (m.keys.toFinset \ ∅).card < m.keys.length+1 := by
    rw [Finset.sdiff_empty]
    exact Nat.lt_succ_of_le m.keys.toFinset_card_le
  cases hclimb : m.climb out (m.keys.length+1) [] ∅ (some start) with
  | none => exact absurd hclimb (climb_total out hclosed hin hfuel)
  | some r =>
    cases r with
    | none =>
      refine ⟨out,by simp [frameFrom,hclimb],⟨hout,fun _ hk => hk⟩,?_⟩
      rintro ⟨ks,hks⟩
      exact absurd hclimb (climb_of_line out hks (by simp))
    | some r =>
      obtain ⟨chain,base⟩ := r
      obtain ⟨⟨o,ks,hline,hbase,hhangs⟩,-,hends⟩ := climb_ends hclosed hout hclimb trivial hin
      obtain ⟨out',hsettle,hgains,hall⟩ := settle_gains hline hbase hhangs hout
      refine ⟨out',by simpa [frameFrom,hclimb] using hsettle,hgains,fun _ => ?_⟩
      rcases hends start rfl with hchain | hbefore
      · exact hall start hchain
      · exact hgains.kept start hbefore

theorem frameAll_gains {out : K → Option (Frame N)} (hclosed : m.Closed) (hout : m.Framed t out)
    {starts : List K} (hstarts : ∀ k ∈ starts, k ∈ m.keys) :
    ∃ out', starts.foldlM (m.frameFrom t) out = some out' ∧ m.Gains t out out' ∧
      ∀ k ∈ starts, (∃ ks, Forest.Line m.parentOf (some k) ks) → (out' k).isSome = true := by
  induction starts generalizing out with
  | nil => exact ⟨out,rfl,⟨hout,fun _ hk => hk⟩,fun _ hk => nomatch hk⟩
  | cons start starts ih =>
    obtain ⟨mid,hmid,hgains,hone⟩ := frameFrom_gains hclosed hout (hstarts start List.mem_cons_self)
    obtain ⟨out',hrest,hgains',hall⟩ := ih hgains.framed fun k hk => hstarts k (List.mem_cons_of_mem _ hk)
    refine ⟨out',?_,⟨hgains'.framed,fun k hk => hgains'.kept k (hgains.kept k hk)⟩,?_⟩
    · rw [List.foldlM_cons,hmid]
      exact hrest
    · intro k hk hline
      rcases List.mem_cons.mp hk with rfl | hin
      · exact hgains'.kept k (hone hline)
      · exact hall k hin hline

/-- The frames, all right, and one for each place whose chain of parents ends. -/
theorem frames_gains (t : Turning N) (m : Places K N) (hclosed : m.Closed) :
    ∃ out, m.frames t = some out ∧ m.Framed t out ∧
      ∀ k ∈ m.keys, (∃ ks, Forest.Line m.parentOf (some k) ks) → (out k).isSome = true := by
  have hnone : m.Framed t fun _ => none := by
    intro k f hk
    cases hk
  obtain ⟨out,hout,hgains,hall⟩ := frameAll_gains hclosed hnone fun _ hk => hk
  exact ⟨out,hout,hgains.framed,hall⟩

/-- Whatever order the map is walked in, a frame is given to exactly the places whose chain
of parents ends, and it is its ancestors' boxes composed from the site down, then its own. -/
theorem frames_composed (t : Turning N) (m : Places K N) (hclosed : m.Closed) :
    ∃ out, m.frames t = some out ∧
      (∀ k, (out k).isSome = true ↔ k ∈ m.keys ∧ ∃ n, Forest.up m.parentOf n k = none) ∧
      ∀ k ∈ m.keys, ∀ ks, Forest.Line m.parentOf (some k) ks → out k = some (m.composed t ks) := by
  obtain ⟨out,hout,hframed,hall⟩ := frames_gains t m hclosed
  refine ⟨out,hout,?_,?_⟩
  · intro k
    rw [← Forest.exists_line_iff]
    constructor
    · intro hk
      obtain ⟨f,hf⟩ := Option.isSome_iff_exists.mp hk
      obtain ⟨hin,ks,hks,-⟩ := hframed k f hf
      exact ⟨hin,ks,hks⟩
    · rintro ⟨hin,hline⟩
      exact hall k hin hline
  · intro k hin ks hks
    obtain ⟨f,hf⟩ := Option.isSome_iff_exists.mp (hall k hin ⟨ks,hks⟩)
    obtain ⟨-,ks',hks',rfl⟩ := hframed k f hf
    rw [hf,hks.unique hks']

/-- A line of three places, and two that are each other's parent. -/
def fivePlaces : Places (Fin 10) ℤ where
  keys := [3,8,2,9,1]
  get k :=
    match k with
    | 1 => some ⟨none,10,0,0,0⟩
    | 2 => some ⟨some 1,5,5,0,0⟩
    | 3 => some ⟨some 2,1,0,0,0⟩
    | 8 => some ⟨some 9,0,0,0,0⟩
    | 9 => some ⟨some 8,0,0,0,0⟩
    | _ => none
  nodup := by decide
  mem_keys := by decide

/-- Turning by nothing, which is all those places do. -/
def unturned : Turning ℤ := ⟨fun _ => (0,1),(·%360)⟩

theorem frames_composed_five :
    ∃ out, fivePlaces.frames unturned = some out ∧
      (∀ k, (out k).isSome = true ↔
        k ∈ fivePlaces.keys ∧ ∃ n, Forest.up fivePlaces.parentOf n k = none) ∧
      ∀ k ∈ fivePlaces.keys, ∀ ks, Forest.Line fivePlaces.parentOf (some k) ks →
        out k = some (fivePlaces.composed unturned ks) :=
  frames_composed unturned fivePlaces (by unfold Places.Closed; decide)

end Places
end Layout
end Spork
