import Spork.Picking.ToPick

/-! Two orders are never both sent for the same units (`to_pick.rs`): over the whole batch
the takes from a bin are what it holds at most, each line is taken from its piles in their
turn, and it is short only when they are all empty.

A bin in an item's list twice, once as the ledger has it and once as it is reported, holds
what its first pile says: the code looks no further. -/
namespace Spork
namespace ToPick

/-- What a bin holds of an item. -/
def held (ps : List Pile) (bin : Id) : ℚ := ((ps.find? fun p => p.locationId = bin).map Pile.qty).getD 0

/-- What is taken from a bin. -/
def takenIn (bin : Id) (ts : List Take) : ℚ := ((ts.filter fun t => t.locationId = bin).map Take.quantity).sum

/-- What some lines take of an item from a bin. -/
def taken (item bin : Id) (ls : List ToPickLine) : ℚ :=
  (ls.map fun l => if l.itemId = some item then takenIn bin l.takes else 0).sum

@[simp] theorem takenIn_nil (bin : Id) : takenIn bin [] = 0 := rfl

@[simp] theorem takenIn_cons (bin : Id) (t : Take) (ts : List Take) :
    takenIn bin (t :: ts) = (if t.locationId = bin then t.quantity else 0)+takenIn bin ts := by
  by_cases h : t.locationId = bin <;> simp [takenIn,h]

@[simp] theorem taken_nil (item bin : Id) : taken item bin [] = 0 := rfl

@[simp] theorem taken_append (item bin : Id) (ls ms : List ToPickLine) :
    taken item bin (ls++ms) = taken item bin ls+taken item bin ms := by
  simp [taken]

@[simp] theorem taken_singleton (item bin : Id) (l : ToPickLine) :
    taken item bin [l] = if l.itemId = some item then takenIn bin l.takes else 0 := by
  simp [taken]

variable {piles : Id → List Pile} {item : Id}

/-- What is left of an item in a bin. -/
def remaining (piles : Id → List Pile) (left : Left) (item bin : Id) : ℚ :=
  (left (item,bin)).getD (held (piles item) bin)

theorem held_nonneg (ps : List Pile) (bin : Id) : 0 ≤ held ps bin := by
  unfold held
  cases hfind : ps.find? fun p => p.locationId = bin with
  | none => exact le_rfl
  | some p => exact p.qty_nonneg

/-- The first pile looked at of a bin says what it holds. -/
theorem held_first {visited ps : List Pile} {p : Pile}
    (hfirst : ∀ q ∈ visited, q.locationId ≠ p.locationId) :
    held (visited++p :: ps) p.locationId = p.qty := by
  have hnone : visited.find? (fun q => q.locationId = p.locationId) = none := by
    rw [List.find?_eq_none]
    simpa using hfirst
  simp [held,List.find?_append,hnone]

/-- Where no bin is listed twice, a bin holds what its pile says. -/
theorem held_of_nodup {ps : List Pile} (hps : (ps.map Pile.locationId).Nodup) {p : Pile} (hp : p ∈ ps) :
    held ps p.locationId = p.qty := by
  obtain ⟨visited,later,rfl⟩ := List.append_of_mem hp
  apply held_first
  rw [List.map_append,List.map_cons,List.nodup_append] at hps
  intro q hq
  exact hps.2.2 q.locationId (List.mem_map_of_mem hq) p.locationId List.mem_cons_self

theorem remaining_update (left : Left) (item bin : Id) (x : ℚ) (item' bin' : Id) :
    remaining piles (Function.update left (item,bin) (some x)) item' bin' =
      if item' = item ∧ bin' = bin then x else remaining piles left item' bin' := by
  unfold remaining
  by_cases h : (item',bin') = (item,bin)
  · obtain ⟨rfl,rfl⟩ := Prod.mk.inj h
    simp
  · have hne : ¬(item' = item ∧ bin' = bin) := by
      rintro ⟨rfl,rfl⟩
      exact h rfl
    rw [Function.update_of_ne h,if_neg hne]

/-! ## One line -/

/-- What looking through an item's piles comes to. -/
structure Taken (piles : Id → List Pile) (item : Id) (need : ℚ) (left : Left) (r : List Take × ℚ × Left) : Prop where
  whole : (r.1.map Take.quantity).sum+r.2.1 = need
  need_nonneg : 0 ≤ r.2.1
  positive : ∀ t ∈ r.1, 0 < t.quantity
  leaves : ∀ item' bin, remaining piles r.2.2 item' bin =
    remaining piles left item' bin-if item' = item then takenIn bin r.1 else 0
  leaves_nonneg : ∀ item' bin, 0 ≤ remaining piles r.2.2 item' bin
  inTurn : ∀ front t back, r.1 = front++t :: back → ∃ earlier q later,
    piles item = earlier++q :: later ∧ t.locationId = q.locationId ∧ t.bin = q.bin ∧ t.onHand = q.qty ∧
      ∀ p ∈ earlier, takenIn p.locationId front = remaining piles left item p.locationId
  short : 0 < r.2.1 → ∀ p ∈ piles item, remaining piles r.2.2 item p.locationId = 0

/-- The piles looked at are empty, if anything is still needed, and the others are taken
from in their turn. -/
theorem takeFrom_taken {visited ps : List Pile} {need : ℚ} {left : Left} (hpiles : piles item = visited++ps)
    (hneed : 0 ≤ need) (hvisited : ∀ p ∈ visited, (left (item,p.locationId)).isSome = true)
    (hempty : 0 < need → ∀ p ∈ visited, remaining piles left item p.locationId = 0)
    (hleft : ∀ item' bin, 0 ≤ remaining piles left item' bin) :
    Taken piles item need left (takeFrom item ps need left) := by
  induction ps generalizing visited need left with
  | nil =>
    rw [List.append_nil] at hpiles
    constructor
    case whole => simp [takeFrom]
    case need_nonneg => exact hneed
    case positive => simp [takeFrom]
    case leaves => simp [takeFrom]
    case leaves_nonneg => exact hleft
    case inTurn => simp [takeFrom]
    case short => exact fun h => hpiles ▸ hempty h
  | cons p ps ih =>
    rw [takeFrom]
    by_cases hdone : need ≤ 0
    · rw [if_pos hdone]
      constructor
      case whole => simp
      case need_nonneg => exact hneed
      case positive => simp
      case leaves => simp
      case leaves_nonneg => exact hleft
      case inTurn => simp
      case short => exact fun h => absurd hdone (not_le.mpr h)
    rw [if_neg hdone]
    rw [not_le] at hdone
    have hhere : (left (item,p.locationId)).getD p.qty = remaining piles left item p.locationId := by
      unfold remaining
      cases hentry : left (item,p.locationId) with
      | some x => rfl
      | none =>
        rw [hpiles,Option.getD_none,Option.getD_none,held_first]
        intro q hq heq
        have hsome := hvisited q hq
        rw [heq,hentry] at hsome
        cases hsome
    simp only [hhere]
    generalize hh : remaining piles left item p.locationId = here
    have hhere_nonneg : 0 ≤ here := hh ▸ hleft item p.locationId
    have hnext : piles item = (visited++[p])++ps := by
      rw [hpiles,List.append_assoc,List.singleton_append]
    have hlooked (x : ℚ) : ∀ q ∈ visited++[p],
        (Function.update left (item,p.locationId) (some x) (item,q.locationId)).isSome = true := by
      intro q hq
      by_cases heq : q.locationId = p.locationId
      · simp [heq]
      · rw [Function.update_of_ne (by simpa using heq)]
        rcases List.mem_append.mp hq with hold | hnew
        · exact hvisited q hold
        · exact absurd (congrArg Pile.locationId (List.mem_singleton.mp hnew)) heq
    have hstill (x : ℚ) (hx : x = 0) : ∀ q ∈ visited++[p],
        remaining piles (Function.update left (item,p.locationId) (some x)) item q.locationId = 0 := by
      intro q hq
      rw [remaining_update]
      split_ifs with heq
      · exact hx
      · rcases List.mem_append.mp hq with hold | hnew
        · exact hempty hdone q hold
        · exact absurd ⟨rfl,congrArg Pile.locationId (List.mem_singleton.mp hnew)⟩ heq
    by_cases htake : min need here > 0
    · rw [if_pos htake]
      have hleft' : ∀ item' bin, 0 ≤ remaining piles
          (Function.update left (item,p.locationId) (some (here-min need here))) item' bin := by
        intro item' bin
        rw [remaining_update]
        split_ifs
        · linarith [min_le_right need here]
        · exact hleft item' bin
      have hless : 0 ≤ need-min need here := by
        linarith [min_le_left need here]
      have hmin : 0 < need-min need here → here-min need here = 0 := by
        intro hmore
        rcases min_choice need here with hn | hn
        · rw [hn] at hmore
          linarith
        · rw [hn]
          exact sub_self here
      have hrest := ih hnext hless (hlooked _) (fun hmore => hstill _ (hmin hmore)) hleft'
      constructor
      case whole =>
        have hwhole := hrest.whole
        rw [List.map_cons,List.sum_cons]
        linarith
      case need_nonneg => exact hrest.need_nonneg
      case positive =>
        intro t ht
        rcases List.mem_cons.mp ht with rfl | hin
        · exact htake
        · exact hrest.positive t hin
      case leaves =>
        intro item' bin
        rw [hrest.leaves,remaining_update,takenIn_cons]
        by_cases hitem : item' = item
        · subst hitem
          by_cases hbin : bin = p.locationId
          · subst hbin
            simp only [and_self,if_true,hh]
            ring
          · simp [hbin,Ne.symm hbin]
        · simp [hitem]
      case leaves_nonneg => exact hrest.leaves_nonneg
      case inTurn =>
        intro front t back hsplit
        cases front with
        | nil =>
          obtain ⟨rfl,-⟩ := List.cons.inj hsplit
          exact ⟨visited,p,ps,hpiles,rfl,rfl,rfl,fun q hq => (hempty hdone q hq).symm⟩
        | cons t' front =>
          obtain ⟨rfl,htail⟩ := List.cons.inj hsplit
          obtain ⟨earlier,q,later,hq,hloc,hbin,hqty,hearlier⟩ := hrest.inTurn front t back htail
          refine ⟨earlier,q,later,hq,hloc,hbin,hqty,?_⟩
          intro p' hp'
          rw [takenIn_cons,hearlier p' hp',remaining_update]
          by_cases heq : p'.locationId = p.locationId
          · simp only [heq,and_self,if_true,hh]
            ring
          · simp [heq,Ne.symm heq]
      case short => exact hrest.short
    · rw [if_neg htake]
      have hnone : here = 0 := by
        apply le_antisymm _ hhere_nonneg
        by_contra hsome
        exact htake (lt_min hdone (not_le.mp hsome))
      have hsame : ∀ item' bin, remaining piles
          (Function.update left (item,p.locationId) (some here)) item' bin = remaining piles left item' bin := by
        intro item' bin
        rw [remaining_update]
        split_ifs with heq
        · rw [heq.1,heq.2,hh]
        · rfl
      have hrest := ih hnext hneed (hlooked here) (fun _ => hstill here hnone) (by simpa [hsame] using hleft)
      constructor
      case whole => exact hrest.whole
      case need_nonneg => exact hrest.need_nonneg
      case positive => exact hrest.positive
      case leaves =>
        intro item' bin
        rw [hrest.leaves,hsame]
      case leaves_nonneg => exact hrest.leaves_nonneg
      case inTurn => simpa only [hsame] using hrest.inTurn
      case short => exact hrest.short

/-! ## The batch -/

/-- What is left of each bin is what it holds less what is taken. -/
structure Keeps (piles : Id → List Pile) (left : Left) (ls : List ToPickLine) : Prop where
  remaining : ∀ item bin, remaining piles left item bin = held (piles item) bin-taken item bin ls
  nonneg : ∀ item bin, 0 ≤ ToPick.remaining piles left item bin

/-- A bin is empty of an item once some lines, and then some takes, are made. -/
def Emptied (piles : Id → List Pile) (item bin : Id) (ls : List ToPickLine) (ts : List Take) : Prop :=
  taken item bin ls+takenIn bin ts = held (piles item) bin

/-- A line as it is shown, after the lines before it. -/
structure LineSound (piles : Id → List Pile) (before : List ToPickLine) (l : ToPickLine) : Prop where
  /-- All that is left to pick is taken or short, of a line not skipped as a kit. -/
  whole : l.kit = false → (l.takes.map Take.quantity).sum+l.short = l.toPick
  skipped : l.kit = true → l.takes = [] ∧ l.short = 0
  positive : ∀ t ∈ l.takes, 0 < t.quantity
  /-- A take is from a pile of its item, all its earlier piles empty by then. -/
  inTurn : ∀ front t back, l.takes = front++t :: back → ∃ item ∈ l.itemId, ∃ earlier q later,
    piles item = earlier++q :: later ∧ t.locationId = q.locationId ∧ t.bin = q.bin ∧ t.onHand = q.qty ∧
      ∀ p ∈ earlier, Emptied piles item p.locationId before front
  /-- It is short only when every pile of its item is empty, by it and those before it. -/
  short : 0 < l.short → ∀ item ∈ l.itemId, ∀ p ∈ piles item, Emptied piles item p.locationId before l.takes

theorem shareLine_sound {l : Reported} {role : Role} {parts : Bool} {left : Left} {before : List ToPickLine}
    (hkeeps : Keeps piles left before) : LineSound piles before (shareLine piles l role parts left).1 ∧
      Keeps piles (shareLine piles l role parts left).2 (before++[(shareLine piles l role parts left).1]) := by
  generalize hkit : (decide (role = .kit) && parts) = kit
  generalize hneed : (if kit then 0 else l.toPick) = need
  have hneed_nonneg : 0 ≤ need := by
    rw [← hneed]
    split_ifs
    · exact le_rfl
    · exact l.toPick_nonneg
  cases hitem : l.itemId with
  | none =>
    have hshown : shareLine piles l role parts left = (⟨l.lineKey,none,l.toPick,kit,
        role.kitItem,[],max need 0⟩,left) := by
      simp only [shareLine,hkit,hneed,hitem]
    rw [hshown,max_eq_left hneed_nonneg]
    constructor
    · constructor
      case whole =>
        intro hnot
        change kit = false at hnot
        rw [hnot] at hneed
        simpa using hneed.symm
      case skipped =>
        intro hyes
        change kit = true at hyes
        rw [hyes] at hneed
        exact ⟨rfl,hneed.symm⟩
      case positive => simp
      case inTurn => simp
      case short => simp
    · exact ⟨by simpa using hkeeps.remaining,hkeeps.nonneg⟩
  | some item =>
    have htaken : Taken piles item need left (takeFrom item (piles item) need left) :=
      takeFrom_taken (List.nil_append _).symm hneed_nonneg (by simp) (by simp) hkeeps.nonneg
    generalize hr : takeFrom item (piles item) need left = r at htaken
    have hshown : shareLine piles l role parts left = (⟨l.lineKey,some item,l.toPick,kit,
        role.kitItem,r.1,max r.2.1 0⟩,r.2.2) := by
      simp only [shareLine,hkit,hneed,hitem,hr]
    rw [hshown,max_eq_left htaken.need_nonneg]
    have hleft := hkeeps.remaining item
    constructor
    · constructor
      case whole =>
        intro hnot
        change kit = false at hnot
        rw [hnot] at hneed
        exact htaken.whole.trans hneed.symm
      case skipped =>
        intro hyes
        change kit = true at hyes
        rw [hyes] at hneed
        have hzero : need = 0 := hneed.symm
        have hstop : takeFrom item (piles item) need left = ([],need,left) := by
          rw [hzero]
          cases piles item <;> simp [takeFrom]
        rw [← hr,hstop]
        exact ⟨rfl,hzero⟩
      case positive => exact htaken.positive
      case inTurn =>
        intro front t back hsplit
        obtain ⟨earlier,q,later,hq,hloc,hbin,hqty,hearlier⟩ := htaken.inTurn front t back hsplit
        refine ⟨item,rfl,earlier,q,later,hq,hloc,hbin,hqty,?_⟩
        intro p hp
        rw [Emptied,hearlier p hp,hleft]
        ring
      case short =>
        intro hshort item' hitem' p hp
        cases hitem'
        have hempty := htaken.short hshort p hp
        rw [htaken.leaves,if_pos rfl,hleft] at hempty
        rw [Emptied]
        linarith
    · constructor
      case remaining =>
        intro item' bin
        rw [htaken.leaves,hkeeps.remaining,taken_append,taken_singleton]
        by_cases heq : item' = item
        · subst heq
          simp only [if_true]
          ring
        · simp [heq,Ne.symm heq]
      case nonneg => exact htaken.leaves_nonneg

theorem shareLines_sound {ls : List (Reported × Role × Bool)} {left : Left} {done : List ToPickLine}
    (hkeeps : Keeps piles left done) :
    Keeps piles (shareLines piles ls left).2 (done++(shareLines piles ls left).1) ∧
      ∀ before l after, (shareLines piles ls left).1 = before++l :: after → LineSound piles (done++before) l := by
  induction ls generalizing left done with
  | nil => exact ⟨by simpa [shareLines] using hkeeps,by simp [shareLines]⟩
  | cons x ls ih =>
    obtain ⟨l,role,parts⟩ := x
    obtain ⟨hline,hnext⟩ := @shareLine_sound piles l role parts left done hkeeps
    obtain ⟨hend,hall⟩ := ih hnext
    rw [shareLines]
    refine ⟨by simpa using hend,?_⟩
    intro before m after hsplit
    cases before with
    | nil =>
      obtain ⟨rfl,-⟩ := List.cons.inj hsplit
      simpa using hline
    | cons b before =>
      obtain ⟨rfl,htail⟩ := List.cons.inj hsplit
      simpa using hall before m after htail

theorem shareLines_append (xs ys : List (Reported × Role × Bool)) (left : Left) :
    shareLines piles (xs++ys) left = ((shareLines piles xs left).1++(shareLines piles ys (shareLines piles xs left).2).1,
      (shareLines piles ys (shareLines piles xs left).2).2) := by
  induction xs generalizing left with
  | nil => rfl
  | cons x xs ih => simp only [List.cons_append,shareLines,ih]

/-- The orders one after another are their lines one after another. -/
theorem shareBatch_flatten (roles : List Sent → List Role) (batch : List (List Reported)) (left : Left) :
    (shareBatch roles piles batch left).1.flatten = (shareLines piles (batch.flatMap (withRoles roles)) left).1 := by
  induction batch generalizing left with
  | nil => rfl
  | cons lines batch ih =>
    rw [List.flatMap_cons,shareLines_append,shareBatch,List.flatten_cons,ih]

/-- No batch of orders, whatever part its lines play, takes more of an item from a bin than
it holds, and each line is picked from its piles in their turn, short only when all are empty. -/
theorem never_sent_twice (roles : List Sent → List Role) (piles : Id → List Pile) (batch : List (List Reported)) :
    (∀ item bin, taken item bin (read roles piles batch).flatten ≤ held (piles item) bin) ∧
      ∀ before l after, (read roles piles batch).flatten = before++l :: after → LineSound piles before l := by
  have hstart : Keeps piles (fun _ => none) [] := by
    constructor
    · intro item bin
      simp [remaining]
    · intro item bin
      exact held_nonneg _ _
  obtain ⟨hkeeps,hlines⟩ := @shareLines_sound piles (batch.flatMap (withRoles roles)) _ _ hstart
  rw [List.nil_append] at hkeeps
  rw [read,shareBatch_flatten]
  refine ⟨?_,by simpa using hlines⟩
  intro item bin
  have hnonneg := hkeeps.nonneg item bin
  rw [hkeeps.remaining] at hnonneg
  linarith

/-- Two of a bin as the ledger has it, and five as it is reported. -/
def countedTwice : List Pile := [⟨7,"A-1".toList,true,2,by decide⟩,⟨7,"A-1".toList,true,5,by decide⟩]

/-- A line for four of them. -/
def forFour : Reported := ⟨"1".toList,none,some 3,"X".toList,none,none,4,by decide⟩

/-- A line is short with a pile of its item not emptied, where its bin is listed twice. -/
theorem short_with_a_pile_left :
    ¬∀ (roles : List Sent → List Role) (piles : Id → List Pile) (batch : List (List Reported)) before l after,
      (read roles piles batch).flatten = before++l :: after → 0 < l.short → ∀ item ∈ l.itemId,
        ∀ p ∈ piles item, p.qty ≤ taken item p.locationId (before++[l]) := by
  intro hall
  have hread : (read roles (fun _ => countedTwice) [[forFour]]).flatten =
      []++⟨"1".toList,some 3,4,false,none,[⟨7,"A-1".toList,2,2,true⟩],2⟩ :: [] := by
    decide +kernel
  have hemptied := hall roles _ _ _ _ _ hread (by decide) 3 rfl ⟨7,"A-1".toList,true,5,by decide⟩ (by simp [countedTwice])
  exact absurd hemptied (by decide +kernel)

end ToPick
end Spork
