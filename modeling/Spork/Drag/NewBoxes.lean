import Spork.Drag.DropOn

/-! Which drops plan a box they put nothing in. A box is planned for the first goods that
go to it before it is known whether any of them fit; the goods after them go to the same
one while they choose the same preset. So the box is left empty just when nothing of that
stretch goes in it empty. -/
namespace Spork
namespace Drag

open Packing (Uuid Level BenchLine StatedSize Preset Box BoxPlan AsIs Freight Goods Objective fitInto arrange)

/-- A key's goods. -/
def goodsKey (k : Uuid × Option Id) : Thing := .goods k.1 k.2

/-- Goods and the new box they go to. -/
abbrev Boxed := Asked × Box

/-- One more, with those before it that chose the same preset, or by itself: the newest
stretch first, and in it the newest goods. -/
def intoRuns : List (List Boxed) → Boxed → List (List Boxed)
  | (y :: run) :: runs, x => if y.2.id = x.2.id then (x :: y :: run) :: runs else [x] :: (y :: run) :: runs
  | runs, x => [x] :: runs

/-- Some of the goods go in their box with nothing in it. -/
def goesInEmpty (x : Boxed) : Bool := decide ((fitInto x.2 [] (some ⟨x.1.line.toBenchLine,x.1.want⟩)).fits ≠ 0)

section
variable (screen : BenchScreen) (board : Board) (objective : Objective) (target : Target) (how : HowMany) (newId : ℕ → Id)

/-- The goods the keys name. -/
def askedFor (keys : List (Uuid × Option Id)) : List Asked := keys.filterMap fun k => asked screen board how k.1 k.2

/-- The goods a new box is chosen for. -/
def boxedFor (named : Option Uuid) (asks : List Asked) : List Boxed :=
  asks.filterMap fun a => (chosenBox screen objective named a).map fun box => (a,box)

/-- The packer is to choose a box for goods. -/
def toChoose (named : Option Uuid) (a : Asked) : Bool :=
  (chosenBox screen objective named a).isNone && unmeasured a.line.toBenchLine

/-- Dropped where a new box is planned, some goods of every stretch with one preset go in an
empty box of it, or the drop is refused for the packer to choose. -/
def NewBoxesFilled (keys : List (Uuid × Option Id)) : Prop :=
  match target with
  | .newBox named =>
    (∃ a ∈ askedFor screen board how keys, toChoose screen objective named a = true) ∨
      ∀ run ∈ (boxedFor screen objective named (askedFor screen board how keys)).foldl intoRuns [],
        ∃ x ∈ run, goesInEmpty x = true
  | _ => True

instance (keys : List (Uuid × Option Id)) : Decidable (NewBoxesFilled screen board objective target how keys) := by
  unfold NewBoxesFilled
  cases target <;> infer_instance

/-- Every planned box that was not in the plan before holds some of a line. -/
def PlansNoEmpty (r : Except Refused Outcome) : Prop :=
  ∀ o, r = .ok o → ∀ plan, o.plan = some plan → ∀ pp ∈ plan, pp.id ∉ (planOf board).map PlannedParcel.id →
    ∃ l ∈ pp.lines, 0 < l.quantity

/-- Goods into a new box. -/
def intoNew (d : Dropping) (x : Boxed) : Dropping :=
  let started := startBox newId x.2 d
  putIn x.1 none started.1.id x.2 started.2

/-! ## Key after key -/

theorem dropKey_newBox (named : Option Uuid) (d : Dropping) (k : Uuid × Option Id) :
    dropKey screen board objective (.newBox named) how newId d (goodsKey k) =
      match asked screen board how k.1 k.2 with
      | none => .ok d
      | some a =>
        if toChoose screen objective named a then .error ⟨true⟩
        else .ok ((boxedFor screen objective named [a]).foldl (intoNew newId) d) := by
  simp only [dropKey,goodsKey]
  cases asked screen board how k.1 k.2 with
  | none => rfl
  | some a =>
    obtain hbox | ⟨box,hbox⟩ := Option.eq_none_or_eq_some (chosenBox screen objective named a)
    · simp [dropGoods,toChoose,boxedFor,hbox]
    · simp [dropGoods,toChoose,boxedFor,hbox,intoNew]

/-- Goods dropped where a new box is planned: refused for the packer to choose, or into new
boxes one after another. -/
theorem drops_newBox (named : Option Uuid) (keys : List (Uuid × Option Id)) (d : Dropping) :
    (keys.map goodsKey).foldlM (dropKey screen board objective (.newBox named) how newId) d =
      if (askedFor screen board how keys).any (toChoose screen objective named) then .error ⟨true⟩
      else .ok ((boxedFor screen objective named (askedFor screen board how keys)).foldl (intoNew newId) d) := by
  induction keys generalizing d with
  | nil => rfl
  | cons k keys ih =>
    rw [List.map_cons,List.foldlM_cons,dropKey_newBox]
    cases ha : asked screen board how k.1 k.2 with
    | none =>
      have hsame : askedFor screen board how (k :: keys) = askedFor screen board how keys := by
        simp [askedFor,ha]
      rw [hsame]
      exact ih d
    | some a =>
      have hmore : askedFor screen board how (k :: keys) = a :: askedFor screen board how keys := by
        simp [askedFor,ha]
      rw [hmore,List.any_cons]
      cases htc : toChoose screen objective named a with
      | true =>
        simp only [htc,if_true,Bool.true_or]
        rfl
      | false =>
        simp only [htc,Bool.false_eq_true,if_false]
        have hboxed : boxedFor screen objective named (a :: askedFor screen board how keys) =
            boxedFor screen objective named [a]++boxedFor screen objective named (askedFor screen board how keys) :=
          List.filterMap_append (l := [a])
        rw [hboxed,List.foldl_append,Bool.false_or]
        exact ih _

/-! ## What the boxes opened hold -/

/-- A box opened holds something just when some goods of its stretch go in it empty. -/
def Matches (inside : Id → List BoardGoods) : List (List Boxed) → Prop
  | [] => True
  | run :: runs => (inside (newId runs.length) = [] ↔ ∀ x ∈ run, goesInEmpty x = false) ∧ Matches inside runs

/-- What goods dropped for new boxes keep: one new parcel for each stretch of them. -/
structure Opened (runs : List (List Boxed)) (d : Dropping) : Prop where
  taken : d.taken = runs.length
  ids : d.plan.map PlannedParcel.id = (planOf board).map PlannedParcel.id++(List.range runs.length).map newId
  unused : ∀ i, runs.length ≤ i → d.inside (newId i) = []
  filled : Matches newId d.inside runs
  lines : ∀ pp ∈ d.plan, ∀ i, pp.id = newId i →
    (∀ l ∈ pp.lines, 0 < l.quantity) ∧ (pp.lines = [] ↔ d.inside (newId i) = [])
  changed : runs ≠ [] → d.changed = true

variable {screen board newId}

theorem withLine_more {pp : PlannedParcel} (line : Uuid) {n : ℤ} (hn : 0 < n) (h : ∀ l ∈ pp.lines, 0 < l.quantity) :
    (∀ l ∈ (withLine pp line n).lines, 0 < l.quantity) ∧ (withLine pp line n).lines ≠ [] := by
  simp only [withLine]
  split_ifs with hthere
  · obtain ⟨l,hl,heq⟩ := List.any_eq_true.mp hthere
    have hline : l.lineId = line := of_decide_eq_true heq
    refine ⟨fun l' hl' => of_decide_eq_true (List.mem_filter.mp hl').2,?_⟩
    apply List.ne_nil_of_mem (a := {l with quantity := l.quantity+n})
    refine List.mem_filter.mpr ⟨List.mem_map.mpr ⟨l,hl,by simp [hline]⟩,?_⟩
    have hpos := h l hl
    simp only [gt_iff_lt,decide_eq_true_eq]
    omega
  · refine ⟨fun l hl => ?_,by simp⟩
    rcases List.mem_append.mp hl with hl | hl
    · exact h l hl
    · rw [List.mem_singleton.mp hl]
      exact hn

theorem matches_congr {inside inside' : Id → List BoardGoods} {runs : List (List Boxed)}
    (h : ∀ i < runs.length, inside' (newId i) = inside (newId i)) : Matches newId inside' runs ↔ Matches newId inside runs := by
  induction runs with
  | nil => exact Iff.rfl
  | cons run runs ih =>
    rw [Matches,Matches,h runs.length (by simp),ih fun i hi => h i (hi.trans (Nat.lt_succ_self _))]

theorem matches_all {inside : Id → List BoardGoods} {runs : List (List Boxed)} (h : Matches newId inside runs) :
    (∀ i < runs.length, inside (newId i) ≠ []) ↔ ∀ run ∈ runs, ∃ x ∈ run, goesInEmpty x = true := by
  induction runs with
  | nil => simp
  | cons run runs ih =>
    obtain ⟨hrun,hruns⟩ := h
    rw [List.forall_mem_cons,← ih hruns]
    have hnow : inside (newId runs.length) ≠ [] ↔ ∃ x ∈ run, goesInEmpty x = true := by
      rw [Ne,hrun]
      simp
    rw [← hnow]
    constructor
    · exact fun hall => ⟨hall _ (by simp),fun i hi => hall i (by simp; omega)⟩
    · rintro ⟨hlast,hbefore⟩ i hi
      rcases Nat.lt_succ_iff_lt_or_eq.mp hi with hi | rfl
      · exact hbefore i hi
      · exact hlast

variable (hapart : Function.Injective newId) (hparcels : ∀ i, ∀ p ∈ board.parcels, p.id ≠ newId i)
  (hplan : ∀ i, ∀ pp ∈ planOf board, pp.id ≠ newId i)

include hparcels in
theorem noneDropped_inside (i : ℕ) : (noneDropped board).inside (newId i) = [] := by
  have hnone : board.parcels.reverse.find? (·.id = newId i) = none := by
    apply List.find?_eq_none.mpr
    intro p hp
    simpa using hparcels i p (List.mem_reverse.mp hp)
  simp [noneDropped,hnone]

include hparcels hplan in
theorem opened_none : Opened board newId [] (noneDropped board) where
  taken := rfl
  ids := (List.append_nil _).symm
  unused := fun i _ => noneDropped_inside hparcels i
  filled := trivial
  lines := fun pp hpp i hi => absurd hi (hplan i pp hpp)
  changed := fun h => absurd rfl h

include hapart in
/-- A new parcel planned, with nothing in it. -/
theorem opened_start {runs : List (List Boxed)} {d : Dropping} (h : Opened board newId runs d) (box : Box)
    (hother : d.fresh.filter (·.packageTypeId = some box.id) = none) :
    (startBox newId box d).1.id = newId runs.length ∧ (startBox newId box d).2.fresh = some (startBox newId box d).1 ∧
      (startBox newId box d).1.packageTypeId = some box.id ∧ Opened board newId ([] :: runs) (startBox newId box d).2 := by
  have hids : (d.plan++[newParcel (newId d.taken) (some box.id)]).map PlannedParcel.id =
      (planOf board).map PlannedParcel.id++(List.range ([] :: runs).length).map newId := by
    rw [List.map_append,h.ids,List.length_cons,List.range_succ,List.map_append,List.append_assoc,h.taken]
    rfl
  have hstart : startBox newId box d = (newParcel (newId d.taken) (some box.id),
      {d with
        plan := d.plan++[newParcel (newId d.taken) (some box.id)]
        changed := true
        fresh := some (newParcel (newId d.taken) (some box.id))
        taken := d.taken+1}) := by
    simp only [startBox,hother]
  rw [hstart]
  refine ⟨congrArg newId h.taken,rfl,rfl,?_⟩
  exact {
    taken := congrArg (·+1) h.taken
    ids := hids
    unused := fun i hi => h.unused i (Nat.le_of_succ_le hi)
    filled := ⟨by simpa using h.unused _ le_rfl,h.filled⟩
    lines := by
      intro pp hpp i hi
      rcases List.mem_append.mp hpp with hpp | hpp
      · exact h.lines pp hpp i hi
      · rw [List.mem_singleton.mp hpp] at hi ⊢
        obtain rfl : d.taken = i := hapart hi
        simp [newParcel,h.unused _ h.taken.ge]
    changed := fun _ => rfl }

/-- Goods into a new box that none of go in leave all as it was; otherwise they are in it. -/
theorem putIn_new (a : Asked) (id : Id) (box : Box) (d : Dropping) {fits : ℕ}
    (hfits : (fitInto box ((d.inside id).map BoardGoods.goods) (some ⟨a.line.toBenchLine,a.want⟩)).fits = fits) :
    putIn a none id box d =
      if fits = 0 then d
      else {d with
        inside := Function.update d.inside id (d.inside id++[⟨a.line,fits⟩])
        plan := d.plan.map fun pp =>
          if pp.id = id then {withLine pp a.line.lineId fits with placedByHand := true}
          else if a.source.map BoardParcel.id = some pp.id then withLine pp a.line.lineId (-fits)
          else pp
        changed := true} := by
  subst hfits
  rfl

include hapart hparcels in
/-- Goods put in the box planned last. -/
theorem opened_put {run : List Boxed} {runs : List (List Boxed)} {d : Dropping} (h : Opened board newId (run :: runs) d)
    (x : Boxed) (hsource : ∀ s ∈ x.1.source, s ∈ board.parcels) :
    Opened board newId ((x :: run) :: runs) (putIn x.1 none (newId runs.length) x.2 d) ∧
      (putIn x.1 none (newId runs.length) x.2 d).fresh = d.fresh := by
  obtain ⟨hrun,hruns⟩ := h.filled
  -- an empty box takes what goes in it empty
  have hempty : d.inside (newId runs.length) = [] →
      ((fitInto x.2 ((d.inside (newId runs.length)).map BoardGoods.goods) (some ⟨x.1.line.toBenchLine,x.1.want⟩)).fits = 0 ↔
        goesInEmpty x = false) := by
    intro hinside
    rw [hinside]
    simp [goesInEmpty]
  rw [putIn_new x.1 (newId runs.length) x.2 d rfl]
  generalize (fitInto x.2 ((d.inside (newId runs.length)).map BoardGoods.goods) (some ⟨x.1.line.toBenchLine,x.1.want⟩)).fits =
    fits at hempty ⊢
  by_cases hnone : fits = 0
  · rw [if_pos hnone]
    have hstill : d.inside (newId runs.length) = [] ↔ ∀ y ∈ x :: run, goesInEmpty y = false := by
      rw [List.forall_mem_cons,← hrun]
      exact ⟨fun hinside => ⟨(hempty hinside).mp hnone,hinside⟩,And.right⟩
    exact ⟨⟨h.taken,h.ids,h.unused,⟨hstill,hruns⟩,h.lines,fun _ => h.changed (List.cons_ne_nil _ _)⟩,rfl⟩
  · rw [if_neg hnone]
    refine ⟨?_,rfl⟩
    have hother (i : ℕ) (hi : i ≠ runs.length) :
        Function.update d.inside (newId runs.length) (d.inside (newId runs.length)++[⟨x.1.line,fits⟩]) (newId i) =
          d.inside (newId i) := Function.update_of_ne (fun heq => hi (hapart heq)) _ _
    exact {
      taken := h.taken
      ids := by
        have hsame : ∀ pp ∈ d.plan, (if pp.id = newId runs.length then
              {withLine pp x.1.line.lineId fits with placedByHand := true}
            else if x.1.source.map BoardParcel.id = some pp.id then withLine pp x.1.line.lineId (-fits)
            else pp).id = pp.id := by
          intro pp _
          split_ifs <;> rfl
        rw [List.map_map]
        exact (List.map_congr_left hsame).trans h.ids
      unused := fun i hi => (hother i (by simp at hi; omega)).trans (h.unused i hi)
      filled := by
        refine ⟨?_,(matches_congr fun i hi => hother i hi.ne).mpr hruns⟩
        simp only [Function.update_self]
        refine iff_of_false (by simp) fun hall => ?_
        obtain ⟨hx,hold⟩ := List.forall_mem_cons.mp hall
        exact hnone ((hempty (hrun.mpr hold)).mpr hx)
      lines := by
        intro pp hpp i hi
        obtain ⟨pp',hpp',rfl⟩ := List.mem_map.mp hpp
        by_cases hat : pp'.id = newId runs.length
        · simp only [if_pos hat] at hi ⊢
          obtain rfl : runs.length = i := hapart (hat.symm.trans hi)
          obtain ⟨hpos,hne⟩ := withLine_more x.1.line.lineId (Int.natCast_pos.mpr (Nat.pos_of_ne_zero hnone))
            (h.lines pp' hpp' runs.length hat).1
          exact ⟨hpos,by simp [hne]⟩
        · simp only [if_neg hat] at hi ⊢
          -- what is new comes from no parcel of the board
          have hnot (hid : pp'.id = newId i) : ¬x.1.source.map BoardParcel.id = some pp'.id := by
            intro hsome
            obtain ⟨s,hs,hsid⟩ := Option.map_eq_some_iff.mp hsome
            exact hparcels i s (hsource s hs) (hsid.trans hid)
          have hid : pp'.id = newId i := by
            rw [← hi]
            split_ifs <;> rfl
          rw [if_neg (hnot hid)]
          rw [hother i fun heq => hat (by rw [hid,heq])]
          exact h.lines pp' hpp' i hid
      changed := fun _ => rfl }

/-- What the newest goods chose, and where they went. -/
def newest (newId : ℕ → Id) (runs : List (List Boxed)) : Option (Id × Option Uuid) :=
  (runs.head?.bind List.head?).map fun y => (newId (runs.length-1),some y.2.id)

include hapart hparcels hplan in
/-- Goods after goods, into new boxes. -/
theorem opened_runs (xs : List Boxed) (hsources : ∀ x ∈ xs, ∀ s ∈ x.1.source, s ∈ board.parcels) :
    Opened board newId (xs.foldl intoRuns []) (xs.foldl (intoNew newId) (noneDropped board)) ∧
      (xs.foldl (intoNew newId) (noneDropped board)).fresh.map (fun f => (f.id,f.packageTypeId)) =
        newest newId (xs.foldl intoRuns []) ∧ [] ∉ xs.foldl intoRuns [] := by
  induction xs using List.reverseRecOn with
  | nil => exact ⟨opened_none hparcels hplan,rfl,List.not_mem_nil⟩
  | append_singleton xs x ih =>
    obtain ⟨hopened,hfresh,hnonempty⟩ := ih fun y hy => hsources y (List.mem_append_left _ hy)
    have hsource := hsources x (by simp)
    rw [List.foldl_append,List.foldl_append]
    simp only [List.foldl_cons,List.foldl_nil]
    generalize xs.foldl intoRuns [] = runs at hopened hfresh hnonempty ⊢
    generalize xs.foldl (intoNew newId) (noneDropped board) = d at hopened hfresh ⊢
    by_cases hsame : ∃ y run rest, runs = (y :: run) :: rest ∧ y.2.id = x.2.id
    · obtain ⟨y,run,rest,rfl,hid⟩ := hsame
      obtain ⟨f,hf,heq⟩ := Option.map_eq_some_iff.mp (hfresh.trans rfl)
      obtain ⟨hfid,hftype⟩ := Prod.mk.inj heq
      have hkept : d.fresh.filter (·.packageTypeId = some x.2.id) = some f := by
        rw [hf,← hid]
        simp [hftype]
      have hstart : startBox newId x.2 d = (f,d) := by
        simp only [startBox,hkept]
      have hnow : intoRuns ((y :: run) :: rest) x = (x :: y :: run) :: rest := if_pos hid
      have hfid : f.id = newId rest.length := by
        simpa using hfid
      obtain ⟨hput,hfresh'⟩ := opened_put hapart hparcels hopened x hsource
      rw [intoNew,hstart,hnow,hfid]
      refine ⟨hput,?_,?_⟩
      · rw [hfresh',hfresh,newest,newest]
        simp [hid]
      · simpa using hnonempty
    · have hother : d.fresh.filter (·.packageTypeId = some x.2.id) = none := by
        cases hf : d.fresh with
        | none => rfl
        | some f =>
          rw [hf,newest] at hfresh
          obtain ⟨y,hy,heq⟩ := Option.map_eq_some_iff.mp hfresh.symm
          obtain ⟨run,hrun,hhead⟩ := Option.bind_eq_some_iff.mp hy
          obtain ⟨rest,rfl⟩ := List.head?_eq_some_iff.mp hrun
          obtain ⟨older,rfl⟩ := List.head?_eq_some_iff.mp hhead
          have hne : y.2.id ≠ x.2.id := fun hid => hsame ⟨y,older,rest,rfl,hid⟩
          have htype : f.packageTypeId = some y.2.id := (Prod.mk.inj heq).2.symm
          simp [htype,hne]
      have hnow : intoRuns runs x = [x] :: runs := by
        rcases runs with - | ⟨- | ⟨y,run⟩,rest⟩
        · rfl
        · rfl
        · exact if_neg fun hid => hsame ⟨y,run,rest,rfl,hid⟩
      obtain ⟨hfid,hffresh,hftype,hstarted⟩ := opened_start hapart hopened x.2 hother
      obtain ⟨hput,hfresh'⟩ := opened_put hapart hparcels hstarted x hsource
      rw [intoNew,hnow,hfid]
      refine ⟨hput,?_,?_⟩
      · rw [hfresh',hffresh,newest]
        simp [hfid,hftype]
      · simpa using hnonempty

/-! ## Dropped anywhere else -/

theorem putIn_ids (a : Asked) (into : Option BoardParcel) (id : Id) (box : Box) (d : Dropping) :
    (putIn a into id box d).plan.map PlannedParcel.id = d.plan.map PlannedParcel.id := by
  have hmap (f : PlannedParcel → PlannedParcel) (hf : ∀ pp, (f pp).id = pp.id) :
      (d.plan.map f).map PlannedParcel.id = d.plan.map PlannedParcel.id := by
    rw [List.map_map]
    exact List.map_congr_left fun pp _ => hf pp
  simp only [putIn]
  split_ifs
  · rfl
  · split
    · split
      · rfl
      · split
        · apply hmap
          intro pp
          split_ifs <;> rfl
        · rfl
    · apply hmap
      intro pp
      split_ifs <;> rfl

theorem ontoBench_ids {a : Asked} {d d' : Dropping} (h : ontoBench a d = .ok d') :
    d'.plan.map PlannedParcel.id = d.plan.map PlannedParcel.id := by
  simp only [ontoBench] at h
  split at h
  · cases h
    rfl
  · split_ifs at h
    · cases h
      rfl
    · cases h
      rw [List.map_map]
      apply List.map_congr_left
      intro pp _
      simp only [Function.comp_apply]
      split_ifs <;> rfl
    · cases h
      rfl

/-- Goods dropped where no new box is planned plan none. -/
theorem dropKey_ids {objective : Objective} {target : Target} {how : HowMany} (htarget : ∀ named, target ≠ .newBox named)
    {d d' : Dropping} {k : Uuid × Option Id} (h : dropKey screen board objective target how newId d (goodsKey k) = .ok d') :
    d'.plan.map PlannedParcel.id = d.plan.map PlannedParcel.id := by
  simp only [dropKey,goodsKey] at h
  split at h
  · cases h
    rfl
  · simp only [dropGoods] at h
    split at h
    · exact ontoBench_ids h
    · exact absurd rfl (htarget _)
    · split at h
      · cases h
      · split_ifs at h
        split at h
        · cases h
        · cases h
          exact putIn_ids _ _ _ _ d
    · cases h

theorem drops_ids {objective : Objective} {target : Target} {how : HowMany} (htarget : ∀ named, target ≠ .newBox named)
    {keys : List (Uuid × Option Id)} {d d' : Dropping}
    (h : (keys.map goodsKey).foldlM (dropKey screen board objective target how newId) d = .ok d') :
    d'.plan.map PlannedParcel.id = d.plan.map PlannedParcel.id := by
  induction keys generalizing d with
  | nil =>
    cases h
    rfl
  | cons k keys ih =>
    rw [List.map_cons,List.foldlM_cons] at h
    cases hk : dropKey screen board objective target how newId d (goodsKey k) with
    | error r =>
      rw [hk] at h
      cases h
    | ok d₁ =>
      rw [hk] at h
      exact (ih h).trans (dropKey_ids htarget hk)

/-! ## The board of a screen -/

theorem plannedParcel_id (screen : BenchScreen) (pp : PlannedParcel) :
    (plannedParcel screen pp).id = pp.id ∧ (plannedParcel screen pp).planned = some pp := by
  simp only [plannedParcel]
  split
  · exact ⟨rfl,rfl⟩
  · exact ⟨rfl,rfl⟩

/-- The board has the screen's plan. -/
theorem planOf_boardOf (screen : BenchScreen) : planOf (boardOf screen) = screen.plan := by
  simp only [planOf,boardOf,List.filterMap_append,List.filterMap_map]
  have hmade : List.filterMap (BoardParcel.planned ∘ madeParcel screen) screen.cartons = [] := by
    apply List.filterMap_eq_nil_iff.mpr
    exact fun _ _ => rfl
  have hplanned : List.filterMap (BoardParcel.planned ∘ plannedParcel screen) screen.plan = screen.plan := by
    exact (List.filterMap_congr fun pp _ => (plannedParcel_id screen pp).2).trans List.filterMap_some
  rw [hmade,hplanned,List.nil_append,List.filterMap_filterMap]
  have hshipping (as : List AsIs) : as.filterMap (fun a => ((lineOf screen a.line).map fun line =>
      asIsParcel line (.asIs a.line a.level) a none).bind BoardParcel.planned) = [] := by
    apply List.filterMap_eq_nil_iff.mpr
    intro a _
    cases lineOf screen a.line <;> rfl
  rw [hshipping,List.append_nil]

theorem planned_parcels (screen : BenchScreen) : ∀ pp ∈ screen.plan, ∃ p ∈ (boardOf screen).parcels, p.id = pp.id := by
  intro pp hpp
  refine ⟨plannedParcel screen pp,?_,(plannedParcel_id screen pp).1⟩
  simp only [boardOf,List.mem_append]
  exact Or.inl (Or.inr (List.mem_map_of_mem hpp))

theorem asked_source {how : HowMany} {line : Uuid} {parcel : Option Id} {a : Asked}
    (h : asked screen board how line parcel = some a) : ∀ s ∈ a.source, s ∈ board.parcels := by
  simp only [asked] at h
  split at h
  · cases h
  · split_ifs at h
    all_goals
      cases h
      intro s hs
      obtain ⟨id,-,hfind⟩ := Option.bind_eq_some_iff.mp hs
      exact List.mem_of_find?_eq_some hfind

end

/-- A drop that is ok comes to what its keys come to, the plan with them when it changed. -/
theorem dropOn_ok {screen : BenchScreen} {board : Board} {objective : Objective} {target : Target} {how : HowMany}
    {newId : ℕ → Id} {keys : List Thing} {o : Outcome} (h : dropOn screen board objective target how newId keys = .ok o) :
    ∃ d, keys.foldlM (dropKey screen board objective target how newId) (noneDropped board) = .ok d ∧
      o.plan = if d.changed then some d.plan else none := by
  unfold dropOn at h
  cases hd : keys.foldlM (dropKey screen board objective target how newId) (noneDropped board) with
  | error r =>
    rw [hd] at h
    cases h
  | ok d =>
    rw [hd] at h
    simp only [Except.bind] at h
    split_ifs at h <;> cases h <;> exact ⟨d,rfl,by simp [*]⟩

/-- A drop that changed the plan is ok. -/
theorem dropOn_changed {screen : BenchScreen} {board : Board} {objective : Objective} {target : Target} {how : HowMany}
    {newId : ℕ → Id} {keys : List Thing} {d : Dropping}
    (h : keys.foldlM (dropKey screen board objective target how newId) (noneDropped board) = .ok d) (hchanged : d.changed = true) :
    ∃ o, dropOn screen board objective target how newId keys = .ok o ∧ o.plan = some d.plan := by
  simp [dropOn,h,Except.bind,hchanged]

/-- No box is planned with nothing in it just when some goods of each stretch of keys that
choose one preset go in an empty box of it. -/
theorem plansNoEmpty_iff (screen : BenchScreen) (objective : Objective) (target : Target) (how : HowMany) (newId : ℕ → Id)
    (keys : List (Uuid × Option Id)) (hapart : Function.Injective newId)
    (hparcels : ∀ i, ∀ p ∈ (boardOf screen).parcels, p.id ≠ newId i) :
    PlansNoEmpty (boardOf screen) (dropOn screen (boardOf screen) objective target how newId (keys.map goodsKey)) ↔
      NewBoxesFilled screen (boardOf screen) objective target how keys := by
  have hplan : ∀ i, ∀ pp ∈ planOf (boardOf screen), pp.id ≠ newId i := by
    intro i pp hpp
    rw [planOf_boardOf] at hpp
    obtain ⟨p,hp,hid⟩ := planned_parcels screen pp hpp
    rw [← hid]
    exact hparcels i p hp
  by_cases htarget : ∀ named, target ≠ .newBox named
  · refine iff_of_true (fun o ho plan hoplan pp hpp hnew => ?_) ?_
    · obtain ⟨d,hd,hdplan⟩ := dropOn_ok ho
      rw [hdplan] at hoplan
      obtain rfl := Option.some.inj (Option.ite_none_right_eq_some.mp hoplan).2
      have hsame : d.plan.map PlannedParcel.id = (planOf (boardOf screen)).map PlannedParcel.id := drops_ids htarget hd
      rw [← hsame] at hnew
      exact absurd (List.mem_map_of_mem hpp) hnew
    · cases target with
      | newBox named => exact absurd rfl (htarget named)
      | _ => trivial
  · push Not at htarget
    obtain ⟨named,rfl⟩ := htarget
    have hfold := drops_newBox screen (boardOf screen) objective how newId named keys (noneDropped (boardOf screen))
    simp only [NewBoxesFilled]
    rw [← List.any_eq_true]
    cases hchoose : (askedFor screen (boardOf screen) how keys).any (toChoose screen objective named) with
    | true =>
      rw [hchoose,if_pos rfl] at hfold
      refine iff_of_true (fun o ho => ?_) (Or.inl rfl)
      obtain ⟨d,hd,-⟩ := dropOn_ok ho
      rw [hfold] at hd
      cases hd
    | false =>
      rw [hchoose,if_neg Bool.false_ne_true] at hfold
      simp only [Bool.false_eq_true,false_or]
      have hsources : ∀ x ∈ boxedFor screen objective named (askedFor screen (boardOf screen) how keys),
          ∀ s ∈ x.1.source, s ∈ (boardOf screen).parcels := by
        intro x hx
        obtain ⟨a,ha,hbox⟩ := List.mem_filterMap.mp hx
        obtain ⟨box,-,rfl⟩ := Option.map_eq_some_iff.mp hbox
        obtain ⟨k,-,hk⟩ := List.mem_filterMap.mp ha
        exact asked_source hk
      obtain ⟨hopened,-,-⟩ := opened_runs hapart hparcels hplan _ hsources
      rw [← matches_all hopened.filled]
      generalize (boxedFor screen objective named (askedFor screen (boardOf screen) how keys)).foldl intoRuns [] = runs at hopened ⊢
      generalize (boxedFor screen objective named (askedFor screen (boardOf screen) how keys)).foldl (intoNew newId)
        (noneDropped (boardOf screen)) = d at hopened hfold ⊢
      constructor
      · intro hall i hi hinside
        have hne : runs ≠ [] := List.ne_nil_of_length_pos (by omega)
        obtain ⟨o,ho,hoplan⟩ := dropOn_changed hfold (hopened.changed hne)
        have hmem : newId i ∈ d.plan.map PlannedParcel.id := by
          rw [hopened.ids]
          exact List.mem_append_right _ (List.mem_map_of_mem (List.mem_range.mpr hi))
        obtain ⟨pp,hpp,hid⟩ := List.mem_map.mp hmem
        obtain ⟨l,hl,-⟩ := hall o ho d.plan hoplan pp hpp (by
          rintro hbefore
          obtain ⟨pp',hpp',hid'⟩ := List.mem_map.mp hbefore
          exact hplan i pp' hpp' (hid'.trans hid))
        rw [(hopened.lines pp hpp i hid).2.mpr hinside] at hl
        cases hl
      · intro hall o ho plan hoplan pp hpp hnew
        obtain ⟨d',hd',hdplan⟩ := dropOn_ok ho
        obtain rfl : d = d' := Except.ok.inj (hfold.symm.trans hd')
        rw [hdplan] at hoplan
        obtain rfl := Option.some.inj (Option.ite_none_right_eq_some.mp hoplan).2
        have hmem := List.mem_map_of_mem (f := PlannedParcel.id) hpp
        rw [hopened.ids] at hmem
        rcases List.mem_append.mp hmem with hbefore | hmem
        · exact absurd hbefore hnew
        · obtain ⟨i,hi,hid⟩ := List.mem_map.mp hmem
          obtain ⟨hpos,hempty⟩ := hopened.lines pp hpp i hid.symm
          have hne : pp.lines ≠ [] := fun hnil => hall i (List.mem_range.mp hi) (hempty.mp hnil)
          obtain ⟨l,hl⟩ := List.exists_mem_of_ne_nil _ hne
          exact ⟨l,hl,hpos l hl⟩

/-! A rod a long box takes and a small one does not. -/

def rods : BenchScreen where
  lines := [{lineId := 1, itemId := 7, itemCode := "ROD", remaining := 2, committed := 2, ownCarton := none, check := none
             packs := [⟨.each,1,false,false,some ⟨900,100,100⟩,false,none⟩]}]
  cartons := []
  presets := [{id := 5, name := "Small", size := some ⟨200,200,200⟩, suggested := true, maxPayloadG := none
               tareWeightG := none, deck := none},
    {id := 6, name := "Long", size := some ⟨1000,200,200⟩, suggested := true, maxPayloadG := none
     tareWeightG := none, deck := none}]
  plan := []
  carriers := []

def rodIds (i : ℕ) : Id := .row (100+i)

theorem rodIds_apart : Function.Injective rodIds := by
  intro i j h
  have hrow : 100+i = 100+j := Id.row.inj h
  omega

theorem rods_parcels : (boardOf rods).parcels = [] := by decide +kernel

/-- The suggestion chooses the long box, and the rods go in it. -/
theorem plansNoEmpty_rods : PlansNoEmpty (boardOf rods)
    (dropOn rods (boardOf rods) byParcels (.newBox none) ⟨false,none⟩ rodIds [.goods 1 none]) :=
  (plansNoEmpty_iff rods byParcels (.newBox none) ⟨false,none⟩ rodIds [(1,none)] rodIds_apart (by simp [rods_parcels])).mpr
    (by decide +kernel)

/-- Dropped on a new small box, the rods stay and the box is planned. -/
theorem plansEmpty_rods : (dropOn rods (boardOf rods) byParcels (.newBox (some 5)) ⟨false,none⟩ rodIds [.goods 1 none]).toOption.map
      Outcome.plan = some (some [newParcel (rodIds 0) (some 5)]) ∧
    ¬PlansNoEmpty (boardOf rods)
      (dropOn rods (boardOf rods) byParcels (.newBox (some 5)) ⟨false,none⟩ rodIds [.goods 1 none]) := by
  have hplan : (dropOn rods (boardOf rods) byParcels (.newBox (some 5)) ⟨false,none⟩ rodIds [.goods 1 none]).toOption.map
      Outcome.plan = some (some [newParcel (rodIds 0) (some 5)]) := by decide +kernel
  refine ⟨hplan,fun hall => ?_⟩
  cases ho : dropOn rods (boardOf rods) byParcels (.newBox (some 5)) ⟨false,none⟩ rodIds [.goods 1 none] with
  | error r =>
    rw [ho] at hplan
    cases hplan
  | ok o =>
    rw [ho] at hplan
    obtain ⟨l,hl,-⟩ := hall o ho _ (Option.some.inj hplan) _ (List.mem_singleton_self _) (by
      rw [planOf_boardOf]
      exact List.not_mem_nil)
    cases hl

end Drag
end Spork
