import Spork.Outbox.Parts

/-! No unit twice and no name twice: a press worked out against a plan that holds together
ends, and its writes stay within what the screen offers, each under a part of its own. -/
namespace Spork
namespace Writes

open Bench (Uuid Level PlannedParcel)
open Outbox (Text Place Picks Write BenchWrite)

/-! ## The calls end -/

/-- The calls did not run out. -/
def Ends {α : Type} (r : Except Stop α) : Prop := r ≠ .error .unended

section Ends

variable {α β : Type}

theorem Ends.bind {r : Except Stop α} {f : α → Except Stop β} (hr : Ends r) (hf : ∀ a, Ends (f a)) : Ends (r >>= f) := by
  cases r with
  | error e => exact fun h => hr (congrArg Except.error (Except.error.inj h))
  | ok a => exact hf a

theorem ends_ok (a : α) : Ends (.ok a) := fun h => by cases h

theorem ends_unwritable (text : String) : Ends (.error (.unwritable text) : Except Stop α) := fun h => by cases h

theorem ends_foldlM {f : β → α → Except Stop β} (hf : ∀ b a, Ends (f b a)) (xs : List α) (b : β) : Ends (xs.foldlM f b) := by
  induction xs generalizing b with
  | nil => exact ends_ok b
  | cons x xs ih =>
    rw [List.foldlM_cons]
    exact (hf b x).bind ih

end Ends

variable {screen : BenchScreen} {fulfilment : Uuid}

theorem bench_ends : Ends (bench screen) := by
  rw [bench]
  cases screen.staging with
  | none => exact ends_unwritable _
  | some location => exact ends_ok location

theorem writeSource_ends (line carton : Uuid) (part : Text) (w : Writer) (src : Source × ℕ) :
    Ends (writeSource screen line carton part w src) := by
  obtain ⟨src,i⟩ := src
  cases src with
  | bench units => exact bench_ends.bind fun location => ends_ok _
  | cell stock units => exact ends_ok _
  | handover units => exact ends_ok _

theorem put_ends (line : Uuid) (units : ℤ) (carton : Uuid) (part : Text) (w : Writer) :
    Ends (put screen line units carton part w) := by
  rw [put]
  split
  · exact ends_unwritable _
  · dsimp only
    split
    · exact ends_unwritable _
    · exact (ends_foldlM (writeSource_ends line carton part) _ w).bind fun _ => ends_ok _

theorem unput_ends (line : Uuid) (units : ℤ) (carton : Uuid) (part : Text) (w : Writer) :
    Ends (unput screen line units carton part w) := by
  rw [unput]
  split
  · exact ends_unwritable _
  · exact ends_ok _

theorem takeApart_ends (c : CartonSummary) (part : Text) (w : Writer) : Ends (takeApart screen c part w) := by
  rw [takeApart]
  refine (ends_foldlM (fun w (r : Uuid × ℤ) => unput_ends r.1 r.2 c.id _ w) _ _).bind fun w => Ends.bind ?_ fun w => ends_ok _
  split
  · exact bench_ends.bind fun location => ends_ok _
  · exact ends_ok w

theorem unmake_ends (carton : Uuid) (pallet : Option Uuid) (part : Text) (w : Writer) :
    Ends (unmake screen carton pallet part w) := by
  rw [unmake]
  refine Ends.bind ?_ fun w => ends_ok _
  split
  · exact takeApart_ends _ part w
  · exact ends_ok w

/-- What a planned parcel is on, where that is planned. -/
def on (screen : BenchScreen) (parcel : Uuid) : Option Uuid :=
  (screen.plan.find? (·.id = parcel)).bind (·.onParcel)

/-- What a make does with its planned pallet before its own writes. -/
theorem make_succ {parcel : Uuid} (part : Text) (w : Writer) :
    (∃ r, Ends r ∧ ∀ n, make screen fulfilment (n+1) parcel part w = r) ∨
      ∃ q f, on screen parcel = some q ∧ (∀ w, Ends (f w)) ∧ ∀ n, make screen fulfilment (n+1) parcel part w =
        make screen fulfilment n q (under part ['p','a','l','l','e','t']) w >>= f := by
  simp only [make,on]
  cases screen.plan.find? (·.id = parcel) with
  | none => exact Or.inl ⟨_,ends_ok w,fun _ => rfl⟩
  | some pp =>
    cases screen.dock with
    | none => exact Or.inl ⟨_,ends_unwritable _,fun _ => rfl⟩
    | some dock =>
      have hrest : ∀ w, Ends (do
          let w ← pp.lines.foldlM (fun w l => put screen l.line l.quantity pp.id
            (under part (['p','u','t']++ ':' :: Rendering.uuidText l.line)) w)
              (putOn pp part (startParcel fulfilment dock pp part w))
          return sealAsIs pp part w) := fun w =>
        (ends_foldlM (fun w (l : Bench.PlannedLine) => put_ends l.line l.quantity pp.id _ w) _ _).bind fun _ => ends_ok _
      cases hon : pp.onParcel with
      | none =>
        refine Or.inl ⟨_,hrest w,fun n => ?_⟩
        dsimp only
        rw [hon]
        rfl
      | some q =>
        refine Or.inr ⟨q,_,hon,hrest,fun n => ?_⟩
        dsimp only
        rw [hon]

/-- Calls as many as the way up is long are enough, and end. -/
theorem make_enough {k n : ℕ} {parcel : Uuid} (hk : Forest.up (on screen) k parcel = none) (hn : k ≤ n)
    (part : Text) (w : Writer) : make screen fulfilment n parcel part w = make screen fulfilment k parcel part w ∧
      Ends (make screen fulfilment k parcel part w) := by
  induction k generalizing n parcel part w with
  | zero => cases hk
  | succ k ih =>
    obtain ⟨n,rfl⟩ := Nat.exists_eq_add_of_le' hn
    rw [Nat.add_comm k 1,Forest.up_add,Forest.up,Forest.up,Option.bind_some] at hk
    rcases @make_succ screen fulfilment parcel part w with ⟨r,hr,hmake⟩ | ⟨q,f,hq,hf,hmake⟩
    · rw [← Nat.add_assoc,hmake,hmake]
      exact ⟨rfl,hr⟩
    · rw [hq] at hk
      obtain ⟨hsame,hends⟩ := @ih (n+k) q hk (Nat.le_add_left k n) (under part ['p','a','l','l','e','t']) w
      rw [← Nat.add_assoc,hmake,hmake,hsame]
      exact ⟨rfl,hends.bind hf⟩

/-- As many calls as every way up is long are enough for an act, and it ends. -/
theorem add_enough {k n : ℕ} (hk : ∀ parcel, Forest.up (on screen) k parcel = none) (hn : k ≤ n) (step : BoardAct)
    (part : Text) (w : Writer) : add screen fulfilment n step part w = add screen fulfilment k step part w ∧
      Ends (add screen fulfilment k step part w) := by
  cases step with
  | put line units carton => exact ⟨rfl,put_ends line units carton part w⟩
  | unput line units carton => exact ⟨rfl,unput_ends line units carton part w⟩
  | repack line units source destination =>
    cases destination with
    | some d => exact ⟨rfl,ends_ok _⟩
    | none => exact ⟨rfl,bench_ends.bind fun location => ends_ok _⟩
  | make parcel => exact make_enough (hk parcel) hn part w
  | contain carton pallet => exact ⟨rfl,ends_ok _⟩
  | takeOff carton => exact ⟨rfl,bench_ends.bind fun location => ends_ok _⟩
  | unmake carton pallet => exact ⟨rfl,unmake_ends carton pallet part w⟩

theorem writesIn_enough {k n : ℕ} (hk : ∀ parcel, Forest.up (on screen) k parcel = none) (hn : k ≤ n)
    (steps : List BoardAct) : writesIn screen fulfilment n steps = writesIn screen fulfilment k steps ∧
      Ends (writesIn screen fulfilment k steps) := by
  constructor
  · have hsame : (fun (w : Writer) (s : BoardAct × ℕ) =>
        add screen fulfilment n s.1 (Numerals.digits s.2++ ':' :: s.1.kind) w) =
        fun w s => add screen fulfilment k s.1 (Numerals.digits s.2++ ':' :: s.1.kind) w := by
      funext w s
      exact (add_enough hk hn s.1 _ w).1
    rw [writesIn,writesIn,hsame]
  · exact ends_foldlM (fun w s => (add_enough hk le_rfl s.1 _ w).2) steps.zipIdx start

/-! ## A plan that holds together -/

/-- The level's text, as it is sent. -/
def levelText : Level → String
  | .each => "each"
  | .inner => "inner"
  | .carton => "carton"

/-- A planned parcel as the server keeps it. -/
def kept (p : PlannedParcel) : PackPlan.PlannedParcel Uuid where
  id := p.id
  packageType := p.packageType
  asIs := p.asIs.map fun a => ⟨a.item,levelText a.level,a.config⟩
  onParcel := p.onParcel
  onPackage := p.onPackage
  spot := p.spot
  placedByHand := p.placedByHand
  carrier := p.carrier
  lines := p.lines.map fun l => ⟨l.line,l.quantity⟩

theorem above_kept (screen : BenchScreen) : PackPlan.above (screen.plan.map kept) = on screen := by
  funext parcel
  rw [PackPlan.above,on,List.find?_map]
  change (Option.map kept (screen.plan.find? fun p => p.id = parcel)).bind _ = _
  cases screen.plan.find? fun p => p.id = parcel <;> rfl

/-- No way up the pallets is longer than the plan and one more. -/
theorem up_plan (h : PackPlan.HoldsTogether (screen.plan.map kept)) (parcel : Uuid) :
    Forest.up (on screen) (screen.plan.length+1) parcel = none := by
  rw [← above_kept]
  by_cases hmem : parcel ∈ (screen.plan.map kept).map (·.id)
  · obtain ⟨p,hp,rfl⟩ := List.mem_map.mp hmem
    obtain ⟨xs,hxs⟩ := (Forest.exists_line_iff p.id).mpr (h.ends p hp)
    have hle : xs.length ≤ (screen.plan.map kept).length :=
      h.length_le hxs fun a ha => Option.some.inj ha ▸ List.mem_map_of_mem hp
    rw [List.length_map] at hle
    exact Forest.up_past hxs.up_length (by omega)
  · have hnone : PackPlan.above (screen.plan.map kept) parcel = none := by
      cases habove : PackPlan.above (screen.plan.map kept) parcel with
      | none => rfl
      | some q =>
        obtain ⟨p,hp,rfl,-⟩ := (PackPlan.above_eq_some_iff h.distinct).mp habove
        exact absurd (List.mem_map_of_mem hp) hmem
    exact Forest.up_past (n := 1) hnone (by omega)

/-! ## No unit twice -/

/-- The writes of a press stay within what the screen has, fill the puts it was asked for,
short where its notes tell of it, and are named apart. -/
structure TakenOnce (screen : BenchScreen) (steps : List BoardAct) (w : Writer) : Prop where
  bench : ∀ line ∈ screen.lines, drawnFrom (.bench line.lineId) w.writes ≤ max 0 line.onBench
  cells : ∀ line ∈ screen.lines, ∀ c ∈ line.cells, drawnFrom (.cell c.stock) w.writes ≤ max 0 c.available
  handed : ∀ line ∈ screen.lines, drawnFrom (.handover line.lineId) w.writes ≤
    max 0 (line.elsewhere.elim 0 fun e => e.reported-e.handed)
  puts : ∃ groups : List Filling, groups.map Prod.fst = putsOf screen (screen.plan.length+1) steps ∧
    w.writes.filter isDrawing = groups.flatMap Prod.snd ∧ w.notes = groups.filterMap (noteOf screen) ∧
      ∀ g ∈ groups, Filled g
  parts : (w.writes.map BenchWrite.part).Nodup
  ids : ∀ a ∈ w.writes, ∀ b ∈ w.writes, ∀ n m, Outbox.partOf a.part n = Outbox.partOf b.part m → a = b

variable {w : Writer} {line : BenchLine}

/-- A line is on the screen once. -/
theorem line_unique (screen : BenchScreen) {l : BenchLine} (hl : l ∈ screen.lines) (hline : line ∈ screen.lines)
    (hid : l.lineId = line.lineId) : l = line :=
  List.inj_on_of_nodup_map screen.lines_once hl hline hid

theorem Within.bench (h : Within screen w) (hline : line ∈ screen.lines) :
    drawnFrom (.bench line.lineId) w.writes ≤ max 0 line.onBench := by
  rw [← h.drawn]
  rcases h.offered (.bench line.lineId) with hzero | ⟨-,l,hl,hid,hle⟩
  · exact hzero.le.trans (le_max_left _ _)
  · obtain rfl := line_unique screen hl hline hid.symm
    exact hle.trans (le_max_right _ _)

theorem Within.cells (h : Within screen w) (hline : line ∈ screen.lines) {c : Cell} (hc : c ∈ line.cells) :
    drawnFrom (.cell c.stock) w.writes ≤ max 0 c.available := by
  rw [← h.drawn]
  rcases h.offered (.cell c.stock) with hzero | ⟨-,l,hl,d,hd,hstock,hle⟩
  · exact hzero.le.trans (le_max_left _ _)
  · rw [screen.cell_same l hl line hline d hd c hc hstock] at hle
    exact hle.trans (le_max_right _ _)

theorem Within.handed (h : Within screen w) (hline : line ∈ screen.lines) :
    drawnFrom (.handover line.lineId) w.writes ≤ max 0 (line.elsewhere.elim 0 fun e => e.reported-e.handed) := by
  rw [← h.drawn]
  rcases h.offered (.handover line.lineId) with hzero | ⟨-,l,hl,hid,e,he,hle⟩
  · exact hzero.le.trans (le_max_left _ _)
  · obtain rfl := line_unique screen hl hline hid.symm
    rw [he]
    exact hle.trans (le_max_right _ _)

/-- A press against a plan that holds together ends, and takes no unit twice. -/
theorem writesOf_once (h : PackPlan.checkPlan (screen.plan.map kept) = .ok ()) (steps : List BoardAct) :
    (∀ n, screen.plan.length < n → writesIn screen fulfilment n steps = writesOf screen fulfilment steps) ∧
      ((∃ text, writesOf screen fulfilment steps = .error (.unwritable text)) ∨
        ∃ w, writesOf screen fulfilment steps = .ok w ∧ TakenOnce screen steps w) := by
  have hplan := PackPlan.HoldsTogether.of_ok h
  have hlines : ∀ pp ∈ screen.plan, (pp.lines.map (·.line)).Nodup := fun pp hpp => by
    have hkept := hplan.lines (kept pp) (List.mem_map_of_mem hpp)
    rwa [kept,List.map_map] at hkept
  refine ⟨fun n hn => (writesIn_enough (up_plan hplan) hn steps).1,?_⟩
  have hends : Ends (writesOf screen fulfilment steps) := (writesIn_enough (up_plan hplan) le_rfl steps).2
  cases hwrites : writesOf screen fulfilment steps with
  | error stop =>
    cases stop with
    | unwritable text => exact Or.inl ⟨text,rfl⟩
    | unended => exact absurd hwrites hends
  | ok w =>
    obtain ⟨ws,hgrown,hapart⟩ := writesIn_parts hlines hwrites
    have hws : w.writes = ws := hgrown.writes
    have hwithin := hgrown.within (within_start screen)
    have hparts : (w.writes.map BenchWrite.part).Nodup := by
      rw [hws]
      refine List.Nodup.of_map (Paths.names ':') ?_
      rwa [List.map_map]
    refine Or.inr ⟨w,rfl,fun line hline => hwithin.bench hline,fun line hline c hc => hwithin.cells hline hc,
      fun line hline => hwithin.handed hline,?_,hparts,fun a ha b hb n m hsame =>
        List.inj_on_of_nodup_map hparts ha hb (Outbox.partOf_injective hsame).1⟩
    obtain ⟨groups,hputs,hdrawing,hnotes,hfilled⟩ := hgrown.fillings
    exact ⟨groups,hputs,hws ▸ hdrawing,hnotes,hfilled⟩

/-- Two lines that share a row of stock, and a carton planned on a planned pallet. -/
def sharedStock : BenchScreen where
  lines := [⟨10,"A",2,[⟨20,4⟩],none,by decide⟩,⟨11,"B",0,[⟨20,4⟩],some ⟨3,1⟩,by decide⟩]
  cartons := []
  plan := [⟨1,some 5,none,none,none,none,true,none,[]⟩,⟨2,some 6,none,some 1,none,none,true,none,[⟨10,5⟩,⟨11,4⟩]⟩]
  dock := some 30
  staging := some 31
  wrongBoxReason := none
  lines_once := by decide
  cell_same := by decide

/-- Its carton is made of what is there: one line in full, the other with what is left. -/
theorem sharedStock_once : ∃ w, writesOf sharedStock 7 [.make 2] = .ok w ∧ TakenOnce sharedStock [.make 2] w ∧
    drawnFrom (.cell 20) w.writes = 4 ∧ w.notes = ["3 of 4 B went in: the rest is not here."] := by
  have hrun : (writesOf sharedStock 7 [.make 2]).toOption.map (fun w => (drawnFrom (.cell 20) w.writes,w.notes)) =
      some (4,["3 of 4 B went in: the rest is not here."]) := by decide +kernel
  rcases (@writesOf_once sharedStock 7 rfl [.make 2]).2 with ⟨text,htext⟩ | ⟨w,hw,htaken⟩
  · rw [htext] at hrun
    cases hrun
  · rw [hw] at hrun
    obtain ⟨hcell,hnotes⟩ := Prod.mk.inj (Option.some.inj hrun)
    exact ⟨w,hw,htaken,hcell,hnotes⟩

end Writes
end Spork
