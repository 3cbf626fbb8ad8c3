import Spork.Lib.Requests
import Spork.Refile.Log

/-! What a carton of an item holds: the case pack in force on a day and saying another
(`cartons.rs`). New ids come later than old ones or not: `rank` is their order. -/
namespace Spork
namespace Refile

open Newest Requests

variable (rank : Uuid → ℕ)

/-- `$2::timestamptz::date`. -/
def dayOf (moment : ℤ) : ℤ := moment/86400000000

def CasePack.key (c : CasePack) : ℤ ×ₗ ℕ := toLex (c.effectiveFrom,rank c.id)

/-- The case pack in force on the day. -/
def inForce (g : Log) (item : Uuid) (moment : ℤ) : Option CasePack :=
  newest (CasePack.key rank) (g.packs.filter fun c => c.item = item ∧ c.effectiveFrom ≤ dayOf moment)

/-- The item's card at a level under the case pack in force. -/
def cardOf (g : Log) (item : Uuid) (level : Level) (moment : ℤ) : Except ApiError Observable :=
  if level = .each then .ok ⟨item,.each,none⟩ else
  match inForce rank g item moment with
  | none => .error (.noCasePack (dayOf moment) level)
  | some c => .ok ⟨item,level,some c.id⟩

abbrev Counts := Option ℤ × Option ℤ

def CasePack.counts (c : CasePack) : Counts := (c.unitsPerInner,c.innersPerCarton)

def most : ℤ := 100000

/-- The case pack's two counts for what is said. -/
def counts (holds per : Option ℤ) : Except ApiError Counts :=
  match holds.filter fun n => ¬(1 ≤ n ∧ n ≤ most) with
  | some n => .error (.cartonHolds n)
  | none =>
    match per.filter fun p => ¬(1 ≤ p ∧ p ≤ most) with
    | some p => .error (.packHolds p)
    | none => .ok (per.or (holds.map fun _ => 1),holds)

/-- What saying a count does to the carton on file. -/
inductive Change
  | nothing
  | make
  | amend (id : Uuid)
  | version
  deriving DecidableEq, Repr

/-- What is wanted, a pack's count said alone keeping the carton's on file. -/
def kept (onFile wanted : Counts) (correction : Bool) : Except ApiError Counts :=
  if wanted.2.isNone && wanted.1.isSome then
    if !correction && onFile.2.isSome && onFile.1.any (fun p => some p ≠ wanted.1) then .error .packsOfAnother
    else .ok (wanted.1,onFile.2)
  else .ok wanted

def changeTo (c : CasePack) (wanted : Counts) (correction : Bool) : Change :=
  if c.counts = wanted then .nothing
  else if wanted = (none,none) then .nothing
  else if c.innersPerCarton.isNone then .amend c.id
  else if c.unitsPerInner.isNone && c.innersPerCarton = wanted.2 then .amend c.id
  else if correction then .amend c.id
  else .version

/-- `claim_act`: nothing where the act was claimed before. -/
def Log.claim (g : Log) (act : Act) : Option Log :=
  if act ∈ g.acts then none else some {g with acts := g.acts++[act]}

def Log.putPack (g : Log) (c : CasePack) : Log := {g with packs := g.packs++[c], drawn := g.drawn+1}

def Log.amendPack (g : Log) (c : CasePack) : Log :=
  {g with packs := g.packs.map fun p => if p.id = c.id then c else p}

/-- The carton on file amended, or another made. -/
def carryOut (g : Log) (ev : ClientEvent) (item : Uuid) (wanted : Counts) (since : ℤ) :
    Change → Option CasePack → (CasePack × Bool) × Log
  | .amend _,some c =>
    let row := {c with unitsPerInner := wanted.1, innersPerCarton := wanted.2}
    ((row,true),g.amendPack row)
  | change,_ =>
    let effective := if change = .make then min since ev.submittedAt else ev.submittedAt
    let row := ⟨g.drawn,item,wanted.1,wanted.2,dayOf effective⟩
    ((row,true),g.putPack row)

/-- Say what a carton of the item holds. The row it leaves in force, and whether the act
changed anything. -/
def say (g : Log) (ev : ClientEvent) (item : Uuid) (wanted : Counts) (correction : Bool) (since : ℤ) :
    Except ApiError ((CasePack × Bool) × Log) :=
  let now := inForce rank g item ev.submittedAt
  (now.elim (.ok wanted) fun c => kept c.counts wanted correction).bind fun wanted =>
  let change := now.elim .make fun c => changeTo c wanted correction
  match change,now with
  | .nothing,some c => .ok ((c,false),g)
  | _,_ =>
    match g.claim ev.act with
    | none =>
      match now with
      | none => .error .incompleteAct
      | some c => .ok ((c,false),g)
    | some g => .ok (carryOut g ev item wanted since change now)

/-- `POST /items/{id}/carton`. -/
structure SayCarton where
  item : Uuid
  holds : Option ℤ
  per : Option ℤ
  correction : Bool
  ev : ClientEvent
  deriving DecidableEq, Repr

def sayCarton (g : Log) (r : SayCarton) : Except ApiError ((CasePack × Bool) × Log) :=
  (counts r.holds r.per).bind fun wanted =>
  if g.items.all fun i => i.id ≠ r.item then .error .notFound else
  say rank g r.ev r.item wanted r.correction r.ev.submittedAt

/-! ## Case packs change nothing recorded -/

/-- Everything but the case packs, the acts claimed and the ids drawn. -/
structure SameRecords (g g' : Log) : Prop where
  items : g'.items = g.items
  events : g'.events = g.events
  figures : g'.figures = g.figures
  acceptances : g'.acceptances = g.acceptances
  images : g'.images = g.images
  cuts : g'.cuts = g.cuts
  moves : g'.moves = g.moves
  drawn : g.drawn ≤ g'.drawn
  acts : ∀ a ∈ g.acts, a ∈ g'.acts

theorem SameRecords.refl (g : Log) : SameRecords g g := ⟨rfl,rfl,rfl,rfl,rfl,rfl,rfl,le_rfl,fun _ h => h⟩

theorem SameRecords.trans {g g' g'' : Log} (h : SameRecords g g') (h' : SameRecords g' g'') : SameRecords g g'' where
  items := h'.items.trans h.items
  events := h'.events.trans h.events
  figures := h'.figures.trans h.figures
  acceptances := h'.acceptances.trans h.acceptances
  images := h'.images.trans h.images
  cuts := h'.cuts.trans h.cuts
  moves := h'.moves.trans h.moves
  drawn := h.drawn.trans h'.drawn
  acts a ha := h'.acts a (h.acts a ha)

theorem claim_eq_some {g g' : Log} {act : Act} (h : g.claim act = some g') :
    act ∉ g.acts ∧ g' = {g with acts := g.acts++[act]} := by
  unfold Log.claim at h
  split_ifs at h with hold
  exact ⟨hold,(Option.some.inj h).symm⟩

theorem claim_sameRecords {g g' : Log} {act : Act} (h : g.claim act = some g') : SameRecords g g' := by
  obtain ⟨-,rfl⟩ := claim_eq_some h
  exact ⟨rfl,rfl,rfl,rfl,rfl,rfl,rfl,le_rfl,fun a ha => List.mem_append_left _ ha⟩

theorem carryOut_sameRecords (g : Log) (ev : ClientEvent) (item : Uuid) (wanted : Counts) (since : ℤ)
    (change : Change) (now : Option CasePack) : SameRecords g (carryOut g ev item wanted since change now).2 := by
  have hput : ∀ c, SameRecords g (g.putPack c) := fun c =>
    ⟨rfl,rfl,rfl,rfl,rfl,rfl,rfl,Nat.le_succ g.drawn,fun _ h => h⟩
  have hamend : ∀ c, SameRecords g (g.amendPack c) := fun c => ⟨rfl,rfl,rfl,rfl,rfl,rfl,rfl,le_rfl,fun _ h => h⟩
  unfold carryOut
  split
  · apply hamend
  · apply hput

variable {rank} in
theorem say_sameRecords {g : Log} {ev : ClientEvent} {item : Uuid} {wanted : Counts} {correction : Bool}
    {since : ℤ} {out : (CasePack × Bool) × Log} (h : say rank g ev item wanted correction since = .ok out) :
    SameRecords g out.2 := by
  unfold say at h
  obtain ⟨wanted,-,h⟩ := bind_ok h
  dsimp only at h
  split at h
  · cases h
    exact SameRecords.refl g
  · split at h
    · split at h
      · cases h
      · cases h
        exact SameRecords.refl g
    next g' hclaim =>
      cases h
      exact (claim_sameRecords hclaim).trans (carryOut_sameRecords g' ev item _ since _ _)

variable {rank} in
theorem sayCarton_sameRecords {g : Log} {r : SayCarton} {out : (CasePack × Bool) × Log}
    (h : sayCarton rank g r = .ok out) : SameRecords g out.2 := by
  unfold sayCarton at h
  obtain ⟨wanted,-,h⟩ := bind_ok h
  split_ifs at h
  exact say_sameRecords h

end Refile
end Spork
