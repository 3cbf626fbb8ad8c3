import Spork.Refile.Cartons

/-! What is live on one card filed again on another (`refile.rs`): each event mirrored, its
live figures copied into the mirror, and its photographs filed again there; moved, what was
filed is then taken from where it was. -/
namespace Spork
namespace Refile

open Newest

/-- Moved, what was filed is taken from where it was; copied, it stays. -/
inductive Filing
  | move | copy
  deriving DecidableEq, Repr

/-- What is on one card filed on another observable, as an act. -/
structure Refiling where
  ev : ClientEvent
  fromItem : Uuid
  was : Level
  target : Observable
  becomes : Level
  filing : Filing
  deriving DecidableEq, Repr

/-! ## Events and figures -/

/-- The events with anything live on them. Copying, not those copied to the target before. -/
def Log.sources (g : Log) (r : Refiling) : List Event :=
  g.events.filter fun e => e.observable.OnCard r.fromItem r.was ∧ g.Showing e ∧
    ¬(r.filing = .copy ∧ ∃ d ∈ g.events, d.derivedFrom = some e.id ∧ d.observable = r.target)

/-- A pack or a carton filed on an each was measured as supplied, and an each's
arrangement says nothing of its carton. -/
def Log.arrangement (g : Log) (r : Refiling) (presentation : Option Uuid) : Option Uuid :=
  if r.becomes = .each then presentation.or g.asSupplied
  else if r.was = .each then none
  else presentation

def Log.mirror (g : Log) (r : Refiling) (id : Uuid) (e : Event) : Event where
  id := id
  act := r.ev.act
  observable := r.target
  observedAt := e.observedAt
  recordedAt := r.ev.now
  recordedBy := r.ev.person
  assertedBy := none
  method := e.method
  channel := .derived
  derivedFrom := some e.id
  presentation := g.arrangement r e.presentation

def Log.mirrors (g : Log) (r : Refiling) : List Event := numbered g.drawn (g.sources r) (g.mirror r)

def Log.putEvents (g : Log) (es : List Event) : Log :=
  {g with events := g.events++es, drawn := g.drawn+es.length}

def Log.putFigures (g : Log) (os : List Figure) : Log :=
  {g with figures := g.figures++os, drawn := g.drawn+os.length}

/-- Each live figure with the event that mirrors its own by this act. -/
def Log.toCopy (g : Log) (r : Refiling) : List (Figure × Event) :=
  g.figures.flatMap fun o => (g.events.filter fun m =>
    g.Live o ∧ m.derivedFrom = some o.event ∧ m.act = r.ev.act ∧ m.observable = r.target).map (o,·)

def copyInto (id : Uuid) (p : Figure × Event) : Figure where
  id := id
  event := p.2.id
  observable := p.2.observable
  observedAt := p.2.observedAt
  act := p.2.act
  metric := p.1.metric
  reading := p.1.reading
  corrects := none
  retracts := none
  copiedFrom := some p.1.id

def Log.copies (g : Log) (r : Refiling) : List Figure := numbered g.drawn (g.toCopy r) copyInto

/-- The act of retracting on one observable. -/
def retraction (r : Refiling) (id : Uuid) (observable : Observable) : Event where
  id := id
  act := r.ev.act
  observable := observable
  observedAt := r.ev.submittedAt
  recordedAt := r.ev.now
  recordedBy := r.ev.person
  assertedBy := none
  method := .keyed
  channel := .keyed
  derivedFrom := none
  presentation := none

def retract (r : Refiling) (id : Uuid) (p : Figure × Event) : Figure where
  id := id
  event := p.2.id
  observable := p.1.observable
  observedAt := r.ev.submittedAt
  act := r.ev.act
  metric := p.1.metric
  reading := Reading.retracted
  corrects := none
  retracts := some p.1.id
  copiedFrom := none

/-- Moved, the figures are retracted where they were. -/
def Log.retractAll (g : Log) (r : Refiling) : Log :=
  let live := g.liveOn r.fromItem r.was
  let acts := numbered g.drawn (live.map Figure.observable).dedup (retraction r)
  let g := g.putEvents acts
  g.putFigures (numbered g.drawn
    (live.flatMap fun o => (acts.filter fun e => e.observable = o.observable).map (o,·)) (retract r))

/-! ## Photographs -/

variable (rank : Uuid → ℕ)

def Cut.key (c : Cut) : ℤ ×ₗ ℕ := toLex (c.recordedAt,rank c.id)

def newestCut (g : Log) (image : Uuid) : Option Cut := newest (Cut.key rank) (g.cuts.filter fun c => c.image = image)

/-- An act claimed, or one claimed before. -/
def Log.claimed (g : Log) (act : Act) : Log := (g.claim act).getD g

/-- The newest cut of one photograph put on another. -/
def Log.cutAgain (g : Log) (r : Refiling) (old new : Uuid) : Log :=
  match newestCut rank g old with
  | none => g
  | some c =>
    let act := Act.cut r.ev.act old
    let g := g.claimed act
    {g with
      cuts := g.cuts++[{c with id := g.drawn, image := new, act := act, person := r.ev.person, recordedAt := r.ev.now}]
      drawn := g.drawn+1}

def Log.shift (g : Log) (r : Refiling) (old new : Uuid) : Log :=
  let act := Act.move r.ev.act old
  let g := g.claimed act
  {g with moves := g.moves++[⟨old,new,act,r.ev.person⟩]}

def Log.putImage (g : Log) (i : Image) : Log := {g with images := g.images++[i], drawn := g.drawn+1}

/-- What each photograph of the card became, the newest first. -/
abbrev Filed := List (Uuid × Uuid)

def Filed.get (filed : Filed) (old : Uuid) : Option Uuid := (filed.find? fun p => p.1 = old).map Prod.snd

/-- One photograph filed again in the mirror of its event, where that has one. -/
def fileImage (r : Refiling) (mirrored : List Event) (st : Log × Filed) (image : Image) : Log × Filed :=
  match mirrored.find? fun m => m.derivedFrom = some image.event with
  | none => st
  | some into =>
    let new := st.1.drawn
    let sameAs := image.sameAs.map fun s => (st.2.get s).getD s
    let g := st.1.putImage {image with id := new, event := into.id, sameAs := sameAs}
    let g := g.cutAgain rank r image.id new
    let g := if r.filing = .move then g.shift r image.id new else g
    (g,(image.id,new) :: st.2)

def Image.key (i : Image) : ℤ ×ₗ ℕ := toLex (i.capturedAt,rank i.id)

/-- The photographs on a card that were not moved, in the order they were taken. -/
def inOrder (g : Log) (item : Uuid) (level : Level) : List Image :=
  ((g.unmovedOn item level).map Prod.fst).insertionSort fun i j => i.key rank ≤ j.key rank

/-! ## Filing again -/

/-- How many figures and photographs were filed. -/
structure Counted where
  figures : ℕ
  photos : ℕ
  deriving DecidableEq, Repr

/-- What is live on one card filed again on another. -/
def fileAgain (g : Log) (r : Refiling) : Log × Counted :=
  let mirrored := g.mirrors r
  let g := g.putEvents mirrored
  let copied := g.copies r
  let g := g.putFigures copied
  let g := if r.filing = .move then g.retractAll r else g
  let images := inOrder rank g r.fromItem r.was
  let out := images.foldl (fileImage rank r mirrored) (g,[])
  (out.1,⟨copied.length,out.2.length⟩)

end Refile
end Spork
