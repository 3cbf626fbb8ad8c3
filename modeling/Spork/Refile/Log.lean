import Spork.Lib.Newest
import Spork.Lib.Origin

/-! What is recorded of an item's own cards: the events, the figures and photographs taken
in them, and what came of each (`refile.rs`, `observable_for`). -/
namespace Spork
namespace Refile

abbrev Uuid := ℕ

/-- An item's own card: its each, its pack or its carton. -/
inductive Level
  | each | inner | carton
  deriving DecidableEq, Repr

/-- What an item's card measures: a pack or a carton is one under a case pack. -/
structure Observable where
  item : Uuid
  level : Level
  config : Option Uuid
  deriving DecidableEq, Repr

/-- A retry identity: one sent, or one named from another. -/
inductive Act
  | sent (id : Uuid)
  | carton (act : Act)
  | cut (act : Act) (image : Uuid)
  | move (act : Act) (image : Uuid)
  deriving DecidableEq, Repr

inductive Method
  | instrument | scan | keyed | derived | estimated | transcribed | asserted
  deriving DecidableEq, Repr

inductive Channel
  | edi | portal | csv | email | api | keyed | scale | scanner | derived
  deriving DecidableEq, Repr

/-- A row of `observation_event`. No party asserted what is our own. -/
structure Event where
  id : Uuid
  act : Act
  observable : Observable
  observedAt : ℤ
  recordedAt : ℤ
  recordedBy : Uuid
  assertedBy : Option Uuid
  method : Method
  channel : Channel
  derivedFrom : Option Uuid
  presentation : Option Uuid
  deriving DecidableEq, Repr

inductive Value
  | numeric (n : ℤ)
  | instant (moment : ℤ)
  | code (id : Uuid)
  | boolean (b : Bool)
  | text (s : String)
  deriving DecidableEq, Repr

inductive Absent
  | notMeasured | notApplicable | unreadable | retracted
  deriving DecidableEq, Repr

/-- What a figure says: a value with how sure it is and what was keyed, or why there is
none. -/
structure Reading where
  value : Option Value
  uncertainty : Option ℤ
  absent : Option Absent
  entered : Option (ℚ × Uuid)
  confidence : Option ℤ
  deriving DecidableEq, Repr

/-- Why there is none, and nothing else. -/
def Reading.retracted : Reading := ⟨none,none,some .retracted,none,none⟩

/-- A row of `observation`. `copiedFrom` is no column: it is the row an `INSERT … SELECT`
copied it from. -/
structure Figure where
  id : Uuid
  event : Uuid
  observable : Observable
  observedAt : ℤ
  act : Act
  metric : Uuid
  reading : Reading
  corrects : Option Uuid
  retracts : Option Uuid
  copiedFrom : Option Uuid
  deriving DecidableEq, Repr

inductive Face
  | front | back | left | right | top | bottom | label
  deriving DecidableEq, Repr

/-- A row of `observation_image`, its bytes by their digest. -/
structure Image where
  id : Uuid
  event : Uuid
  face : Face
  digest : String
  capturedAt : ℤ
  sameAs : Option Uuid
  deriving DecidableEq, Repr

/-- A row of `observation_image_cut`. -/
structure Cut where
  id : Uuid
  image : Uuid
  act : Act
  person : Uuid
  corners : List ℚ
  digest : String
  recordedAt : ℤ
  deriving DecidableEq, Repr

/-- A row of `observation_image_move`. -/
structure Shift where
  image : Uuid
  movedTo : Uuid
  act : Act
  person : Uuid
  deriving DecidableEq, Repr

structure Item where
  id : Uuid
  style : Option Uuid
  deriving DecidableEq, Repr

/-- A row of `item_packing_config`, in force from a day. -/
structure CasePack where
  id : Uuid
  item : Uuid
  unitsPerInner : Option ℤ
  innersPerCarton : Option ℤ
  effectiveFrom : ℤ
  deriving DecidableEq, Repr

/-- The tables. New rows take ids from `drawn` on. -/
structure Log where
  items : List Item
  packs : List CasePack
  acts : List Act
  events : List Event
  figures : List Figure
  acceptances : List Uuid
  images : List Image
  cuts : List Cut
  moves : List Shift
  asSupplied : Option Uuid
  drawn : Uuid
  deriving DecidableEq, Repr

/-- An act as its request gives it, in a transaction at `now`. -/
structure ClientEvent where
  act : Act
  person : Uuid
  submittedAt : ℤ
  now : ℤ
  deriving DecidableEq, Repr

inductive ApiError
  | notFound
  /-- "say which cards to match: its each, its pack or its carton" -/
  | noCards
  /-- "that is this item" -/
  | thisItem
  /-- "the item to match isn't in the catalogue" -/
  | notInCatalogue
  /-- "… isn't of …'s family" -/
  | notFamily
  /-- "a carton of … doesn't hold what a carton of … does, …" -/
  | holdsAnother
  /-- "… has nothing recorded on those cards to match" -/
  | nothingToMatch
  /-- "nothing says what a carton of this item holds on …, so its … isn't yet a definite
  thing to measure: say what its carton holds first" -/
  | noCasePack (day : ℤ) (level : Level)
  /-- "a carton of it holds packs of another count: say how many it holds as well" -/
  | packsOfAnother
  /-- "client_event exists but no carton is on file; incomplete act" -/
  | incompleteAct
  /-- "a carton holds from 1 to … of an item, not …" -/
  | cartonHolds (n : ℤ)
  /-- "a pack holds from 1 to … of an item, not …" -/
  | packHolds (n : ℤ)
  /-- "that is the card it is on" -/
  | sameCard
  /-- "what a carton holds is said moving to its carton or pack" -/
  | eachHolds
  /-- "the item it would move to isn't in the catalogue" -/
  | moveNotInCatalogue
  /-- "there is nothing recorded on that card to move" -/
  | nothingToMove
  /-- "the card it would move to has figures or photos of its own: move those away first" -/
  | hasItsOwn
  /-- "its carton is said to hold … already: put that right under Holds first" -/
  | saidToHold (n : ℤ)
  deriving DecidableEq, Repr

/-! ## What is live -/

/-- `LIVE`: nothing retracts or corrects it, and it is no retraction itself. -/
def Log.Live (g : Log) (o : Figure) : Prop :=
  o.retracts = none ∧ (∀ r ∈ g.figures, r.retracts ≠ some o.id) ∧ ∀ c ∈ g.figures, c.corrects ≠ some o.id

instance (g : Log) (o : Figure) : Decidable (g.Live o) := inferInstanceAs (Decidable (_ ∧ _ ∧ _))

/-- `UNMOVED`. -/
def Log.Unmoved (g : Log) (i : Image) : Prop := ∀ m ∈ g.moves, m.image ≠ i.id

instance (g : Log) (i : Image) : Decidable (g.Unmoved i) := inferInstanceAs (Decidable (∀ m ∈ g.moves, _))

/-- `CARD`. -/
def Observable.OnCard (o : Observable) (item : Uuid) (level : Level) : Prop := o.item = item ∧ o.level = level

instance (o : Observable) (item : Uuid) (level : Level) : Decidable (o.OnCard item level) :=
  inferInstanceAs (Decidable (_ ∧ _))

/-- An event with anything live on it. -/
def Log.Showing (g : Log) (e : Event) : Prop :=
  (∃ o ∈ g.figures, o.event = e.id ∧ g.Live o) ∨ ∃ i ∈ g.images, i.event = e.id ∧ g.Unmoved i

instance (g : Log) (e : Event) : Decidable (g.Showing e) := inferInstanceAs (Decidable (_ ∨ _))

/-- The figures live on a card. -/
def Log.liveOn (g : Log) (item : Uuid) (level : Level) : List Figure :=
  g.figures.filter fun o => o.observable.OnCard item level ∧ g.Live o

/-- The photographs on a card that were not moved, each with the event it was taken in. -/
def Log.unmovedOn (g : Log) (item : Uuid) (level : Level) : List (Image × Event) :=
  g.images.flatMap fun i => ((g.events.filter fun e => e.id = i.event ∧ e.observable.OnCard item level ∧ g.Unmoved i).map (i,·))

/-- When the first of what is live on a card was taken. -/
def Log.firstRecorded (g : Log) (item : Uuid) (level : Level) : Option ℤ :=
  ((g.liveOn item level).map Figure.observedAt++(g.unmovedOn item level).map fun p => p.2.observedAt).min?

/-- Whether a card has anything live on it. -/
def Log.holds (g : Log) (item : Uuid) (level : Level) : Bool := (g.firstRecorded item level).isSome

theorem Log.holds_iff {g : Log} {item : Uuid} {level : Level} :
    g.holds item level = true ↔ g.liveOn item level ≠ [] ∨ g.unmovedOn item level ≠ [] := by
  rw [Log.holds,Log.firstRecorded,List.isSome_min?_iff]
  simp only [ne_eq,List.append_eq_nil_iff,List.map_eq_nil_iff]
  tauto

/-! ## Where copies come from -/

/-- The event following `derived_from_event_id` leads to. -/
def Log.firstEvent (g : Log) (e : Uuid) : Uuid := Origin.origin Event.id Event.derivedFrom g.events e

/-- The figure an event's figure was copied from, directly or through others. -/
def Log.recorded (g : Log) (o : Uuid) : Uuid := Origin.origin Figure.id Figure.copiedFrom g.figures o

/-- Rows given the next ids. -/
def numbered {α β : Type*} (first : Uuid) (xs : List α) (make : Uuid → α → β) : List β :=
  (xs.zipIdx first).map fun p => make p.2 p.1

section
variable {α β : Type*} {first : Uuid} {xs : List α} {make : Uuid → α → β}

@[simp] theorem length_numbered : (numbered first xs make).length = xs.length := by simp [numbered]

theorem mem_numbered_iff {b : β} :
    b ∈ numbered first xs make ↔ ∃ i, ∃ h : i < xs.length, b = make (first+i) xs[i] := by
  constructor
  · intro h
    obtain ⟨⟨a,id⟩,hmem,rfl⟩ := List.mem_map.mp h
    obtain ⟨hle,hlt,ha⟩ := List.mem_zipIdx hmem
    exact ⟨id-first,by omega,by rw [ha,Nat.add_sub_cancel' hle]⟩
  · rintro ⟨i,hi,rfl⟩
    refine List.mem_map.mpr ⟨(xs[i],first+i),?_,rfl⟩
    exact List.mk_mem_zipIdx_iff_le_and_getElem?_sub.mpr (by simp [hi])

theorem map_numbered {key : β → Uuid} (hkey : ∀ id a, key (make id a) = id) :
    (numbered first xs make).map key = List.range' first xs.length := by
  rw [numbered,List.map_map,← List.zipIdx_map_snd first xs]
  exact List.map_congr_left fun p _ => hkey p.2 p.1

end

end Refile
end Spork
