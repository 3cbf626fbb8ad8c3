import Spork.Outbox.Box
import Spork.Bench.Planned
import Spork.Lib.Rendering

/-! A press at the pack bench, kept as the writes it makes and sent on from where it got to
(client/app/outbound/pack/writes.ts, client/domain/acts.ts, client/domain/api.ts). -/
namespace Spork
namespace Outbox

open Bench (Uuid Spot Level PlannedParcel)

abbrev Text := List Char

/-- Where units stand: in a package, or at a location. -/
inductive Place
  | package (id : Uuid)
  | location (id : Uuid)
  deriving DecidableEq, Repr

/-- The picks behind a carton's row and what is left of each: a movement is one of them
once. -/
structure Picks where
  rows : List (Uuid × ℤ)
  distinct : (rows.map Prod.fst).Nodup
  deriving DecidableEq

/-- What one write of a press does. -/
inductive Write
  | plan (fulfilment : Uuid) (plan : List PlannedParcel)
  | repack (line : Uuid) (source destination : Place) (quantity : ℤ)
  | pickInto (line stock carton : Uuid) (quantity : ℤ)
  | handOver (line : Uuid) (quantity : ℤ) (carton location : Option Uuid)
  | takeOut (picks : Picks) (quantity : ℤ) (reason : Uuid)
  | startCarton (fulfilment preset dock : Uuid) (id : Option Uuid)
  | startAsIs (fulfilment item : Uuid) (level : Level) (config : Option Uuid) (dock : Uuid) (id : Option Uuid)
  | checkLine (line : Uuid) (expected seen : ℤ)
  | measure (carton : Uuid) (weightKg heightMm : Option String)
  | contain (carton pallet : Uuid) (spot : Option Spot)
  | place (carton location : Uuid)
  | seal (carton : Uuid) (hollow : Option Bool)
  | reopen (carton : Uuid)
  | discard (carton : Uuid)
  deriving DecidableEq

structure BenchWrite where
  part : Text
  what : Write
  deriving DecidableEq

/-- A press kept on the device until the server has every write of it. -/
structure HeldPress where
  label : String
  order : String
  /-- When the packer pressed. -/
  pressedAt : String
  /-- Every id minted for it, by name. -/
  ids : List (Text × Uuid)
  writes : List BenchWrite
  /-- How many have landed: sent again, it carries on from here. -/
  done : ℕ
  deriving DecidableEq

/-- What a request asks its act for an id by. -/
inductive Name
  | package | event | allocation | weight | height
  | correction (movement : Uuid)
  deriving DecidableEq

def Name.text : Name → Text
  | .package => ['p','a','c','k','a','g','e']
  | .event => ['e','v','e','n','t']
  | .allocation => ['a','l','l','o','c','a','t','i','o','n']
  | .weight => ['w','e','i','g','h','t']
  | .height => ['h','e','i','g','h','t']
  | .correction m => ['c','o','r','r','e','c','t','i','o','n']++ ':' :: Rendering.uuidText m

/-- `partOf`, for a write that has a part. -/
def partOf (part : Text) (name : Name) : Text := if part = [] then name.text else part++ ':' :: name.text

/-- One request of a write: the names it asks ids for, in turn, and whether it carries the
press's moment. -/
structure Call where
  path : String
  names : List Name
  dated : Bool
  deriving DecidableEq

/-- What taking out reverses, newest first, and what is left to take. -/
def takes : ℤ → List (Uuid × ℤ) → List (Uuid × ℤ) × ℤ
  | left, [] => ([],left)
  | left, (movement,available) :: rest =>
    if left ≤ 0 then ([],left)
    else
      let take := min left available
      let (more,after) := takes (left-take) rest
      ((movement,take) :: more,after)

/-- Whether a text was given. -/
def given : Option String → Bool
  | none => false
  | some s => s != ""

/-- The requests a write makes, in order. -/
def calls : Write → List Call
  | .plan _ _ => [⟨"/fulfilments/:id/pack-plan",[],false⟩]
  | .repack _ _ _ _ => [⟨"/repacks",[.event],true⟩]
  | .pickInto _ _ _ _ => [⟨"/allocations",[.allocation],false⟩,⟨"/picks",[.event],true⟩]
  | .handOver _ _ _ _ => [⟨"/handovers",[.event],true⟩]
  | .takeOut picks quantity _ =>
    (takes quantity picks.rows).1.map fun t => ⟨"/corrections",[.correction t.1],false⟩
  | .startCarton _ _ _ id => [⟨"/packages",(if id.isSome then [] else [.package])++[.event],true⟩]
  | .startAsIs _ _ _ _ _ id => [⟨"/packages",(if id.isSome then [] else [.package])++[.event],true⟩]
  | .checkLine _ _ _ => [⟨"/pack-checks",[.event],true⟩]
  | .measure _ weightKg heightMm =>
    (if given weightKg then [⟨"/observations",[.weight],true⟩] else [])++
      if given heightMm then [⟨"/observations",[.height],true⟩] else []
  | .contain _ _ _ => [⟨"/packages/:id/contain",[.event],true⟩]
  | .place _ _ => [⟨"/packages/:id/place",[.event],true⟩]
  | .seal _ _ => [⟨"/packages/:id/seal",[.event],true⟩]
  | .reopen _ => [⟨"/packages/:id/open",[.event],true⟩]
  | .discard _ => [⟨"/packages/:id/void",[.event],true⟩]

/-- Taking out throws when the picks hold less than was asked. -/
def short : Write → Bool
  | .takeOut picks quantity _ => decide ((takes quantity picks.rows).2 > 0)
  | _ => false

/-- A request as it is sent: which of a write's it is, with the ids it was handed. -/
structure Request where
  write : BenchWrite
  turn : ℕ
  call : Call
  ids : List Uuid
  moment : Option String
  deriving DecidableEq

/-- Where a send is: at a request's next name, with a fresh id not kept yet, at a request
without its answer, or with a write counted and not kept yet. -/
inductive Pos
  | asks (turn : ℕ) (got : List Uuid)
  | minted (turn : ℕ) (got : List Uuid)
  | awaits (turn : ℕ) (request : Request)
  | counted
  deriving DecidableEq

instance : Inhabited Pos := ⟨.asks 0 []⟩

/-- What a step of a send does beyond its own memory. -/
inductive Effect
  | quiet
  | keep
  | sends (request : Request)

/-- The next step of `sendOn`, where it is not waiting for an answer, over and not thrown. -/
def advance (mint : Text → Uuid) (body : HeldPress) : Pos → Option (HeldPress × Pos × Effect)
  | .asks turn got =>
    match body.writes[body.done]? with
    | none => none
    | some w =>
      match (calls w.what)[turn]? with
      | none => if short w.what then none else some ({body with done := body.done+1},.counted,.quiet)
      | some call =>
        match call.names[got.length]? with
        | none =>
          let r : Request := ⟨w,turn,call,got,if call.dated then some body.pressedAt else none⟩
          some (body,.awaits turn r,.sends r)
        | some name =>
          let full := partOf w.part name
          match body.ids.lookup full with
          | some found => some (body,.asks turn (got++[found]),.quiet)
          | none =>
            some ({body with ids := body.ids++[(full,mint full)]},.minted turn (got++[mint full]),.quiet)
  | .minted turn got => some (body,.asks turn got,.keep)
  | .awaits _ _ => none
  | .counted => some (body,.asks 0 [],.keep)

/-- An answer, for a send that waits for one. -/
def answered : Pos → Option Pos
  | .awaits turn _ => some (.asks (turn+1) [])
  | _ => none

/-- `sendOn` returns: every write has landed and is kept as landed. -/
def ended (body : HeldPress) (pos : Pos) : Bool := decide (pos = default) && (body.writes[body.done]?).isNone

/-- All that a step of a send can be: a write counted, a request sent, a name answered or
minted, and either kept. -/
theorem advance_cases {mint : Text → Uuid} {body body' : HeldPress} {pos pos' : Pos} {effect : Effect}
    (h : advance mint body pos = some (body',pos',effect)) :
    (∃ turn got w, pos = .asks turn got ∧ body.writes[body.done]? = some w ∧ (calls w.what)[turn]? = none ∧
      body' = {body with done := body.done+1} ∧ pos' = .counted ∧ effect = .quiet) ∨
    (∃ turn got w call, pos = .asks turn got ∧ body.writes[body.done]? = some w ∧ (calls w.what)[turn]? = some call ∧
      ∃ r : Request, r = ⟨w,turn,call,got,if call.dated then some body.pressedAt else none⟩ ∧
        call.names[got.length]? = none ∧ body' = body ∧ pos' = .awaits turn r ∧ effect = .sends r) ∨
    (∃ turn got w call name found, pos = .asks turn got ∧ body.writes[body.done]? = some w ∧
      (calls w.what)[turn]? = some call ∧ call.names[got.length]? = some name ∧
      body.ids.lookup (partOf w.part name) = some found ∧ body' = body ∧ pos' = .asks turn (got++[found]) ∧
      effect = .quiet) ∨
    (∃ turn got w call name, pos = .asks turn got ∧ body.writes[body.done]? = some w ∧
      (calls w.what)[turn]? = some call ∧ call.names[got.length]? = some name ∧
      body.ids.lookup (partOf w.part name) = none ∧
      body' = {body with ids := body.ids++[(partOf w.part name,mint (partOf w.part name))]} ∧
      pos' = .minted turn (got++[mint (partOf w.part name)]) ∧ effect = .quiet) ∨
    (∃ turn got, pos = .minted turn got ∧ body' = body ∧ pos' = .asks turn got ∧ effect = .keep) ∨
    pos = .counted ∧ body' = body ∧ pos' = .asks 0 [] ∧ effect = .keep := by
  cases pos with
  | asks turn got =>
    dsimp only [advance] at h
    split at h
    · cases h
    · rename_i w hw
      split at h
      · rename_i hcall
        split at h
        · cases h
        · cases h
          exact Or.inl ⟨turn,got,w,rfl,hw,hcall,rfl,rfl,rfl⟩
      · rename_i call hcall
        split at h
        · rename_i hname
          cases h
          exact Or.inr (Or.inl ⟨turn,got,w,call,rfl,hw,hcall,_,rfl,hname,rfl,rfl,rfl⟩)
        · rename_i name hname
          split at h
          · rename_i found hfound
            cases h
            exact Or.inr (Or.inr (Or.inl ⟨turn,got,w,call,name,found,rfl,hw,hcall,hname,hfound,rfl,rfl,rfl⟩))
          · rename_i hfound
            cases h
            exact Or.inr (Or.inr (Or.inr (Or.inl ⟨turn,got,w,call,name,rfl,hw,hcall,hname,hfound,rfl,rfl,rfl⟩)))
  | minted turn got =>
    cases h
    exact Or.inr (Or.inr (Or.inr (Or.inr (Or.inl ⟨turn,got,rfl,rfl,rfl,rfl⟩))))
  | awaits turn r => cases h
  | counted =>
    cases h
    exact Or.inr (Or.inr (Or.inr (Or.inr (Or.inr ⟨rfl,rfl,rfl,rfl⟩))))

theorem text_colons (n : Name) : n.text.count ':' = if ∃ m, n = .correction m then 1 else 0 := by
  cases n with
  | correction m =>
    rw [Name.text,List.count_append,List.count_cons_self,List.count_eq_zero.mpr (Rendering.uuidText_colon m)]
    simp
  | _ => simp [Name.text]

/-- No name is what another name has after a colon. -/
theorem text_ne_after (n n' : Name) (x : Text) : n.text ≠ x++ ':' :: n'.text := by
  intro h
  have hcount := congrArg (List.count ':') h
  rw [text_colons,List.count_append,List.count_cons_self] at hcount
  split at hcount
  · rename_i hcor
    obtain ⟨m,rfl⟩ := hcor
    have hx : ':' ∉ x := List.count_eq_zero.mp (by omega)
    have htext := (Rendering.append_mark_inj (by decide) hx h).2
    have hlen : n'.text.length = 36 := by rw [← htext,Rendering.uuidText_length]
    cases n' with
    | correction k => simp [Name.text] at hlen
    | _ => simp [Name.text] at hlen
  · omega

theorem text_injective {n n' : Name} (h : n.text = n'.text) : n = n' := by
  have hcount := congrArg (List.count ':') h
  rw [text_colons,text_colons] at hcount
  cases n with
  | correction m =>
    cases n' with
    | correction k =>
      have hsame := (Rendering.append_mark_inj (by decide) (by decide) h).2
      rw [Fin.ext (Rendering.uuidText_injective m.isLt k.isLt hsame)]
    | _ => simp at hcount
  | _ =>
    cases n' with
    | correction k => simp at hcount
    | _ => first | rfl | (exact absurd h (by decide))

/-- Ids are told apart by a write's part and the name it asks. -/
theorem partOf_injective {p p' : Text} {n n' : Name} (h : partOf p n = partOf p' n') : p = p' ∧ n = n' := by
  rw [partOf,partOf] at h
  split at h
  · rename_i hp
    split at h
    · rename_i hp'
      exact ⟨hp.trans hp'.symm,text_injective h⟩
    · exact absurd h (text_ne_after n n' p')
  · split at h
    · exact absurd h.symm (text_ne_after n' n p)
    · rcases List.append_eq_append_iff.mp h with ⟨a,hp',hrest⟩ | ⟨a,hp,hrest⟩
      · cases a with
        | nil => exact ⟨by simpa using hp'.symm,text_injective (List.cons.inj hrest).2⟩
        | cons c a =>
          obtain ⟨rfl,htext⟩ := List.cons.inj hrest
          exact absurd htext (text_ne_after n n' a)
      · cases a with
        | nil => exact ⟨by simpa using hp,(text_injective (List.cons.inj hrest).2).symm⟩
        | cons c a =>
          obtain ⟨rfl,htext⟩ := List.cons.inj hrest
          exact absurd htext (text_ne_after n' n a)

theorem takes_sublist (left : ℤ) (rows : List (Uuid × ℤ)) :
    ((takes left rows).1.map Prod.fst).Sublist (rows.map Prod.fst) := by
  induction rows generalizing left with
  | nil => exact List.Sublist.refl _
  | cons row rows ih =>
    rw [takes]
    split
    · exact List.nil_sublist _
    · exact (ih _).cons_cons row.1

/-- A write asks no name twice. -/
theorem names_nodup (w : Write) : ((calls w).flatMap (·.names)).Nodup := by
  cases w with
  | takeOut picks quantity reason =>
    have hrows : ((takes quantity picks.rows).1.map Prod.fst).Nodup := (takes_sublist _ _).nodup picks.distinct
    have hnames : (calls (.takeOut picks quantity reason)).flatMap (·.names) =
        ((takes quantity picks.rows).1.map Prod.fst).map Name.correction := by
      rw [calls,List.flatMap_map,List.map_map,← List.flatMap_singleton' (List.map _ _),List.flatMap_map]
      rfl
    rw [hnames]
    exact hrows.map fun a b hab => by cases hab; rfl
  | startCarton fulfilment preset dock id => cases id <;> simp [calls]
  | startAsIs fulfilment item level config dock id => cases id <;> simp [calls]
  | measure carton weightKg heightMm =>
    rw [calls]
    split <;> split <;> simp
  | _ => simp [calls]

/-- Which request of a press one is. -/
def Request.spot (r : Request) : BenchWrite × ℕ := (r.write,r.turn)

/-- A request as its press asks for it: the ids are those kept under its names. -/
structure Asked (press : HeldPress) (ids : List (Text × Uuid)) (r : Request) : Prop where
  call : (calls r.write.what)[r.turn]? = some r.call
  ids : r.ids.map some = r.call.names.map fun n => ids.lookup (partOf r.write.part n)
  moment : r.moment = if r.call.dated then some press.pressedAt else none

theorem Asked.unique {press : HeldPress} {ids : List (Text × Uuid)} {r r' : Request} (h : Asked press ids r)
    (h' : Asked press ids r') (hspot : r.spot = r'.spot) : r = r' := by
  obtain ⟨w,t,c,is,m⟩ := r
  obtain ⟨w',t',c',is',m'⟩ := r'
  obtain ⟨rfl,rfl⟩ : w = w' ∧ t = t' := Prod.mk.inj hspot
  obtain rfl : c = c' := Option.some.inj (h.call.symm.trans h'.call)
  obtain rfl : is = is' := (Option.some_injective _).list_map (h.ids.trans h'.ids.symm)
  obtain rfl : m = m' := h.moment.trans h'.moment.symm
  rfl

theorem lookup_append_of_some {ids more : List (Text × Uuid)} {name : Text} {id : Uuid}
    (h : ids.lookup name = some id) : (ids++more).lookup name = some id := by
  rw [List.lookup_append,h]
  rfl

/-- More ids kept leave what was asked as it was. -/
theorem Asked.mono {press : HeldPress} {ids more : List (Text × Uuid)} {r : Request} (h : Asked press ids r) :
    Asked press (ids++more) r := by
  refine ⟨h.call,?_,h.moment⟩
  rw [h.ids]
  refine List.map_congr_left fun n hn => ?_
  have hsome : ids.lookup (partOf r.write.part n) ∈ r.ids.map some := by
    rw [h.ids]
    exact List.mem_map_of_mem hn
  obtain ⟨id,-,hid⟩ := List.mem_map.mp hsome
  rw [← hid,lookup_append_of_some hid.symm]

/-- The ids a request has been handed so far are those kept under its first names. -/
def Got (body : HeldPress) (turn : ℕ) (got : List Uuid) : Prop :=
  ∀ w call, body.writes[body.done]? = some w → (calls w.what)[turn]? = some call →
    got.map some = (call.names.take got.length).map fun n => body.ids.lookup (partOf w.part n)

theorem Got.snoc {body : HeldPress} {turn : ℕ} {got : List Uuid} {w : BenchWrite} {call : Call} {name : Name} {id : Uuid}
    (h : Got body turn got) (hw : body.writes[body.done]? = some w) (hcall : (calls w.what)[turn]? = some call)
    (hname : call.names[got.length]? = some name) (hid : body.ids.lookup (partOf w.part name) = some id) :
    Got body turn (got++[id]) := by
  intro w' call' hw' hcall'
  cases hw.symm.trans hw'
  cases hcall.symm.trans hcall'
  obtain ⟨hlt,rfl⟩ := List.getElem?_eq_some_iff.mp hname
  rw [List.map_append,h w call hw hcall,List.length_append,List.length_singleton,← List.take_concat_get' _ _ hlt,
    List.map_append,List.map_singleton,List.map_singleton,hid]

/-- Ids minted later leave those handed out as they were. -/
theorem Got.mono {body : HeldPress} {turn : ℕ} {got : List Uuid} {more : List (Text × Uuid)} (h : Got body turn got) :
    Got {body with ids := body.ids++more} turn got := by
  intro w call hw hcall
  rw [h w call hw hcall]
  refine List.map_congr_left fun n hn => ?_
  have hsome : body.ids.lookup (partOf w.part n) ∈ got.map some := by
    rw [h w call hw hcall]
    exact List.mem_map_of_mem hn
  obtain ⟨id,-,hid⟩ := List.mem_map.mp hsome
  rw [← hid]
  exact (lookup_append_of_some hid.symm).symm

end Outbox
end Spork
