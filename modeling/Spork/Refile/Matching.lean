import Spork.Lib.Runs
import Spork.Refile.FileAgain

/-! Matching a sibling: what another item of the family has on some of its cards copied to
the same cards of this one (`refile.rs`, `match_family`), and runs of matches with case
packs said in between. -/
namespace Spork
namespace Refile

open Requests

variable (rank : Uuid → ℕ)

/-- `POST /items/{id}/match`, its levels read already. -/
structure Match where
  item : Uuid
  fromItem : Uuid
  levels : List Level
  ev : ClientEvent
  deriving DecidableEq, Repr

structure Refiled where
  figures : ℕ
  photos : ℕ
  replay : Bool
  deriving DecidableEq, Repr

/-- Two counts that say different things. -/
def differ (a b : Option ℤ) : Bool := a.any fun a => b.any fun b => a ≠ b

/-- Both items, of one family. -/
def family (g : Log) (m : Match) : Except ApiError Unit :=
  match g.items.find? fun i => i.id = m.item with
  | none => .error .notFound
  | some a =>
    match g.items.find? fun i => i.id = m.fromItem with
    | none => .error .notInCatalogue
    | some b => if a.style.isSome && a.style = b.style then .ok () else .error .notFamily

/-- A pack or carton is the same thing only holding the same: what theirs holds, said of
ours where nothing is. -/
def samePacks (g : Log) (m : Match) : Except ApiError Log :=
  if m.levels.all (· = .each) then .ok g else
  match inForce rank g m.fromItem m.ev.submittedAt,inForce rank g m.item m.ev.submittedAt with
  | some t,some o =>
    if differ t.unitsPerInner o.unitsPerInner || differ t.innersPerCarton o.innersPerCarton then .error .holdsAnother
    else .ok g
  | some t,none =>
    (say rank g {m.ev with act := .carton m.ev.act} m.item t.counts false m.ev.submittedAt).bind fun out => .ok out.2
  | none,_ => .ok g

/-- What is checked and said before anything is copied; nothing for a replay. -/
def prepare (g : Log) (m : Match) : Except ApiError (Option Log) :=
  if m.levels = [] then .error .noCards
  else if m.fromItem = m.item then .error .thisItem
  else (family g m).bind fun _ =>
  match g.claim m.ev.act with
  | none => .ok none
  | some g => (samePacks rank g m).bind fun g => .ok (some g)

/-- One card copied to the same card of this item. -/
def Match.refiling (m : Match) (target : Observable) (level : Level) : Refiling :=
  ⟨m.ev,m.fromItem,level,target,level,.copy⟩

/-- What was copied so far, and whether any card had anything. -/
structure Matching where
  log : Log
  figures : ℕ
  photos : ℕ
  any : Bool
  deriving DecidableEq, Repr

def matchLevel (m : Match) (st : Matching) (level : Level) : Except ApiError Matching :=
  if st.log.holds m.fromItem level then
    (cardOf rank st.log m.item level m.ev.submittedAt).bind fun target =>
    let (g,n) := fileAgain rank st.log (m.refiling target level)
    .ok ⟨g,st.figures+n.figures,st.photos+n.photos,true⟩
  else .ok st

def matchLevels (m : Match) (st : Matching) : List Level → Except ApiError Matching
  | [] => .ok st
  | l :: ls => (matchLevel rank m st l).bind fun st => matchLevels m st ls

/-- Copy what another item of the family has on some of its cards to the same cards of this
one. -/
def matchFamily (g : Log) (m : Match) : Except ApiError (Refiled × Log) :=
  (prepare rank g m).bind fun prepared =>
  match prepared with
  | none => .ok (⟨0,0,true⟩,g)
  | some g =>
    (matchLevels rank m ⟨g,0,0,false⟩ m.levels).bind fun st =>
    if st.any then .ok (⟨st.figures,st.photos,false⟩,st.log) else .error .nothingToMatch

/-- What comes to the server. -/
inductive Request
  | matching (m : Match)
  | carton (r : SayCarton)
  deriving DecidableEq, Repr

/-- A request accepted, in one transaction. -/
def step (g : Log) : Request → Option Log
  | .matching m => ((matchFamily rank g m).map Prod.snd).toOption
  | .carton r => ((sayCarton rank g r).map Prod.snd).toOption

end Refile
end Spork
