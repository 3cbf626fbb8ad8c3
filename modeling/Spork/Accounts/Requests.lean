import Spork.Lib.Runs
import Spork.Accounts.Credential
import Spork.Accounts.SessionLife

/-! Requests under way together: each signs somebody on, moves them to a site or changes their
password one statement at a time, and others' statements come between. -/
namespace Spork
namespace Accounts

/-- What somebody signing on asks for. -/
structure Ask where
  tenant : Option Uuid
  site : Option Uuid
  remember : Bool
  deriving DecidableEq, Repr

/-- A request by the statement it is to make next. One that opens a session carries the number of
the proof of who they are that it goes back to. -/
inductive Request (τ Φ : Type*)
  | credentialForLogin (person : Option Uuid) (password : String) (ask : Ask)
  | recordSignOn (person : Uuid) (passwordOk : Bool) (proof : Option ℕ) (ask : Ask)
  | membershipsOf (person : Uuid) (proof : ℕ) (ask : Ask)
  | sessionOpen (person tenant : Uuid) (site : Option Uuid) (policy : Policy) (proof : ℕ) (instead : Option τ)
  | sessionRevoke (tok : τ)
  | resolveToChoose (tok : τ) (wanted : Uuid)
  | siteOf (tok : τ) (person tenant : Uuid) (remembered : Bool) (proof : ℕ) (wanted : Uuid)
  | resolveToChange (tok : τ) (current new : String) (stored : Option Φ)
  | credentialPhc (tok : τ) (person : Uuid) (current new : String) (stored : Option Φ)
  | recordChange (tok : τ) (person : Uuid) (phc : Φ) (currentOk : Bool) (new : String) (stored : Option Φ)
  | credentialChangePassword (tok : τ) (person : Uuid) (phc newPhc : Φ)
  | sessionRevokeOthers (tok : τ) (person : Uuid)
  deriving DecidableEq, Repr

/-- The tables, the requests under way, how many times somebody has proved who they are, and for
each session the proof it goes back to. -/
structure World (τ Φ : Type*) where
  tables : Tables τ
  credentials : Uuid → Option (Credential Φ)
  active : Uuid → Bool
  requests : List (Request τ Φ)
  proofs : ℕ
  roots : List ℕ

/-- A request as it arrives. A passkey's assertion has been verified by then. -/
inductive Arrival (τ Φ : Type*)
  | signOn (person : Option Uuid) (password : String) (ask : Ask)
  | passkey (person : Uuid) (ask : Ask)
  | chooseSite (tok : τ) (wanted : Uuid)
  | changePassword (tok : τ) (current new : String) (stored : Option Φ)
  deriving DecidableEq, Repr

inductive Doing (τ Φ : Type*)
  | arrive (a : Arrival τ Φ)
  /-- A request makes its next statement; a session it opens has the token given. -/
  | go (k : ℕ) (minted : τ)
  | drop (k : ℕ)
  /-- A statement of any other request. -/
  | elsewhere (e : Statement τ)
  deriving DecidableEq, Repr

variable {τ Φ : Type*}

/-- The tenants a person is a member of. -/
def membershipsOf (members : List Member) (person : Uuid) : List Uuid :=
  (members.filter fun m => m.person = person ∧ m.leftAt = none).map Member.tenant

/-- The tenant a session is for: the one asked for, or the only one. -/
def chosenTenant (members : List Member) (person : Uuid) (wanted : Option Uuid) : Option Uuid :=
  match wanted with
  | some t => if t ∈ membershipsOf members person then some t else none
  | none =>
    match membershipsOf members person with
    | [t] => some t
    | _ => none

def World.setCredential (person : Uuid) (c : Credential Φ) (w : World τ Φ) : World τ Φ :=
  {w with credentials := Function.update w.credentials person (some c)}

def World.record (now : ℤ) (person : Uuid) (succeeded : Bool) (w : World τ Φ) : World τ Φ :=
  match w.credentials person with
  | none => w
  | some c => w.setCredential person (credentialRecordAttempt now succeeded c)

section
variable [DecidableEq τ] [DecidableEq Φ] (verify : String → Φ → Bool)

/-- The session a token resolves to, with the proof it goes back to. -/
def World.caller (now : ℤ) (tok : τ) (w : World τ Φ) : Option (Session τ × ℕ) :=
  match w.tables.resolved now tok with
  | [i] => (w.tables.sessions[i]?).bind fun s => (w.roots[i]?).map fun n => (s,n)
  | _ => none

def World.resolve (now : ℤ) (tok : τ) (w : World τ Φ) : World τ Φ := {w with tables := w.tables.sessionResolve now tok}

/-- What a request's next statement does, and the request after it where there is more to do. -/
def World.next (now : ℤ) (minted : τ) (w : World τ Φ) : Request τ Φ → World τ Φ × Option (Request τ Φ)
  | .credentialForLogin person password ask =>
    match person.bind fun p => (w.credentials p).bind fun c => c.phc.map fun phc => (p,c,phc) with
    | none => (w,none)
    | some (p,c,phc) =>
      if verify password phc = true ∧ w.active p = true ∧ ¬c.Locked now then
        ({w with proofs := w.proofs+1},some (.recordSignOn p true (some w.proofs) ask))
      else (w,some (.recordSignOn p (verify password phc) none ask))
  | .recordSignOn person passwordOk proof ask =>
    (w.record now person passwordOk,proof.map fun n => .membershipsOf person n ask)
  | .membershipsOf person proof ask =>
    (w,(chosenTenant w.tables.members person ask.tenant).map fun tenant =>
      .sessionOpen person tenant ask.site (Policy.new ask.remember) proof none)
  | .sessionOpen person tenant site policy proof instead =>
    match w.tables.sessionOpen now person tenant site minted policy with
    | none => (w,none)
    | some t => ({w with tables := t, roots := w.roots++[proof]},instead.map .sessionRevoke)
  | .sessionRevoke tok => ({w with tables := w.tables.sessionRevoke now tok},none)
  | .resolveToChoose tok wanted =>
    (w.resolve now tok,(w.caller now tok).map fun (s,n) => .siteOf tok s.person s.tenant s.remembered n wanted)
  | .siteOf tok person tenant remembered proof wanted =>
    (w,if w.tables.HasSite wanted tenant ∧ tenant ∈ membershipsOf w.tables.members person then
      some (.sessionOpen person tenant (some wanted) (Policy.new remembered) proof (some tok)) else none)
  | .resolveToChange tok current new stored =>
    (w.resolve now tok,(w.caller now tok).map fun (s,_) => .credentialPhc tok s.person current new stored)
  | .credentialPhc tok person current new stored =>
    match (w.credentials person).bind fun c => if c.Locked now then none else c.phc with
    | none => (w,none)
    | some phc => (w,some (.recordChange tok person phc (verify current phc) new stored))
  | .recordChange tok person phc currentOk new stored =>
    (w.record now person currentOk,
      if currentOk = true ∧ checkPassword new ∧ ¬verify new phc = true then
        stored.map fun newPhc => .credentialChangePassword tok person phc newPhc else none)
  | .credentialChangePassword tok person phc newPhc =>
    match (w.credentials person).bind (Accounts.credentialChangePassword phc newPhc) with
    | none => (w,none)
    | some c => (w.setCredential person c,some (.sessionRevokeOthers tok person))
  | .sessionRevokeOthers tok person => ({w with tables := w.tables.sessionRevokeOthers now person tok},none)

/-- What happens next, at its moment. -/
def World.step (w : World τ Φ) (e : ℤ × Doing τ Φ) : Option (World τ Φ) :=
  match e with
  | (_,.arrive (.signOn person password ask)) => some {w with requests := w.requests++[.credentialForLogin person password ask]}
  | (_,.arrive (.passkey person ask)) =>
    some {w with
      requests := w.requests++[.membershipsOf person w.proofs ask]
      proofs := w.proofs+1}
  | (_,.arrive (.chooseSite tok wanted)) => some {w with requests := w.requests++[.resolveToChoose tok wanted]}
  | (_,.arrive (.changePassword tok current new stored)) =>
    some {w with requests := w.requests++[.resolveToChange tok current new stored]}
  | (now,.go k minted) => (w.requests[k]?).map fun r =>
    let (after,more) := w.next verify now minted r
    {after with requests := w.requests.eraseIdx k++more.toList}
  | (_,.drop k) => some {w with requests := w.requests.eraseIdx k}
  | (now,.elsewhere e) =>
    match e with
    | .sessionOpen .. => none
    | _ => some {w with tables := w.tables.take now e}

end

/-- Who a request is to open a session for, and the proof it goes back to. -/
def Request.claim : Request τ Φ → Option (Uuid × ℕ)
  | .recordSignOn person _ proof _ => proof.map fun n => (person,n)
  | .membershipsOf person proof _ => some (person,proof)
  | .sessionOpen person _ _ _ proof _ => some (person,proof)
  | .siteOf _ person _ _ proof _ => some (person,proof)
  | _ => none

end Accounts
end Spork
