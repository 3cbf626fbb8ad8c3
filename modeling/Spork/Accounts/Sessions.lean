import Mathlib

/-! Who is signed in: sessions and memberships, and what the server asks of the two tables, each
statement by itself at its moment. -/
namespace Spork
namespace Accounts

abbrev Uuid := ℕ

/-- Moments and spans are in microseconds, as the database keeps them. -/
def minutes (n : ℤ) : ℤ := n*60000000

def idleTimeoutMinutes : ℤ := 30
def absoluteLifetimeHours : ℤ := 8
def rememberedIdleDays : ℤ := 7
def rememberedLifetimeDays : ℤ := 30

/-- How old a remembered session's token may get before it is replaced. -/
def rotateAfterHours : ℤ := 24

/-- The two limits a session is opened with. -/
structure Policy where
  remembered : Bool
  idleMinutes : ℤ
  lifetimeMinutes : ℤ
  deriving DecidableEq, Repr

def Policy.new (remembered : Bool) : Policy :=
  if remembered then ⟨remembered,rememberedIdleDays*24*60,rememberedLifetimeDays*24*60⟩
  else ⟨remembered,idleTimeoutMinutes,absoluteLifetimeHours*60⟩

theorem Policy.new_pos (remembered : Bool) :
    0 < (Policy.new remembered).idleMinutes ∧ (Policy.new remembered).idleMinutes < (Policy.new remembered).lifetimeMinutes := by
  cases remembered <;> decide

inductive Role
  | administrator | operator
  deriving DecidableEq, Repr

/-- A membership: of a person in a tenant, over when they leave it. -/
structure Member where
  person : Uuid
  tenant : Uuid
  role : Role
  joinedAt : ℤ
  leftAt : Option ℤ
  deriving DecidableEq, Repr

def Current (members : List Member) (person tenant : Uuid) : Prop :=
  ∃ m ∈ members, m.person = person ∧ m.tenant = tenant ∧ m.leftAt = none

instance (members : List Member) (person tenant : Uuid) : Decidable (Current members person tenant) :=
  inferInstanceAs (Decidable (∃ m ∈ members, _))

/-- A session, known by the digest of its token. -/
structure Session (τ : Type*) where
  token : τ
  person : Uuid
  tenant : Uuid
  site : Option Uuid
  createdAt : ℤ
  lastSeenAt : ℤ
  expiresAt : ℤ
  revokedAt : Option ℤ
  idle : ℤ
  remembered : Bool
  /-- The token before the last rotation, and when that was. -/
  previous : Option (τ × ℤ)
  deriving DecidableEq, Repr

variable {τ : Type*} [DecidableEq τ]

def Session.tokens (s : Session τ) : List τ := s.token :: (s.previous.map Prod.fst).toList

/-- A token names a session until another replaces it, and for two minutes after. -/
def Session.Named (now : ℤ) (tok : τ) (s : Session τ) : Prop :=
  s.token = tok ∨ ∃ p ∈ s.previous, p.1 = tok ∧ now-minutes 2 < p.2

def Session.Live (now : ℤ) (s : Session τ) : Prop := s.revokedAt = none ∧ now < s.expiresAt ∧ now-s.idle < s.lastSeenAt

def Session.Answers (members : List Member) (now : ℤ) (tok : τ) (s : Session τ) : Prop :=
  s.Named now tok ∧ s.Live now ∧ Current members s.person s.tenant

instance (now : ℤ) (tok : τ) (s : Session τ) : Decidable (s.Named now tok) := inferInstanceAs (Decidable (_ ∨ _))
instance (now : ℤ) (s : Session τ) : Decidable (s.Live now) := inferInstanceAs (Decidable (_ ∧ _))
instance (members : List Member) (now : ℤ) (tok : τ) (s : Session τ) : Decidable (s.Answers members now tok) :=
  inferInstanceAs (Decidable (_ ∧ _))

/-- When the token a session has was issued. -/
def Session.issuedAt (s : Session τ) : ℤ := (s.previous.map Prod.snd).getD s.createdAt

/-- Only the token a session has may be rotated, once it is old enough. -/
def Session.Due (now : ℤ) (tok : τ) (after : ℤ) (s : Session τ) : Prop :=
  s.token = tok ∧ s.revokedAt = none ∧ now < s.expiresAt ∧ s.issuedAt < now-after

instance (now : ℤ) (tok : τ) (after : ℤ) (s : Session τ) : Decidable (s.Due now tok after) := inferInstanceAs (Decidable (_ ∧ _))

def Session.touch (now : ℤ) (s : Session τ) : Session τ := {s with lastSeenAt := now}

def Session.rotate (now : ℤ) (new : τ) (s : Session τ) : Session τ := {s with token := new, previous := some (s.token,now)}

def Session.revokeWhere (c : Prop) [Decidable c] (now : ℤ) (s : Session τ) : Session τ :=
  if c ∧ s.revokedAt = none then {s with revokedAt := some now} else s

def Session.opened (now : ℤ) (person tenant : Uuid) (site : Option Uuid) (tok : τ) (policy : Policy) : Session τ :=
  ⟨tok,person,tenant,site,now,now,now+minutes policy.lifetimeMinutes,none,minutes policy.idleMinutes,policy.remembered,none⟩

/-- The tables, with each site and the tenant it is of. A session is known by its row's number. -/
structure Tables (τ : Type*) where
  members : List Member
  sites : List (Uuid × Uuid)
  sessions : List (Session τ)
  deriving DecidableEq, Repr

/-- A site is of the tenant. -/
def Tables.HasSite (site tenant : Uuid) (t : Tables τ) : Prop := (site,tenant) ∈ t.sites

instance hasSiteDecidable (site tenant : Uuid) (t : Tables τ) : Decidable (t.HasSite site tenant) :=
  inferInstanceAs (Decidable (_ ∈ _))

omit [DecidableEq τ] in
theorem Tables.HasSite.congr {site tenant : Uuid} {t t' : Tables τ} (h : t.HasSite site tenant) (hsites : t'.sites = t.sites) :
    t'.HasSite site tenant := by
  rw [Tables.HasSite] at h ⊢
  rwa [hsites]

/-- A token is of one session, and so is one that was replaced. -/
def Tables.Unique (t : Tables τ) : Prop :=
  (t.sessions.map Session.token).Nodup ∧ (t.sessions.filterMap fun s => s.previous.map Prod.fst).Nodup

instance (t : Tables τ) : Decidable t.Unique := inferInstanceAs (Decidable (_ ∧ _))

/-- A write that the tables' indexes do not refuse. -/
def Tables.checked (t : Tables τ) : Option (Tables τ) := if t.Unique then some t else none

def Tables.mapSessions (f : Session τ → Session τ) (t : Tables τ) : Tables τ := {t with sessions := t.sessions.map f}

def Tables.sessionOpen (now : ℤ) (person tenant : Uuid) (site : Option Uuid) (tok : τ) (policy : Policy) (t : Tables τ) :
    Option (Tables τ) :=
  if Current t.members person tenant ∧ ∀ s ∈ site, t.HasSite s tenant then
    Tables.checked {t with sessions := t.sessions++[Session.opened now person tenant site tok policy]}
  else none

/-- The rows a token resolves to. -/
def Tables.resolved (now : ℤ) (tok : τ) (t : Tables τ) : List ℕ :=
  (List.range t.sessions.length).filter fun i => ∃ s ∈ t.sessions[i]?, s.Answers t.members now tok

/-- They are touched as they are read. -/
def Tables.sessionResolve (now : ℤ) (tok : τ) (t : Tables τ) : Tables τ :=
  t.mapSessions fun s => if s.Answers t.members now tok then s.touch now else s

def Tables.sessionRotate (now : ℤ) (tok new : τ) (after : ℤ) (t : Tables τ) : Option (Tables τ) :=
  Tables.checked (t.mapSessions fun s => if s.Due now tok after then s.rotate now new else s)

def Tables.sessionRevoke (now : ℤ) (tok : τ) (t : Tables τ) : Tables τ :=
  t.mapSessions fun s => s.revokeWhere (tok ∈ s.tokens) now

def Tables.sessionRevokeOthers (now : ℤ) (person : Uuid) (keep : τ) (t : Tables τ) : Tables τ :=
  t.mapSessions fun s => s.revokeWhere (s.person = person ∧ keep ∉ s.tokens) now

/-- A person joins a tenant, or is back in it as what they are now. -/
def joined (now : ℤ) (person tenant : Uuid) (role : Role) (members : List Member) : List Member :=
  if ∃ m ∈ members, m.person = person ∧ m.tenant = tenant then
    members.map fun m => if m.person = person ∧ m.tenant = tenant ∧ m.leftAt ≠ none then
      {m with role := role, joinedAt := now, leftAt := none} else m
  else members++[⟨person,tenant,role,now,none⟩]

def roleSet (person tenant : Uuid) (role : Role) (members : List Member) : List Member :=
  members.map fun m => if m.person = person ∧ m.tenant = tenant ∧ m.leftAt = none then {m with role := role} else m

def left (now : ℤ) (person tenant : Uuid) (members : List Member) : List Member :=
  members.map fun m => if m.person = person ∧ m.tenant = tenant ∧ m.leftAt = none then {m with leftAt := some now} else m

/-- Leaving a tenant ends the person's sessions in it. -/
def Tables.leave (now : ℤ) (person tenant : Uuid) (t : Tables τ) : Tables τ :=
  {t.mapSessions fun s => s.revokeWhere (s.person = person ∧ s.tenant = tenant) now with members := left now person tenant t.members}

/-- What the server asks of the tables. -/
inductive Statement (τ : Type*)
  | sessionOpen (person tenant : Uuid) (site : Option Uuid) (tok : τ) (policy : Policy)
  | sessionResolve (tok : τ)
  | sessionRotate (tok new : τ) (after : ℤ)
  | sessionRevoke (tok : τ)
  | sessionRevokeOthers (person : Uuid) (keep : τ)
  | join (person tenant : Uuid) (role : Role)
  | setRole (person tenant : Uuid) (role : Role)
  | leave (person tenant : Uuid)
  deriving DecidableEq, Repr

/-- The tables after a statement; one that is refused leaves them as they are. -/
def Tables.take (t : Tables τ) (now : ℤ) : Statement τ → Tables τ
  | .sessionOpen person tenant site tok policy => (t.sessionOpen now person tenant site tok policy).getD t
  | .sessionResolve tok => t.sessionResolve now tok
  | .sessionRotate tok new after => (t.sessionRotate now tok new after).getD t
  | .sessionRevoke tok => t.sessionRevoke now tok
  | .sessionRevokeOthers person keep => t.sessionRevokeOthers now person keep
  | .join person tenant role => {t with members := joined now person tenant role t.members}
  | .setRole person tenant role => {t with members := roleSet person tenant role t.members}
  | .leave person tenant => t.leave now person tenant

/-- The tables after statements in turn, each at its moment. -/
def Tables.ran (t : Tables τ) (es : List (ℤ × Statement τ)) : Tables τ := es.foldl (fun t e => t.take e.1 e.2) t

/-- The tokens a statement gives out, and those it names. -/
def Statement.mints : Statement τ → List τ
  | .sessionOpen _ _ _ tok _ => [tok]
  | .sessionRotate _ new _ => [new]
  | _ => []

def Statement.names : Statement τ → List τ
  | .sessionOpen _ _ _ tok _ => [tok]
  | .sessionResolve tok => [tok]
  | .sessionRotate tok new _ => [tok,new]
  | .sessionRevoke tok => [tok]
  | .sessionRevokeOthers _ keep => [keep]
  | _ => []

/-- Statements in turn: no moment before one that was, and no token given out that was named. -/
def InTurn (es : List (ℤ × Statement τ)) : Prop :=
  es.Pairwise fun e e' => e.1 ≤ e'.1 ∧ ∀ tok ∈ e'.2.mints, tok ∉ e.2.names

instance (es : List (ℤ × Statement τ)) : Decidable (InTurn es) := inferInstanceAs (Decidable (List.Pairwise _ _))

/-! ## What a statement does to a session -/

/-- A session's row after a statement. -/
def Session.after (members : List Member) (now : ℤ) (s : Session τ) : Statement τ → Session τ
  | .sessionResolve tok => if s.Answers members now tok then s.touch now else s
  | .sessionRotate tok new after => if s.Due now tok after then s.rotate now new else s
  | .sessionRevoke tok => s.revokeWhere (tok ∈ s.tokens) now
  | .sessionRevokeOthers person keep => s.revokeWhere (s.person = person ∧ keep ∉ s.tokens) now
  | .leave person tenant => s.revokeWhere (s.person = person ∧ s.tenant = tenant) now
  | _ => s

variable {t : Tables τ} {now : ℤ} {e : Statement τ} {s : Session τ} {i : ℕ}

theorem checked_eq_some {t' u : Tables τ} (h : t'.checked = some u) : u = t' ∧ t'.Unique := by
  rw [Tables.checked] at h
  split at h
  · exact ⟨(Option.some.inj h).symm,‹_›⟩
  · cases h

/-- The memberships after a statement. -/
def membersAfter (now : ℤ) (members : List Member) : Statement τ → List Member
  | .join person tenant role => joined now person tenant role members
  | .setRole person tenant role => roleSet person tenant role members
  | .leave person tenant => left now person tenant members
  | _ => members

theorem checked_members {t' : Tables τ} (h : t'.members = t.members) : (t'.checked.getD t).members = t.members := by
  cases hchecked : t'.checked with
  | none => rfl
  | some u =>
    obtain ⟨rfl,-⟩ := checked_eq_some hchecked
    exact h

theorem take_members (t : Tables τ) (now : ℤ) (e : Statement τ) : (t.take now e).members = membersAfter now t.members e := by
  cases e with
  | sessionOpen person tenant site tok policy =>
    simp only [Tables.take,Tables.sessionOpen]
    split
    · exact checked_members rfl
    · rfl
  | sessionRotate tok new after => exact checked_members rfl
  | _ => rfl

/-- A statement opens one session, changes each by itself, or is refused. -/
theorem take_cases (t : Tables τ) (now : ℤ) (e : Statement τ) :
    (∃ person tenant site tok policy, e = .sessionOpen person tenant site tok policy ∧
      t.take now e = {t with sessions := t.sessions++[Session.opened now person tenant site tok policy]} ∧
      Current t.members person tenant) ∨
    (t.take now e).sessions = t.sessions.map (·.after t.members now e) ∨ (t.take now e = t ∧ e.mints ≠ []) := by
  cases e with
  | sessionOpen person tenant site tok policy =>
    simp only [Tables.take,Tables.sessionOpen]
    split
    next hcurrent =>
      cases hchecked : Tables.checked {t with sessions := t.sessions++[Session.opened now person tenant site tok policy]} with
      | none => exact .inr (.inr ⟨rfl,List.cons_ne_nil _ _⟩)
      | some u =>
        obtain ⟨rfl,-⟩ := checked_eq_some hchecked
        exact .inl ⟨person,tenant,site,tok,policy,rfl,rfl,hcurrent.1⟩
    next => exact .inr (.inr ⟨rfl,List.cons_ne_nil _ _⟩)
  | sessionRotate tok new after =>
    simp only [Tables.take,Tables.sessionRotate]
    cases hchecked : Tables.checked (t.mapSessions fun s => if s.Due now tok after then s.rotate now new else s) with
    | none => exact .inr (.inr ⟨rfl,List.cons_ne_nil _ _⟩)
    | some u =>
      obtain ⟨rfl,-⟩ := checked_eq_some hchecked
      exact .inr (.inl rfl)
  | sessionResolve tok => exact .inr (.inl rfl)
  | sessionRevoke tok => exact .inr (.inl rfl)
  | sessionRevokeOthers person keep => exact .inr (.inl rfl)
  | join person tenant role => exact .inr (.inl (List.map_id _).symm)
  | setRole person tenant role => exact .inr (.inl (List.map_id _).symm)
  | leave person tenant => exact .inr (.inl rfl)

/-- A session stays where it is, and a statement does to it what it does to it, or is refused. -/
theorem take_get (h : t.sessions[i]? = some s) (now : ℤ) (e : Statement τ) :
    (t.take now e).sessions[i]? = some s ∧ e.mints ≠ [] ∨ (t.take now e).sessions[i]? = some (s.after t.members now e) := by
  have hlt : i < t.sessions.length := (List.getElem?_eq_some_iff.mp h).1
  obtain ⟨person,tenant,site,tok,policy,rfl,htake,-⟩ | htake | ⟨htake,hmints⟩ := take_cases t now e
  · exact .inr (by rw [htake]; exact (List.getElem?_append_left hlt).trans h)
  · exact .inr (by rw [htake,List.getElem?_map,h]; rfl)
  · exact .inl ⟨by rw [htake]; exact h,hmints⟩

end Accounts
end Spork
