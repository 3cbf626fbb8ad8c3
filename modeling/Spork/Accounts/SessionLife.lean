import Spork.Accounts.Sessions

/-! The life of a session over any statements in turn: how long it answers, and that a token
answers for one session only and never again once it was refused. -/
namespace Spork
namespace Accounts

variable {τ : Type*} {t : Tables τ} {now later : ℤ} {e : Statement τ} {es : List (ℤ × Statement τ)} {s : Session τ} {i : ℕ} {tok : τ}
  {members : List Member} {person tenant : Uuid} {named : List τ}

/-! ## One session -/

theorem revokeWhere_same (s : Session τ) (now : ℤ) (c : Prop) [Decidable c] :
    ((s.revokeWhere c now).token = s.token ∧ (s.revokeWhere c now).previous = s.previous) ∧
      (s.revokeWhere c now).person = s.person ∧ (s.revokeWhere c now).tenant = s.tenant ∧
      (s.revokeWhere c now).expiresAt = s.expiresAt ∧ (s.revokeWhere c now).idle = s.idle ∧
      (s.revokeWhere c now).lastSeenAt = s.lastSeenAt := by
  rw [Session.revokeWhere]
  split <;> exact ⟨⟨rfl,rfl⟩,rfl,rfl,rfl,rfl,rfl⟩

theorem revokeWhere_revokedAt (c : Prop) [Decidable c] :
    (s.revokeWhere c now).revokedAt = none ↔ s.revokedAt = none ∧ ¬c := by
  rw [Session.revokeWhere]
  split
  next hc => exact ⟨fun h => absurd h (Option.some_ne_none _),fun h => absurd hc.1 h.2⟩
  next hc => exact ⟨fun h => ⟨h,fun hc' => hc ⟨hc',h⟩⟩,And.left⟩

/-- A session once over is over. -/
theorem Session.Live.sooner (h : s.Live later) (hle : now ≤ later) : s.Live now :=
  ⟨h.1,by have := h.2.1; omega,by have := h.2.2; omega⟩

theorem Session.Named.sooner (h : s.Named later tok) (hle : now ≤ later) : s.Named now tok :=
  h.imp_right fun ⟨p,hp,hold,hgrace⟩ => ⟨p,hp,hold,by omega⟩

/-- What holds of the tables after statements in turn that named some tokens: each token a session
has or had is one of them and of no other session, and a session not revoked is of a member. -/
structure Held (named : List τ) (t : Tables τ) : Prop where
  apart : t.sessions.Pairwise fun s s' => s.tokens.Disjoint s'.tokens
  named : ∀ s ∈ t.sessions, ∀ tok ∈ s.tokens, tok ∈ named
  members : ∀ s ∈ t.sessions, s.revokedAt = none → Current t.members s.person s.tenant

theorem Held.none (h : t.sessions = []) : Held [] t :=
  ⟨h ▸ List.Pairwise.nil,fun _ hs => absurd (h ▸ hs) List.not_mem_nil,fun _ hs => absurd (h ▸ hs) List.not_mem_nil⟩

theorem tokens_eq (s : Session τ) : s.tokens = s.token :: (s.previous.map Prod.fst).toList := rfl

/-- A session opened for a current member with a token not named before. -/
theorem Held.opened (h : Held named t) (hcurrent : Current t.members person tenant) (hnew : tok ∉ named) (now : ℤ) (site : Option Uuid)
    (policy : Policy) :
    Held (named++[tok]) {t with sessions := t.sessions++[Session.opened now person tenant site tok policy]} := by
  have hopened : (Session.opened now person tenant site tok policy).tokens = [tok] := rfl
  refine ⟨List.pairwise_append.mpr ⟨h.apart,List.pairwise_singleton _ _,fun s hs s' hs' => ?_⟩,fun s hs tok' htok => ?_,
    fun s hs hlive => ?_⟩
  · rw [List.mem_singleton.mp hs',hopened]
    exact List.disjoint_singleton.mpr fun htok => hnew (h.named s hs tok htok)
  · obtain hs | hs := List.mem_append.mp hs
    · exact List.mem_append_left _ (h.named s hs tok' htok)
    · rw [List.mem_singleton.mp hs,hopened] at htok
      exact List.mem_append_right _ htok
  · obtain hs | hs := List.mem_append.mp hs
    · exact h.members s hs hlive
    · rw [List.mem_singleton.mp hs]
      exact hcurrent

/-- A session a token does not answer for: it was opened, and this is not its token or no longer
is, or it is over. -/
def Lost (now : ℤ) (tok : τ) (i : ℕ) (t : Tables τ) : Prop := ∀ s, t.sessions[i]? = some s → s.Named now tok → ¬s.Live now

theorem Lost.stays (h : Lost now tok i t) (hle : now ≤ later) : Lost later tok i t :=
  fun s hs hnamed hlive => h s hs (hnamed.sooner hle) (hlive.sooner hle)

section
variable [DecidableEq τ]

/-- Whose a session is and both its limits are for good. -/
theorem after_same (members : List Member) (now : ℤ) (s : Session τ) (e : Statement τ) :
    (s.after members now e).person = s.person ∧ (s.after members now e).tenant = s.tenant ∧
      (s.after members now e).expiresAt = s.expiresAt ∧ (s.after members now e).idle = s.idle := by
  have hrevoke (c : Prop) [Decidable c] : (s.revokeWhere c now).person = s.person ∧ (s.revokeWhere c now).tenant = s.tenant ∧
      (s.revokeWhere c now).expiresAt = s.expiresAt ∧ (s.revokeWhere c now).idle = s.idle :=
    have h := (revokeWhere_same s now c).2
    ⟨h.1,h.2.1,h.2.2.1,h.2.2.2.1⟩
  cases e with
  | sessionResolve tok =>
    simp only [Session.after]
    split <;> exact ⟨rfl,rfl,rfl,rfl⟩
  | sessionRotate tok new after =>
    simp only [Session.after]
    split <;> exact ⟨rfl,rfl,rfl,rfl⟩
  | sessionRevoke tok => exact hrevoke _
  | sessionRevokeOthers person keep => exact hrevoke _
  | leave person tenant => exact hrevoke _
  | _ => exact ⟨rfl,rfl,rfl,rfl⟩

/-- It is seen when it answers and at no other time. -/
theorem after_lastSeenAt (h : ∀ tok, e = .sessionResolve tok → ¬s.Answers members now tok) :
    (s.after members now e).lastSeenAt = s.lastSeenAt := by
  cases e with
  | sessionResolve tok => simp only [Session.after,if_neg (h tok rfl)]
  | sessionRotate tok new after =>
    simp only [Session.after]
    split <;> rfl
  | sessionRevoke tok => exact (revokeWhere_same s now _).2.2.2.2.2
  | sessionRevokeOthers person keep => exact (revokeWhere_same s now _).2.2.2.2.2
  | leave person tenant => exact (revokeWhere_same s now _).2.2.2.2.2
  | _ => rfl

/-- A session that was revoked stays so. -/
theorem after_revokedAt (h : (s.after members now e).revokedAt = none) : s.revokedAt = none := by
  cases e with
  | sessionResolve tok =>
    simp only [Session.after] at h
    split at h <;> exact h
  | sessionRotate tok new after =>
    simp only [Session.after] at h
    split at h <;> exact h
  | sessionRevoke tok => exact ((revokeWhere_revokedAt _).mp h).1
  | sessionRevokeOthers person keep => exact ((revokeWhere_revokedAt _).mp h).1
  | leave person tenant => exact ((revokeWhere_revokedAt _).mp h).1
  | _ => exact h

/-- It keeps its tokens but in a rotation. -/
theorem after_token (members : List Member) (now : ℤ) (s : Session τ) (e : Statement τ) :
    (s.after members now e).token = s.token ∧ (s.after members now e).previous = s.previous ∨
      ∃ new after, e = .sessionRotate s.token new after ∧ s.after members now e = s.rotate now new := by
  cases e with
  | sessionResolve tok =>
    simp only [Session.after]
    split <;> exact .inl ⟨rfl,rfl⟩
  | sessionRotate tok new after =>
    simp only [Session.after]
    split
    next hdue => exact .inr ⟨new,after,by rw [hdue.1],rfl⟩
    next => exact .inl ⟨rfl,rfl⟩
  | sessionRevoke tok => exact .inl (revokeWhere_same s now _).1
  | sessionRevokeOthers person keep => exact .inl (revokeWhere_same s now _).1
  | leave person tenant => exact .inl (revokeWhere_same s now _).1
  | _ => exact .inl ⟨rfl,rfl⟩

theorem live_of_after (h : (s.after members now e).Live now) : s.Live now := by
  obtain ⟨hrevoked,hexpires,hseen⟩ := h
  obtain ⟨-,-,hsame,hidle⟩ := after_same members now s e
  rw [hsame] at hexpires
  rw [hidle] at hseen
  by_cases hans : ∃ tok, e = .sessionResolve tok ∧ s.Answers members now tok
  · obtain ⟨tok,-,hanswers⟩ := hans
    exact hanswers.2.1
  · rw [after_lastSeenAt fun tok he hanswers => hans ⟨tok,he,hanswers⟩] at hseen
    exact ⟨after_revokedAt hrevoked,hexpires,hseen⟩

theorem named_of_after (hnew : tok ∉ e.mints) (h : (s.after members now e).Named now tok) : s.Named now tok := by
  obtain ⟨htoken,hprevious⟩ | ⟨new,after,rfl,hrotate⟩ := after_token members now s e
  · rw [Session.Named,htoken,hprevious] at h
    exact h
  · rw [hrotate] at h
    obtain hnow | ⟨p,hp,hold,-⟩ := h
    · exact absurd (hnow ▸ List.mem_singleton_self new) hnew
    · cases hp
      exact .inl hold

/-! ## What holds of the tables -/

theorem current_of_take (h : Current t.members person tenant) (hleave : e ≠ .leave person tenant) :
    Current (t.take now e).members person tenant := by
  obtain ⟨m,hm,hperson,htenant,hleft⟩ := h
  rw [take_members]
  cases e with
  | join p q role =>
    simp only [membersAfter,joined]
    split
    · exact ⟨m,List.mem_map.mpr ⟨m,hm,if_neg fun hc => hc.2.2 hleft⟩,hperson,htenant,hleft⟩
    · exact ⟨m,List.mem_append_left _ hm,hperson,htenant,hleft⟩
  | setRole p q role =>
    refine ⟨_,List.mem_map_of_mem hm,?_⟩
    split <;> exact ⟨hperson,htenant,hleft⟩
  | leave p q =>
    refine ⟨m,List.mem_map.mpr ⟨m,hm,if_neg fun hc => hleave ?_⟩,hperson,htenant,hleft⟩
    rw [← hperson,← htenant,hc.1,hc.2.1]
  | _ => exact ⟨m,hm,hperson,htenant,hleft⟩

/-- What tokens a session has after a statement it had before, or the statement gives out. -/
theorem after_tokens (h : tok ∈ (s.after members now e).tokens) :
    tok ∈ s.tokens ∨ tok ∈ e.mints ∧ ∃ new after, e = .sessionRotate s.token new after := by
  obtain ⟨htoken,hprevious⟩ | ⟨new,after,rfl,hrotate⟩ := after_token members now s e
  · rw [tokens_eq,htoken,hprevious] at h
    exact .inl h
  · rw [hrotate] at h
    obtain rfl | hold := List.mem_cons.mp h
    · exact .inr ⟨List.mem_singleton_self _,_,_,rfl⟩
    · rw [List.mem_singleton.mp hold]
      exact .inl (List.mem_cons_self ..)

theorem Held.take (h : Held named t) (now : ℤ) (hnew : ∀ tok ∈ e.mints, tok ∉ named) : Held (named++e.names) (t.take now e) := by
  have hmints : ∀ tok ∈ e.mints, tok ∈ e.names := by
    cases e <;> simp [Statement.mints,Statement.names]
  obtain ⟨person,tenant,site,tok,policy,rfl,htake,hcurrent⟩ | htake | ⟨htake,-⟩ := take_cases t now e
  · rw [htake]
    exact h.opened hcurrent (hnew tok (List.mem_singleton_self tok)) now site policy
  · refine ⟨?_,fun s hs tok htok => ?_,fun s hs hlive => ?_⟩
    · rw [htake,List.pairwise_map]
      refine h.apart.imp_of_mem fun {s s'} hs hs' hapart tok htok htok' => ?_
      obtain hold | ⟨hmint,new,after,he⟩ := after_tokens htok <;> obtain hold' | ⟨hmint',new',after',he'⟩ := after_tokens htok'
      · exact hapart hold hold'
      · exact hnew tok hmint' (h.named s hs tok hold)
      · exact hnew tok hmint (h.named s' hs' tok hold')
      · have hsame : s.token = s'.token := by
          rw [he] at he'
          injection he'
        exact hapart (List.mem_cons_self ..) (hsame ▸ List.mem_cons_self ..)
    · rw [htake] at hs
      obtain ⟨s,hmem,rfl⟩ := List.mem_map.mp hs
      exact List.mem_append.mpr ((after_tokens htok).imp (h.named s hmem tok) fun hmint => hmints tok hmint.1)
    · rw [htake] at hs
      obtain ⟨s,hmem,rfl⟩ := List.mem_map.mp hs
      obtain ⟨hperson,htenant,-⟩ := after_same t.members now s e
      rw [hperson,htenant]
      refine current_of_take (h.members s hmem (after_revokedAt hlive)) fun he => ?_
      rw [he] at hlive
      exact ((revokeWhere_revokedAt _).mp hlive).2 ⟨rfl,rfl⟩
  · rw [htake]
    exact ⟨h.apart,fun s hs tok htok => List.mem_append_left _ (h.named s hs tok htok),h.members⟩

theorem ran_cons (t : Tables τ) (e : ℤ × Statement τ) (es : List (ℤ × Statement τ)) : t.ran (e :: es) = (t.take e.1 e.2).ran es := rfl

theorem ran_append (t : Tables τ) (es fs : List (ℤ × Statement τ)) : t.ran (es++fs) = (t.ran es).ran fs := List.foldl_append ..

/-- It holds after any statements in turn. -/
theorem Held.ran (h : Held named t) (hes : InTurn es) (hnew : ∀ e ∈ es, ∀ tok ∈ e.2.mints, tok ∉ named) :
    Held (named++es.flatMap fun e => e.2.names) (t.ran es) := by
  induction es generalizing t named with
  | nil => exact (List.append_nil named).symm ▸ h
  | cons e es ih =>
    obtain ⟨hfirst,hrest⟩ := List.pairwise_cons.mp hes
    obtain ⟨hnewFirst,hnewRest⟩ := List.forall_mem_cons.mp hnew
    rw [ran_cons,List.flatMap_cons,← List.append_assoc]
    refine ih (h.take e.1 hnewFirst) hrest fun e' he' tok htok hmem => ?_
    obtain hmem | hmem := List.mem_append.mp hmem
    · exact hnewRest e' he' tok htok hmem
    · exact (hfirst e' he').2 tok htok hmem

/-! ## A token -/

theorem mem_resolved : i ∈ t.resolved now tok ↔ ∃ s, t.sessions[i]? = some s ∧ s.Answers t.members now tok := by
  simp only [Tables.resolved,List.mem_filter,List.mem_range,decide_eq_true_eq,Option.mem_def]
  exact ⟨And.right,fun h => ⟨(List.getElem?_eq_some_iff.mp h.choose_spec.1).1,h⟩⟩

/-- A token resolves to one session at most. -/
theorem Held.resolved_le (h : Held named t) (hi : i ∈ t.resolved now tok) : t.resolved now tok = [i] := by
  have hone : ∀ j ∈ t.resolved now tok, j = i := by
    have hmem {s : Session τ} (hs : s.Answers t.members now tok) : tok ∈ s.tokens := by
      obtain rfl | ⟨p,hp,rfl,-⟩ := hs.1
      · exact List.mem_cons_self ..
      · rw [tokens_eq,Option.mem_def.mp hp]
        exact List.mem_cons_of_mem _ (List.mem_singleton_self _)
    intro j hj
    obtain ⟨s,hs,hans⟩ := mem_resolved.mp hi
    obtain ⟨s',hs',hans'⟩ := mem_resolved.mp hj
    obtain ⟨hlt,rfl⟩ := List.getElem?_eq_some_iff.mp hs
    obtain ⟨hlt',rfl⟩ := List.getElem?_eq_some_iff.mp hs'
    obtain hless | heq | hless := lt_trichotomy i j
    · exact absurd (hmem hans') (List.pairwise_iff_getElem.mp h.apart i j hlt hlt' hless (hmem hans))
    · exact heq.symm
    · exact absurd (hmem hans) (List.pairwise_iff_getElem.mp h.apart j i hlt' hlt hless (hmem hans'))
  have hnodup : (t.resolved now tok).Nodup := List.nodup_range.filter _
  refine List.perm_singleton.mp ((List.perm_ext_iff_of_nodup hnodup (List.nodup_singleton i)).mpr fun j => ?_)
  exact ⟨fun hj => List.mem_singleton.mpr (hone j hj),fun hj => List.mem_singleton.mp hj ▸ hi⟩

theorem Lost.take (h : Lost now tok i t) (hnew : tok ∉ e.mints) : Lost now tok i (t.take now e) := by
  intro s' hs' hnamed hlive
  cases hs : t.sessions[i]? with
  | some s =>
    obtain ⟨hsame,-⟩ | hafter := take_get hs now e
    · exact h s hs (Option.some.inj (hs'.symm.trans hsame) ▸ hnamed) (Option.some.inj (hs'.symm.trans hsame) ▸ hlive)
    · obtain rfl := Option.some.inj (hs'.symm.trans hafter)
      exact h s hs (named_of_after hnew hnamed) (live_of_after hlive)
  | none =>
    obtain ⟨person,tenant,site,tok',policy,rfl,htake,-⟩ | htake | ⟨htake,-⟩ := take_cases t now e
    · have hmem : s' ∈ t.sessions++[Session.opened now person tenant site tok' policy] := List.mem_of_getElem? (htake ▸ hs')
      rw [htake] at hs'
      rw [List.getElem?_append_right (List.getElem?_eq_none_iff.mp hs)] at hs'
      rw [List.mem_singleton.mp (List.mem_of_getElem? hs')] at hnamed
      obtain rfl | ⟨p,hp,-⟩ := hnamed
      · exact hnew (List.mem_singleton_self _)
      · cases hp
    · rw [htake,List.getElem?_map,hs] at hs'
      cases hs'
    · rw [htake,hs] at hs'
      cases hs'

theorem Lost.ran (h : Lost now tok i t) (hes : InTurn es) (hnow : ∀ e ∈ es, now ≤ e.1) (hnew : ∀ e ∈ es, tok ∉ e.2.mints)
    (hlater : ∀ e ∈ es, e.1 ≤ later) (hle : now ≤ later) : Lost later tok i (t.ran es) := by
  induction es generalizing t now with
  | nil => exact h.stays hle
  | cons e es ih =>
    obtain ⟨hfirst,hrest⟩ := List.pairwise_cons.mp hes
    obtain ⟨hnowFirst,-⟩ := List.forall_mem_cons.mp hnow
    obtain ⟨hnewFirst,hnewRest⟩ := List.forall_mem_cons.mp hnew
    obtain ⟨hlaterFirst,hlaterRest⟩ := List.forall_mem_cons.mp hlater
    exact ih ((h.stays hnowFirst).take hnewFirst) hrest (fun e' he' => (hfirst e' he').1) hnewRest hlaterRest hlaterFirst

/-- What a token answers for at some moment it answered for, and for that alone, whenever it was
presented before: a token is of one session for good, and is never good again once refused. -/
theorem answered_before {before between : List (ℤ × Statement τ)} (hnone : t.sessions = [])
    (hes : InTurn (before++(now,.sessionResolve tok) :: between++[(later,.sessionResolve tok)]))
    (hi : i ∈ (t.ran (before++(now,.sessionResolve tok) :: between)).resolved later tok) :
    (t.ran before).resolved now tok = [i] := by
  rw [List.append_assoc,List.cons_append] at hes
  obtain ⟨hbefore,hrest,-⟩ := List.pairwise_append.mp hes
  obtain ⟨hfirst,hbetween⟩ := List.pairwise_cons.mp hrest
  obtain ⟨hbetween,-,hlast⟩ := List.pairwise_append.mp hbetween
  have hheld := (Held.none hnone).ran hbefore fun _ _ _ _ => List.not_mem_nil
  by_cases hans : i ∈ (t.ran before).resolved now tok
  · exact hheld.resolved_le hans
  · have hlost : Lost now tok i (t.ran before) := fun s hs hnamed hlive =>
      hans (mem_resolved.mpr ⟨s,hs,hnamed,hlive,hheld.members s (List.mem_of_getElem? hs) hlive.1⟩)
    have hle : ∀ e ∈ between, now ≤ e.1 := fun e he => (hfirst e (List.mem_append_left _ he)).1
    have hend := (hlost.take (e := .sessionResolve tok) List.not_mem_nil).ran hbetween hle
      (fun e he htok => (hfirst e (List.mem_append_left _ he)).2 tok htok (List.mem_singleton_self tok))
      (fun e he => (hlast e he _ (List.mem_singleton_self _)).1) (hfirst _ (List.mem_append_right _ (List.mem_singleton_self _))).1
    rw [ran_append,ran_cons] at hi
    obtain ⟨s,hs,hnamed,hlive,-⟩ := mem_resolved.mp hi
    exact absurd hlive (hend s hs hnamed)

/-! ## How long a session answers -/

/-- The sessions that answer a statement. -/
def Tables.answering (t : Tables τ) (now : ℤ) : Statement τ → List ℕ
  | .sessionResolve tok => t.resolved now tok
  | _ => []

/-- The moments at which a session answers. -/
def usesOf (i : ℕ) : Tables τ → List (ℤ × Statement τ) → List ℤ
  | _, [] => []
  | t, (now,e) :: es => (if i ∈ t.answering now e then [now] else [])++usesOf i (t.take now e) es

/-- What ends a session: its token, or the one before it, being revoked, the person's other
sessions being ended from another, or the person leaving the tenant. -/
def Session.EndedBy (s : Session τ) : Statement τ → Prop
  | .sessionRevoke tok => tok ∈ s.tokens
  | .sessionRevokeOthers person keep => s.person = person ∧ keep ∉ s.tokens
  | .leave person tenant => s.person = person ∧ s.tenant = tenant
  | _ => False

theorem mem_answering : i ∈ t.answering now e ↔ ∃ tok, e = .sessionResolve tok ∧ ∃ s, t.sessions[i]? = some s ∧ s.Answers t.members now tok := by
  cases e with
  | sessionResolve tok =>
    rw [Tables.answering,mem_resolved]
    constructor
    · exact fun h => ⟨tok,rfl,h⟩
    · rintro ⟨tok',he,h⟩
      injection he with he
      exact he ▸ h
  | _ =>
    constructor
    · exact fun h => absurd h List.not_mem_nil
    · rintro ⟨tok,he,-⟩
      cases he

theorem uses_of_revoked (h : t.sessions[i]? = some s) (hrevoked : s.revokedAt ≠ none) (es : List (ℤ × Statement τ)) : usesOf i t es = [] := by
  induction es generalizing t s with
  | nil => rfl
  | cons e es ih =>
    obtain ⟨now,e⟩ := e
    have hnot : i ∉ t.answering now e := fun hi => by
      obtain ⟨tok,-,s',hs',-,hlive,-⟩ := mem_answering.mp hi
      exact hrevoked (Option.some.inj (h.symm.trans hs') ▸ hlive.1)
    rw [usesOf,if_neg hnot,List.nil_append]
    obtain ⟨hsame,-⟩ | hafter := take_get h now e
    · exact ih hsame hrevoked
    · exact ih hafter fun hnone => hrevoked (after_revokedAt hnone)

theorem revoked_of_ended (h : t.sessions[i]? = some s) (hends : s.EndedBy e) (now : ℤ) :
    ∃ s', (t.take now e).sessions[i]? = some s' ∧ s'.revokedAt ≠ none := by
  obtain ⟨-,hmints⟩ | hafter := take_get h now e
  · cases e <;> first | exact absurd rfl hmints | exact hends.elim
  · refine ⟨_,hafter,fun hnone => ?_⟩
    cases e with
    | sessionRevoke tok => exact ((revokeWhere_revokedAt _).mp hnone).2 hends
    | sessionRevokeOthers person keep => exact ((revokeWhere_revokedAt _).mp hnone).2 hends
    | leave person tenant => exact ((revokeWhere_revokedAt _).mp hnone).2 hends
    | _ => exact hends

/-- A session answers each time within its idle limit of the time before, and before it expires. -/
theorem uses_within (h : t.sessions[i]? = some s) (hes : (s.lastSeenAt :: es.map Prod.fst).Pairwise (· ≤ ·)) :
    (s.lastSeenAt :: usesOf i t es).IsChain (fun a b => a ≤ b ∧ b < a+s.idle) ∧ ∀ now ∈ usesOf i t es, now < s.expiresAt := by
  induction es generalizing t s with
  | nil => exact ⟨List.isChain_singleton _,fun _ hmem => absurd hmem List.not_mem_nil⟩
  | cons e es ih =>
    obtain ⟨now,e⟩ := e
    obtain ⟨hfirst,hrest⟩ := List.pairwise_cons.mp hes
    obtain ⟨hnow,hlater⟩ := List.pairwise_cons.mp hrest
    by_cases hans : i ∈ t.answering now e
    · obtain ⟨tok,rfl,s',hs',hanswers⟩ := mem_answering.mp hans
      obtain rfl := Option.some.inj (h.symm.trans hs')
      have hafter : (t.take now (.sessionResolve tok)).sessions[i]? = some (s.touch now) := by
        obtain ⟨-,hmints⟩ | hafter := take_get h now (.sessionResolve tok)
        · exact absurd rfl hmints
        · rw [hafter,Session.after,if_pos hanswers]
      obtain ⟨hchain,hexpires⟩ := ih hafter (List.pairwise_cons.mpr ⟨hnow,hlater⟩)
      have hseen := hanswers.2.1.2.2
      rw [usesOf,if_pos hans,List.singleton_append]
      exact ⟨List.isChain_cons_cons.mpr ⟨⟨hfirst now (List.mem_cons_self ..),by omega⟩,hchain⟩,
        List.forall_mem_cons.mpr ⟨hanswers.2.1.2.1,hexpires⟩⟩
    · have hsorted : (s.lastSeenAt :: es.map Prod.fst).Pairwise (· ≤ ·) :=
        List.pairwise_cons.mpr ⟨fun moment hmem => hfirst moment (List.mem_cons_of_mem _ hmem),hlater⟩
      rw [usesOf,if_neg hans,List.nil_append]
      obtain ⟨hsame,-⟩ | hafter := take_get h now e
      · exact ih hsame hsorted
      · obtain ⟨-,-,hexpires,hidle⟩ := after_same t.members now s e
        have hseen : (s.after t.members now e).lastSeenAt = s.lastSeenAt :=
          after_lastSeenAt fun tok he hanswers => hans (mem_answering.mpr ⟨tok,he,s,h,hanswers⟩)
        have hrest := ih hafter (hseen.symm ▸ hsorted)
        rwa [hseen,hexpires,hidle] at hrest

/-- From any tables on, a session answers each time within its idle limit of the time before,
never once it expires, and never after what ends it. -/
theorem lived (h : t.sessions[i]? = some s) (hes : (s.lastSeenAt :: es.map Prod.fst).Pairwise (· ≤ ·)) :
    (s.lastSeenAt :: usesOf i t es).IsChain (fun a b => a ≤ b ∧ b < a+s.idle) ∧ (∀ now ∈ usesOf i t es, now < s.expiresAt) ∧
      ∀ before now e after s', es = before++(now,e) :: after → (t.ran before).sessions[i]? = some s' → s'.EndedBy e →
        usesOf i (t.ran (before++[(now,e)])) after = [] := by
  obtain ⟨hchain,hexpires⟩ := uses_within h hes
  refine ⟨hchain,hexpires,fun before now e after s' _ hs' hends => ?_⟩
  obtain ⟨s'',hs'',hrevoked⟩ := revoked_of_ended hs' hends now
  rw [ran_append]
  exact uses_of_revoked hs'' hrevoked after

end

/-! ## A week of one session -/

/-- A tenant of one member and one site. -/
def oneMember : Tables ℕ := ⟨[⟨1,10,.administrator,0,none⟩],[(100,10)],[]⟩

/-- They ask to stay signed in, and a day later their token is rotated. -/
def dayOfOne : List (ℤ × Statement ℕ) :=
  [(0,.sessionOpen 1 10 (some 100) 7 (Policy.new true)),(minutes 5,.sessionResolve 7),(minutes 1500,.sessionResolve 7),
    (minutes 1500,.sessionRotate 7 8 (minutes 1440)),(minutes 1501,.sessionResolve 7)]

theorem inTurn_dayOfOne : InTurn (dayOfOne.take 2++(minutes 1500,.sessionResolve 7) :: [(minutes 1500,.sessionRotate 7 8 (minutes 1440))]++
    [(minutes 1501,.sessionResolve 7)]) := by decide

theorem answered_before_day : (oneMember.ran (dayOfOne.take 2)).resolved (minutes 1500) 7 = [0] :=
  answered_before rfl inTurn_dayOfOne (by decide)

/-- The session as it is opened. -/
def openedOne : Session ℕ := Session.opened 0 1 10 (some 100) 7 (Policy.new true)

theorem lived_day : usesOf 0 (oneMember.ran (dayOfOne.take 1)) (dayOfOne.drop 1) = [minutes 5,minutes 1500,minutes 1501] ∧
    ((0 :: usesOf 0 (oneMember.ran (dayOfOne.take 1)) (dayOfOne.drop 1)).IsChain (fun a b => a ≤ b ∧ b < a+openedOne.idle) ∧
      (∀ now ∈ usesOf 0 (oneMember.ran (dayOfOne.take 1)) (dayOfOne.drop 1), now < openedOne.expiresAt) ∧
      ∀ before now e after s', dayOfOne.drop 1 = before++(now,e) :: after →
        ((oneMember.ran (dayOfOne.take 1)).ran before).sessions[0]? = some s' → s'.EndedBy e →
        usesOf 0 ((oneMember.ran (dayOfOne.take 1)).ran (before++[(now,e)])) after = []) :=
  ⟨by decide,lived (s := openedOne) (by decide) (by decide)⟩

end Accounts
end Spork
