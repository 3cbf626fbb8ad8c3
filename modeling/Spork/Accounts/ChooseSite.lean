import Spork.Accounts.SessionLife

/-! Saying where one is working opens a new session in place of the one that says it, so that a
session's lifetime does not bound how long a person stays signed in. -/
namespace Spork
namespace Accounts

variable {τ : Type*} [DecidableEq τ]

/-- Choosing a site: the caller's session, the site found in its tenant, a session there with the
same limits, and the old one revoked once there is a new one. -/
def Tables.chooseSite (now : ℤ) (tok : τ) (wanted : Uuid) (new : τ) (t : Tables τ) : Option (Tables τ) :=
  match t.resolved now tok with
  | [i] => do
    let who ← t.sessions[i]?
    let t := t.sessionResolve now tok
    if t.HasSite wanted who.tenant then do
      let t ← t.sessionOpen now who.person who.tenant (some wanted) new (Policy.new who.remembered)
      some (t.sessionRevoke now tok)
    else none
  | _ => none

/-- A choice of a site: when, which, and the token its session is opened with. -/
structure Choice (τ : Type*) where
  moment : ℤ
  wanted : Uuid
  new : τ

/-- The tables after somebody has chosen sites in turn, each choice giving them the token they
make the next with. -/
def Tables.choices (tok : τ) (t : Tables τ) : List (Choice τ) → Option (Tables τ)
  | [] => some t
  | c :: cs => (t.chooseSite c.moment tok c.wanted c.new).bind (·.choices c.new cs)

/-- The token somebody has after their choices. -/
def tokenAfter (tok : τ) (cs : List (Choice τ)) : τ := cs.foldl (fun _ c => c.new) tok

/-- The moments of some choices, and one after them. -/
def moments (cs : List (Choice τ)) (later : ℤ) : List ℤ := cs.map Choice.moment++[later]

variable {t : Tables τ} {named : List τ} {now later : ℤ} {tok new : τ} {i : ℕ} {s : Session τ} {wanted : Uuid}

omit [DecidableEq τ] in
theorem Held.unique (h : Held named t) : t.Unique := by
  constructor
  · rw [List.Nodup,List.pairwise_map]
    refine h.apart.imp fun {s s'} hapart heq => ?_
    have hmem : s.token ∈ s'.tokens := by
      rw [heq]
      exact List.mem_cons_self ..
    exact hapart (List.mem_cons_self ..) hmem
  · rw [List.Nodup,List.pairwise_filterMap]
    refine h.apart.imp fun {s s'} hapart tok htok tok' htok' heq => ?_
    have hmem {r : Session τ} {a : τ} (ha : r.previous.map Prod.fst = some a) : a ∈ r.tokens := by
      rw [tokens_eq,ha]
      exact List.mem_cons_of_mem _ (List.mem_singleton_self a)
    exact hapart (hmem htok) (heq ▸ hmem htok')

/-- A session is opened for a current member, at a site of the tenant, by a token not named before. -/
theorem Held.sessionOpen (h : Held named t) {person tenant : Uuid} (hcurrent : Current t.members person tenant)
    (hsite : t.HasSite wanted tenant) (hnew : new ∉ named) (now : ℤ) (policy : Policy) :
    t.sessionOpen now person tenant (some wanted) new policy =
      some {t with sessions := t.sessions++[Session.opened now person tenant (some wanted) new policy]} := by
  rw [Tables.sessionOpen,if_pos ⟨hcurrent,fun site hs => Option.some.inj (Option.mem_def.mp hs) ▸ hsite⟩,Tables.checked,
    if_pos (h.opened hcurrent hnew now (some wanted) policy).unique]

/-- A caller's choice of a site leaves them with a new session there, open from now, and names no
token but the two. -/
theorem Held.chooseSite (h : Held named t) (hs : t.sessions[i]? = some s) (hans : s.Answers t.members now tok)
    (hsite : t.HasSite wanted s.tenant) (hnew : new ∉ named) (hold : tok ≠ new) :
    ∃ t', t.chooseSite now tok wanted new = some t' ∧ Held (named++[tok,new]) t' ∧ t'.members = t.members ∧ t'.sites = t.sites ∧
      t'.sessions[t.sessions.length]? = some (Session.opened now s.person s.tenant (some wanted) new (Policy.new s.remembered)) := by
  have hone : t.resolved now tok = [i] := h.resolved_le (mem_resolved.mpr ⟨s,hs,hans⟩)
  have hheld₁ : Held (named++[tok]) (t.sessionResolve now tok) := h.take (e := .sessionResolve tok) now fun _ hmem => absurd hmem List.not_mem_nil
  have hnew₁ : new ∉ named++[tok] := fun hmem =>
    (List.mem_append.mp hmem).elim hnew fun hmem => hold (List.mem_singleton.mp hmem).symm
  have hopen := hheld₁.sessionOpen (hans.2.2 : Current (t.sessionResolve now tok).members s.person s.tenant) hsite hnew₁ now
    (Policy.new s.remembered)
  have hheld₂ := hheld₁.opened (hans.2.2 : Current (t.sessionResolve now tok).members s.person s.tenant) hnew₁ now (some wanted)
    (Policy.new s.remembered)
  have hheld₃ := hheld₂.take (e := .sessionRevoke tok) now fun _ hmem => absurd hmem List.not_mem_nil
  refine ⟨Tables.sessionRevoke now tok {t.sessionResolve now tok with
    sessions := (t.sessionResolve now tok).sessions++
      [Session.opened now s.person s.tenant (some wanted) new (Policy.new s.remembered)]},?_,?_,rfl,rfl,?_⟩
  · rw [Tables.chooseSite,hone]
    simp only [hs,Option.bind_eq_bind,Option.bind_some]
    have hfound : (t.sessionResolve now tok).HasSite wanted s.tenant := hsite.congr rfl
    rw [if_pos hfound,hopen]
    rfl
  · refine ⟨hheld₃.apart,fun s' hs' tok' htok' => ?_,hheld₃.members⟩
    obtain hmem | hmem := List.mem_append.mp (hheld₃.named s' hs' tok' htok')
    · rwa [List.append_assoc] at hmem
    · rw [List.mem_singleton.mp hmem]
      exact List.mem_append_right _ (List.mem_cons_self ..)
  · rw [Tables.sessionRevoke,Tables.mapSessions,List.getElem?_map,Tables.sessionResolve,Tables.mapSessions]
    rw [List.getElem?_append_right (List.length_map _).le,List.length_map,Nat.sub_self,List.getElem?_cons_zero,Option.map_some,
      Session.revokeWhere,if_neg]
    exact fun hc => hold (List.mem_singleton.mp hc.1)

omit [DecidableEq τ] in
/-- A session as it is opened answers its token until it is idle too long. -/
theorem opened_answers {members : List Member} {person tenant : Uuid} (hcurrent : Current members person tenant) (remembered : Bool)
    (hlater : later < now+minutes (Policy.new remembered).idleMinutes) :
    (Session.opened now person tenant (some wanted) tok (Policy.new remembered)).Answers members later tok := by
  have hlimits := (Policy.new_pos remembered).2
  refine ⟨.inl rfl,⟨rfl,?_,?_⟩,hcurrent⟩
  · simp only [Session.opened,minutes] at hlater ⊢
    omega
  · simp only [Session.opened]
    omega

/-- Whoever a session answers is answered by one of their own, its lifetime started again, after
any choices of sites of the tenant, each before the last session was idle too long: however
long ago it is that they proved who they are. -/
theorem choices_outlast (h : Held named t) (hs : t.sessions[i]? = some s) {cs : List (Choice τ)}
    (hans : ∀ first ∈ (moments cs later).head?, s.Answers t.members first tok)
    (hsite : ∀ c ∈ cs, t.HasSite c.wanted s.tenant) (hmint : (cs.map Choice.new).Nodup)
    (hnew : ∀ c ∈ cs, c.new ∉ tok :: named)
    (hidle : (moments cs later).IsChain fun earlier next => next < earlier+minutes (Policy.new s.remembered).idleMinutes) :
    ∃ t', t.choices tok cs = some t' ∧ ∃ j s', t'.resolved later (tokenAfter tok cs) = [j] ∧ t'.sessions[j]? = some s' ∧
      s'.person = s.person ∧ s'.tenant = s.tenant := by
  induction cs generalizing t tok named i s with
  | nil => exact ⟨t,rfl,i,s,h.resolved_le (mem_resolved.mpr ⟨s,hs,hans later rfl⟩),hs,rfl,rfl⟩
  | cons c cs ih =>
    obtain ⟨hfresh,hmint'⟩ := List.nodup_cons.mp hmint
    obtain ⟨hne,hnotNamed⟩ := not_or.mp (mt List.mem_cons.mpr (hnew c List.mem_cons_self))
    have hanswers : s.Answers t.members c.moment tok := hans c.moment rfl
    obtain ⟨t₁,hchoose,hheld,hmembers,hsites,hopened⟩ :=
      h.chooseSite hs hanswers (hsite c List.mem_cons_self) hnotNamed (Ne.symm hne)
    have hremembered : (Session.opened c.moment s.person s.tenant (some c.wanted) c.new (Policy.new s.remembered)).remembered =
        s.remembered := by
      cases s.remembered <;> rfl
    have hchain := List.isChain_cons.mp (show (c.moment :: moments cs later).IsChain _ from hidle)
    have hnew' : ∀ d ∈ cs, d.new ∉ c.new :: (named++[tok,c.new]) := by
      intro d hd hmem
      obtain ⟨hold,hnamed⟩ := not_or.mp (mt List.mem_cons.mpr (hnew d (List.mem_cons_of_mem c hd)))
      have hsame : d.new ≠ c.new := fun heq => hfresh (heq ▸ List.mem_map_of_mem hd)
      simp only [List.mem_cons,List.mem_append,List.not_mem_nil,or_false] at hmem
      tauto
    obtain ⟨t',hrun,j,s',hresolved,hs',hperson,htenant⟩ := ih hheld hopened
      (fun first hfirst => hmembers ▸ opened_answers hanswers.2.2 s.remembered (hchain.1 first hfirst))
      (fun d hd => (hsite d (List.mem_cons_of_mem c hd)).congr hsites) hmint' hnew' (by rw [hremembered]; exact hchain.2)
    exact ⟨t',by rw [Tables.choices,hchoose,Option.bind_some,hrun],j,s',hresolved,hs',hperson,htenant⟩

/-- Sixty-six choices of the same site, five and six days apart in turn. -/
def yearOfChoices : List (Choice ℕ) := (List.range 66).map fun n : ℕ => ⟨minutes ((n*5+(n+1)/2)*1440),100,n+8⟩

theorem choices_outlast_year : ∃ t', (oneMember.ran (dayOfOne.take 1)).choices 7 yearOfChoices = some t' ∧
    ∃ j s', t'.resolved (minutes (364*1440)) (tokenAfter 7 yearOfChoices) = [j] ∧ t'.sessions[j]? = some s' ∧
      s'.person = 1 ∧ s'.tenant = 10 := by
  have hnone : Held [] oneMember := Held.none rfl
  have hturn : InTurn (dayOfOne.take 1) := List.pairwise_singleton _ _
  have hheld : Held [7] (oneMember.ran (dayOfOne.take 1)) := hnone.ran hturn fun _ _ _ _ => List.not_mem_nil
  refine choices_outlast hheld (i := 0) (s := openedOne) rfl (fun first hfirst => ?_) (by decide) (by decide +kernel)
    (by decide +kernel) (by decide +kernel)
  obtain rfl : 0 = first := Option.some.inj hfirst
  decide

end Accounts
end Spork
