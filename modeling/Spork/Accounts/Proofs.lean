import Spork.Accounts.Requests

/-! Every session goes back to somebody's proof of who they are, and what a change of password
leaves of a person's sessions. -/
namespace Spork
namespace Accounts

variable {τ Φ : Type*} {w w' : World τ Φ} {person : Uuid} {n : ℕ}

/-- A session of a person that is not revoked, or a request under way to open one, that goes back
to a proof. -/
def World.Rooted (w : World τ Φ) (person : Uuid) (n : ℕ) : Prop :=
  (∃ (i : ℕ) (s : Session τ), w.tables.sessions[i]? = some s ∧ s.person = person ∧ s.revokedAt = none ∧ w.roots[i]? = some n) ∨
    ∃ r ∈ w.requests, r.claim = some (person,n)

def World.Matched (w : World τ Φ) : Prop := w.roots.length = w.tables.sessions.length

theorem record_same (w : World τ Φ) (now : ℤ) (p : Uuid) (ok : Bool) :
    (w.record now p ok).tables = w.tables ∧ (w.record now p ok).roots = w.roots ∧ (w.record now p ok).requests = w.requests ∧
      (w.record now p ok).proofs = w.proofs := by
  rw [World.record]
  split <;> exact ⟨rfl,rfl,rfl,rfl⟩

theorem rooted_congr (person : Uuid) (n : ℕ) (htables : w'.tables = w.tables) (hroots : w'.roots = w.roots) (hrequests : w'.requests = w.requests) :
    (w.Matched → w'.Matched) ∧ (w'.Rooted person n → w.Rooted person n) := by
  rw [World.Matched,World.Matched,World.Rooted,World.Rooted,htables,hroots,hrequests]
  exact ⟨id,id⟩

section
variable [DecidableEq τ] {now : ℤ}

theorem caller_eq_some {tok : τ} {s : Session τ} (h : w.caller now tok = some (s,n)) :
    ∃ i : ℕ, w.tables.sessions[i]? = some s ∧ w.roots[i]? = some n ∧ s.Answers w.tables.members now tok := by
  rw [World.caller] at h
  split at h
  next i hi =>
    obtain ⟨s',hs',hroot⟩ := Option.bind_eq_some_iff.mp h
    obtain ⟨m,hm,heq⟩ := Option.map_eq_some_iff.mp hroot
    obtain ⟨rfl,rfl⟩ := Prod.mk.inj heq
    obtain ⟨s'',hs'',hans⟩ := mem_resolved.mp (hi ▸ List.mem_singleton_self i)
    exact ⟨i,hs',hm,Option.some.inj (hs''.symm.trans hs') ▸ hans⟩
  next => cases h

/-- Whoever calls has a session that goes back to a proof. -/
theorem rooted_of_caller {tok : τ} {s : Session τ} (h : w.caller now tok = some (s,n)) : w.Rooted s.person n :=
  have ⟨i,hs,hroot,hans⟩ := caller_eq_some h
  .inl ⟨i,s,hs,rfl,hans.2.1.1,hroot⟩

/-- A statement that opens no session leaves each as it was or ended. -/
theorem take_rooted {e : Statement τ} (now : ℤ) (person : Uuid) (n : ℕ) (hopen : ∀ p t site tok policy, e ≠ .sessionOpen p t site tok policy) (hw : w.Matched) :
    World.Matched {w with tables := w.tables.take now e} ∧
      (World.Rooted {w with tables := w.tables.take now e} person n → w.Rooted person n) := by
  obtain ⟨p,t,site,tok,policy,he,-⟩ | htake | ⟨htake,-⟩ := take_cases w.tables now e
  · exact absurd he (hopen p t site tok policy)
  · refine ⟨?_,?_⟩
    · rw [World.Matched,htake,List.length_map]
      exact hw
    · rintro (⟨i,s,hs,hperson,hlive,hroot⟩ | hrequest)
      · rw [htake,List.getElem?_map] at hs
        obtain ⟨s₀,hs₀,rfl⟩ := Option.map_eq_some_iff.mp hs
        exact .inl ⟨i,s₀,hs₀,(after_same ..).1.symm.trans hperson,after_revokedAt hlive,hroot⟩
      · exact .inr hrequest
  · rw [htake]
    exact ⟨hw,id⟩

/-- A session that is opened goes back to the proof it is opened by. -/
theorem open_rooted {p tenant : Uuid} {site : Option Uuid} {tok : τ} {policy : Policy} {m : ℕ} {t : Tables τ}
    (person : Uuid) (n : ℕ) (h : w.tables.sessionOpen now p tenant site tok policy = some t) (hw : w.Matched) :
    World.Matched {w with tables := t, roots := w.roots++[m]} ∧
      (World.Rooted {w with tables := t, roots := w.roots++[m]} person n → w.Rooted person n ∨ (p,m) = (person,n)) := by
  rw [Tables.sessionOpen] at h
  split at h
  next =>
    obtain ⟨rfl,-⟩ := checked_eq_some h
    refine ⟨?_,?_⟩
    · rw [World.Matched,List.length_append,List.length_append,hw]
      rfl
    · rintro (⟨i,s,hs,hperson,hlive,hroot⟩ | hrequest)
      · dsimp only at hs hroot
        by_cases hlt : i < w.tables.sessions.length
        · rw [List.getElem?_append_left hlt] at hs
          rw [List.getElem?_append_left (hw ▸ hlt)] at hroot
          exact .inl (.inl ⟨i,s,hs,hperson,hlive,hroot⟩)
        · have hle := Nat.le_of_not_lt hlt
          rw [List.getElem?_append_right hle] at hs
          rw [List.getElem?_append_right (hw ▸ hle)] at hroot
          obtain rfl := List.mem_singleton.mp (List.mem_of_getElem? hs)
          obtain rfl := List.mem_singleton.mp (List.mem_of_getElem? hroot)
          exact .inr (by rw [← hperson]; rfl)
      · exact .inl (.inr hrequest)
  next => cases h

end

section
variable [DecidableEq τ] [DecidableEq Φ] (verify : String → Φ → Bool)

/-- Somebody signing on with a password that verifies against the digest kept of theirs, while they
are active and not locked out. -/
def World.Passes (w : World τ Φ) (now : ℤ) (r : Request τ Φ) (person : Uuid) : Prop :=
  ∃ password ask, r = .credentialForLogin (some person) password ask ∧
    ∃ c phc, w.credentials person = some c ∧ c.phc = some phc ∧ verify password phc = true ∧ w.active person = true ∧ ¬c.Locked now

/-- Somebody proves who they are, by a passkey or a password. -/
def World.Proves (w : World τ Φ) (e : ℤ × Doing τ Φ) (person : Uuid) : Prop :=
  match e with
  | (_,.arrive (.passkey p _)) => p = person
  | (now,.go k _) => ∃ r ∈ w.requests[k]?, w.Passes verify now r person
  | _ => False

variable {verify} {now : ℤ} {minted : τ} {e : ℤ × Doing τ Φ} {r : Request τ Φ}

/-- What a request's next statement leaves going back to a proof did so before, or the request did. -/
theorem next_rooted (verify : String → Φ → Bool) (now : ℤ) (minted : τ) (r : Request τ Φ) (person : Uuid) (n : ℕ) (hw : w.Matched) :
    (w.next verify now minted r).1.Matched ∧ w.proofs ≤ (w.next verify now minted r).1.proofs ∧
    ((w.next verify now minted r).1.Rooted person n → w.Rooted person n ∨ r.claim = some (person,n)) := by
  have hsame {v : World τ Φ} (htables : v.tables = w.tables) (hroots : v.roots = w.roots) (hrequests : v.requests = w.requests)
      (hproofs : w.proofs ≤ v.proofs) : v.Matched ∧ w.proofs ≤ v.proofs ∧ (v.Rooted person n → w.Rooted person n ∨ r.claim = some (person,n)) :=
    ⟨(rooted_congr person n htables hroots hrequests).1 hw,hproofs,fun hv => .inl ((rooted_congr person n htables hroots hrequests).2 hv)⟩
  have htake {e : Statement τ} (hopen : ∀ p t site tok policy, e ≠ .sessionOpen p t site tok policy) :
      World.Matched {w with tables := w.tables.take now e} ∧ w.proofs ≤ w.proofs ∧
        (World.Rooted {w with tables := w.tables.take now e} person n → w.Rooted person n ∨ r.claim = some (person,n)) :=
    ⟨(take_rooted now person n hopen hw).1,Nat.le_refl _,fun hv => .inl ((take_rooted now person n hopen hw).2 hv)⟩
  cases r with
  | credentialForLogin p password ask =>
    simp only [World.next]
    split
    · exact hsame rfl rfl rfl (Nat.le_refl _)
    · split
      · exact hsame rfl rfl rfl (Nat.le_succ _)
      · exact hsame rfl rfl rfl (Nat.le_refl _)
  | recordSignOn p ok proof ask =>
    obtain ⟨htables,hroots,hrequests,hproofs⟩ := record_same w now p ok
    exact hsame htables hroots hrequests hproofs.ge
  | membershipsOf p proof ask => exact hsame rfl rfl rfl (Nat.le_refl _)
  | sessionOpen p tenant site policy proof instead =>
    simp only [World.next]
    cases hopen : w.tables.sessionOpen now p tenant site minted policy with
    | none => exact hsame rfl rfl rfl (Nat.le_refl _)
    | some t =>
      obtain ⟨hmatched,hrooted⟩ := open_rooted (m := proof) person n hopen hw
      exact ⟨hmatched,Nat.le_refl _,fun hv => (hrooted hv).imp_right fun h => congrArg some h⟩
  | sessionRevoke tok => exact htake (e := .sessionRevoke tok) fun _ _ _ _ _ he => by cases he
  | resolveToChoose tok wanted => exact htake (e := .sessionResolve tok) fun _ _ _ _ _ he => by cases he
  | siteOf tok p tenant remembered proof wanted => exact hsame rfl rfl rfl (Nat.le_refl _)
  | resolveToChange tok current new stored => exact htake (e := .sessionResolve tok) fun _ _ _ _ _ he => by cases he
  | credentialPhc tok p current new stored =>
    simp only [World.next]
    split <;> exact hsame rfl rfl rfl (Nat.le_refl _)
  | recordChange tok p phc ok new stored =>
    obtain ⟨htables,hroots,hrequests,hproofs⟩ := record_same w now p ok
    exact hsame htables hroots hrequests hproofs.ge
  | credentialChangePassword tok p phc newPhc =>
    simp only [World.next]
    split <;> exact hsame rfl rfl rfl (Nat.le_refl _)
  | sessionRevokeOthers tok p => exact htake (e := .sessionRevokeOthers p tok) fun _ _ _ _ _ he => by cases he

/-- A request goes on to open a session for who it was to, or for who proves who they are by it, or
for the caller it finds. -/
theorem next_claim {r' : Request τ Φ} (hnext : (w.next verify now minted r).2 = some r') (hclaim : r'.claim = some (person,n)) :
    r.claim = some (person,n) ∨ w.Rooted person n ∨ n = w.proofs ∧ w.Passes verify now r person := by
  cases r with
  | credentialForLogin p password ask =>
    simp only [World.next] at hnext
    split at hnext
    next => cases hnext
    next p' c phc hfound =>
      obtain ⟨q,rfl,hcredential⟩ := Option.bind_eq_some_iff.mp hfound
      obtain ⟨c',hc',hphc⟩ := Option.bind_eq_some_iff.mp hcredential
      obtain ⟨phc',hphc',heq⟩ := Option.map_eq_some_iff.mp hphc
      cases heq
      split at hnext
      next hproves =>
        cases hnext
        cases hclaim
        exact .inr (.inr ⟨rfl,password,ask,rfl,c,phc,hc',hphc',hproves.1,hproves.2.1,hproves.2.2⟩)
      next =>
        cases hnext
        cases hclaim
  | recordSignOn p ok proof ask =>
    obtain ⟨m,rfl,rfl⟩ := Option.map_eq_some_iff.mp hnext
    exact .inl hclaim
  | membershipsOf p proof ask =>
    obtain ⟨tenant,-,rfl⟩ := Option.map_eq_some_iff.mp hnext
    exact .inl hclaim
  | sessionOpen p tenant site policy proof instead =>
    simp only [World.next] at hnext
    split at hnext
    · cases hnext
    · obtain ⟨tok,-,rfl⟩ := Option.map_eq_some_iff.mp hnext
      cases hclaim
  | sessionRevoke tok => cases hnext
  | resolveToChoose tok wanted =>
    obtain ⟨⟨s,m⟩,hcaller,rfl⟩ := Option.map_eq_some_iff.mp hnext
    cases hclaim
    exact .inr (.inl (rooted_of_caller hcaller))
  | siteOf tok p tenant remembered proof wanted =>
    simp only [World.next] at hnext
    split at hnext
    · cases hnext
      exact .inl hclaim
    · cases hnext
  | resolveToChange tok current new stored =>
    obtain ⟨⟨s,m⟩,-,rfl⟩ := Option.map_eq_some_iff.mp hnext
    cases hclaim
  | credentialPhc tok p current new stored =>
    simp only [World.next] at hnext
    split at hnext <;> cases hnext
    cases hclaim
  | recordChange tok p phc ok new stored =>
    simp only [World.next] at hnext
    split at hnext
    · obtain ⟨newPhc,-,rfl⟩ := Option.map_eq_some_iff.mp hnext
      cases hclaim
    · cases hnext
  | credentialChangePassword tok p phc newPhc =>
    simp only [World.next] at hnext
    split at hnext <;> cases hnext
    cases hclaim
  | sessionRevokeOthers tok p => cases hnext

/-- What goes back to a proof after any event did so before it, or it is the event that proves it. -/
theorem step_rooted (person : Uuid) (n : ℕ) (hw : w.Matched) (hstep : w.step verify e = some w') :
    w'.Matched ∧ w.proofs ≤ w'.proofs ∧ (w'.Rooted person n → w.Rooted person n ∨ n = w.proofs ∧ w.Proves verify e person) := by
  obtain ⟨now,e⟩ := e
  -- a request that is none yet claims nothing
  have harrive {r : Request τ Φ} (hnone : r.claim = none) (h : some {w with requests := w.requests++[r]} = some w') :
      w'.Matched ∧ w.proofs ≤ w'.proofs ∧ (w'.Rooted person n → w.Rooted person n ∨ n = w.proofs ∧ w.Proves verify (now,e) person) := by
    cases h
    refine ⟨hw,Nat.le_refl _,?_⟩
    rintro (hsession | ⟨r',hr',hclaim⟩)
    · exact .inl (.inl hsession)
    · obtain hr' | hr' := List.mem_append.mp hr'
      · exact .inl (.inr ⟨r',hr',hclaim⟩)
      · rw [List.mem_singleton.mp hr',hnone] at hclaim
        cases hclaim
  cases e with
  | arrive a =>
    cases a with
    | signOn p password ask => exact harrive rfl hstep
    | chooseSite tok wanted => exact harrive rfl hstep
    | changePassword tok current new stored => exact harrive rfl hstep
    | passkey p ask =>
      cases hstep
      refine ⟨hw,Nat.le_succ _,?_⟩
      rintro (hsession | ⟨r',hr',hclaim⟩)
      · exact .inl (.inl hsession)
      · obtain hr' | hr' := List.mem_append.mp hr'
        · exact .inl (.inr ⟨r',hr',hclaim⟩)
        · rw [List.mem_singleton.mp hr'] at hclaim
          cases hclaim
          exact .inr ⟨rfl,rfl⟩
  | go k minted =>
    obtain ⟨r,hr,rfl⟩ := Option.map_eq_some_iff.mp hstep
    have hmem : r ∈ w.requests := List.mem_of_getElem? hr
    obtain ⟨hmatched,hproofs,hrooted⟩ := next_rooted verify now minted r person n hw
    refine ⟨hmatched,hproofs,?_⟩
    rintro (hsession | ⟨r',hr',hclaim⟩)
    · exact .inl ((hrooted (.inl hsession)).elim id fun h => .inr ⟨r,hmem,h⟩)
    · obtain hr' | hr' := List.mem_append.mp hr'
      · exact .inl (.inr ⟨r',List.mem_of_mem_eraseIdx hr',hclaim⟩)
      · obtain hold | hold | ⟨hnew,hpasses⟩ := next_claim (Option.mem_toList.mp hr') hclaim
        · exact .inl (.inr ⟨r,hmem,hold⟩)
        · exact .inl hold
        · exact .inr ⟨hnew,r,hr,hpasses⟩
  | drop k =>
    cases hstep
    refine ⟨hw,Nat.le_refl _,?_⟩
    rintro (hsession | ⟨r',hr',hclaim⟩)
    · exact .inl (.inl hsession)
    · exact .inl (.inr ⟨r',List.mem_of_mem_eraseIdx hr',hclaim⟩)
  | elsewhere e =>
    simp only [World.step] at hstep
    split at hstep
    · cases hstep
    next hopen =>
      cases hstep
      obtain ⟨hmatched,hrooted⟩ := take_rooted now person n hopen hw
      exact ⟨hmatched,Nat.le_refl _,fun hv => .inl (hrooted hv)⟩

/-- The event of a run that is its `n`th proof, where it is a person's. -/
def ProvedIn (verify : String → Φ → Bool) (w : World τ Φ) (es : List (ℤ × Doing τ Φ)) (person : Uuid) (n : ℕ) : Prop :=
  ∃ before e after v, es = before++e :: after ∧ Runs.run (World.step verify) w before = some v ∧ v.proofs = n ∧ v.Proves verify e person

/-- What goes back to a proof at the end of a run did so at its start, or the run has the proof. -/
theorem run_rooted {es : List (ℤ × Doing τ Φ)} (person : Uuid) (n : ℕ) (hw : w.Matched)
    (hrun : Runs.run (World.step verify) w es = some w') (h : w'.Rooted person n) :
    w.Rooted person n ∨ ProvedIn verify w es person n := by
  induction es generalizing w with
  | nil =>
    cases hrun
    exact .inl h
  | cons e es ih =>
    obtain ⟨v,hstep,hrest⟩ := Runs.run_cons.mp hrun
    obtain ⟨hmatched,-,hrooted⟩ := step_rooted person n hw hstep
    obtain hv | ⟨before,e',after,u,rfl,hbefore,hn,hproves⟩ := ih hmatched hrest
    · obtain hw' | ⟨hn,hproves⟩ := hrooted hv
      · exact .inl hw'
      · exact .inr ⟨[],e,es,w,rfl,rfl,hn.symm,hproves⟩
    · exact .inr ⟨e :: before,e',after,u,rfl,Runs.run_cons.mpr ⟨v,hstep,hbefore⟩,hn,hproves⟩

/-- Whenever a session answers, over any requests under way together, its person proved who they
are before, by a passkey or by a password right at that moment while they were active and not
locked out, and is a member of its tenant. -/
theorem answered_proved {es : List (ℤ × Doing τ Φ)} {tok : τ} {s : Session τ} (hnone : w.tables.sessions = [] ∧ w.roots = [] ∧ w.requests = [])
    (hrun : Runs.run (World.step verify) w es = some w') (h : w'.caller now tok = some (s,n)) :
    ProvedIn verify w es s.person n ∧ Current w'.tables.members s.person s.tenant := by
  obtain ⟨hsessions,hroots,hrequests⟩ := hnone
  have hw : w.Matched := by rw [World.Matched,hroots,hsessions]; rfl
  obtain ⟨i,hs,-,hans⟩ := caller_eq_some h
  refine ⟨?_,hans.2.2⟩
  obtain hstart | hproved := run_rooted s.person n hw hrun (rooted_of_caller h)
  · obtain ⟨i,s',hs',-⟩ | ⟨r,hr,-⟩ := hstart
    · rw [hsessions] at hs'
      cases hs'
    · rw [hrequests] at hr
      exact absurd hr List.not_mem_nil
  · exact hproved

/-- After a change of password has ended a person's other sessions, whatever session of theirs
answers goes back to the proof of one it was asked from, of a request under way then, or to one
given since. -/
theorem changed_ends_others {es : List (ℤ × Doing τ Φ)} {k : ℕ} {moment : ℤ} {keep tok : τ} {s : Session τ} {w₁ : World τ Φ} (hw : w.Matched)
    (hchange : w.requests[k]? = some (.sessionRevokeOthers keep s.person)) (hstep : w.step verify (moment,.go k minted) = some w₁)
    (hrun : Runs.run (World.step verify) w₁ es = some w') (h : w'.caller now tok = some (s,n)) :
    (∃ (i : ℕ) (s₀ : Session τ), w.tables.sessions[i]? = some s₀ ∧ s₀.person = s.person ∧ s₀.revokedAt = none ∧ keep ∈ s₀.tokens ∧
      w.roots[i]? = some n) ∨ (∃ r ∈ w₁.requests, r.claim = some (s.person,n)) ∨ ProvedIn verify w₁ es s.person n := by
  have hmatched := (step_rooted s.person n hw hstep).1
  obtain (⟨i,s₁,hs₁,hperson,hlive,hroot⟩ | hrequest) | hproved := run_rooted s.person n hmatched hrun (rooted_of_caller h)
  · refine .inl ?_
    simp only [World.step,hchange,Option.map_some] at hstep
    obtain rfl := Option.some.inj hstep
    obtain ⟨s₀,hs₀,rfl⟩ := Option.map_eq_some_iff.mp ((List.getElem?_map ..).symm.trans hs₁)
    obtain ⟨hbefore,hspared⟩ := (revokeWhere_revokedAt _).mp hlive
    have hsame : s₀.person = s.person := (revokeWhere_same s₀ moment _).2.1.symm.trans hperson
    exact ⟨i,s₀,hs₀,hsame,hbefore,not_not.mp fun hkeep => hspared ⟨hsame,hkeep⟩,hroot⟩
  · exact .inr (.inl hrequest)
  · exact .inr (.inr hproved)

end

/-! ## A password changed -/

/-- A tenant of one member, who has a password. -/
def onePassword : World ℕ String :=
  ⟨oneMember,fun p => if p = 1 then some ⟨some "twelvechars!",0,none⟩ else none,fun _ => true,[],0,[]⟩

/-- They sign on, and again elsewhere. -/
def signOnTwice : List (ℤ × Doing ℕ String) :=
  [(0,.arrive (.signOn (some 1) "twelvechars!" ⟨none,none,false⟩)),(0,.go 0 0),(0,.go 0 0),(0,.go 0 0),(0,.go 0 7),
    (1,.arrive (.signOn (some 1) "twelvechars!" ⟨none,none,false⟩)),(1,.go 0 0),(1,.go 0 0),(1,.go 0 0),(1,.go 0 8)]

/-- They change it from the first, as far as its last statement. -/
def changeFirst : List (ℤ × Doing ℕ String) :=
  [(2,.arrive (.changePassword 7 "twelvechars!" "anotherpassword" (some "anotherpassword"))),(2,.go 0 0),(2,.go 0 0),(2,.go 0 0),(2,.go 0 0)]

def same (password phc : String) : Bool := password = phc

def signedOnTwice : World ℕ String := (Runs.run (World.step same) onePassword signOnTwice).getD onePassword

def changedFirst : World ℕ String := (Runs.run (World.step same) signedOnTwice changeFirst).getD onePassword

theorem caller_signedOnTwice : signedOnTwice.caller 2 8 = some (Session.opened 1 1 10 none 8 (Policy.new false),1) := rfl

theorem answered_proved_twice : ProvedIn same onePassword signOnTwice 1 1 ∧ Current signedOnTwice.tables.members 1 10 :=
  answered_proved ⟨rfl,rfl,rfl⟩ rfl caller_signedOnTwice

/-- The others are ended, and the first still answers. -/
def endedOthers : World ℕ String := (changedFirst.step same (2,.go 0 0)).getD onePassword

theorem matched_changedFirst : changedFirst.Matched := rfl

theorem step_changedFirst : changedFirst.step same (2,.go 0 0) = some endedOthers := rfl

theorem caller_endedOthers : endedOthers.caller 3 7 = some ((Session.opened 0 1 10 none 7 (Policy.new false)).touch 2,0) := rfl

theorem changed_ends_others_twice : endedOthers.caller 3 8 = none ∧
    ((∃ (i : ℕ) (s₀ : Session ℕ), changedFirst.tables.sessions[i]? = some s₀ ∧ s₀.person = 1 ∧ s₀.revokedAt = none ∧ 7 ∈ s₀.tokens ∧
      changedFirst.roots[i]? = some 0) ∨ (∃ r ∈ endedOthers.requests, r.claim = some (1,0)) ∨ ProvedIn same endedOthers [] 1 0) :=
  ⟨rfl,changed_ends_others matched_changedFirst rfl step_changedFirst rfl caller_endedOthers⟩

end Accounts
end Spork
