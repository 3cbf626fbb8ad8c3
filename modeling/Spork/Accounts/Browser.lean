import Spork.Lib.Runs
import Spork.Accounts.SessionLife

/-! A browser's tabs share one cookie, whose token the server rotates under them. -/
namespace Spork
namespace Accounts

/-- A request under way, with the token its cookie had as it was sent. -/
structure Sent (τ : Type*) where
  token : τ
  sentAt : ℤ
  /-- It is the one the app makes as it is opened. -/
  opening : Bool
  deriving DecidableEq, Repr

/-- A browser with its cookie, the session it signed on with among all there are, its requests
under way, those that were answered and are to rotate the token, and the cookies under way back. -/
structure Browser (τ : Type*) where
  now : ℤ
  tables : Tables τ
  session : ℕ
  jar : τ
  sent : List (Sent τ)
  calls : List (Sent τ)
  replies : List (τ × ℤ)
  deriving DecidableEq, Repr

inductive Happening (τ : Type*)
  | send (opening : Bool)
  | arrive (k : ℕ)
  | rotate (k : ℕ) (new : τ)
  | deliver (k : ℕ)
  | lose (k : ℕ)
  | elsewhere (e : Statement τ)
  deriving DecidableEq, Repr

variable {τ : Type*} [DecidableEq τ]

def rotateAfter : ℤ := minutes (rotateAfterHours*60)

/-- A session a request finds is due a new token, as its answer has it. -/
def Session.Old (now : ℤ) (s : Session τ) : Prop := s.remembered = true ∧ s.issuedAt ≤ now-rotateAfter

instance (now : ℤ) (s : Session τ) : Decidable (s.Old now) := inferInstanceAs (Decidable (_ ∧ _))

/-- A request with the token is to rotate it. -/
def Tables.Rotates (now : ℤ) (tok : τ) (t : Tables τ) : Prop := ∃ i ∈ t.resolved now tok, ∃ s ∈ t.sessions[i]?, s.Old now

instance (now : ℤ) (tok : τ) (t : Tables τ) : Decidable (t.Rotates now tok) := inferInstanceAs (Decidable (∃ i ∈ _, _))

/-- The sessions a rotation finds. -/
def Tables.due (now : ℤ) (tok : τ) (t : Tables τ) : ℕ := t.sessions.countP fun s => s.Due now tok rotateAfter

/-- What happens next, at its moment. -/
def Browser.step (w : Browser τ) (e : ℤ × Happening τ) : Option (Browser τ) :=
  match e with
  | (now,.send opening) => some {w with now := now, sent := w.sent++[⟨w.jar,now,opening⟩]}
  | (now,.arrive k) => w.sent[k]?.map fun q => {w with
      now := now
      tables := w.tables.sessionResolve now q.token
      sent := w.sent.eraseIdx k
      calls := if q.opening = true ∧ w.tables.Rotates now q.token then w.calls++[q] else w.calls}
  | (now,.rotate k new) => w.calls[k]?.map fun q =>
    match w.tables.sessionRotate now q.token new rotateAfter with
    | none => {w with now := now, calls := w.calls.eraseIdx k}
    | some t =>
      {w with
        now := now
        tables := t
        calls := w.calls.eraseIdx k
        replies := if w.tables.due now q.token = 1 then w.replies++[(new,now)] else w.replies}
  | (now,.deliver k) => w.replies[k]?.map fun r => {w with now := now, jar := r.1, replies := w.replies.eraseIdx k}
  | (now,.lose k) => some {w with now := now, sent := w.sent.eraseIdx k}
  | (now,.elsewhere e) => some {w with now := now, tables := w.tables.take now e}

/-- A browser that has just signed on: nothing is under way, and its token is of its session alone. -/
structure SignedOn (w : Browser τ) (s : Session τ) : Prop where
  session : w.tables.sessions[w.session]? = some s
  jar : w.jar = s.token
  first : s.previous = none
  alone : ∀ j s', w.tables.sessions[j]? = some s' → j ≠ w.session → s'.token ≠ s.token
  idle : w.sent = [] ∧ w.calls = [] ∧ w.replies = []

/-- No request takes `a` to be done with, no cookie takes `b` to come, and nobody else rotates the
session's token or is given it. -/
structure Prompt (a b : ℤ) (w : Browser τ) (e : ℤ × Happening τ) : Prop where
  later : w.now ≤ e.1
  sent : ∀ q ∈ w.sent++w.calls, e.1 < q.sentAt+a
  replies : ∀ r ∈ w.replies, e.1 < r.2+b
  apart : ∀ e', e.2 = .elsewhere e' → ∀ s ∈ w.tables.sessions[w.session]?,
    (∀ new after, e' ≠ .sessionRotate s.token new after) ∧ ∀ tok ∈ e'.mints, tok ∉ s.tokens

/-- A token a request may be sent with: the session's, or the one before until `b` after it was. -/
def Carried (b : ℤ) (s : Session τ) (q : Sent τ) : Prop := q.token = s.token ∨ ∃ p ∈ s.previous, q.token = p.1 ∧ q.sentAt < p.2+b

/-- What holds of a browser whose session is `s`. -/
structure Kept (b : ℤ) (w : Browser τ) (s : Session τ) : Prop where
  session : w.tables.sessions[w.session]? = some s
  jar : w.jar = s.token ∨ ∃ p ∈ s.previous, w.jar = p.1 ∧ (s.token,p.2) ∈ w.replies
  sent : ∀ q ∈ w.sent++w.calls, q.sentAt ≤ w.now ∧ Carried b s q
  replies : ∀ r ∈ w.replies, ∃ p ∈ s.previous, r = (s.token,p.2)
  alone : ∀ j s', w.tables.sessions[j]? = some s' → j ≠ w.session → s'.token ∉ s.tokens

variable {a b now : ℤ} {w w' : Browser τ} {s s' : Session τ} {e : ℤ × Happening τ}

omit [DecidableEq τ] in
theorem SignedOn.kept (h : SignedOn w s) : Kept b w s where
  session := h.session
  jar := .inl h.jar
  sent q hq := by
    rw [h.idle.1,h.idle.2.1] at hq
    exact absurd hq List.not_mem_nil
  replies r hr := absurd (h.idle.2.2 ▸ hr) List.not_mem_nil
  alone j s' hj hne htok := by
    rw [tokens_eq,h.first] at htok
    exact h.alone j s' hj hne (List.mem_singleton.mp htok)

omit [DecidableEq τ] in
theorem Carried.congr {q : Sent τ} (htoken : s'.token = s.token) (hprevious : s'.previous = s.previous) (h : Carried b s q) :
    Carried b s' q := by
  rw [Carried,htoken,hprevious]
  exact h

/-- A list's count where one element counts and no other does. -/
theorem countP_one {α : Type*} {l : List α} {p : α → Bool} {i : ℕ} {x : α} (hx : l[i]? = some x) (hp : p x = true)
    (hne : ∀ j y, l[j]? = some y → j ≠ i → p y = false) : l.countP p = 1 := by
  induction l generalizing i with
  | nil => cases hx
  | cons y l ih =>
    cases i with
    | zero =>
      obtain rfl : y = x := Option.some.inj hx
      have hzero : l.countP p = 0 := List.countP_eq_zero.mpr fun z hz => by
        obtain ⟨j,hj⟩ := List.mem_iff_getElem?.mp hz
        rw [hne (j+1) z hj (Nat.succ_ne_zero j)]
        exact Bool.false_ne_true
      rw [List.countP_cons_of_pos hp,hzero]
    | succ i =>
      have hy : ¬p y = true := by
        rw [hne 0 y rfl (Nat.succ_ne_zero i).symm]
        exact Bool.false_ne_true
      rw [List.countP_cons_of_neg hy]
      exact ih hx fun j z hj hji => hne (j+1) z hj fun h => hji (Nat.succ.inj h)

/-- A statement the session's token is not rotated by keeps what holds. -/
theorem Kept.elsewhere (h : Kept b w s) (hlater : w.now ≤ now) {e : Statement τ} (hrotate : ∀ new after, e ≠ .sessionRotate s.token new after)
    (hmints : ∀ tok ∈ e.mints, tok ∉ s.tokens) : ∃ s', Kept b {w with now := now, tables := w.tables.take now e} s' := by
  have hkeeps : ∃ s', (w.tables.take now e).sessions[w.session]? = some s' ∧ s'.token = s.token ∧ s'.previous = s.previous := by
    obtain ⟨hsame,-⟩ | hafter := take_get h.session now e
    · exact ⟨s,hsame,rfl,rfl⟩
    · obtain ⟨htoken,hprevious⟩ | ⟨new,after,he,-⟩ := after_token w.tables.members now s e
      · exact ⟨_,hafter,htoken,hprevious⟩
      · exact absurd he (hrotate new after)
  obtain ⟨s',hs',htoken,hprevious⟩ := hkeeps
  refine ⟨s',hs',?_,fun q hq => ?_,?_,fun j r hj hne htok => ?_⟩
  · rw [htoken,hprevious]
    exact h.jar
  · exact ⟨(h.sent q hq).1.trans hlater,(h.sent q hq).2.congr htoken hprevious⟩
  · rw [htoken,hprevious]
    exact h.replies
  · have htokens : s'.tokens = s.tokens := by rw [tokens_eq,htoken,hprevious,tokens_eq]
    rw [htokens] at htok
    obtain ⟨person,tenant,site,tok,policy,rfl,htake,-⟩ | htake | ⟨htake,-⟩ := take_cases w.tables now e
    · rw [htake] at hj
      obtain hold | hnew := Nat.lt_or_ge j w.tables.sessions.length
      · exact h.alone j r ((List.getElem?_append_left hold).symm.trans hj) hne htok
      · rw [List.getElem?_append_right hnew] at hj
        rw [List.mem_singleton.mp (List.mem_of_getElem? hj)] at htok
        exact hmints tok (List.mem_singleton_self tok) htok
    · rw [htake,List.getElem?_map] at hj
      obtain ⟨r₀,hr₀,rfl⟩ := Option.map_eq_some_iff.mp hj
      obtain ⟨hsame,-⟩ | ⟨new,after,rfl,hrotated⟩ := after_token w.tables.members now r₀ e
      · exact h.alone j r₀ hr₀ hne (hsame ▸ htok)
      · rw [hrotated] at htok
        exact hmints new (List.mem_singleton_self new) htok
    · exact h.alone j r (htake ▸ hj) hne htok

omit [DecidableEq τ] in
/-- Less under way keeps what holds. -/
theorem Kept.fewer (h : Kept b w s) (hlater : w.now ≤ now) {sent calls : List (Sent τ)} (hsent : ∀ q ∈ sent++calls, q ∈ w.sent++w.calls) :
    Kept b {w with now := now, sent := sent, calls := calls} s where
  session := h.session
  jar := h.jar
  sent q hq := ⟨(h.sent q (hsent q hq)).1.trans hlater,(h.sent q (hsent q hq)).2⟩
  replies := h.replies
  alone := h.alone

omit [DecidableEq τ] in
theorem Carried.mem {q : Sent τ} (h : Carried b s q) : q.token ∈ s.tokens := by
  obtain htoken | ⟨p,hp,htoken,-⟩ := h
  · exact htoken ▸ List.mem_cons_self ..
  · rw [tokens_eq,Option.mem_def.mp hp,htoken]
    exact List.mem_cons_of_mem _ (List.mem_singleton_self _)

section
variable {k : ℕ} {new : τ} {q : Sent τ} (ha : 0 ≤ a) (hb : 0 < b) (hab : a+b ≤ minutes 2)
include ha hb hab

/-- By the time the token is rotated, nothing under way has to do with the one before it. -/
theorem Prompt.settled (hp : Prompt a b w (now,.rotate k new)) (h : Kept b w s) (hdue : s.Due now q.token rotateAfter) :
    w.jar = s.token ∧ (∀ q ∈ w.sent++w.calls, q.token = s.token) ∧ w.replies = [] := by
  have hold : ∀ p ∈ s.previous, p.2 < now-rotateAfter := by
    intro p hprevious
    have hissued := hdue.2.2.2
    rwa [Session.issuedAt,Option.mem_def.mp hprevious] at hissued
  have hnone : ∀ r ∈ w.replies, False := by
    intro r hr
    obtain ⟨p,hprevious,rfl⟩ := h.replies r hr
    have hsoon := hp.replies _ hr
    have hlong := hold p hprevious
    simp only [minutes,rotateAfter,rotateAfterHours] at hab hsoon hlong
    omega
  refine ⟨?_,fun q hq => ?_,List.eq_nil_iff_forall_not_mem.mpr hnone⟩
  · obtain hjar | ⟨p,-,-,hreply⟩ := h.jar
    · exact hjar
    · exact (hnone _ hreply).elim
  · obtain htoken | ⟨p,hprevious,-,hsent⟩ := (h.sent q hq).2
    · exact htoken
    · have hsoon := hp.sent q hq
      have hlong := hold p hprevious
      simp only [minutes,rotateAfter,rotateAfterHours] at hab hsoon hlong
      omega

/-- A rotation keeps what holds. -/
theorem Kept.rotate (h : Kept b w s) (hp : Prompt a b w (now,.rotate k new)) (hstep : w.step (now,.rotate k new) = some w') :
    ∃ s', Kept b w' s' := by
  obtain ⟨q,hq,rfl⟩ := Option.map_eq_some_iff.mp hstep
  have hcall : q ∈ w.sent++w.calls := List.mem_append_right _ (List.mem_of_getElem? hq)
  have hrest : ∀ q' ∈ w.sent++w.calls.eraseIdx k, q' ∈ w.sent++w.calls := fun q' hq' =>
    List.mem_append.mpr ((List.mem_append.mp hq').imp_right List.mem_of_mem_eraseIdx)
  have hother : ∀ j r, w.tables.sessions[j]? = some r → j ≠ w.session → ¬r.Due now q.token rotateAfter := fun j r hj hne hdue =>
    h.alone j r hj hne (hdue.1 ▸ (h.sent q hcall).2.mem)
  cases hrotate : w.tables.sessionRotate now q.token new rotateAfter with
  | none => exact ⟨s,h.fewer hp.later hrest⟩
  | some t =>
    obtain ⟨rfl,hunique⟩ := checked_eq_some hrotate
    have hget (j : ℕ) : (w.tables.mapSessions fun s => if s.Due now q.token rotateAfter then s.rotate now new else s).sessions[j]? =
        w.tables.sessions[j]?.map fun s => if s.Due now q.token rotateAfter then s.rotate now new else s := List.getElem?_map
    have hsame (j : ℕ) (r : Session τ) (hne : j ≠ w.session)
        (hj : (w.tables.mapSessions fun s => if s.Due now q.token rotateAfter then s.rotate now new else s).sessions[j]? = some r) :
        w.tables.sessions[j]? = some r := by
      rw [hget] at hj
      obtain ⟨r₀,hr₀,rfl⟩ := Option.map_eq_some_iff.mp hj
      rw [if_neg (hother j r₀ hr₀ hne)]
      exact hr₀
    by_cases hdue : s.Due now q.token rotateAfter
    · obtain ⟨hjar,hsent,hreplies⟩ := hp.settled ha hb hab h hdue
      have hone : w.tables.due now q.token = 1 :=
        countP_one h.session (decide_eq_true hdue) fun j r hj hne => decide_eq_false (hother j r hj hne)
      have hnow : (w.tables.mapSessions fun s => if s.Due now q.token rotateAfter then s.rotate now new else s).sessions[w.session]? =
          some (s.rotate now new) := by
        rw [hget,h.session,Option.map_some,if_pos hdue]
      refine ⟨s.rotate now new,hnow,.inr ⟨(s.token,now),rfl,hjar,?_⟩,fun q' hq' => ?_,fun r hr => ⟨(s.token,now),rfl,?_⟩,
        fun j r hj hne htok => ?_⟩
      · simp only [if_pos hone]
        exact List.mem_append_right _ (List.mem_singleton_self _)
      · have hbefore := (h.sent q' (hrest q' hq')).1
        have hlater := hp.later
        exact ⟨hbefore.trans hlater,.inr ⟨(s.token,now),rfl,hsent q' (hrest q' hq'),by simp only at hlater ⊢; omega⟩⟩
      · simp only [if_pos hone,hreplies,List.nil_append] at hr
        exact List.mem_singleton.mp hr
      · obtain hnew | hold := List.mem_cons.mp htok
        · have hlt : j < ((w.tables.mapSessions fun s => if s.Due now q.token rotateAfter then s.rotate now new else s).sessions.map
              Session.token).length := by
            rw [List.length_map]
            exact (List.getElem?_eq_some_iff.mp hj).1
          refine hne ((List.getElem?_inj hlt hunique.1).mp ?_)
          rw [List.getElem?_map,List.getElem?_map,hj,hnow,Option.map_some,Option.map_some,hnew]
        · exact h.alone j r (hsame j r hne hj) hne (List.mem_singleton.mp hold ▸ List.mem_cons_self ..)
    · have hnone : w.tables.due now q.token ≠ 1 := by
        have hzero : w.tables.due now q.token = 0 := List.countP_eq_zero.mpr fun r hr => by
          obtain ⟨j,hj⟩ := List.mem_iff_getElem?.mp hr
          by_cases hjs : j = w.session
          · rw [hjs,h.session] at hj
            rw [← Option.some.inj hj]
            exact fun hdue' => hdue (of_decide_eq_true hdue')
          · exact fun hdue' => hother j r hj hjs (of_decide_eq_true hdue')
        rw [hzero]
        exact Nat.zero_ne_one
      have hnow : (w.tables.mapSessions fun s => if s.Due now q.token rotateAfter then s.rotate now new else s).sessions[w.session]? =
          some s := by
        rw [hget,h.session,Option.map_some,if_neg hdue]
      have hless := h.fewer hp.later hrest
      refine ⟨s,hnow,?_,hless.sent,?_,fun j r hj hne => h.alone j r (hsame j r hne hj) hne⟩
      · simp only [if_neg hnone]
        exact h.jar
      · simp only [if_neg hnone]
        exact h.replies

/-- What happens next keeps what holds. -/
theorem Kept.step (h : Kept b w s) (hp : Prompt a b w e) (hstep : w.step e = some w') : ∃ s', Kept b w' s' := by
  obtain ⟨now,e⟩ := e
  cases e with
  | send opening =>
    cases hstep
    refine ⟨s,h.session,h.jar,fun q hq => ?_,h.replies,h.alone⟩
    rw [List.append_assoc] at hq
    obtain hq | hq := List.mem_append.mp hq
    · exact ⟨(h.sent q (List.mem_append_left _ hq)).1.trans hp.later,(h.sent q (List.mem_append_left _ hq)).2⟩
    · obtain rfl | hq := List.mem_cons.mp hq
      · refine ⟨le_refl _,h.jar.imp_right ?_⟩
        rintro ⟨p,hprevious,hjar,hreply⟩
        have hsoon : now < p.2+b := hp.replies (s.token,p.2) hreply
        exact ⟨p,hprevious,hjar,hsoon⟩
      · exact ⟨(h.sent q (List.mem_append_right _ hq)).1.trans hp.later,(h.sent q (List.mem_append_right _ hq)).2⟩
  | arrive k =>
    obtain ⟨q,hq,rfl⟩ := Option.map_eq_some_iff.mp hstep
    obtain ⟨s',hs'⟩ := h.elsewhere hp.later (e := .sessionResolve q.token) (fun _ _ he => by cases he) fun _ hm => absurd hm List.not_mem_nil
    refine ⟨s',hs'.session,hs'.jar,fun q' hq' => hs'.sent q' ?_,hs'.replies,hs'.alone⟩
    obtain hq' | hq' := List.mem_append.mp hq'
    · exact List.mem_append_left _ (List.mem_of_mem_eraseIdx hq')
    · split at hq'
      · obtain hq' | hq' := List.mem_append.mp hq'
        · exact List.mem_append_right _ hq'
        · rw [List.mem_singleton.mp hq']
          exact List.mem_append_left _ (List.mem_of_getElem? hq)
      · exact List.mem_append_right _ hq'
  | rotate k new => exact h.rotate ha hb hab hp hstep
  | deliver k =>
    obtain ⟨r,hr,rfl⟩ := Option.map_eq_some_iff.mp hstep
    obtain ⟨p,-,rfl⟩ := h.replies r (List.mem_of_getElem? hr)
    exact ⟨s,h.session,.inl rfl,fun q hq => ⟨(h.sent q hq).1.trans hp.later,(h.sent q hq).2⟩,
      fun r hr => h.replies r (List.mem_of_mem_eraseIdx hr),h.alone⟩
  | lose k =>
    cases hstep
    exact ⟨s,h.fewer hp.later fun q hq => List.mem_append.mpr ((List.mem_append.mp hq).imp_left List.mem_of_mem_eraseIdx)⟩
  | elsewhere e =>
    cases hstep
    obtain ⟨hrotate,hmints⟩ := hp.apart e rfl s h.session
    exact h.elsewhere hp.later hrotate hmints

end

theorem step_session (hstep : w.step e = some w') : w'.session = w.session := by
  obtain ⟨now,e⟩ := e
  cases e with
  | send opening => cases hstep; rfl
  | arrive k => obtain ⟨q,-,rfl⟩ := Option.map_eq_some_iff.mp hstep; rfl
  | rotate k new =>
    obtain ⟨q,-,rfl⟩ := Option.map_eq_some_iff.mp hstep
    split <;> rfl
  | deliver k => obtain ⟨r,-,rfl⟩ := Option.map_eq_some_iff.mp hstep; rfl
  | lose k => cases hstep; rfl
  | elsewhere e => cases hstep; rfl

/-- A browser still with its session, and with what holds of it. -/
def Browser.Keeps (b : ℤ) (n : ℕ) (w : Browser τ) : Prop := (∃ s, Kept b w s) ∧ w.session = n

/-- Where no request takes longer than `a` and no new cookie longer than `b` to come, and these
come to two minutes at most, rotating the token under a browser's tabs signs none of them out:
each request under way finds its session wherever that is live and its person a member. -/
theorem not_signed_out {es : List (ℤ × Happening τ)} (ha : 0 ≤ a) (hb : 0 < b) (hab : a+b ≤ minutes 2) (hw : SignedOn w s)
    (hok : Runs.Meets Browser.step (Prompt a b) w es) (hrun : Runs.run Browser.step w es = some w') :
    ∃ s', w'.tables.sessions[w.session]? = some s' ∧ ∀ q ∈ w'.sent, ∀ now, w'.now ≤ now → now < q.sentAt+a →
      ∀ members, s'.Answers members now q.token ↔ s'.Live now ∧ Current members s'.person s'.tenant := by
  have hstart : w.Keeps b w.session := ⟨⟨s,hw.kept⟩,rfl⟩
  have hinv : w'.Keeps b w.session := by
    refine Runs.run_keeps hstart ?_ hok hrun
    rintro v e v' ⟨⟨s',hkept⟩,hsame⟩ hp hstep
    exact ⟨hkept.step ha hb hab hp hstep,(step_session hstep).trans hsame⟩
  obtain ⟨⟨s',hkept⟩,hsame⟩ := hinv
  refine ⟨s',hsame ▸ hkept.session,fun q hq now hlater hsoon members => ⟨And.right,fun h => ⟨?_,h⟩⟩⟩
  obtain htoken | ⟨p,hprevious,htoken,hsent⟩ := (hkept.sent q (List.mem_append_left _ hq)).2
  · exact .inl htoken.symm
  · exact .inr ⟨p,hprevious,htoken.symm,by omega⟩

/-! ## A day in two tabs -/

/-- A browser that has signed on to stay signed in. -/
def signedOn : Browser ℕ := ⟨0,oneMember.ran (dayOfOne.take 1),0,7,[],[],[]⟩

/-- A day later one tab's request has the token rotated, and another's is under way with it. -/
def twoTabs : List (ℤ × Happening ℕ) :=
  [(minutes 1500,.send true),(minutes 1500,.send false),(minutes 1500,.arrive 0),(minutes 1500,.rotate 0 8)]

theorem signedOn_signedOn : SignedOn signedOn openedOne := by
  refine ⟨rfl,rfl,rfl,fun j s' hj hne => ?_,⟨rfl,rfl,rfl⟩⟩
  obtain rfl : j = 0 := Nat.lt_one_iff.mp (List.getElem?_eq_some_iff.mp hj).1
  exact absurd rfl hne

theorem prompt_twoTabs : Runs.Meets Browser.step (Prompt (minutes 1) (minutes 1)) signedOn twoTabs := by
  refine ⟨⟨by decide,by decide,by decide,fun _ he => by cases he⟩,fun w hw => ?_⟩
  cases hw
  refine ⟨⟨by decide,by decide,by decide,fun _ he => by cases he⟩,fun w hw => ?_⟩
  cases hw
  refine ⟨⟨by decide,by decide,by decide,fun _ he => by cases he⟩,fun w hw => ?_⟩
  cases hw
  refine ⟨⟨by decide,by decide,by decide,fun _ he => by cases he⟩,fun w hw => ?_⟩
  cases hw
  trivial

theorem not_signed_out_twoTabs : ∃ w', Runs.run Browser.step signedOn twoTabs = some w' ∧ w'.sent = [⟨7,minutes 1500,false⟩] ∧
    ∃ s', w'.tables.sessions[0]? = some s' ∧ ∀ q ∈ w'.sent, ∀ now, w'.now ≤ now → now < q.sentAt+minutes 1 →
      ∀ members, s'.Answers members now q.token ↔ s'.Live now ∧ Current members s'.person s'.tenant :=
  ⟨_,rfl,by decide,not_signed_out (by decide) (by decide) (by decide) signedOn_signedOn prompt_twoTabs rfl⟩

end Accounts
end Spork
