import Spork.Accounts.Sessions

/-! Passwords: attempts at one are counted, and too many wrong ones lock it. -/
namespace Spork
namespace Accounts

/-- What a person signs on with: the digest of their password, where they have one. -/
structure Credential (Φ : Type*) where
  phc : Option Φ
  failedAttempts : ℕ
  lockedUntil : Option ℤ
  deriving DecidableEq, Repr

variable {Φ : Type*} (verify : String → Φ → Bool)

def Credential.Locked (now : ℤ) (c : Credential Φ) : Prop := ∃ t ∈ c.lockedUntil, now < t

instance (now : ℤ) (c : Credential Φ) : Decidable (c.Locked now) := inferInstanceAs (Decidable (∃ t ∈ c.lockedUntil, now < t))

/-- A right password clears the count, a wrong one adds to it, and the tenth locks. -/
def credentialRecordAttempt (now : ℤ) (succeeded : Bool) (c : Credential Φ) : Credential Φ :=
  if succeeded then {c with failedAttempts := 0, lockedUntil := none}
  else
    {c with
      failedAttempts := c.failedAttempts+1
      lockedUntil := if 10 ≤ c.failedAttempts+1 then some (now+minutes 15) else none}

inductive SignOnAnswer
  | proved | refused
  /-- A null digest is read as a string. -/
  | panicked
  deriving DecidableEq, Repr

/-- Signing on as somebody who has a credential. -/
def signOn (now : ℤ) (active : Bool) (password : String) (c : Credential Φ) : Credential Φ × SignOnAnswer :=
  match c.phc with
  | none => (c,.panicked)
  | some phc =>
    let passwordOk := verify password phc
    (credentialRecordAttempt now passwordOk c,if passwordOk = true ∧ active = true ∧ ¬c.Locked now then .proved else .refused)

/-- The one rule of a password. -/
def checkPassword (pw : String) : Prop := 12 ≤ pw.length

instance (pw : String) : Decidable (checkPassword pw) := inferInstanceAs (Decidable (_ ≤ _))

/-- A digest is replaced over the one that was read only. -/
def credentialChangePassword [DecidableEq Φ] (expected new : Φ) (c : Credential Φ) : Option (Credential Φ) :=
  if c.phc = some expected then some ⟨some new,0,none⟩ else none

inductive ChangeAnswer
  | locked | noPassword | notCurrent | tooShort | already | notStored | changedElsewhere | changed
  deriving DecidableEq, Repr

/-- Changing a password; the new one's digest is there unless it could not be stored. -/
def changePassword [DecidableEq Φ] (now : ℤ) (current new : String) (stored : Option Φ) (c : Credential Φ) : Credential Φ × ChangeAnswer :=
  if c.Locked now then (c,.locked)
  else
    match c.phc with
    | none => (c,.noPassword)
    | some phc =>
      let currentOk := verify current phc
      let counted := credentialRecordAttempt now currentOk c
      if currentOk = false then (counted,.notCurrent)
      else if ¬checkPassword new then (counted,.tooShort)
      else if verify new phc = true then (counted,.already)
      else
        match stored with
        | none => (counted,.notStored)
        | some newPhc =>
          match credentialChangePassword phc newPhc counted with
          | none => (counted,.changedElsewhere)
          | some c' => (c',.changed)

inductive Attempt (Φ : Type*)
  | signOn (active : Bool) (password : String)
  | changePassword (current new : String) (stored : Option Φ)

/-- A credential after an attempt, and whether a right password was recorded, where one was. -/
def Credential.attempt [DecidableEq Φ] (c : Credential Φ) (now : ℤ) : Attempt Φ → Credential Φ × Option Bool
  | .signOn active password => ((signOn verify now active password c).1,c.phc.map (verify password))
  | .changePassword current new stored =>
    ((changePassword verify now current new stored c).1,if c.Locked now then none else c.phc.map (verify current))

/-- A credential after attempts in turn, with what was recorded of each and when. -/
def attempts [DecidableEq Φ] : Credential Φ → List (ℤ × Attempt Φ) → Credential Φ × List (ℤ × Bool)
  | c, [] => (c,[])
  | c, (now,a) :: as =>
    let next := c.attempt verify now a
    let rest := attempts next.1 as
    (rest.1,(next.2.map fun right => (now,right)).toList++rest.2)

/-- When the wrong attempts since the last right one were, the last first. -/
def wrongSince (tries : List (ℤ × Bool)) : List ℤ := (tries.reverse.takeWhile fun t => !t.2).map Prod.fst

/-- Ten wrong attempts on end, the last of them under fifteen minutes ago. -/
def LockedBy (tries : List (ℤ × Bool)) (now : ℤ) : Prop :=
  10 ≤ (wrongSince tries).length ∧ ∃ t ∈ (wrongSince tries).head?, now < t+minutes 15

variable {verify} {c : Credential Φ} {now : ℤ} {tries : List (ℤ × Bool)}

/-- A credential counts what was recorded. -/
structure Counts (tries : List (ℤ × Bool)) (c : Credential Φ) : Prop where
  failed : c.failedAttempts = (wrongSince tries).length
  locked : c.lockedUntil = if 10 ≤ (wrongSince tries).length then (wrongSince tries).head?.map (·+minutes 15) else none

theorem wrongSince_concat (tries : List (ℤ × Bool)) (now : ℤ) (right : Bool) :
    wrongSince (tries++[(now,right)]) = if right then [] else now :: wrongSince tries := by
  rw [wrongSince,List.reverse_concat,List.takeWhile_cons]
  cases right <;> rfl

theorem Counts.record (h : Counts tries c) (now : ℤ) (right : Bool) : Counts (tries++[(now,right)]) (credentialRecordAttempt now right c) := by
  cases right with
  | true => exact ⟨by rw [wrongSince_concat]; rfl,by rw [wrongSince_concat]; rfl⟩
  | false =>
    have hwrong : wrongSince (tries++[(now,false)]) = now :: wrongSince tries := wrongSince_concat tries now false
    refine ⟨?_,?_⟩
    · rw [hwrong,List.length_cons,← h.failed]
      rfl
    · rw [hwrong,List.length_cons,← h.failed]
      rfl

theorem Counts.locked_iff (h : Counts tries c) (now : ℤ) : c.Locked now ↔ LockedBy tries now := by
  rw [Credential.Locked,h.locked,LockedBy]
  split
  next hten =>
    simp only [Option.mem_def,Option.map_eq_some_iff]
    constructor
    · rintro ⟨-,⟨t,ht,rfl⟩,hlt⟩
      exact ⟨hten,t,ht,hlt⟩
    · rintro ⟨-,t,ht,hlt⟩
      exact ⟨_,⟨t,ht,rfl⟩,hlt⟩
  next hten => exact ⟨fun ⟨_,hmem,_⟩ => absurd hmem (Option.not_mem_none _),fun h => absurd h.1 hten⟩

theorem credentialChangePassword_eq [DecidableEq Φ] {expected new : Φ} {c' : Credential Φ} (h : credentialChangePassword expected new c = some c') :
    c' = ⟨some new,0,none⟩ := by
  rw [credentialChangePassword] at h
  split at h
  · exact (Option.some.inj h).symm
  · cases h

/-- Signing on changes nothing but the count. -/
theorem signOn_fst (now : ℤ) (active : Bool) (password : String) (c : Credential Φ) :
    (signOn verify now active password c).1 = match c.phc with
      | none => c
      | some phc => credentialRecordAttempt now (verify password phc) c := by
  rw [signOn]
  split <;> rfl

/-- A change of password counts the attempt at the one there was, unless the account is locked; one
that is taken starts the count again. -/
theorem changePassword_fst [DecidableEq Φ] (verify : String → Φ → Bool) (now : ℤ) (current new : String) (stored : Option Φ) (c : Credential Φ) :
    (c.Locked now ∨ c.phc = none) ∧ (changePassword verify now current new stored c).1 = c ∨
      ¬c.Locked now ∧ ∃ phc, c.phc = some phc ∧
        ((changePassword verify now current new stored c).1 = credentialRecordAttempt now (verify current phc) c ∨
          verify current phc = true ∧ ∃ newPhc, (changePassword verify now current new stored c).1 = ⟨some newPhc,0,none⟩) := by
  simp only [changePassword]
  split
  next hlocked => exact .inl ⟨.inl hlocked,rfl⟩
  next hlocked =>
    cases hphc : c.phc with
    | none => exact .inl ⟨.inr rfl,rfl⟩
    | some phc =>
      refine .inr ⟨hlocked,phc,rfl,?_⟩
      dsimp only
      split
      next => exact .inl rfl
      next hright =>
        have hright : verify current phc = true := Bool.eq_true_of_not_eq_false hright
        split
        next => exact .inl rfl
        next =>
          split
          next => exact .inl rfl
          next =>
            cases stored with
            | none => exact .inl rfl
            | some newPhc =>
              dsimp only
              split
              next => exact .inl rfl
              next c' hchange => exact .inr ⟨hright,newPhc,credentialChangePassword_eq hchange⟩

/-- An attempt keeps the count. -/
theorem Counts.attempt [DecidableEq Φ] (h : Counts tries c) (verify : String → Φ → Bool) (now : ℤ) (a : Attempt Φ) :
    Counts (tries++((c.attempt verify now a).2.map fun right => (now,right)).toList) (c.attempt verify now a).1 := by
  cases a with
  | signOn active password =>
    simp only [Credential.attempt,signOn_fst]
    cases hphc : c.phc with
    | none => exact (List.append_nil tries).symm ▸ h
    | some phc => exact h.record now (verify password phc)
  | changePassword current new stored =>
    simp only [Credential.attempt]
    obtain ⟨hnone,hsame⟩ | ⟨hlocked,phc,hphc,hcount⟩ := changePassword_fst verify now current new stored c
    · have hnothing : (if c.Locked now then none else c.phc.map (verify current)) = none := by
        split
        next => rfl
        next hlocked => rw [hnone.resolve_left hlocked]; rfl
      rw [hsame,hnothing]
      exact (List.append_nil tries).symm ▸ h
    · rw [if_neg hlocked,hphc]
      obtain hcount | ⟨hright,newPhc,hchanged⟩ := hcount
      · rw [hcount]
        exact h.record now (verify current phc)
      · rw [hchanged]
        have hcleared := h.record now (verify current phc)
        rw [hright] at hcleared
        rw [Option.map_some,hright]
        exact ⟨hcleared.failed,hcleared.locked⟩

/-- After any attempts it counts what was recorded of them. -/
theorem Counts.attempts [DecidableEq Φ] (h : Counts tries c) (as : List (ℤ × Attempt Φ)) :
    Counts (tries++(attempts verify c as).2) (attempts verify c as).1 := by
  induction as generalizing tries c with
  | nil => exact (List.append_nil tries).symm ▸ h
  | cons a as ih =>
    have hrest := ih (h.attempt verify a.1 a.2)
    rw [List.append_assoc] at hrest
    exact hrest

theorem signOn_proved {active : Bool} {password : String} : (signOn verify now active password c).2 = .proved ↔
    (∃ phc ∈ c.phc, verify password phc = true) ∧ active = true ∧ ¬c.Locked now := by
  rw [signOn]
  cases c.phc with
  | none =>
    constructor
    · intro h
      cases h
    · rintro ⟨⟨phc,hphc,-⟩,-⟩
      cases hphc
  | some phc =>
    simp only [ite_eq_left_iff,reduceCtorEq,imp_false,not_not,Option.mem_def,Option.some.injEq,exists_eq_left']

/-- After any attempts at a password, changes of it among them, a sign-on is let in exactly when the
password is right, the person is active, and the last ten recorded or more were not all wrong with
the last under fifteen minutes ago. -/
theorem let_in_iff [DecidableEq Φ] (verify : String → Φ → Bool) (phc : Option Φ) (as : List (ℤ × Attempt Φ)) (now : ℤ) (active : Bool)
    (password : String) :
    (signOn verify now active password (attempts verify ⟨phc,0,none⟩ as).1).2 = .proved ↔
      (∃ d ∈ (attempts verify ⟨phc,0,none⟩ as).1.phc, verify password d = true) ∧ active = true ∧
        ¬LockedBy (attempts verify ⟨phc,0,none⟩ as).2 now := by
  have hnone : Counts [] (⟨phc,0,none⟩ : Credential Φ) := ⟨rfl,rfl⟩
  rw [signOn_proved,(hnone.attempts as).locked_iff now]
  rfl

/-! ## Guessing -/

/-- The answers to sign-ons in turn. -/
def answers (verify : String → Φ → Bool) (active : Bool) : Credential Φ → List (ℤ × String) → List SignOnAnswer
  | _, [] => []
  | c, (now,password) :: rest =>
    let next := signOn verify now active password c
    next.2 :: answers verify active next.1 rest

/-- Each guess made twice, at any moments. -/
def twice (guesses : List (String × ℤ × ℤ)) : List (ℤ × String) := guesses.flatMap fun g => [(g.2.1,g.1),(g.2.2,g.1)]

theorem signOn_phc (now : ℤ) (active : Bool) (password : String) (c : Credential Φ) :
    (signOn verify now active password c).1.phc = c.phc := by
  rw [signOn_fst]
  split
  · rfl
  · rw [credentialRecordAttempt]
    split <;> rfl

/-- A right password, let in or not, unlocks the account. -/
theorem unlocked_of_right {phc : Φ} (hphc : c.phc = some phc) {password : String} (hright : verify password phc = true) (now later : ℤ)
    (active : Bool) : ¬(signOn verify now active password c).1.Locked later := by
  rw [signOn_fst,hphc]
  dsimp only
  rw [hright]
  rintro ⟨t,ht,-⟩
  cases ht

theorem signOn_wrong {phc : Φ} (hphc : c.phc = some phc) {password : String} (hwrong : verify password phc = false) (now : ℤ)
    (active : Bool) : (signOn verify now active password c).2 = .refused := by
  rw [signOn,hphc]
  exact if_neg fun h => Bool.false_ne_true (hwrong.symm.trans h.1)

/-- Whatever was tried before and whether or not the account is locked, somebody who makes each
guess twice is let in exactly when the password is among the guesses. -/
theorem guessed_iff (verify : String → Φ → Bool) (c : Credential Φ) {phc : Φ} (hphc : c.phc = some phc) (guesses : List (String × ℤ × ℤ)) :
    .proved ∈ answers verify true c (twice guesses) ↔ ∃ g ∈ guesses, verify g.1 phc = true := by
  induction guesses generalizing c with
  | nil => simp [twice,answers]
  | cons g guesses ih =>
    obtain ⟨password,first,second⟩ := g
    have hafter : (signOn verify first true password c).1.phc = some phc := (signOn_phc ..).trans hphc
    have hrest := ih (signOn verify second true password (signOn verify first true password c).1).1 ((signOn_phc ..).trans hafter)
    have hcons : twice ((password,first,second) :: guesses) = (first,password) :: (second,password) :: twice guesses := rfl
    rw [hcons,answers,answers,List.exists_mem_cons_iff]
    cases hright : verify password phc with
    | true =>
      refine ⟨fun _ => .inl rfl,fun _ => List.mem_cons_of_mem _ (List.mem_cons.mpr (.inl (Eq.symm ?_)))⟩
      exact signOn_proved.mpr ⟨⟨phc,hafter,hright⟩,rfl,unlocked_of_right hphc hright first second true⟩
    | false =>
      rw [signOn_wrong hphc hright,signOn_wrong hafter hright,List.mem_cons,List.mem_cons,hrest]
      simp

/-- Ten wrong guesses lock the account, and twice the right one opens it. -/
def elevenGuesses : List (String × ℤ × ℤ) := (List.replicate 5 ("password",1,2))++[("twelvechars!",3,4)]

theorem guessed_eleven : .proved ∈ answers (fun p d => p = d) true ⟨some "twelvechars!",0,none⟩ (twice elevenGuesses) :=
  (guessed_iff (fun p d => p = d) ⟨some "twelvechars!",0,none⟩ rfl elevenGuesses).mpr ⟨("twelvechars!",3,4),by decide,by decide⟩

end Accounts
end Spork
