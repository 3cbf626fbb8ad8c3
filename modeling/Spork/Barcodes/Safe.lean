import Spork.Barcodes.Scan
import Spork.Lib.Gives

/-! Which scans can be read at all: every place a string is cut at is one it can be cut
at, but for the end of the symbology prefix. -/
namespace Spork
namespace Barcodes

open Text

/-! ## Digits take a byte each -/

theorem utf8Size_digit {c : Char} (h : c.isDigit = true) : c.utf8Size = 1 := by
  have hle : c.val ≤ 57 := by
    simp only [Char.isDigit,Bool.and_eq_true,decide_eq_true_eq] at h
    exact h.2
  have hsmall : c.val ≤ 127 := UInt32.le_trans hle (by decide)
  exact Char.utf8Size_eq_one_iff.mpr hsmall

theorem byteLen_digits {s : Str} (h : s.all Char.isDigit = true) : byteLen s = s.length := by
  induction s with
  | nil => rfl
  | cons c s ih =>
    rw [List.all_cons,Bool.and_eq_true] at h
    rw [byteLen_cons,utf8Size_digit h.1,ih h.2,List.length_cons]
    omega

theorem splitAt_digits {s : Str} (h : s.all Char.isDigit = true) {n : ℕ} (hn : n ≤ s.length) :
    splitAt n s = some (s.take n,s.drop n) := by
  have hfront : (s.take n).all Char.isDigit = true :=
    List.all_eq_true.mpr fun c hc => List.all_eq_true.mp h c (List.mem_of_mem_take hc)
  refine (splitAt_eq_some_iff n s _ _).mpr ⟨(List.take_append_drop n s).symm,?_⟩
  rw [byteLen_digits hfront,List.length_take]
  omega

theorem checks_gives {s : Str} (h : s.all Char.isDigit = true) {n : ℕ} (hn : n ≤ s.length) :
    Gives (checks s n) fun _ => True := by
  rw [checks,splitAt_digits h hn]
  exact ⟨_,rfl,trivial⟩

theorem isGtin_gives (s : Str) : Gives (isGtin s) fun _ => True := by
  unfold isGtin
  split_ifs with h
  · exact Gives.pure trivial
  · have hdigits : s.all Char.isDigit = true := by
      cases hall : s.all Char.isDigit with
      | true => rfl
      | false => simp [hall] at h
    exact checks_gives hdigits (by rw [byteLen_digits hdigits]; omega)

theorem normaliseGtin_gives (s : Str) : Gives (normaliseGtin s) fun _ => True := by
  refine (isGtin_gives s).bind fun b _ => ?_
  cases b <;> exact Gives.pure trivial

theorem isSscc_gives (raw : Str) : Gives (isSscc raw) fun _ => True := by
  unfold isSscc
  split_ifs with h
  · exact checks_gives h.2 (by rw [← byteLen_digits h.2]; omega)
  · exact Gives.pure trivial

theorem parseBare_gives (raw : Str) : Gives (parseBare raw) fun _ => True := by
  refine (normaliseGtin_gives raw).bind fun g _ => ?_
  cases g with
  | some g => exact Gives.pure trivial
  | none =>
    refine (isSscc_gives raw).bind fun b _ => ?_
    cases b <;> exact Gives.pure trivial

/-! ## The cursor gets on and stays in the string -/

section
variable {chars : Str} {i : ℕ}

/-- Between two places of the string, both included. -/
def Within (chars : Str) (a e : ℕ) : Prop := a ≤ e ∧ e ≤ chars.length

theorem slice_gives {a b : ℕ} (hab : a ≤ b) (hb : b ≤ chars.length) :
    Gives (slice chars a b) fun _ => True := ⟨_,slice_eq_some hab hb,trivial⟩

theorem separator_gives (hi : i ≤ chars.length) : Gives (separator chars i) (Within chars i) := by
  rw [separator,slice_eq_some hi le_rfl]
  refine Gives.pure ?_
  rw [List.take_of_length_le (by simp)]
  cases hfound : (chars.drop i).findIdx? (· = fnc1) with
  | none => exact ⟨hi,le_rfl⟩
  | some p =>
    have hp := (List.findIdx?_eq_some_iff_getElem.mp hfound).1
    rw [List.length_drop] at hp
    exact ⟨Nat.le_add_right i p,by simp only [Option.map_some,Option.getD_some]; omega⟩

theorem keep_gives (ai value : Str) (out : Scanned) : Gives (keep ai value out) fun _ => True := by
  unfold keep
  split_ifs
  · refine (normaliseGtin_gives value).bind fun g _ => Gives.pure trivial
  all_goals exact Gives.pure trivial

theorem readMeasure_gives (hi : i+3 < chars.length) (out : Scanned) :
    Gives (readMeasure chars i out) fun s => Within chars (i+2) s.i := by
  refine (slice_gives (by omega) (by omega)).bind fun fullAi _ => ?_
  dsimp only
  rw [if_pos (by omega)]
  refine (slice_gives (by omega) (by omega)).bind fun value _ => Gives.pure ?_
  exact ⟨by simp only; omega,by simp only; omega⟩

theorem readUnknown_gives (hi : i ≤ chars.length) (ai : Str) (out : Scanned) :
    Gives (readUnknown chars ai i out) fun s => Within chars i s.i := by
  refine (separator_gives hi).bind fun stop hstop => ?_
  refine (slice_gives hstop.1 hstop.2).bind fun value _ => Gives.pure ?_
  obtain ⟨hlow,hhigh⟩ := hstop
  dsimp only
  split_ifs
  · exact ⟨by omega,by omega⟩
  · exact ⟨hlow,hhigh⟩

theorem fixedValue_gives (hi : i ≤ chars.length) (len : ℕ) :
    Gives (fixedValue chars len i) fun v => Within chars i v.2 := by
  refine (slice_gives (by omega) (by omega)).bind fun value _ => Gives.pure ?_
  exact ⟨by simp only; omega,by simp only; omega⟩

theorem isSeparator_gives (chars : Str) (i : ℕ) :
    Gives (isSeparator chars i) fun b => b = true → i < chars.length := by
  unfold isSeparator
  split_ifs with h
  · rw [List.getElem?_eq_getElem h]
    exact Gives.pure fun _ => h
  · exact Gives.pure fun hfalse => by cases hfalse

theorem variableValue_gives (hi : i ≤ chars.length) (most : ℕ) :
    Gives (variableValue chars most i) fun v => Within chars i v.2 := by
  refine (separator_gives hi).bind fun stop hstop => ?_
  obtain ⟨hlow,hhigh⟩ := hstop
  dsimp only
  set last := min stop (i+most)
  have hlast : i ≤ last ∧ last ≤ chars.length := ⟨by omega,by omega⟩
  refine (slice_gives hlast.1 hlast.2).bind fun value _ => ?_
  refine (isSeparator_gives chars last).bind fun b hb => Gives.pure ?_
  cases b with
  | false => exact hlast
  | true => exact ⟨Nat.le_succ_of_le hlast.1,hb rfl⟩

theorem readKnown_gives (ai : Str) {valued : Ran (Str × ℕ)} (out : Scanned)
    (hvalued : Gives valued fun v => Within chars i v.2) :
    Gives (readKnown ai valued out) fun s => Within chars i s.i := by
  refine hvalued.bind fun v hv => ?_
  exact (keep_gives ai v.1 out).bind fun out' _ => Gives.pure hv

theorem readElement_gives (hi : i+2 ≤ chars.length) (ai : Str) (out : Scanned) :
    Gives (readElement chars ai i out) fun s => Within chars (i+2) s.i := by
  unfold readElement
  split_ifs with hmeasure
  · exact readMeasure_gives hmeasure.2 out
  · cases fixedLength ai with
    | some len => exact readKnown_gives ai out (fixedValue_gives hi len)
    | none =>
      cases variableMax ai with
      | some most => exact readKnown_gives ai out (variableValue_gives hi most)
      | none => exact readUnknown_gives hi ai out

/-- A turn never panics, and gets on unless it is the last. -/
theorem turn_gives (chars : Str) (s : Reading) :
    Gives (turn chars s) fun r => ∀ s' ∈ r, Within chars (s.i+1) s'.i := by
  unfold turn
  split_ifs with hroom
  · have hfirst : Gives chars[s.i]? fun _ => True :=
      ⟨_,List.getElem?_eq_getElem (by omega : s.i < chars.length),trivial⟩
    refine hfirst.bind fun c _ => ?_
    split_ifs with hsep
    · refine Gives.pure fun s' hs' => ?_
      obtain rfl := Option.some.inj hs'
      exact ⟨le_rfl,by simp only; omega⟩
    · refine (slice_gives (by omega) hroom).bind fun ai _ => ?_
      split_ifs
      · refine (readElement_gives hroom ai s.out).bind fun s₁ hs₁ => Gives.pure fun s' hs' => ?_
        obtain rfl := Option.some.inj hs'
        exact ⟨by have := hs₁.1; omega,hs₁.2⟩
      · exact Gives.pure fun s' hs' => by cases hs'
  · exact Gives.pure fun s' hs' => by cases hs'

/-- The loop ends: it has a turn for every character left. -/
theorem readFrom_gives (turns : ℕ) (s : Reading) (hs : s.i ≤ chars.length)
    (hturns : chars.length-s.i < turns) : Gives (readFrom chars turns s) fun _ => True := by
  induction turns generalizing s with
  | zero => omega
  | succ turns ih =>
    obtain ⟨r,hr,hnext⟩ := turn_gives chars s
    rw [readFrom,hr]
    cases r with
    | none => exact Gives.pure trivial
    | some s' =>
      obtain ⟨hlow,hhigh⟩ := hnext s' rfl
      exact ih s' hhigh (by omega)

end

theorem parseElements_gives (raw : Str) : Gives (parseElements raw) fun _ => True := by
  refine (readFrom_gives (raw.length+1) ⟨0,Scanned.bare raw,false⟩ (Nat.zero_le _) (by simp)).bind
    fun s _ => ?_
  exact Gives.pure trivial

/-! ## The symbology prefix -/

/-- The prefix to be taken off a string ends inside a character. -/
def PrefixInside (s : Str) : Prop :=
  s.head? = some ']' ∧ 3 < byteLen s ∧ ∀ front back, s = front++back → byteLen front ≠ 3

theorem stripAim_isSome_iff (s : Str) : (stripAim s).isSome = true ↔ ¬PrefixInside s := by
  unfold stripAim
  split_ifs with h
  · rw [Option.isSome_map]
    constructor
    · intro hsome hinside
      obtain ⟨⟨front,back⟩,hcut⟩ := Option.isSome_iff_exists.mp hsome
      obtain ⟨hs,hlen⟩ := (splitAt_eq_some_iff 3 s front back).mp hcut
      exact hinside.2.2 front back hs hlen
    · intro hnot
      by_contra hnone
      refine hnot ⟨h.2,h.1,fun front back hs hlen => hnone ?_⟩
      rw [(splitAt_eq_some_iff 3 s front back).mpr ⟨hs,hlen⟩]
      rfl
  · refine iff_of_true rfl fun hinside => h ⟨hinside.2.1,hinside.1⟩

/-- A scan is read without a panic just when the symbology prefix does not end inside a
character. -/
theorem parse_returns_iff (input : Str) :
    (parse input).isSome = true ↔ ¬PrefixInside (trim isWhiteSpace input) := by
  rw [← stripAim_isSome_iff]
  unfold parse
  cases stripAim (trim isWhiteSpace input) with
  | none => simp
  | some s =>
    have hgives {f : Option Scanned → Ran Scanned} (hf : ∀ bare, Gives (f bare) fun _ => True) :
        Gives (parseBare (trim (· = fnc1) s) >>= f) fun _ => True :=
      (parseBare_gives _).bind fun bare _ => hf bare
    refine iff_of_true (hgives fun bare => ?_).isSome rfl
    cases bare with
    | some s => exact Gives.pure trivial
    | none => exact parseElements_gives _

/-- A bracket, a letter and a letter with an accent. -/
theorem parse_panics : ¬∀ input : Str, (parse input).isSome = true := by
  intro h
  have hpanics : parse [']','a','é'] = none := by decide
  exact absurd (h [']','a','é']) (by simp [hpanics])

end Barcodes
end Spork
