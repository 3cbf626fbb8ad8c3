import Spork.Barcodes.Safe
import Spork.Lib.CheckDigit

/-! One trade item has one normal form however it was printed (`barcodes.rs`): which
numbers are accepted, what they are padded to, and what a scan of either reads. -/
namespace Spork
namespace Barcodes

open CheckDigit

def digitValue (c : Char) : ℕ := (toDigit c).getD 0

/-- Eight, twelve, thirteen or fourteen digits that check: weighted 1 and 3 in turn from the
last, they make a multiple of ten. -/
def Sound (s : Str) : Prop :=
  s.length ∈ [8,12,13,14] ∧ s.all Char.isDigit = true ∧ alternate 1 3 (s.reverse.map digitValue)%10 = 0

instance (s : Str) : Decidable (Sound s) := inferInstanceAs (Decidable (_ ∧ _ ∧ _))

/-! ## What is accepted -/

theorem toNat_digit {c : Char} (h : c.isDigit = true) : 48 ≤ c.toNat ∧ c.toNat ≤ 57 := by
  simpa [Char.isDigit,UInt32.le_iff_toNat_le,← Char.toNat_val] using h

theorem toDigit_of_isDigit {c : Char} (h : c.isDigit = true) : toDigit c = some (digitValue c) := by
  simp [digitValue,toDigit,h]

theorem digitValue_lt {c : Char} (h : c.isDigit = true) : digitValue c < 10 := by
  have hc := toNat_digit h
  simp only [digitValue,toDigit,h,if_true,Option.getD_some]
  omega

theorem digitValue_inj {c d : Char} (hc : c.isDigit = true) (hd : d.isDigit = true)
    (h : digitValue c = digitValue d) : c = d := by
  have hc' := toNat_digit hc
  have hd' := toNat_digit hd
  simp only [digitValue,toDigit,hc,hd,if_true,Option.getD_some] at h
  apply Char.toNat_inj.mp
  omega

/-- The check digit of a body is what makes it up to a multiple of ten. -/
theorem checkDigit_eq {body : Str} (hsome : body ≠ []) (h : body.all Char.isDigit = true) {c : Char}
    (hc : c.isDigit = true) : checkDigit body = toDigit c ↔
      alternate 1 3 ((body++[c]).reverse.map digitValue)%10 = 0 := by
  have hweights := alternate_zipIdx digitValue 3 1 0 body.reverse
  rw [if_pos rfl] at hweights
  have hlt := digitValue_lt hc
  rw [checkDigit,toDigit_of_isDigit hc,if_neg (by simp [hsome,h]),Option.some.injEq,List.reverse_append,
    List.reverse_singleton,List.singleton_append,List.map_cons,alternate,one_mul,← hweights]
  change (10-((body.reverse.zipIdx.map fun x => digitValue x.1*if x.2%2 = 0 then 3 else 1).sum)%10)%10 = _ ↔ _
  omega

theorem isGtin_eq (s : Str) : isGtin s = some (decide (Sound s)) := by
  by_cases hdigits : s.all Char.isDigit = true
  · by_cases hlength : s.length ∈ [8,12,13,14]
    · obtain ⟨body,c,rfl⟩ := List.eq_nil_or_concat' s |>.resolve_left (by rintro rfl; simp at hlength)
      rw [List.all_append,Bool.and_eq_true] at hdigits
      obtain ⟨hbody,hc⟩ := hdigits
      have hc' : c.isDigit = true := by
        simpa using hc
      have hall : (body++[c]).all Char.isDigit = true := by
        simp [hbody,hc']
      have hsome : body ≠ [] := by
        rintro rfl
        simp at hlength
      have hcut : Text.splitAt ((body++[c]).length-1) (body++[c]) = some (body,[c]) := by
        rw [splitAt_digits hall (by omega)]
        simp
      rw [isGtin,byteLen_digits hall,if_neg (by simp only [hlength,hall];simp),checks,hcut]
      simp only [Option.bind_eq_bind,Option.bind_some,List.head?_cons,Option.pure_def,Option.some.injEq]
      rw [Bool.eq_iff_iff,beq_iff_eq,checkDigit_eq hsome hbody hc',decide_eq_true_eq,Sound]
      exact ⟨fun hsum => ⟨hlength,hall,hsum⟩,fun hsound => hsound.2.2⟩
    · have hnot : ¬Sound s := fun hsound => hlength hsound.1
      rw [isGtin,byteLen_digits hdigits,if_pos (by simp [hlength])]
      simp [hnot]
  · have hnot : ¬Sound s := fun hsound => hdigits hsound.2.1
    rw [isGtin,if_pos (by simp [hdigits])]
    simp [hnot]

/-- What a number's normal form is, and which have one. -/
theorem normaliseGtin_eq (s : Str) : normaliseGtin s = some (if Sound s then some (s.leftpad 14 '0') else none) := by
  unfold normaliseGtin
  rw [isGtin_eq]
  by_cases h : Sound s <;> simp [h]

/-! ## Zeros put before a number -/

theorem leftpad_eq (n : ℕ) (s : Str) : s.leftpad n '0' = List.replicate (n-s.length) '0'++s := rfl

theorem Sound.length_le {s : Str} (h : Sound s) : s.length ≤ 14 := by
  have hlength := h.1
  simp only [List.mem_cons,List.not_mem_nil,or_false] at hlength
  omega

/-- Padding with zeros leaves a number sound. -/
theorem Sound.leftpad {s : Str} (h : Sound s) : Sound (s.leftpad 14 '0') := by
  have hle := h.length_le
  obtain ⟨-,hdigits,hsum⟩ := h
  have hzero : digitValue '0' = 0 := by
    decide
  refine ⟨?_,?_,?_⟩
  · rw [leftpad_eq,List.length_append,List.length_replicate,Nat.sub_add_cancel hle]
    decide
  · rw [leftpad_eq,List.all_append,hdigits,Bool.and_true,List.all_eq_true]
    intro c hc
    rw [List.eq_of_mem_replicate hc]
    decide
  · rw [leftpad_eq,List.reverse_append,List.reverse_replicate,List.map_append,List.map_replicate,hzero,
      alternate_zeros]
    exact hsum

theorem leftpad_leftpad {s : Str} (h : s.length ≤ 14) : (s.leftpad 14 '0').leftpad 14 '0' = s.leftpad 14 '0' := by
  have hlength : (s.leftpad 14 '0').length = 14 := by
    rw [leftpad_eq,List.length_append,List.length_replicate]
    omega
  rw [leftpad_eq 14 (s.leftpad 14 '0'),hlength]
  rfl

/-- A number without the zeros it begins with. -/
def core (s : Str) : Str := s.dropWhile (· = '0')

theorem core_leftpad (n : ℕ) (s : Str) : core (s.leftpad n '0') = core s := by
  rw [leftpad_eq]
  generalize n-s.length = k
  induction k with
  | zero => rfl
  | succ k ih =>
    rw [List.replicate_succ,List.cons_append,core,List.dropWhile_cons_of_pos (by decide)]
    exact ih

/-- A number is padded as what is left of it without the zeros it begins with. -/
theorem leftpad_core {n : ℕ} {s : Str} (h : s.length ≤ n) : (core s).leftpad n '0' = s.leftpad n '0' := by
  induction s with
  | nil => rfl
  | cons c s ih =>
    by_cases hc : c = '0'
    · subst hc
      rw [List.length_cons] at h
      have hdrop : core ('0' :: s) = core s := List.dropWhile_cons_of_pos (by decide)
      have hcount : n-s.length = n-(s.length+1)+1 := by
        omega
      rw [hdrop,ih (by omega),leftpad_eq,leftpad_eq,hcount,List.length_cons,List.replicate_succ',
        List.append_assoc]
      rfl
    · have hkeep : core (c :: s) = c :: s := List.dropWhile_cons_of_neg (by simpa using hc)
      rw [hkeep]

theorem leftpad_eq_iff {s t : Str} (hs : s.length ≤ 14) (ht : t.length ≤ 14) :
    s.leftpad 14 '0' = t.leftpad 14 '0' ↔ core s = core t := by
  constructor
  · intro h
    rw [← core_leftpad 14 s,h,core_leftpad]
  · intro h
    rw [← leftpad_core hs,h,leftpad_core ht]

/-! ## One digit changed -/

theorem Sound.not_changed {before after : Str} {c d : Char} (h : Sound (before++c :: after)) (hd : d ≠ c) :
    ¬Sound (before++d :: after) := by
  intro h'
  have hc : c.isDigit = true := List.all_eq_true.mp h.2.1 c (by simp)
  have hd' : d.isDigit = true := List.all_eq_true.mp h'.2.1 d (by simp)
  have hsame : alternate 1 3 ((before++c :: after).reverse.map digitValue) ≡
      alternate 1 3 ((before++d :: after).reverse.map digitValue) [MOD 10] := h.2.2.trans h'.2.2.symm
  simp only [List.reverse_append,List.reverse_cons,List.map_append,List.map_cons,
    List.append_assoc,List.singleton_append] at hsame
  have hdigit := alternate_changed (by decide) (by decide) hsame
  apply hd
  apply digitValue_inj hd' hc
  exact (Nat.ModEq.eq_of_lt_of_lt hdigit (digitValue_lt hc) (digitValue_lt hd')).symm

/-! ## Scans -/

theorem trim_digits {p : Char → Bool} {s : Str} (h : ∀ c ∈ s, p c = false) : Text.trim p s = s := by
  rw [Text.trim]
  have hfront : s.dropWhile p = s := by
    cases s with
    | nil => rfl
    | cons c s => exact List.dropWhile_cons_of_neg (by simp [h c List.mem_cons_self])
  rw [hfront,List.rdropWhile_eq_self_iff]
  intro hne
  simp [h _ (List.getLast_mem hne)]

/-- A scan of digits alone is read as it is. -/
theorem parse_digits {s : Str} (h : s.all Char.isDigit = true) :
    parse s = (parseBare s).bind fun bare => match bare with
      | some r => some r
      | none => parseElements s := by
  have hdigit : ∀ c ∈ s, c.isDigit = true := List.all_eq_true.mp h
  have hspace : ∀ c ∈ s, isWhiteSpace c = false := by
    intro c hc
    have hd := toNat_digit (hdigit c hc)
    simp only [isWhiteSpace,List.mem_cons,List.not_mem_nil,or_false,Bool.or_eq_false_iff,
      decide_eq_false_iff_not]
    omega
  have hfnc : ∀ c ∈ s, (decide (c = fnc1)) = false := by
    intro c hc
    have hd := toNat_digit (hdigit c hc)
    rw [decide_eq_false_iff_not]
    rintro rfl
    exact absurd hd (by decide)
  have haim : stripAim s = some s := by
    unfold stripAim
    rw [if_neg]
    rintro ⟨-,hhead⟩
    have hd := hdigit ']' (List.mem_of_head? hhead)
    exact absurd hd (by decide)
  unfold parse
  rw [trim_digits hspace,haim]
  simp only [Option.bind_eq_bind,Option.bind_some,trim_digits hfnc]
  rfl

theorem parse_bare {s : Str} (h : Sound s) :
    parse s = some {Scanned.bare s with gtin := some (s.leftpad 14 '0')} := by
  rw [parse_digits h.2.1,parseBare,normaliseGtin_eq,if_pos h]
  rfl

/-- Under its identifier, a number of fourteen is read as the number. -/
theorem parse_under {g : Str} (h : Sound g) (hlength : g.length = 14) :
    ∃ r, parse ('0' :: '1' :: g) = some r ∧ r.gtin = some g := by
  have hall : ('0' :: '1' :: g).all Char.isDigit = true := by
    simp [h.2.1]
  have hlong : ('0' :: '1' :: g).length = 16 := by
    simp [hlength]
  have hbytes := byteLen_digits hall
  have hnot : ¬Sound ('0' :: '1' :: g) := by
    rintro ⟨hl,-⟩
    rw [hlong] at hl
    exact absurd hl (by decide)
  have hbare : parseBare ('0' :: '1' :: g) = some none := by
    rw [parseBare,normaliseGtin_eq,if_neg hnot]
    simp [isSscc,hbytes,hlong]
  have hpad : g.leftpad 14 '0' = g := by
    rw [leftpad_eq,hlength]
    rfl
  have hvalue : fixedValue ('0' :: '1' :: g) 14 2 = some (g,16) := by
    simp [fixedValue,Text.slice,hlength]
  have hai : Text.slice ('0' :: '1' :: g) 0 2 = some ['0','1'] := by
    simp [Text.slice]
  have hnormal : normaliseGtin g = some (some g) := by
    rw [normaliseGtin_eq,if_pos h,hpad]
  have hkeep (out : Scanned) : keep ['0','1'] g out = some {out with gtin := some g} := by
    simp [keep,hnormal]
  -- the one element there is, and then nothing further
  have hturn (out : Scanned) : turn ('0' :: '1' :: g) ⟨0,out,false⟩ = some (some ⟨16,{out with gtin := some g},true⟩) := by
    have hmark : ('0' : Char) ≠ fnc1 := by
      decide
    have hread : readElement ('0' :: '1' :: g) ['0','1'] 0 out = some ⟨16,{out with gtin := some g},true⟩ := by
      simp [readElement,measures,fixedLength,readKnown,hvalue,hkeep]
    have hle : 0+2 ≤ ('0' :: '1' :: g).length := by
      omega
    have hfirst : ('0' :: '1' :: g)[0]? = some '0' := rfl
    have hdigits : ['0','1'].all Char.isDigit = true := by
      decide
    simp only [turn,if_pos hle,hfirst,Option.bind_eq_bind,Option.bind_some,if_neg hmark,Nat.zero_add,hai,
      if_pos hdigits,hread]
    rfl
  have hend (out : Scanned) : turn ('0' :: '1' :: g) ⟨16,out,true⟩ = some none := by
    simp [turn,hlength]
  have hread : readFrom ('0' :: '1' :: g) (('0' :: '1' :: g).length+1) ⟨0,Scanned.bare ('0' :: '1' :: g),false⟩ =
      some ⟨16,{Scanned.bare ('0' :: '1' :: g) with gtin := some g},true⟩ := by
    rw [hlong,readFrom,hturn]
    simp only [readFrom,hend]
  rw [parse_digits hall,hbare,Option.bind_some]
  simp only [parseElements,hread,Option.bind_eq_bind,Option.bind_some]
  exact ⟨_,rfl,by simp [Scanned.isStructured]⟩

/-- What the one normal form of a trade item's number comes to. -/
structure NormalForm (s : Str) : Prop where
  /-- A number has a normal form just when it is sound, and is refused otherwise. -/
  accepted : ∃ r, normaliseGtin s = some r ∧ (r.isSome = true ↔ Sound s)
  /-- It is fourteen digits, accepted, and its own normal form. -/
  fourteen : ∀ g, normaliseGtin s = some (some g) →
    g.length = 14 ∧ g.all Char.isDigit = true ∧ normaliseGtin g = some (some g)
  /-- Two have one just when they are the same without the zeros they begin with. -/
  same : ∀ t g h, normaliseGtin s = some (some g) → normaliseGtin t = some (some h) →
    (g = h ↔ core s = core t)
  /-- A scan of an accepted one reads it, bare and padded under its identifier. -/
  scanned : ∀ g, normaliseGtin s = some (some g) →
    ∃ bare under, parse s = some bare ∧ parse ('0' :: '1' :: s.leftpad 14 '0') = some under ∧
      bare.gtin = some g ∧ under.gtin = some g
  /-- One with a digit changed is refused. -/
  changed : ∀ g before c after d, normaliseGtin s = some (some g) → s = before++c :: after → d ≠ c →
    normaliseGtin (before++d :: after) = some none

theorem normaliseGtin_some {s g : Str} : normaliseGtin s = some (some g) ↔ Sound s ∧ s.leftpad 14 '0' = g := by
  rw [normaliseGtin_eq]
  by_cases h : Sound s <;> simp [h]

/-- One trade item has one normal form however it was printed. -/
theorem gtin_normal_form (s : Str) : NormalForm s := by
  constructor
  case accepted =>
    refine ⟨_,normaliseGtin_eq s,?_⟩
    by_cases h : Sound s <;> simp [h]
  case fourteen =>
    intro g hg
    obtain ⟨hs,rfl⟩ := normaliseGtin_some.mp hg
    have hpad := hs.leftpad
    refine ⟨?_,hpad.2.1,normaliseGtin_some.mpr ⟨hpad,leftpad_leftpad hs.length_le⟩⟩
    have hle := hs.length_le
    rw [leftpad_eq,List.length_append,List.length_replicate]
    omega
  case same =>
    intro t g h hg hh
    obtain ⟨hs,rfl⟩ := normaliseGtin_some.mp hg
    obtain ⟨ht,rfl⟩ := normaliseGtin_some.mp hh
    exact leftpad_eq_iff hs.length_le ht.length_le
  case scanned =>
    intro g hg
    obtain ⟨hs,rfl⟩ := normaliseGtin_some.mp hg
    have hlength : (s.leftpad 14 '0').length = 14 := by
      have hle := hs.length_le
      rw [leftpad_eq,List.length_append,List.length_replicate]
      omega
    obtain ⟨under,hunder,hgtin⟩ := parse_under hs.leftpad hlength
    exact ⟨_,under,parse_bare hs,hunder,rfl,hgtin⟩
  case changed =>
    rintro g before c after d hg rfl hd
    obtain ⟨hs,-⟩ := normaliseGtin_some.mp hg
    rw [normaliseGtin_eq,if_neg (hs.not_changed hd)]

/-- Ten digits that are no number of a length issued, and padded to fourteen are one. -/
theorem scans_read_apart : ¬∀ s : Str, (parse s).map Scanned.gtin =
    (parse ('0' :: '1' :: s.leftpad 14 '0')).map Scanned.gtin := by
  intro h
  exact absurd (h ['0','0','1','2','3','4','5','6','7','0']) (by decide +kernel)

end Barcodes
end Spork
