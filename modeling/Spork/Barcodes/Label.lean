import Spork.Barcodes.Safe

/-! A label printed and scanned: what was encoded is what is read back. -/
namespace Spork
namespace Barcodes

open Text

/-! ## Labels -/

/-- Whether a two-digit identifier takes a value so long. -/
def takesLength (ai : Str) (n : ℕ) : Bool :=
  match fixedLength ai,variableMax ai with
  | some len,_ => n = len
  | none,some most => n ≤ most
  | none,none => true

/-- A value of the length its identifier allows. -/
def Sized (ai value : Str) : Prop :=
  if ai.take 2 ∈ measures then ai.length = 4 ∧ value.length = 6
  else ai.length = 2 ∧ takesLength ai value.length = true

instance (ai value : Str) : Decidable (Sized ai value) := inferInstanceAs (Decidable (ite _ _ _))

/-- An identifier and its value, as a label carries them. -/
structure Element where
  ai : Str
  value : Str
  digits : ai.all Char.isDigit = true
  sized : Sized ai value
  /-- Nothing in it ends it or is trimmed off. -/
  plain : ∀ c ∈ value, c ≠ fnc1 ∧ isWhiteSpace c = false
  /-- A trade item's number checks. -/
  checked : ai = ['0','1'] ∨ ai = ['0','2'] → isGtin value = some true

/-- Whether an identifier says by itself where its value ends. -/
def selfEnding (ai : Str) : Bool := decide (ai.take 2 ∈ measures) || (fixedLength ai).isSome

/-- Whether a separator follows an element: always one that doesn't end by itself, and
any other when asked. -/
def separated (e : Element × Bool) : Bool := e.2 || !selfEnding e.1.ai

def write (e : Element × Bool) : Str := e.1.ai++e.1.value++if separated e then [fnc1] else []

/-- A label's elements, one after another. -/
def encode (es : List (Element × Bool)) : Str := es.flatMap write

/-- The value of the last element under one of some identifiers. -/
def lastUnder (ais : List Str) (es : List Element) : Option Str :=
  ((es.filter fun e => e.ai ∈ ais).getLast?).map Element.value

/-- Where identifiers not kept in a field of their own go. -/
def isOther (ai : Str) : Prop :=
  ai ∉ [['0','0'],['0','1'],['0','2'],['1','0'],['1','7'],['2','1']]

instance (ai : Str) : Decidable (isOther ai) := inferInstanceAs (Decidable (¬_))

/-- What there is to read back from a label. -/
def readBack (raw : Str) (es : List Element) : Scanned where
  raw := raw
  gtin := lastUnder [['0','1'],['0','2']] es
  sscc := lastUnder [['0','0']] es
  lot := lastUnder [['1','0']] es
  expiry := lastUnder [['1','7']] es
  serial := lastUnder [['2','1']] es
  other := (es.filter fun e => isOther e.ai).map fun e => (e.ai,e.value)
  gs1 := true

/-- With one element an identifier, the last under it is that one. -/
theorem lastUnder_of_nodup {es : List Element} (h : (es.map Element.ai).Nodup) {e : Element}
    (he : e ∈ es) : lastUnder [e.ai] es = some e.value := by
  have hone : es.filter (fun x => x.ai ∈ [e.ai]) = [e] := by
    induction es with
    | nil => cases he
    | cons x es ih =>
      obtain ⟨hfresh,hrest⟩ := List.nodup_cons.mp h
      rcases List.mem_cons.mp he with rfl | he
      · have hnone : es.filter (fun x => x.ai ∈ [e.ai]) = [] := by
          refine List.filter_eq_nil_iff.mpr fun y hy hsame => hfresh ?_
          exact List.mem_map.mpr ⟨y,hy,by simpa using hsame⟩
        rw [List.filter_cons_of_pos (by simp),hnone]
      · have hne : x.ai ≠ e.ai := fun heq => hfresh (heq ▸ List.mem_map_of_mem he)
        rw [List.filter_cons_of_neg (by simpa using hne),ih hrest he]
  rw [lastUnder,hone]
  rfl

theorem lastUnder_concat (ais : List Str) (es : List Element) (e : Element) :
    lastUnder ais (es++[e]) = if e.ai ∈ ais then some e.value else lastUnder ais es := by
  rw [lastUnder,List.filter_append]
  split_ifs with h
  · simp [h]
  · simp [h,lastUnder]

/-! ## One element read -/

/-- What is read with one more element. -/
def took (out : Scanned) (e : Element) : Scanned :=
  if e.ai = ['0','1'] ∨ e.ai = ['0','2'] then {out with gtin := some e.value}
  else if e.ai = ['0','0'] then {out with sscc := some e.value}
  else if e.ai = ['1','0'] then {out with lot := some e.value}
  else if e.ai = ['1','7'] then {out with expiry := some e.value}
  else if e.ai = ['2','1'] then {out with serial := some e.value}
  else {out with other := out.other++[(e.ai,e.value)]}

variable (e : Element)

theorem trade_length (h : e.ai = ['0','1'] ∨ e.ai = ['0','2']) : e.value.length = 14 := by
  have hsized := e.sized
  rcases h with h | h
  · rw [Sized,h] at hsized
    simpa [measures,takesLength,fixedLength] using hsized
  · rw [Sized,h] at hsized
    simpa [measures,takesLength,fixedLength] using hsized

theorem keep_took (out : Scanned) : keep e.ai e.value out = some (took out e) := by
  unfold keep took
  split_ifs with htrade
  · have hnormal : normaliseGtin e.value = some (some e.value) := by
      have hpad : e.value.leftpad 14 '0' = e.value := by
        rw [List.leftpad,trade_length e htrade]
        rfl
      rw [normaliseGtin,e.checked htrade]
      exact congrArg (fun s => some (some s)) hpad
    rw [hnormal]
    simp
  all_goals rfl

theorem ai_length : e.ai.length = 2 ∨ e.ai.length = 4 := by
  have hsized := e.sized
  unfold Sized at hsized
  split_ifs at hsized with hmeasure
  · exact Or.inr hsized.1
  · exact Or.inl hsized.1

/-- What may stand after an element that doesn't end by itself. -/
def Ended (rest : Str) : Prop := ∀ c ∈ rest.head?, c = fnc1

section
variable {chars pre rest : Str}

theorem slice_middle {a b : Str} {i j : ℕ} (h : chars = a++b++rest) (hi : i = a.length)
    (hj : j = i+b.length) : slice chars i j = some b := by
  subst h hi hj
  rw [slice_eq_some (by omega) (by simp)]
  simp

theorem findIdx_plain {value : Str} (hvalue : ∀ c ∈ value, c ≠ fnc1) (hrest : Ended rest) :
    ((value++rest).findIdx? (· = fnc1)).getD (value++rest).length = value.length := by
  induction value with
  | nil =>
    cases rest with
    | nil => rfl
    | cons c rest =>
      obtain rfl := hrest c rfl
      simp [List.findIdx?_cons]
  | cons c value ih =>
    have hc : c ≠ fnc1 := hvalue c (by simp)
    have hnext := ih fun d hd => hvalue d (List.mem_cons_of_mem c hd)
    rw [List.cons_append,List.findIdx?_cons]
    cases hfound : (value++rest).findIdx? (· = fnc1) with
    | none => simpa [hc,hfound] using hnext
    | some p => simpa [hc,hfound] using hnext

/-- A plain value ends where the separator or the string's end is. -/
theorem separator_middle {a value : Str} {i : ℕ} (h : chars = a++value++rest) (hi : i = a.length)
    (hvalue : ∀ c ∈ value, c ≠ fnc1) (hrest : Ended rest) :
    separator chars i = some (i+value.length) := by
  subst hi
  have hlen : chars.length = a.length+(value++rest).length := by simp [h]
  have htail : slice chars a.length chars.length = some (value++rest) := by
    have hwhole : chars = a++(value++rest)++[] := by simp [h]
    exact slice_middle hwhole rfl hlen
  have hidx := findIdx_plain hvalue hrest
  rw [separator,htail]
  cases hfound : (value++rest).findIdx? (· = fnc1) with
  | none =>
    rw [hfound] at hidx
    simp only [Option.getD_none] at hidx
    simp [hfound,hlen,hidx]
  | some p =>
    rw [hfound] at hidx
    simp only [Option.getD_some] at hidx
    simp [hfound,hidx]

/-- Where the next turn starts: after the value, or after the separator that ends it. -/
def afterElement (pre rest : Str) : ℕ :=
  (pre++e.ai++e.value++if selfEnding e.ai then [] else rest.take 1).length

theorem readMeasure_element (h : chars = pre++e.ai++e.value++rest) (out : Scanned)
    (hmeasure : e.ai.take 2 ∈ measures) :
    readMeasure chars pre.length out = some ⟨afterElement e pre rest,took out e,true⟩ := by
  obtain ⟨hai,hvalue⟩ : e.ai.length = 4 ∧ e.value.length = 6 := by
    have hsized := e.sized
    rwa [Sized,if_pos hmeasure] at hsized
  have hlen : chars.length = pre.length+10+rest.length := by
    simp [h,hai,hvalue]
    omega
  have hfull : slice chars pre.length (pre.length+min 4 (chars.length-pre.length)) = some e.ai := by
    have hwhole : chars = pre++e.ai++(e.value++rest) := by simp [h]
    refine slice_middle hwhole rfl ?_
    rw [hai]
    omega
  have hbody : slice chars (pre.length+4) (min (pre.length+4+6) chars.length) = some e.value := by
    refine slice_middle (a := pre++e.ai) h (by simp [hai]) ?_
    rw [hvalue]
    omega
  have hlong (ai : Str) (htwo : ai.length = 2) : e.ai ≠ ai := by
    intro heq
    rw [heq,htwo] at hai
    cases hai
  have htook : took out e = {out with other := out.other++[(e.ai,e.value)]} := by
    rw [took,if_neg (not_or.mpr ⟨hlong _ rfl,hlong _ rfl⟩),if_neg (hlong _ rfl),if_neg (hlong _ rfl),
      if_neg (hlong _ rfl),if_neg (hlong _ rfl)]
  have hafter : afterElement e pre rest = pre.length+10 := by
    simp [afterElement,selfEnding,hmeasure,hai,hvalue]
  have hstop : min (pre.length+4+6) chars.length = pre.length+10 := by omega
  rw [readMeasure,hfull,htook,hafter]
  simp only [Option.bind_eq_bind,Option.bind_some]
  rw [if_pos (by omega),hbody,hstop]
  rfl

theorem slice_element (h : chars = pre++e.ai++e.value++rest) (hai : e.ai.length = 2) :
    slice chars (pre.length+2) (pre++e.ai++e.value).length = some e.value := by
  refine slice_middle (a := pre++e.ai) h (by simp [hai]) ?_
  simp [hai,Nat.add_assoc]

theorem fixedValue_element (h : chars = pre++e.ai++e.value++rest) (hai : e.ai.length = 2) :
    fixedValue chars e.value.length (pre.length+2) = some (e.value,(pre++e.ai++e.value).length) := by
  have hstop : min (pre.length+2+e.value.length) chars.length = (pre++e.ai++e.value).length := by
    simp [h,hai]
    omega
  rw [fixedValue]
  simp only [hstop,slice_element e h hai]
  rfl

theorem separator_element (h : chars = pre++e.ai++e.value++rest) (hai : e.ai.length = 2)
    (hrest : Ended rest) :
    separator chars (pre.length+2) = some (pre++e.ai++e.value).length := by
  rw [separator_middle h (by simp [hai]) (fun c hc => (e.plain c hc).1) hrest]
  simp [hai,Nat.add_assoc]

theorem variableValue_element (h : chars = pre++e.ai++e.value++rest) (hai : e.ai.length = 2)
    (hrest : Ended rest) {most : ℕ} (hmost : e.value.length ≤ most) :
    variableValue chars most (pre.length+2) =
      some (e.value,(pre++e.ai++e.value++rest.take 1).length) := by
  have hstop : min (pre++e.ai++e.value).length (pre.length+2+most) = (pre++e.ai++e.value).length := by
    simp [hai]
    omega
  have hnext : isSeparator chars (pre++e.ai++e.value).length = some (decide (rest ≠ [])) := by
    cases rest with
    | nil => simp [isSeparator,h]
    | cons c rest =>
      obtain rfl := hrest c rfl
      rw [isSeparator,if_pos (by simp [h]),h,List.getElem?_append_right le_rfl]
      simp
  rw [variableValue,separator_element e h hai hrest]
  simp only [Option.bind_eq_bind,Option.bind_some,hstop,slice_element e h hai,hnext]
  cases rest with
  | nil => simp
  | cons c rest => simp [Nat.add_assoc]

theorem readUnknown_element (h : chars = pre++e.ai++e.value++rest) (hai : e.ai.length = 2)
    (hrest : Ended rest) (hfixed : fixedLength e.ai = none) (hvariable : variableMax e.ai = none)
    (out : Scanned) : readUnknown chars e.ai (pre.length+2) out =
      some ⟨(pre++e.ai++e.value++rest.take 1).length,took out e,true⟩ := by
  have hknown (ai : Str) (hne : fixedLength ai ≠ none ∨ variableMax ai ≠ none) : e.ai ≠ ai := by
    rintro rfl
    rcases hne with hne | hne
    · exact hne hfixed
    · exact hne hvariable
  have htook : took out e = {out with other := out.other++[(e.ai,e.value)]} := by
    rw [took,if_neg (not_or.mpr ⟨hknown _ (by decide),hknown _ (by decide)⟩),
      if_neg (hknown _ (by decide)),if_neg (hknown _ (by decide)),if_neg (hknown _ (by decide)),
      if_neg (hknown _ (by decide))]
  rw [readUnknown,separator_element e h hai hrest,htook]
  simp only [Option.bind_eq_bind,Option.bind_some,slice_element e h hai]
  cases rest with
  | nil => simp [h]
  | cons c rest => simp [h,Nat.add_assoc]

/-- An element is read whole, and the next turn starts after it. -/
theorem readElement_element (h : chars = pre++e.ai++e.value++rest)
    (hrest : selfEnding e.ai = false → Ended rest) (out : Scanned) :
    readElement chars (e.ai.take 2) pre.length out = some ⟨afterElement e pre rest,took out e,true⟩ := by
  by_cases hmeasure : e.ai.take 2 ∈ measures
  · have hroom : pre.length+3 < chars.length := by
      have hsized := e.sized
      rw [Sized,if_pos hmeasure] at hsized
      simp [h,hsized]
      omega
    rw [readElement,if_pos ⟨hmeasure,hroom⟩]
    exact readMeasure_element e h out hmeasure
  · obtain ⟨hai,hlength⟩ : e.ai.length = 2 ∧ takesLength e.ai e.value.length = true := by
      have hsized := e.sized
      rwa [Sized,if_neg hmeasure] at hsized
    have htwo : e.ai.take 2 = e.ai := List.take_of_length_le hai.le
    rw [htwo] at hmeasure ⊢
    rw [readElement,if_neg fun hand => hmeasure hand.1]
    unfold takesLength at hlength
    cases hfixed : fixedLength e.ai with
    | some len =>
      obtain rfl : e.value.length = len := by simpa [hfixed] using hlength
      have hself : selfEnding e.ai = true := by simp [selfEnding,hfixed]
      simp only [readKnown,fixedValue_element e h hai,afterElement,hself]
      simp [keep_took e out]
    | none =>
      have hself : selfEnding e.ai = false := by simp [selfEnding,hfixed,htwo,hmeasure]
      cases hvariable : variableMax e.ai with
      | some most =>
        have hmost : e.value.length ≤ most := by simpa [hfixed,hvariable] using hlength
        simp only [readKnown,variableValue_element e h hai (hrest hself) hmost,afterElement,hself]
        simp [keep_took e out]
      | none =>
        rw [afterElement,hself]
        exact readUnknown_element e h hai (hrest hself) hfixed hvariable out

/-- A turn at an element reads it. -/
theorem turn_element (h : chars = pre++e.ai++e.value++rest)
    (hrest : selfEnding e.ai = false → Ended rest) (out : Scanned) (any : Bool) :
    turn chars ⟨pre.length,out,any⟩ = some (some ⟨afterElement e pre rest,took out e,true⟩) := by
  have hlong : 2 ≤ e.ai.length := by
    have := ai_length e
    omega
  have hroom : pre.length+2 ≤ chars.length := by
    simp [h]
    omega
  obtain ⟨c,ai,hai⟩ : ∃ c ai, e.ai = c :: ai := by
    cases hcase : e.ai with
    | nil => simp [hcase] at hlong
    | cons c ai => exact ⟨c,ai,rfl⟩
  have hfirst : chars[pre.length]? = some c := by simp [h,hai]
  have hdigit : c ≠ fnc1 := by
    have hdigits := e.digits
    rw [hai,List.all_cons,Bool.and_eq_true] at hdigits
    rintro rfl
    exact absurd hdigits.1 (by decide)
  have htwo : slice chars pre.length (pre.length+2) = some (e.ai.take 2) := by
    have hwhole : chars = pre++e.ai.take 2++(e.ai.drop 2++e.value++rest) := by
      rw [h]
      simp only [List.append_assoc]
      rw [← List.append_assoc (e.ai.take 2),List.take_append_drop]
    exact slice_middle hwhole rfl (by simp; omega)
  have hdigits : (e.ai.take 2).all Char.isDigit = true :=
    List.all_eq_true.mpr fun d hd => List.all_eq_true.mp e.digits d (List.mem_of_mem_take hd)
  rw [turn,if_pos hroom]
  simp only [Option.bind_eq_bind,hfirst,Option.bind_some,if_neg hdigit,htwo,hdigits,if_true,
    readElement_element e h hrest out]
  rfl

theorem turn_separator (h : chars = pre++[fnc1]++rest) (hrest : rest ≠ []) (out : Scanned) (any : Bool) :
    turn chars ⟨pre.length,out,any⟩ = some (some ⟨(pre++[fnc1]).length,out,any⟩) := by
  have hroom : pre.length+2 ≤ chars.length := by
    have := List.length_pos_iff.mpr hrest
    simp [h]
    omega
  have hfirst : chars[pre.length]? = some fnc1 := by simp [h]
  rw [turn,if_pos hroom]
  simp [hfirst]

end

/-! ## A label read -/

/-- One turn after another leads there. -/
def Steps (chars : Str) : Reading → Reading → Prop :=
  Relation.ReflTransGen fun s s' => turn chars s = some (some s')

section
variable {chars : Str}

theorem readFrom_more {n m : ℕ} {s r : Reading} (h : readFrom chars n s = some r) (hm : n ≤ m) :
    readFrom chars m s = some r := by
  induction n generalizing m s with
  | zero => cases h
  | succ n ih =>
    obtain ⟨m,rfl⟩ := Nat.exists_eq_succ_of_ne_zero (by omega : m ≠ 0)
    rw [readFrom] at h ⊢
    cases hturn : turn chars s with
    | none => simp [hturn] at h
    | some next =>
      cases next with
      | none => simpa [hturn] using h
      | some s' =>
        simp only [hturn] at h ⊢
        exact ih h (by omega)

theorem readFrom_steps {s s' : Reading} (h : Steps chars s s') (hstop : turn chars s' = some none) :
    ∃ n, readFrom chars n s = some s' := by
  induction h using Relation.ReflTransGen.head_induction_on with
  | refl => exact ⟨1,by simp [readFrom,hstop]⟩
  | head hstep _ ih =>
    obtain ⟨n,hn⟩ := ih
    exact ⟨n+1,by simpa [readFrom,hstep] using hn⟩

/-- The loop ends where its turns lead. -/
theorem readFrom_eq {s s' : Reading} (h : Steps chars s s') (hstop : turn chars s' = some none)
    (hs : s.i ≤ chars.length) : readFrom chars (chars.length+1) s = some s' := by
  obtain ⟨n,hn⟩ := readFrom_steps h hstop
  obtain ⟨r,hr,-⟩ := readFrom_gives (chars.length+1) s hs (by omega)
  have hsame := (readFrom_more hn (le_max_left n (chars.length+1))).symm.trans
    (readFrom_more hr (le_max_right n (chars.length+1)))
  rw [hr,Option.some.inj hsame]

/-- A label without the separator at its end. -/
def printed : List (Element × Bool) → Str
  | [] => []
  | [e] => e.1.ai++e.1.value
  | e :: e' :: es => write e++printed (e' :: es)

theorem ai_ne_nil (e : Element) : e.ai ≠ [] := by
  intro hnil
  have := ai_length e
  simp [hnil] at this

theorem printed_ne_nil (e : Element × Bool) (es : List (Element × Bool)) : printed (e :: es) ≠ [] := by
  cases es <;> simp [printed,write,ai_ne_nil]

/-- From an element to the next. -/
theorem steps_write (e : Element × Bool) {pre rest : Str} (h : chars = pre++write e++rest)
    (hrest : rest ≠ []) (out : Scanned) (any : Bool) :
    Steps chars ⟨pre.length,out,any⟩ ⟨(pre++write e).length,took out e.1,true⟩ := by
  unfold write at h ⊢
  cases hself : selfEnding e.1.ai with
  | false =>
    have hsep : separated e = true := by simp [separated,hself]
    simp only [hsep,if_true] at h ⊢
    have hwhole : chars = pre++e.1.ai++e.1.value++(fnc1 :: rest) := by simp [h]
    have hturn := turn_element e.1 hwhole (fun _ => by simp [Ended]) out any
    refine Relation.ReflTransGen.single (hturn.trans ?_)
    simp [afterElement,hself]
  | true =>
    have hends {ended : Prop} : selfEnding e.1.ai = false → ended := fun hfalse => by
      rw [hself] at hfalse
      cases hfalse
    cases hsep : separated e with
    | false =>
      have hwhole : chars = pre++e.1.ai++e.1.value++rest := by simp [h,hsep]
      have hturn := turn_element e.1 hwhole hends out any
      refine Relation.ReflTransGen.single (hturn.trans ?_)
      simp [afterElement,hself]
    | true =>
      have hwhole : chars = pre++e.1.ai++e.1.value++(fnc1 :: rest) := by simp [h,hsep]
      have hturn := turn_element e.1 hwhole hends out any
      have hthere : chars = pre++e.1.ai++e.1.value++[fnc1]++rest := by simp [h,hsep]
      have hskip := turn_separator hthere hrest (took out e.1) true
      refine Relation.ReflTransGen.head hturn (Relation.ReflTransGen.single ?_)
      simpa [afterElement,hself] using hskip

/-- The turns over a label read its elements in order. -/
theorem steps_printed (e : Element × Bool) (es : List (Element × Bool)) {pre : Str}
    (h : chars = pre++printed (e :: es)) (out : Scanned) (any : Bool) :
    Steps chars ⟨pre.length,out,any⟩
      ⟨chars.length,((e :: es).map Prod.fst).foldl took out,true⟩ := by
  induction es generalizing e pre out any with
  | nil =>
    have hwhole : chars = pre++e.1.ai++e.1.value++[] := by simp [h,printed]
    have hturn := turn_element e.1 hwhole (fun _ => by simp [Ended]) out any
    refine Relation.ReflTransGen.single (hturn.trans ?_)
    cases hself : selfEnding e.1.ai <;> simp [afterElement,hself,h,printed]
  | cons e' es ih =>
    have hwhole : chars = pre++write e++printed (e' :: es) := by simp [h,printed]
    have hfirst := steps_write e hwhole (printed_ne_nil e' es) out any
    exact hfirst.trans (ih e' hwhole (took out e.1) true)

end

/-! ## What is read is what was encoded -/

/-- An identifier is kept in a field of its own, or with the others. -/
theorem kept_as (ai : Str) : ai = ['0','0'] ∨ ai = ['0','1'] ∨ ai = ['0','2'] ∨ ai = ['1','0'] ∨
    ai = ['1','7'] ∨ ai = ['2','1'] ∨ isOther ai := by
  simp only [isOther,List.mem_cons,List.not_mem_nil,or_false]
  tauto

theorem took_fields (raw : Str) (es : List Element) :
    es.foldl took (Scanned.bare raw) = {readBack raw es with gs1 := false} := by
  induction es using List.reverseRecOn with
  | nil => rfl
  | append_singleton es e ih =>
    rw [List.foldl_append,ih,List.foldl_cons,List.foldl_nil]
    simp only [readBack,lastUnder_concat,List.filter_append,List.map_append]
    rcases kept_as e.ai with h | h | h | h | h | h | h
    · simp [took,h,isOther]
    · simp [took,h,isOther]
    · simp [took,h,isOther]
    · simp [took,h,isOther]
    · simp [took,h,isOther]
    · simp [took,h,isOther]
    · have hnot := h
      simp only [isOther,List.mem_cons,List.not_mem_nil,or_false,not_or] at hnot
      simp [took,hnot,h]

theorem lastUnder_isSome {ais : List Str} {es : List Element} {e : Element} (he : e ∈ es)
    (hai : e.ai ∈ ais) : (lastUnder ais es).isSome = true := by
  have hmem : e ∈ es.filter fun e => e.ai ∈ ais := List.mem_filter.mpr ⟨he,by simpa using hai⟩
  rw [lastUnder,Option.isSome_map,List.getLast?_isSome]
  exact List.ne_nil_of_mem hmem

/-- Something kept but an expiry or a serial makes it an element string. -/
theorem readBack_recognised (raw : Str) {es : List Element}
    (h : ∃ e ∈ es, e.ai ≠ ['1','7'] ∧ e.ai ≠ ['2','1']) :
    ((readBack raw es).isStructured || !(readBack raw es).other.isEmpty ||
      (readBack raw es).lot.isSome) = true := by
  obtain ⟨e,he,hexpiry,hserial⟩ := h
  simp only [Scanned.isStructured,readBack,Bool.or_eq_true]
  rcases kept_as e.ai with h | h | h | h | h | h | h
  · exact Or.inl (Or.inl (Or.inr (lastUnder_isSome he (by simp [h]))))
  · exact Or.inl (Or.inl (Or.inl (lastUnder_isSome he (by simp [h]))))
  · exact Or.inl (Or.inl (Or.inl (lastUnder_isSome he (by simp [h]))))
  · exact Or.inr (lastUnder_isSome he (by simp [h]))
  · exact absurd h hexpiry
  · exact absurd h hserial
  · have hmem : e ∈ es.filter fun e => isOther e.ai := List.mem_filter.mpr ⟨he,by simpa using h⟩
    have hne := List.ne_nil_of_mem (List.mem_map_of_mem (f := fun e : Element => (e.ai,e.value)) hmem)
    exact Or.inl (Or.inr (by simpa using hne))

theorem isWhiteSpace_digit {c : Char} (h : c.isDigit = true) : isWhiteSpace c = false ∧ c ≠ fnc1 ∧ c ≠ ']' := by
  have hlow : 48 ≤ c.toNat ∧ c.toNat ≤ 57 := by
    simp only [Char.isDigit,Bool.and_eq_true,decide_eq_true_eq] at h
    exact ⟨h.1,h.2⟩
  refine ⟨?_,?_,?_⟩
  · simp [isWhiteSpace]
    omega
  · rintro rfl
    exact absurd hlow.1 (by decide)
  · rintro rfl
    exact absurd hlow.2 (by decide)

theorem plain_of_digits {value : Str} (h : value.all Char.isDigit = true) :
    ∀ c ∈ value, c ≠ fnc1 ∧ isWhiteSpace c = false := fun c hc =>
  (isWhiteSpace_digit (List.all_eq_true.mp h c hc)).imp_right And.left |>.symm

theorem element_plain (e : Element) : ∀ c ∈ e.ai++e.value, isWhiteSpace c = false ∧ c ≠ fnc1 := by
  intro c hc
  rcases List.mem_append.mp hc with hc | hc
  · have hdigit := isWhiteSpace_digit (List.all_eq_true.mp e.digits c hc)
    exact ⟨hdigit.1,hdigit.2.1⟩
  · exact (e.plain c hc).symm

/-- A label is its elements and, it may be, a separator at its end. -/
theorem encode_printed (e : Element × Bool) (es : List (Element × Bool)) :
    ∃ sep, (∀ c ∈ sep, c = fnc1) ∧ encode (e :: es) = printed (e :: es)++sep := by
  induction es generalizing e with
  | nil =>
    refine ⟨if separated e then [fnc1] else [],?_,by simp [encode,write,printed]⟩
    split_ifs <;> simp
  | cons e' es ih =>
    obtain ⟨sep,hsep,heq⟩ := ih e'
    refine ⟨sep,hsep,?_⟩
    rw [encode,List.flatMap_cons,printed,List.append_assoc,← heq,encode]

theorem printed_first (e : Element × Bool) (es : List (Element × Bool)) :
    ∀ c ∈ (printed (e :: es)).head?, c.isDigit = true := by
  obtain ⟨c,ai,hai⟩ := List.exists_cons_of_ne_nil (ai_ne_nil e.1)
  have hdigits := e.1.digits
  rw [hai,List.all_cons,Bool.and_eq_true] at hdigits
  have hhead : (printed (e :: es)).head? = some c := by
    cases es <;> simp [printed,write,hai]
  rw [hhead]
  rintro d ⟨⟩
  exact hdigits.1

theorem printed_last (e : Element × Bool) (es : List (Element × Bool)) :
    ∀ c ∈ (printed (e :: es)).getLast?, isWhiteSpace c = false ∧ c ≠ fnc1 := by
  induction es generalizing e with
  | nil =>
    intro c hc
    exact element_plain e.1 c (List.mem_of_mem_getLast? hc)
  | cons e' es ih =>
    rw [printed,List.getLast?_append_of_ne_nil _ (printed_ne_nil e' es)]
    exact ih e'

/-- Off a label `parse` takes the separator at its end and nothing else. -/
theorem trim_encode (e : Element × Bool) (es : List (Element × Bool)) :
    trim isWhiteSpace (encode (e :: es)) = encode (e :: es) ∧
      stripAim (encode (e :: es)) = some (encode (e :: es)) ∧
      trim (· = fnc1) (encode (e :: es)) = printed (e :: es) := by
  obtain ⟨sep,hsep,hencode⟩ := encode_printed e es
  have hsome := printed_ne_nil e es
  have hfirst := printed_first e es
  have hlast := printed_last e es
  rw [hencode]
  have hhead : (printed (e :: es)++sep).head? = (printed (e :: es)).head? :=
    List.head?_append_of_ne_nil _ hsome
  refine ⟨trim_eq_self (by simp [hsome]) (fun c hc => ?_) (fun c hc => ?_),?_,
    trim_append hsome (fun c hc => ?_) (fun c hc => ?_) fun c hc => ?_⟩
  · exact (isWhiteSpace_digit (hfirst c (hhead ▸ hc))).1
  · rw [List.getLast?_append] at hc
    cases hend : sep.getLast? with
    | none => exact (hlast c (by simpa [hend] using hc)).1
    | some d =>
      obtain rfl : d = c := by simpa [hend] using hc
      rw [hsep d (List.mem_of_mem_getLast? hend)]
      decide
  · rw [stripAim,if_neg fun hand => ?_]
    exact (isWhiteSpace_digit (hfirst ']' (hhead ▸ hand.2))).2.2 rfl
  · simpa using (isWhiteSpace_digit (hfirst c hc)).2.1
  · simpa using (hlast c hc).2
  · simpa using hsep c hc

theorem parseBare_none {raw : Str} (hgtin : isGtin raw ≠ some true) (hsscc : isSscc raw ≠ some true) :
    parseBare raw = some none := by
  obtain ⟨b,hb,-⟩ := isGtin_gives raw
  obtain ⟨b',hb',-⟩ := isSscc_gives raw
  cases b with
  | true => exact absurd hb hgtin
  | false =>
    cases b' with
    | true => exact absurd hb' hsscc
    | false => simp [parseBare,normaliseGtin,hb,hb']

theorem parseElements_printed (e : Element × Bool) (es : List (Element × Bool))
    (hkept : ∃ x ∈ (e :: es).map Prod.fst, x.ai ≠ ['1','7'] ∧ x.ai ≠ ['2','1']) :
    parseElements (printed (e :: es)) = some (readBack (printed (e :: es)) ((e :: es).map Prod.fst)) := by
  set raw := printed (e :: es) with hraw
  have hsteps : Steps raw ⟨0,Scanned.bare raw,false⟩
      ⟨raw.length,((e :: es).map Prod.fst).foldl took (Scanned.bare raw),true⟩ :=
    steps_printed e es (hraw.trans (List.nil_append _).symm) (Scanned.bare raw) false
  have hstop (out : Scanned) : turn raw ⟨raw.length,out,true⟩ = some none := by simp [turn]
  have hread := readFrom_eq hsteps (hstop _) (Nat.zero_le _)
  have hgs1 := readBack_recognised raw hkept
  rw [parseElements,hread,took_fields]
  simp only [Option.bind_eq_bind,Option.bind_some,Bool.true_and]
  have hsame : (Scanned.isStructured {readBack raw ((e :: es).map Prod.fst) with gs1 := false} ||
      !(readBack raw ((e :: es).map Prod.fst)).other.isEmpty ||
      (readBack raw ((e :: es).map Prod.fst)).lot.isSome) = true := hgs1
  rw [hsame]
  rfl

/-- A label scanned gives back what was encoded. -/
theorem parse_encode (es : List (Element × Bool))
    (hkept : ∃ e ∈ es.map Prod.fst, e.ai ≠ ['1','7'] ∧ e.ai ≠ ['2','1'])
    (hgtin : isGtin (trim (· = fnc1) (encode es)) ≠ some true)
    (hsscc : isSscc (trim (· = fnc1) (encode es)) ≠ some true) :
    parse (encode es) = some (readBack (trim (· = fnc1) (encode es)) (es.map Prod.fst)) := by
  cases es with
  | nil =>
    obtain ⟨e,he,-⟩ := hkept
    cases he
  | cons e es =>
    obtain ⟨hspace,haim,hraw⟩ := trim_encode e es
    rw [hraw] at hgtin hsscc ⊢
    rw [parse,hspace,haim]
    simp only [Option.bind_eq_bind,Option.bind_some,hraw,parseBare_none hgtin hsscc]
    exact parseElements_printed e es hkept

/-- What two cartons of an item hold, and how many of it. -/
def contents : Element where
  ai := ['0','2']
  value := ['0','9','3','1','2','3','4','5','6','7','8','9','0','7']
  digits := by decide
  sized := by decide
  plain := plain_of_digits (by decide)
  checked _ := by decide

def count : Element where
  ai := ['3','7']
  value := ['1','2']
  digits := by decide
  sized := by decide
  plain := plain_of_digits (by decide)
  checked := by decide

theorem parse_encode_contents : parse (encode [(contents,false),(count,true)]) =
    some (readBack (trim (· = fnc1) (encode [(contents,false),(count,true)])) [contents,count]) :=
  parse_encode [(contents,false),(count,true)] ⟨contents,by simp,by decide,by decide⟩ (by decide)
    (by decide)

/-- The number of what is in a carton is read as the carton's own. -/
theorem parse_contents : ¬∀ es : List (Element × Bool), (es.map fun e => e.1.ai).Nodup →
    (∃ e ∈ es.map Prod.fst, e.ai ≠ ['1','7'] ∧ e.ai ≠ ['2','1']) →
    isGtin (encode es) ≠ some true → isSscc (encode es) ≠ some true →
    ∃ s, parse (encode es) = some s ∧ s.gs1 = true ∧
      s.gtin = lastUnder [['0','1']] (es.map Prod.fst) ∧
      s.other = ((es.map Prod.fst).filter fun e => e.ai = ['0','2'] ∨ isOther e.ai).map fun e => (e.ai,e.value) := by
  intro h
  obtain ⟨s,hs,-,hgtin,-⟩ := h [(contents,false),(count,true)] (by decide)
    ⟨contents,by simp,by decide,by decide⟩ (by decide) (by decide)
  have hread : (parse (encode [(contents,false),(count,true)])).map Scanned.gtin =
      some (some contents.value) := by decide +kernel
  rw [hs,Option.map_some,hgtin] at hread
  exact absurd hread (by decide)

end Barcodes
end Spork
