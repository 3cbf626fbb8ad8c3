import Spork.Lib.Words
import Spork.Receiving.Count

/-! The dock's count converted in 64 bits (`receiving.rs`, `packing_factor` and
`resolve_count`), and the levels a receiver is offered (`receiving_list.rs`, `levels_of`),
as a build that checks for overflow runs them and as one that wraps does. -/
namespace Spork
namespace Receiving

open Words (Fits wrap Outcome mul)

section Machine

variable (checks : Bool)

/-- A factor so far times the next rung, where there are both. -/
def times (factor : Outcome (Option ℤ)) (rung : Option ℤ) : Outcome (Option ℤ) :=
  factor.bind fun
    | none => .returned none
    | some x =>
      match rung with
      | none => .returned none
      | some r => (mul checks x r).map some

def packingFactor64 (config : Option PackingConfig) : PackagingLevel → Outcome (Option ℤ)
  | .each => .returned (some 1)
  | .inner => .returned (config.bind (·.unitsPerInner))
  | .carton =>
    match config with
    | none => .returned none
    | some c => times checks (.returned c.unitsPerInner) c.innersPerCarton
  | .layer =>
    match config with
    | none => .returned none
    | some c => times checks (times checks (.returned c.unitsPerInner) c.innersPerCarton) c.cartonsPerLayer
  | .pallet =>
    match config with
    | none => .returned none
    | some c =>
      times checks (times checks (times checks (.returned c.unitsPerInner) c.innersPerCarton) c.cartonsPerLayer)
        c.layersPerPallet

/-- The base count once the factor is known: capped at 64 bits. -/
def converted (base : Option ℤ) (entered : ℤ) (level : PackagingLevel) (config : Option PackingConfig) :
    Option ℤ → Except EnteredProblem (ℤ × EnteredCount)
  | none => .error (.incompleteCascade level)
  | some factor =>
    let expectedBase := saturatingMul entered factor
    if expectedBase ≤ 0 then .error .nonPositive
    else
      match base with
      | none => .ok (expectedBase,⟨entered,level,config.map PackingConfig.id⟩)
      | some q =>
        if q ≠ expectedBase then .error (.baseMismatch entered factor q)
        else .ok (expectedBase,⟨entered,level,config.map PackingConfig.id⟩)

def resolveCount64 (baseQuantity enteredQuantity : Option ℤ) (levelText : Option String)
    (config : Option PackingConfig) (lineItemId : ℕ) : Outcome (Except EnteredProblem (ℤ × EnteredCount)) :=
  match baseQuantity,enteredQuantity,levelText with
  | some q,none,none => .returned (if q ≤ 0 then .error .nonPositive else .ok (q,⟨q,.each,none⟩))
  | base,some entered,some levelS =>
    if entered ≤ 0 then .returned (.error .nonPositive)
    else
      match PackagingLevel.parse levelS with
      | none => .returned (.error (.unknownLevel levelS))
      | some level =>
        if level.needsConfig ∧ config.isNone then .returned (.error (.configRequired level))
        else if config.any fun c => c.itemId ≠ lineItemId then .returned (.error .configWrongItem)
        else (packingFactor64 checks config level).map (converted base entered level config)
  | none,none,none => .returned (.error .nothingEntered)
  | _,_,_ => .returned (.error .ambiguousInput)

/-- A packaging level an item can be counted in, and what it converts by. -/
structure PackLevel where
  level : String
  units : ℤ
  itemPackingConfigId : Option ℕ
  deriving DecidableEq, Repr

/-- The rungs in turn: the chain stops at the first missing one. -/
def levelsFrom (id : ℕ) : Option ℤ → List (String × Option ℤ) → Outcome (List PackLevel)
  | _, [] => .returned []
  | _, (_,none) :: _ => .returned []
  | running, (level,some rung) :: rest =>
    (mul checks (running.getD 1) rung).bind fun units =>
      (levelsFrom id (some units) rest).map (⟨level,units,some id⟩ :: ·)

def levelsOf (config : Option PackingConfig) : Outcome (List PackLevel) :=
  match config with
  | none => .returned [⟨"each",1,none⟩]
  | some c =>
    (levelsFrom checks c.id none [("inner",c.unitsPerInner),("carton",c.innersPerCarton),("layer",c.cartonsPerLayer),
      ("pallet",c.layersPerPallet)]).map (⟨"each",1,none⟩ :: ·)

end Machine

/-! ## Factors in 64 bits -/

/-- The rungs are 32-bit numbers. -/
def Rungs32 (config : Option PackingConfig) : Prop :=
  ∀ c ∈ config, ∀ rung ∈ [c.unitsPerInner,c.innersPerCarton,c.cartonsPerLayer,c.layersPerPallet], ∀ r ∈ rung,
    -2^31 ≤ r ∧ r < 2^31

/-- Every level's factor fits 64 bits. -/
def FactorsFit (config : Option PackingConfig) : Prop :=
  ∀ level, ∀ p ∈ packingFactor config level, Fits p

variable {checks : Bool} {config : Option PackingConfig}

/-- Both factors, multiplied. -/
def product (factor rung : Option ℤ) : Option ℤ := Option.map₂ (·*·) factor rung

theorem packingFactor_carton (c : PackingConfig) :
    packingFactor (some c) .carton = product c.unitsPerInner c.innersPerCarton := by
  cases hu : c.unitsPerInner <;> cases hi : c.innersPerCarton <;> simp [packingFactor,product,hu,hi]

theorem packingFactor_layer (c : PackingConfig) :
    packingFactor (some c) .layer = product (packingFactor (some c) .carton) c.cartonsPerLayer := by
  cases hu : c.unitsPerInner <;> cases hi : c.innersPerCarton <;> cases hl : c.cartonsPerLayer <;>
    simp [packingFactor,product,hu,hi,hl]

theorem packingFactor_pallet (c : PackingConfig) :
    packingFactor (some c) .pallet = product (packingFactor (some c) .layer) c.layersPerPallet := by
  cases hu : c.unitsPerInner <;> cases hi : c.innersPerCarton <;> cases hl : c.cartonsPerLayer <;>
    cases hp : c.layersPerPallet <;> simp [packingFactor,product,hu,hi,hl,hp]

/-- A wrapped factor times a rung is their product, wrapped. -/
theorem times_wrap {factor rung : Option ℤ}
    (h : checks = true → (∀ a ∈ factor, Fits a) ∧ ∀ p ∈ product factor rung, Fits p) :
    times checks (.returned (factor.map wrap)) rung = .returned ((product factor rung).map wrap) := by
  cases factor with
  | none => rfl
  | some a =>
    cases rung with
    | none => rfl
    | some r =>
      have hmul : mul checks (wrap a) r = .returned (wrap (a*r)) :=
        Words.mul_wrap fun hc => ⟨(h hc).1 a rfl,(h hc).2 (a*r) rfl⟩
      simp [times,product,hmul]

theorem fits_rung (hrungs : Rungs32 config) {c : PackingConfig} (hc : config = some c) {rung : Option ℤ} {r : ℤ}
    (hin : rung ∈ [c.unitsPerInner,c.innersPerCarton,c.cartonsPerLayer,c.layersPerPallet]) (hr : rung = some r) : Fits r := by
  obtain ⟨hlow,hhigh⟩ := hrungs c hc rung hin r hr
  exact ⟨by omega,by omega⟩

/-- The machine's factor is the level's, wrapped. -/
theorem packingFactor64_eq (hrungs : Rungs32 config) (hfit : checks = true → FactorsFit config) (level : PackagingLevel) :
    packingFactor64 checks config level = .returned ((packingFactor config level).map wrap) := by
  cases config with
  | none => cases level <;> rfl
  | some c =>
    have hunits : c.unitsPerInner.map wrap = c.unitsPerInner := by
      cases hu : c.unitsPerInner with
      | none => rfl
      | some u => exact congrArg some (Words.wrap_of_fits (fits_rung hrungs rfl (by simp) hu))
    have hcarton : times checks (.returned c.unitsPerInner) c.innersPerCarton =
        .returned ((packingFactor (some c) .carton).map wrap) := by
      rw [packingFactor_carton,← hunits]
      nth_rewrite 2 [hunits]
      exact times_wrap fun hc => ⟨hfit hc .inner,by rw [← packingFactor_carton]; exact hfit hc .carton⟩
    have hlayer : times checks (times checks (.returned c.unitsPerInner) c.innersPerCarton) c.cartonsPerLayer =
        .returned ((packingFactor (some c) .layer).map wrap) := by
      rw [hcarton,packingFactor_layer]
      exact times_wrap fun hc => ⟨hfit hc .carton,by rw [← packingFactor_layer]; exact hfit hc .layer⟩
    cases level with
    | each => rfl
    | inner => exact congrArg Outcome.returned hunits.symm
    | carton => exact hcarton
    | layer => exact hlayer
    | pallet =>
      rw [packingFactor64,hlayer,packingFactor_pallet]
      exact times_wrap fun hc => ⟨hfit hc .layer,by rw [← packingFactor_pallet]; exact hfit hc .pallet⟩

theorem levelsFrom_nil {id : ℕ} {running : Option ℤ} : levelsFrom checks id running [] = .returned [] := by
  cases running <;> rfl

theorem levelsFrom_stop {id : ℕ} {running : Option ℤ} {level : String} {rest : List (String × Option ℤ)} :
    levelsFrom checks id running ((level,none) :: rest) = .returned [] := by
  cases running <;> rfl

/-- What is offered from a level on: each level with its factor, to the first without one. -/
theorem levelsFrom_step {id : ℕ} {a r : ℤ} {level : String} {rest : List (String × Option ℤ)}
    (h : checks = true → Fits a ∧ Fits (a*r)) : levelsFrom checks id (some (wrap a)) ((level,some r) :: rest) =
      (levelsFrom checks id (some (wrap (a*r))) rest).map (⟨level,wrap (a*r),some id⟩ :: ·) := by
  rw [levelsFrom,Option.getD_some,Words.mul_wrap h,Words.bind_returned]

theorem levelsOf_eq (hrungs : Rungs32 config) (hfit : checks = true → FactorsFit config) : levelsOf checks config =
    .returned (⟨"each",1,none⟩ :: [PackagingLevel.inner,.carton,.layer,.pallet].filterMap fun level =>
      (packingFactor config level).map fun p => ⟨level.asStr,wrap p,config.map PackingConfig.id⟩) := by
  cases config with
  | none => rfl
  | some c =>
    obtain ⟨id,item,u,i,l,p⟩ := c
    cases u with
    | none => rfl
    | some u =>
      have hfits : Fits u := fits_rung hrungs rfl (by simp) rfl
      have hfirst (rest : List (String × Option ℤ)) : levelsFrom checks id none (("inner",some u) :: rest) =
          (levelsFrom checks id (some (wrap u)) rest).map (⟨"inner",wrap u,some id⟩ :: ·) := by
        have hmul : mul checks 1 u = .returned (wrap u) := by
          rw [mul,one_mul,if_pos hfits,Words.wrap_of_fits hfits]
        rw [levelsFrom,Option.getD_none,hmul,Words.bind_returned]
      cases i with
      | none =>
        simp [levelsOf,hfirst,levelsFrom_stop,packingFactor,PackagingLevel.asStr]
      | some i =>
        have hcarton (rest : List (String × Option ℤ)) := @levelsFrom_step checks id _ _ "carton" rest
          fun hc : checks = true => ⟨hfits,hfit hc .carton (u*i) rfl⟩
        cases l with
        | none => simp [levelsOf,hfirst,hcarton,levelsFrom_stop,packingFactor,PackagingLevel.asStr]
        | some l =>
          have hlayer (rest : List (String × Option ℤ)) := @levelsFrom_step checks id _ _ "layer" rest
            fun hc : checks = true => ⟨hfit hc .carton (u*i) rfl,hfit hc .layer (u*i*l) rfl⟩
          cases p with
          | none => simp [levelsOf,hfirst,hcarton,hlayer,levelsFrom_stop,packingFactor,PackagingLevel.asStr]
          | some p =>
            have hpallet (rest : List (String × Option ℤ)) := @levelsFrom_step checks id _ _ "pallet" rest
              fun hc : checks = true => ⟨hfit hc .layer (u*i*l) rfl,hfit hc .pallet (u*i*l*p) rfl⟩
            simp [levelsOf,hfirst,hcarton,hlayer,hpallet,levelsFrom_nil,packingFactor,PackagingLevel.asStr]

/-- Where every factor fits, the machine's count is the count over whole factors, in
either build. -/
theorem resolveCount64_eq (hrungs : Rungs32 config) (hfit : FactorsFit config) (base entered : Option ℤ)
    (levelText : Option String) (item : ℕ) : resolveCount64 checks base entered levelText config item =
      .returned (resolveCount base entered levelText config item) := by
  have hfactor (level : PackagingLevel) : packingFactor64 checks config level = .returned (packingFactor config level) := by
    rw [packingFactor64_eq hrungs (fun _ => hfit)]
    cases hp : packingFactor config level with
    | none => rfl
    | some p => exact congrArg (fun x => Outcome.returned (some x)) (Words.wrap_of_fits (hfit level p hp))
  have hcount (b : Option ℤ) (n : ℤ) (text : String) : resolveCount64 checks b (some n) (some text) config item =
      .returned (resolveCount b (some n) (some text) config item) := by
    cases b <;>
    · simp only [resolveCount64,resolveCount]
      by_cases hpos : n ≤ 0
      · simp only [if_pos hpos]
        rfl
      · simp only [if_neg hpos]
        cases hparse : PackagingLevel.parse text with
        | none => rfl
        | some level =>
          by_cases hhas : level.needsConfig = true ∧ config.isNone = true
          · simp only [if_pos hhas]
            rfl
          · simp only [if_neg hhas,hfactor]
            cases config with
            | none =>
              cases packingFactor none level with
              | none => rfl
              | some f =>
                simp only [Words.map_returned,converted,Option.any_none,Bool.false_eq_true,if_false]
                refine congrArg Outcome.returned ?_
                split_ifs <;> rfl
            | some c =>
              by_cases hown : c.itemId ≠ item
              · simp only [Option.any_some,decide_eq_true hown,if_true,if_pos hown]
                rfl
              · simp only [Option.any_some,decide_eq_false hown,Bool.false_eq_true,if_false,if_neg hown]
                cases packingFactor (some c) level with
                | none => rfl
                | some f =>
                  simp only [Words.map_returned,converted]
                  refine congrArg Outcome.returned ?_
                  split_ifs <;> rfl
  cases base <;> cases entered <;> cases levelText
  · rfl
  · rfl
  · rfl
  · exact hcount none _ _
  · simp only [resolveCount64,resolveCount]
  · rfl
  · rfl
  · exact hcount (some _) _ _

/-! ## What a count is taken as -/

/-- A count that comes to its level's factor: above nothing, of a level there is, of the
line's item where it names a config and with a config where it needs one. -/
structure Reaches (config : Option PackingConfig) (item : ℕ) (n : ℤ) (text : String) (level : PackagingLevel) : Prop where
  pos : 0 < n
  parse : PackagingLevel.parse text = some level
  has : ¬(level.needsConfig = true ∧ config.isNone = true)
  own : ∀ c ∈ config, c.itemId = item

variable {base entered : Option ℤ} {levelText : Option String} {item : ℕ} {n : ℤ} {text : String} {level : PackagingLevel}

theorem resolveCount64_reaches (h : Reaches config item n text level) :
    resolveCount64 checks base (some n) (some text) config item =
      (packingFactor64 checks config level).map (converted base n level config) := by
  have hown : ¬(config.any fun c => decide (c.itemId ≠ item)) = true := by
    cases config with
    | none => simp
    | some c => simpa using h.own c rfl
  cases base <;> simp only [resolveCount64,if_neg (not_le.mpr h.pos),h.parse,if_neg h.has,if_neg hown]

/-- What doesn't come to its factor is refused. -/
theorem resolveCount64_refused (h : ¬∃ level, Reaches config item n text level) :
    ∃ e, resolveCount64 checks base (some n) (some text) config item = .returned (.error e) := by
  cases base <;>
  · simp only [resolveCount64]
    split
    · exact ⟨_,rfl⟩
    · rename_i hpos
      split
      · exact ⟨_,rfl⟩
      · rename_i level hparse
        split
        · exact ⟨_,rfl⟩
        · rename_i hhas
          split
          · exact ⟨_,rfl⟩
          · rename_i hown
            refine absurd ⟨level,not_le.mp hpos,hparse,hhas,fun c hc => ?_⟩ h
            cases hc
            simpa using hown

/-- A product capped at 64 bits. -/
theorem saturatingMul_pos (hn : 0 < n) {f : ℤ} (hf : 0 < f) :
    saturatingMul n f = min (2^63-1) (n*f) ∧ 0 < min (2^63-1) (n*f) := by
  have hpos : 0 < n*f := mul_pos hn hf
  have hmin : 0 < min (2^63-1) (n*f) := lt_min (by norm_num) hpos
  refine ⟨?_,hmin⟩
  unfold saturatingMul
  exact max_eq_right (by omega)

theorem saturatingMul_nonpos (hn : 0 < n) {f : ℤ} (hf : f ≤ 0) : saturatingMul n f ≤ 0 := by
  have hpos : n*f ≤ 0 := mul_nonpos_of_nonneg_of_nonpos hn.le hf
  unfold saturatingMul
  omega

/-- What is converted: a count of a positive factor, the base stated beside it the same. -/
theorem converted_ok_iff (hn : 0 < n) {f : ℤ} {q : ℤ} {out : EnteredCount} :
    converted base n level config (some f) = .ok (q,out) ↔ 0 < f ∧ q = min (2^63-1) (n*f) ∧
      (∀ b ∈ base, b = q) ∧ out = ⟨n,level,config.map PackingConfig.id⟩ := by
  rcases lt_or_ge 0 f with hf | hf
  · obtain ⟨hsat,hpos⟩ := saturatingMul_pos hn hf
    simp only [converted,hsat,if_neg (not_le.mpr hpos)]
    cases base with
    | none => simp [hf,eq_comm]
    | some b =>
      by_cases hb : b = min (2^63-1) (n*f)
      · simp [hb,hf,eq_comm]
      · simp only [if_pos hb]
        constructor
        · intro h
          cases h
        · rintro ⟨-,rfl,hall,-⟩
          exact absurd (hall b rfl) hb
  · have hsat := saturatingMul_nonpos hn hf
    simp only [converted,if_pos hsat]
    constructor
    · intro h
      cases h
    · rintro ⟨hpos,-⟩
      omega

/-- A count is converted exactly or refused, in either build: the figure is the count times
its level's factor, a base stated beside it is taken just where it is that figure, and the
levels offered are those there is a factor of. -/
structure Exactly (checks : Bool) (base entered : Option ℤ) (levelText : Option String) (config : Option PackingConfig)
    (item : ℕ) : Prop where
  returns : resolveCount64 checks base entered levelText config item ≠ .panicked
  exact_ : ∀ q out, resolveCount64 checks base entered levelText config item = .returned (.ok (q,out)) →
    entered = none ∧ base = some q ∨ ∃ n text level p, entered = some n ∧ levelText = some text ∧
      PackagingLevel.parse text = some level ∧ packingFactor config level = some p ∧ q = n*p
  stated : ∀ b n text, base = some b → entered = some n → levelText = some text →
    ((∃ out, resolveCount64 checks base entered levelText config item = .returned (.ok out)) ↔
      ∃ level p, Reaches config item n text level ∧ packingFactor config level = some p ∧ 0 < n*p ∧ b = n*p)
  levels : ∃ out, levelsOf checks config = .returned out ∧ ∀ (level : PackagingLevel) (units : ℤ),
    (∃ l ∈ out, l.level = level.asStr ∧ l.units = units) ↔ packingFactor64 checks config level = .returned (some units)

/-- No factor leaves 64 bits where that panics; and the count times its factor fits 64 bits,
or the factor's remainder is a number not above nothing, or a base other than what the
remainder makes, capped, is stated beside it. -/
def WithinWords (checks : Bool) (base entered : Option ℤ) (levelText : Option String) (config : Option PackingConfig)
    (item : ℕ) : Prop :=
  (checks = true → FactorsFit config) ∧
    ∀ n text level p, entered = some n → levelText = some text → Reaches config item n text level →
      packingFactor config level = some p →
        Fits (n*p) ∨ wrap p ≤ 0 ∨ ∃ b, base = some b ∧ b ≠ min (2^63-1) (n*wrap p)

theorem asStr_inj {l l' : PackagingLevel} (h : l.asStr = l'.asStr) : l = l' := by
  have hparse := congrArg PackagingLevel.parse h
  simpa using hparse

/-- The levels offered are those the machine has a factor of. -/
theorem levels_iff (hrungs : Rungs32 config) (hfit : checks = true → FactorsFit config) :
    ∃ out, levelsOf checks config = .returned out ∧ ∀ (level : PackagingLevel) (units : ℤ),
      (∃ l ∈ out, l.level = level.asStr ∧ l.units = units) ↔ packingFactor64 checks config level = .returned (some units) := by
  refine ⟨_,levelsOf_eq hrungs hfit,fun level units => ?_⟩
  rw [packingFactor64_eq hrungs hfit,Outcome.returned.injEq,Option.map_eq_some_iff]
  constructor
  · rintro ⟨l,hl,hlevel,rfl⟩
    rcases List.mem_cons.mp hl with rfl | hl
    · obtain rfl : PackagingLevel.each = level := asStr_inj hlevel
      exact ⟨1,rfl,rfl⟩
    · obtain ⟨level',-,hrow⟩ := List.mem_filterMap.mp hl
      obtain ⟨p,hp,rfl⟩ := Option.map_eq_some_iff.mp hrow
      obtain rfl : level' = level := asStr_inj hlevel
      exact ⟨p,hp,rfl⟩
  · rintro ⟨p,hp,rfl⟩
    by_cases heach : level = .each
    · subst heach
      cases hp
      exact ⟨_,List.mem_cons_self,rfl,rfl⟩
    · refine ⟨⟨level.asStr,wrap p,config.map PackingConfig.id⟩,List.mem_cons_of_mem _ (List.mem_filterMap.mpr ⟨level,?_,?_⟩),rfl,rfl⟩
      · cases level <;> simp at heach ⊢
      · rw [hp]
        rfl

theorem levelsFrom_checked {id : ℕ} {a r : ℤ} {label : String} {rest : List (String × Option ℤ)} {out : List PackLevel}
    (h : levelsFrom true id (some a) ((label,some r) :: rest) = .returned out) :
    Fits (a*r) ∧ ∃ out, levelsFrom true id (some (a*r)) rest = .returned out := by
  rw [levelsFrom,Option.getD_some] at h
  by_cases hfits : Fits (a*r)
  · rw [mul,if_pos hfits,Words.bind_returned] at h
    obtain ⟨out,hrest,-⟩ := Words.of_map h
    exact ⟨hfits,out,hrest⟩
  · rw [Words.mul_panicked hfits] at h
    cases h

/-- A build that checks offers the levels only where every factor fits. -/
theorem factorsFit_of_levels (hrungs : Rungs32 config) {out : List PackLevel} (h : levelsOf true config = .returned out) :
    FactorsFit config := by
  have hone : Fits 1 := by decide
  cases config with
  | none =>
    intro level q hq
    cases level <;> simp [packingFactor] at hq
    exact hq ▸ hone
  | some c =>
    obtain ⟨id,own,u,i,l,p⟩ := c
    obtain ⟨out,h,-⟩ := Words.of_map h
    cases u with
    | none =>
      intro level q hq
      cases level <;> simp [packingFactor] at hq
      exact hq ▸ hone
    | some u =>
      have hu : Fits u := fits_rung hrungs rfl (by simp) rfl
      rw [levelsFrom,Option.getD_none,mul,one_mul,if_pos hu,Words.bind_returned] at h
      obtain ⟨out,h,-⟩ := Words.of_map h
      cases i with
      | none => intro level q hq; cases level <;> simp [packingFactor] at hq <;> subst hq <;> assumption
      | some i =>
        obtain ⟨hcarton,out,h⟩ := levelsFrom_checked h
        cases l with
        | none => intro level q hq; cases level <;> simp [packingFactor] at hq <;> subst hq <;> assumption
        | some l =>
          obtain ⟨hlayer,out,h⟩ := levelsFrom_checked h
          cases p with
          | none => intro level q hq; cases level <;> simp [packingFactor] at hq <;> subst hq <;> assumption
          | some p =>
            obtain ⟨hpallet,-⟩ := levelsFrom_checked h
            intro level q hq; cases level <;> simp [packingFactor] at hq <;> subst hq <;> assumption

/-- What has no count entered, or no level, is a base as it is, or refused. -/
theorem resolveCount64_plain (h : entered = none ∨ levelText = none) :
    ∃ r, resolveCount64 checks base entered levelText config item = .returned r ∧
      ∀ q out, r = .ok (q,out) → entered = none ∧ base = some q := by
  cases base with
  | none => cases entered <;> cases levelText <;> simp [resolveCount64] at h ⊢
  | some b =>
    cases entered with
    | some n => cases levelText <;> simp [resolveCount64] at h ⊢
    | none =>
      cases levelText with
      | some text => simp [resolveCount64]
      | none =>
        refine ⟨_,rfl,fun q out hout => ?_⟩
        split at hout
        · cases hout
        · cases hout
          exact ⟨rfl,rfl⟩

theorem fits_factor (hn : 0 < n) {p : ℤ} (h : Fits (n*p)) : Fits p := by
  obtain ⟨hlow,hhigh⟩ := h
  exact ⟨by nlinarith,by nlinarith⟩

/-- What a reached count of a level with a factor is taken as. -/
theorem reached_ok_iff (hrungs : Rungs32 config) (hfit : checks = true → FactorsFit config)
    (hreach : Reaches config item n text level) {p : ℤ} (hp : packingFactor config level = some p) {q : ℤ} {out : EnteredCount} :
    resolveCount64 checks base (some n) (some text) config item = .returned (.ok (q,out)) ↔
      0 < wrap p ∧ q = min (2^63-1) (n*wrap p) ∧ (∀ b ∈ base, b = q) ∧ out = ⟨n,level,config.map PackingConfig.id⟩ := by
  rw [resolveCount64_reaches hreach,packingFactor64_eq hrungs hfit,hp,Option.map_some,Words.map_returned,
    Outcome.returned.injEq,converted_ok_iff hreach.pos]

/-- What a count is exactly is what the machine makes of it, where it fits. -/
theorem min_of_fits (hn : 0 < n) {p : ℤ} (h : Fits (n*p)) : wrap p = p ∧ min (2^63-1) (n*wrap p) = n*p := by
  have hwrap := Words.wrap_of_fits (fits_factor hn h)
  refine ⟨hwrap,?_⟩
  rw [hwrap]
  exact min_eq_right (by have := h.2; omega)

/-- What is taken is within 64 bits, so exactly where it is the count times its factor. -/
theorem exact_of_within (hrungs : Rungs32 config) (hbase : ∀ b ∈ base, Fits b)
    (h : WithinWords checks base entered levelText config item) : Exactly checks base entered levelText config item := by
  obtain ⟨hfit,hcount⟩ := h
  -- a reached count taken is exactly its figure
  have htaken {n : ℤ} {text : String} {level : PackagingLevel} (hn : entered = some n) (htext : levelText = some text)
      (hreach : Reaches config item n text level) {q : ℤ} {out : EnteredCount}
      (hok : resolveCount64 checks base entered levelText config item = .returned (.ok (q,out))) :
      ∃ p, packingFactor config level = some p ∧ 0 < p ∧ Fits (n*p) ∧ q = n*p ∧ ∀ b ∈ base, b = q := by
    subst hn htext
    cases hp : packingFactor config level with
    | none =>
      rw [resolveCount64_reaches hreach,packingFactor64_eq hrungs hfit,hp] at hok
      cases hok
    | some p =>
      obtain ⟨hpos,rfl,hall,-⟩ := (reached_ok_iff hrungs hfit hreach hp).mp hok
      rcases hcount n text level p rfl rfl hreach hp with hfits | hneg | ⟨b,hb,hne⟩
      · obtain ⟨hwrap,hmin⟩ := min_of_fits hreach.pos hfits
        rw [hwrap] at hpos
        exact ⟨p,rfl,hpos,hfits,hmin,hall⟩
      · omega
      · exact absurd (hall b hb) hne
  have hrefused {n : ℤ} {text : String} (hn : entered = some n) (htext : levelText = some text)
      (hnone : ¬∃ level, Reaches config item n text level) :
      ∃ e, resolveCount64 checks base entered levelText config item = .returned (.error e) := by
    subst hn htext
    exact resolveCount64_refused hnone
  have hcases : (entered = none ∨ levelText = none) ∨ ∃ n text, entered = some n ∧ levelText = some text := by
    cases entered <;> cases levelText <;> simp
  refine ⟨?_,?_,?_,levels_iff hrungs hfit⟩
  · rcases hcases with hplain | ⟨n,text,hn,htext⟩
    · obtain ⟨r,hr,-⟩ : ∃ r, resolveCount64 checks base entered levelText config item = .returned r ∧ _ :=
        resolveCount64_plain hplain
      rw [hr]
      intro h
      cases h
    · by_cases hreach : ∃ level, Reaches config item n text level
      · obtain ⟨level,hreach⟩ := hreach
        subst hn htext
        rw [resolveCount64_reaches hreach,packingFactor64_eq hrungs hfit]
        simp
      · obtain ⟨e,he⟩ := hrefused hn htext hreach
        simp [he]
  · intro q out hok
    rcases hcases with hplain | ⟨n,text,hn,htext⟩
    · obtain ⟨r,hr,hbase⟩ := resolveCount64_plain hplain
      rw [hr,Outcome.returned.injEq] at hok
      exact .inl (hbase q out hok)
    · by_cases hreach : ∃ level, Reaches config item n text level
      · obtain ⟨level,hreach⟩ := hreach
        obtain ⟨p,hp,-,-,hq,-⟩ := htaken hn htext hreach hok
        exact .inr ⟨n,text,level,p,hn,htext,hreach.parse,hp,hq⟩
      · obtain ⟨e,he⟩ := hrefused hn htext hreach
        rw [he] at hok
        cases hok
  · intro b n text hb hn htext
    constructor
    · rintro ⟨⟨q,out⟩,hok⟩
      by_cases hreach : ∃ level, Reaches config item n text level
      · obtain ⟨level,hreach⟩ := hreach
        obtain ⟨p,hp,hpos,-,hq,hall⟩ := htaken hn htext hreach hok
        exact ⟨level,p,hreach,hp,mul_pos hreach.pos hpos,(hall b hb).trans hq⟩
      · obtain ⟨e,he⟩ := hrefused hn htext hreach
        rw [he] at hok
        cases hok
    · rintro ⟨level,p,hreach,hp,hpos,heq⟩
      -- the base stated is a 64-bit number, so the figure fits
      have hfits : Fits (n*p) := heq ▸ hbase b hb
      obtain ⟨hwrap,hmin⟩ := min_of_fits hreach.pos hfits
      subst hn htext
      refine ⟨_,(reached_ok_iff hrungs hfit hreach hp).mpr ⟨?_,rfl,fun c hc => ?_,rfl⟩⟩
      · rw [hwrap]
        exact pos_of_mul_pos_right hpos hreach.pos.le
      · rw [hmin,← heq]
        exact Option.some.inj (hc.symm.trans hb)

theorem within_of_exact (hrungs : Rungs32 config) (h : Exactly checks base entered levelText config item) :
    WithinWords checks base entered levelText config item := by
  have hfit : checks = true → FactorsFit config := by
    rintro rfl
    obtain ⟨out,hout,-⟩ := h.levels
    exact factorsFit_of_levels hrungs hout
  refine ⟨hfit,?_⟩
  rintro n text level p rfl rfl hreach hp
  by_contra hnot
  rw [not_or,not_or] at hnot
  obtain ⟨hbig,hpos,hother⟩ := hnot
  have hsame : ∀ b ∈ base, b = min (2^63-1) (n*wrap p) := by
    intro b hb
    by_contra hne
    exact hother ⟨b,hb,hne⟩
  have hok := (reached_ok_iff hrungs hfit hreach hp).mpr ⟨not_le.mp hpos,rfl,hsame,rfl⟩
  rcases h.exact_ _ _ hok with ⟨hnone,-⟩ | ⟨n',text',level',p',hn,htext,hparse,hp',heq⟩
  · cases hnone
  · cases hn
    cases htext
    obtain rfl : level = level' := Option.some.inj (hreach.parse.symm.trans hparse)
    obtain rfl : p = p' := Option.some.inj (hp.symm.trans hp')
    refine hbig ?_
    have hlow := (saturatingMul_pos hreach.pos (not_le.mp hpos)).2
    rw [← heq]
    exact ⟨by omega,by omega⟩

/-- A count is converted exactly or refused just where it stays within 64 bits. -/
theorem exactly_iff (hrungs : Rungs32 config) (hbase : ∀ b ∈ base, Fits b) :
    Exactly checks base entered levelText config item ↔ WithinWords checks base entered levelText config item :=
  ⟨within_of_exact hrungs,exact_of_within hrungs hbase⟩

/-- A count of inners of twelve past 64 bits: the figure is capped. -/
theorem capped : ¬Exactly true none (some (10^18)) (some "inner") (some ⟨1,2,some 12,none,none,none⟩) 2 := by
  intro h
  have hok : resolveCount64 true none (some (10^18)) (some "inner") (some ⟨1,2,some 12,none,none,none⟩) 2 =
      .returned (.ok (2^63-1,⟨10^18,.inner,some 1⟩)) := by decide +kernel
  rcases h.exact_ _ _ hok with ⟨hnone,-⟩ | ⟨n,text,level,p,hn,htext,hparse,hp,heq⟩
  · cases hnone
  · cases hn
    cases htext
    cases hparse
    cases hp
    norm_num at heq

/-- Twelve cartons of ten, and the base stated beside them. -/
theorem twelve_cartons : Exactly true (some 120) (some 12) (some "carton") (some ⟨1,2,some 10,some 1,some 8,some 5⟩) 2 ↔
    WithinWords true (some 120) (some 12) (some "carton") (some ⟨1,2,some 10,some 1,some 8,some 5⟩) 2 := by
  refine exactly_iff ?_ ?_
  · rintro c ⟨⟩ rung hrung r hr
    fin_cases hrung <;> cases hr <;> norm_num
  · rintro b ⟨⟩
    decide

end Receiving
end Spork
