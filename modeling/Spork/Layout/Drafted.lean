import Spork.Layout.Proposed
import Spork.Lib.Tally

/-! The draft of a whole bin list (`layout.rs`): no code is lost, every bin placed is named
back by its pattern, and when two places share a name. -/
namespace Spork
namespace Layout

open Numerals

/-! ## The loop over the families -/

/-- A name for a place, the so-manieth with its base. -/
def numberedName (x : List Char × ℕ) : List Char :=
  if x.2 = 1 then x.1 else x.1++" (".toList++digits x.2++")".toList

/-- What a family comes to, where it stops nothing. -/
def outcome (f : Family) : Outcome := (propose f).getD ⟨[],none⟩

/-- The places proposed, with what their names are made of. -/
def proposals (fs : List Family) : List (List Char × Proposal) :=
  fs.filterMap fun f => (outcome f).place.map fun p => (baseName p.solid f.key.head,p)

def Proposal.called (p : Proposal) (name : List Char) : Drafted := ⟨name,p.solid,p.pattern,p.grid,p.bins⟩

/-- The places proposed, each under its name. -/
def calledAll (taken : List Char → ℕ) (ps : List (List Char × Proposal)) : List Drafted :=
  ((Tally.tally taken (ps.map Prod.fst)).zip ps).map fun x => x.2.2.called (numberedName x.1)

theorem draftAll_eq {fs : List Family} (hfs : ∀ f ∈ fs, propose f ≠ none) (taken : List Char → ℕ)
    (d : Draft) : ∃ taken', fs.foldlM draftFamily (taken,d) =
      some (taken',⟨d.places++calledAll taken (proposals fs),
        d.unmatched++fs.flatMap fun f => (outcome f).unmatched⟩) := by
  induction fs generalizing taken d with
  | nil => exact ⟨taken,by simp [proposals,calledAll]⟩
  | cons f fs ih =>
    obtain ⟨o,ho⟩ := Option.ne_none_iff_exists'.mp (hfs f List.mem_cons_self)
    have hrest : ∀ g ∈ fs, propose g ≠ none := fun g hg => hfs g (List.mem_cons_of_mem f hg)
    have hout : outcome f = o := by
      rw [outcome,ho]
      rfl
    rw [List.foldlM_cons]
    cases hplace : o.place with
    | none =>
      obtain ⟨taken',hrun⟩ := ih hrest taken {d with unmatched := d.unmatched++o.unmatched}
      refine ⟨taken',?_⟩
      have hstep : draftFamily (taken,d) f = some (taken,{d with unmatched := d.unmatched++o.unmatched}) := by
        simp [draftFamily,ho,hplace]
      rw [hstep,Option.bind_eq_bind,Option.bind_some,hrun]
      simp [proposals,hout,hplace]
    | some p =>
      let base := baseName p.solid f.key.head
      let name := numberedName (base,taken base+1)
      obtain ⟨taken',hrun⟩ := ih hrest (Function.update taken base (taken base+1))
        ⟨d.places++[p.called name],d.unmatched++o.unmatched⟩
      refine ⟨taken',?_⟩
      have hstep : draftFamily (taken,d) f = some (Function.update taken base (taken base+1),
          ⟨d.places++[p.called name],d.unmatched++o.unmatched⟩) := by
        simp only [draftFamily,ho,Option.bind_eq_bind,Option.bind_some,hplace]
        rfl
      rw [hstep,Option.bind_eq_bind,Option.bind_some,hrun]
      simp [proposals,hout,hplace,calledAll,Tally.tally,name,base]

theorem draftAll_none {fs : List Family} (hfs : ∃ f ∈ fs, propose f = none) (acc : (List Char → ℕ) × Draft) :
    fs.foldlM draftFamily acc = none := by
  induction fs generalizing acc with
  | nil => simp at hfs
  | cons f fs ih =>
    rw [List.foldlM_cons]
    cases hf : propose f with
    | none => simp [draftFamily,hf]
    | some o =>
      have hrest : ∃ g ∈ fs, propose g = none := by
        obtain ⟨g,hg,hnone⟩ := hfs
        rcases List.mem_cons.mp hg with rfl | hin
        · rw [hf] at hnone
          cases hnone
        · exact ⟨g,hin,hnone⟩
      cases hstep : draftFamily acc f with
      | none => rfl
      | some next =>
        rw [Option.bind_eq_bind,Option.bind_some]
        exact ih hrest next

theorem draft_eq {bins : List (List Char × Bool)} (hfs : ∀ f ∈ families bins, propose f ≠ none) :
    draft bins = some ⟨calledAll (fun _ => 0) (proposals (families bins)),
      Sorted.sortBy compare ((bins.filter fun b => (familyOf b.1).isNone).map Prod.fst++
        (families bins).flatMap fun f => (outcome f).unmatched)⟩ := by
  obtain ⟨taken,hrun⟩ := draftAll_eq hfs (fun _ => 0)
    ⟨[],(bins.filter fun b => (familyOf b.1).isNone).map Prod.fst⟩
  simp [draft,hrun]

theorem draft_none {bins : List (List Char × Bool)} (hfs : ∃ f ∈ families bins, propose f = none) :
    draft bins = none := by
  simp [draft,draftAll_none hfs]

theorem calledAll_names (taken : List Char → ℕ) (ps : List (List Char × Proposal)) :
    (calledAll taken ps).map Drafted.name = (Tally.tally taken (ps.map Prod.fst)).map numberedName := by
  have hfst : ((Tally.tally taken (ps.map Prod.fst)).zip ps).map Prod.fst = Tally.tally taken (ps.map Prod.fst) :=
    List.map_fst_zip (by simp)
  rw [← congrArg (List.map numberedName) hfst,calledAll,List.map_map,List.map_map]
  rfl

theorem mem_calledAll {taken : List Char → ℕ} {ps : List (List Char × Proposal)} {d : Drafted}
    (h : d ∈ calledAll taken ps) : ∃ x ∈ ps, ∃ name, d = x.2.called name := by
  obtain ⟨y,hy,rfl⟩ := List.mem_map.mp h
  exact ⟨y.2,(List.of_mem_zip hy).2,_,rfl⟩

theorem calledAll_codes (taken : List Char → ℕ) (ps : List (List Char × Proposal)) :
    ((calledAll taken ps).flatMap fun d => d.bins.map Prod.fst) =
      ps.flatMap fun x => x.2.bins.map Prod.fst := by
  have hsnd : ((Tally.tally taken (ps.map Prod.fst)).zip ps).map Prod.snd = ps :=
    List.map_snd_zip (by simp)
  calc ((calledAll taken ps).flatMap fun d => d.bins.map Prod.fst)
      = ((Tally.tally taken (ps.map Prod.fst)).zip ps).flatMap fun x => x.2.2.bins.map Prod.fst := by
        rw [calledAll,List.flatMap_map]
        rfl
    _ = (((Tally.tally taken (ps.map Prod.fst)).zip ps).map Prod.snd).flatMap fun x =>
          x.2.bins.map Prod.fst := by
        rw [List.flatMap_map]
    _ = ps.flatMap fun x => x.2.bins.map Prod.fst := by
        rw [hsnd]

/-! ## No code is lost -/

theorem proposals_codes (fs : List Family) :
    ((proposals fs).flatMap fun x => x.2.bins.map Prod.fst) =
      fs.flatMap fun f => (outcome f).place.toList.flatMap fun p => p.bins.map Prod.fst := by
  induction fs with
  | nil => rfl
  | cons f fs ih =>
    rw [proposals] at ih ⊢
    cases hplace : (outcome f).place with
    | none => simpa [hplace] using ih
    | some p => simpa [hplace] using ih

/-- What each family comes to, when none stops the program. -/
theorem outcome_sound {bins : List (List Char × Bool)} (hbins : (bins.map Prod.fst).Nodup) {f : Family}
    (hf : f ∈ families bins) (hgoes : propose f ≠ none) : (outcome f).Sound f := by
  obtain ⟨o,ho⟩ := Option.ne_none_iff_exists'.mp hgoes
  rw [outcome,ho]
  exact propose_sound hf hbins ho

theorem accounts_perm {bins : List (List Char × Bool)} (hbins : (bins.map Prod.fst).Nodup)
    (hgoes : ∀ f ∈ families bins, propose f ≠ none) {d : Draft} (hd : draft bins = some d) :
    (d.unmatched++d.places.flatMap fun p => p.bins.map Prod.fst).Perm (bins.map Prod.fst) := by
  rw [draft_eq hgoes,Option.some.injEq] at hd
  subst hd
  rw [calledAll_codes,proposals_codes]
  refine ((Sorted.sortBy_perm compare _).append_right _).trans ?_
  rw [List.append_assoc]
  have heach : ((families bins).flatMap (fun f => (outcome f).unmatched)++
      (families bins).flatMap fun f => (outcome f).place.toList.flatMap fun p => p.bins.map Prod.fst).Perm
      ((families bins).flatMap fun f => f.codes.map Prod.fst) := by
    refine (List.flatMap_append_perm _ _ _).trans ?_
    exact List.Perm.flatMap_left _ fun f hf => (outcome_sound hbins hf (hgoes f hf)).accounts
  refine (heach.append_left _).trans ?_
  rw [← List.map_flatMap,← List.map_append]
  exact (families_perm bins).map Prod.fst

/-- A thing some of whose lists have it, nothing being in two of them or twice in one, is in
one of them. -/
theorem countP_one {α β : Type*} [BEq β] [LawfulBEq β] {f : α → List β} {ps : List α} {b : β}
    (hnodup : (ps.flatMap f).Nodup) (hb : b ∈ ps.flatMap f) : ps.countP (fun p => b ∈ f p) = 1 := by
  induction ps with
  | nil => cases hb
  | cons p ps ih =>
    rw [List.flatMap_cons,List.nodup_append] at hnodup
    obtain ⟨-,hrest,hapart⟩ := hnodup
    rw [List.flatMap_cons,List.mem_append] at hb
    rw [List.countP_cons]
    by_cases hp : b ∈ f p
    · have hnone : ps.countP (fun p => b ∈ f p) = 0 := by
        rw [List.countP_eq_zero]
        intro q hq hin
        exact hapart b hp b (List.mem_flatMap.mpr ⟨q,hq,by simpa using hin⟩) rfl
      simp [hnone,hp]
    · simp [ih hrest (hb.resolve_left hp),hp]

/-- Each code is left over, or in one place. -/
theorem eachOnce_of_perm {d : Draft} {codes : List (List Char)} (hcodes : codes.Nodup)
    (hperm : (d.unmatched++d.places.flatMap fun p => p.bins.map Prod.fst).Perm codes) {code : List Char}
    (hcode : code ∈ codes) :
    (code ∈ d.unmatched ∧ d.places.countP (fun p => code ∈ p.bins.map Prod.fst) = 0) ∨
      (code ∉ d.unmatched ∧ d.places.countP (fun p => code ∈ p.bins.map Prod.fst) = 1) := by
  obtain ⟨-,hplaces,hapart⟩ := List.nodup_append.mp (hperm.nodup_iff.mpr hcodes)
  by_cases hleft : code ∈ d.unmatched
  · left
    refine ⟨hleft,?_⟩
    rw [List.countP_eq_zero]
    intro p hp hin
    exact hapart code hleft code (List.mem_flatMap.mpr ⟨p,hp,by simpa using hin⟩) rfl
  · right
    have hin := (List.mem_append.mp (hperm.mem_iff.mpr hcode)).resolve_left hleft
    exact ⟨hleft,countP_one hplaces hin⟩

/-! ## When two places share a name -/

/-- The words of a text, between its spaces. -/
def words (s : List Char) : List (List Char) := s.splitOnP fun c => decide (c = ' ')

theorem words_single {s : List Char} (h : ∀ c ∈ s, c ≠ ' ') : words s = [s] := by
  apply List.splitOnP_eq_singleton
  intro c hc
  simpa using h c hc

theorem words_cons {s rest : List Char} (h : ∀ c ∈ s, c ≠ ' ') : words (s++(' ' :: rest)) = s :: words rest := by
  apply List.splitOnP_append_cons_of_forall_mem
  · intro c hc
    simpa using h c hc
  · rfl

/-- A place's number, as its name has it. -/
def bracketed (n : ℕ) : List Char := "(".toList++digits n++")".toList

@[simp] theorem bracketed_inj {m n : ℕ} : bracketed m = bracketed n ↔ m = n := by
  constructor
  · intro h
    apply digits_injective
    simpa [bracketed] using h
  · rintro rfl
    rfl

theorem bracketed_spaceless (n : ℕ) : ∀ c ∈ bracketed n, c ≠ ' ' := by
  intro c hc
  simp only [bracketed,List.mem_append] at hc
  rintro rfl
  rcases hc with (hopen | hdigit) | hclose
  · simp at hopen
  · have hd := isDigit_of_mem_digits hdigit
    exact absurd hd (by decide)
  · simp at hclose

theorem words_numberedName {solid : Bool} {head : List Char} (h : ∀ c ∈ head, c ≠ ' ') (n : ℕ) :
    words (numberedName (baseName solid head,n)) =
      (if solid then ["Rack".toList] else [])++[head]++if n = 1 then [] else [bracketed n] := by
  have hrack : ∀ c ∈ "Rack".toList, c ≠ ' ' := by
    simp
  have hlast (s : List Char) : s++" (".toList++digits n++")".toList = s++(' ' :: bracketed n) := by
    simp [bracketed]
  have hfirst (s : List Char) : "Rack ".toList++head++s = "Rack".toList++(' ' :: (head++s)) := by
    simp
  unfold numberedName baseName
  cases solid <;> by_cases hn : n = 1
  · simp only [hn,if_true,Bool.false_eq_true,if_false]
    rw [words_single h]
    rfl
  · simp only [hn,Bool.false_eq_true,if_false]
    rw [hlast,words_cons h,words_single (bracketed_spaceless n)]
    rfl
  · have hone := hfirst []
    simp only [List.append_nil] at hone
    simp only [hn,if_true]
    rw [hone,words_cons hrack,words_single h]
    rfl
  · simp only [hn,if_true,if_false]
    rw [hlast,hfirst,words_cons hrack,words_cons h,words_single (bracketed_spaceless n)]
    rfl

/-- Two of the bases, one of racking whose first part is a number in brackets, the other the
so-manieth of `Rack` that is not racking. -/
def Clash (solid : Bool) (head : List Char) (n : ℕ) (solid' : Bool) (head' : List Char) (n' : ℕ) : Prop :=
  solid = true ∧ head = bracketed n' ∧ n = 1 ∧ solid' = false ∧ head' = "Rack".toList ∧ n' ≠ 1

theorem numberedName_eq {solid solid' : Bool} {head head' : List Char} {n n' : ℕ}
    (h : ∀ c ∈ head, c ≠ ' ') (h' : ∀ c ∈ head', c ≠ ' ')
    (heq : numberedName (baseName solid head,n) = numberedName (baseName solid' head',n')) :
    (baseName solid head,n) = (baseName solid' head',n') ∨ Clash solid head n solid' head' n' ∨
      Clash solid' head' n' solid head n := by
  have hwords := congrArg words heq
  rw [words_numberedName h,words_numberedName h'] at hwords
  unfold Clash
  cases solid <;> cases solid' <;> by_cases hn : n = 1 <;> by_cases hn' : n' = 1 <;>
    simp_all [baseName]

/-- Two places share a name: of the families that get one, one that is mostly racking has a
number in brackets for its first part, and that many that are not have `Rack` for theirs. -/
def Collides (bins : List (List Char × Bool)) : Prop :=
  ∃ k, 2 ≤ k ∧ (∃ f ∈ families bins, f.spells = true ∧ f.solid = true ∧ f.key.head = bracketed k) ∧
    k ≤ (families bins).countP fun f => decide (f.spells = true ∧ f.solid = false ∧ f.key.head = "Rack".toList)

/-- What the names of the places proposed are made of. -/
def bases (bins : List (List Char × Bool)) : List (List Char) :=
  ((families bins).filter Family.spells).map fun f => baseName f.solid f.key.head

theorem proposals_bases {bins : List (List Char × Bool)} (hbins : (bins.map Prod.fst).Nodup)
    (hgoes : ∀ f ∈ families bins, propose f ≠ none) :
    (proposals (families bins)).map Prod.fst = bases bins := by
  have hall : ∀ f ∈ families bins, (outcome f).Sound f := fun f hf => outcome_sound hbins hf (hgoes f hf)
  unfold bases proposals
  generalize families bins = fs at hall
  induction fs with
  | nil => rfl
  | cons f fs ih =>
    have hrest := ih fun g hg => hall g (List.mem_cons_of_mem f hg)
    have hsound := hall f List.mem_cons_self
    have hspells := hsound.isSome
    cases hplace : (outcome f).place with
    | none =>
      rw [hplace,Option.isSome_none] at hspells
      simpa [hplace,← hspells] using hrest
    | some p =>
      rw [hplace,Option.isSome_some] at hspells
      have hsolid := (hsound.placed p hplace).1
      simpa [hplace,← hspells,hsolid] using hrest

/-- A family's first part has no spaces. -/
theorem head_spaceless {bins : List (List Char × Bool)} {f : Family} (hf : f ∈ families bins) :
    ∀ c ∈ f.key.head, c ≠ ' ' := by
  intro c hc
  have hsep := (family_sound hf).head.2 c hc
  rintro rfl
  cases hsep

theorem baseName_eq_rack (solid : Bool) (head : List Char) :
    baseName solid head = "Rack".toList ↔ solid = false ∧ head = "Rack".toList := by
  cases solid with
  | true => simp [baseName]
  | false => simp [baseName]

theorem count_rack (bins : List (List Char × Bool)) : (bases bins).count "Rack".toList =
    (families bins).countP fun f => decide (f.spells = true ∧ f.solid = false ∧ f.key.head = "Rack".toList) := by
  rw [bases,List.count_eq_countP,List.countP_map,List.countP_filter]
  apply List.countP_congr
  intro f _
  simp only [Function.comp_apply,Bool.and_eq_true,beq_iff_eq,baseName_eq_rack,decide_eq_true_eq]
  exact and_comm

/-- No two places share a name unless the families collide. -/
theorem names_nodup_iff (bins : List (List Char × Bool)) :
    ((Tally.tally (fun _ => 0) (bases bins)).map numberedName).Nodup ↔ ¬Collides bins := by
  constructor
  · rintro hnodup ⟨k,hk,⟨f,hf,hspells,hsolid,hhead⟩,hcount⟩
    rw [← count_rack] at hcount
    have hsolidName : baseName true (bracketed k) ∈ bases bins :=
      List.mem_map.mpr ⟨f,List.mem_filter.mpr ⟨hf,hspells⟩,by rw [hsolid,hhead]⟩
    have hfirst : (baseName true (bracketed k),1) ∈ Tally.tally (fun _ => 0) (bases bins) := by
      rw [Tally.mem_tally,Nat.zero_add]
      exact ⟨Nat.one_pos,List.one_le_count_iff.mpr hsolidName⟩
    have hkth : ("Rack".toList,k) ∈ Tally.tally (fun _ => 0) (bases bins) := by
      rw [Tally.mem_tally,Nat.zero_add]
      exact ⟨by omega,hcount⟩
    have hsame : numberedName (baseName true (bracketed k),1) = numberedName ("Rack".toList,k) := by
      have hne : k ≠ 1 := by
        omega
      simp [numberedName,baseName,bracketed,hne]
    have heq := List.inj_on_of_nodup_map hnodup hfirst hkth hsame
    have hone : 1 = k := congrArg Prod.snd heq
    omega
  · intro hnot
    apply List.Nodup.map_on _ (Tally.nodup_tally _ _)
    rintro ⟨b,n⟩ hx ⟨b',n'⟩ hy heq
    have hfrom {b : List Char} {n : ℕ} (h : (b,n) ∈ Tally.tally (fun _ => 0) (bases bins)) :
        0 < n ∧ n ≤ (bases bins).count b ∧ ∃ f ∈ families bins, f.spells = true ∧
          baseName f.solid f.key.head = b := by
      rw [Tally.mem_tally,Nat.zero_add] at h
      have hin : b ∈ bases bins := List.one_le_count_iff.mp (by omega)
      obtain ⟨f,hf,hb⟩ := List.mem_map.mp hin
      obtain ⟨hf,hspells⟩ := List.mem_filter.mp hf
      exact ⟨h.1,h.2,f,hf,hspells,hb⟩
    have hclash {f g : Family} {n n' : ℕ} (hf : f ∈ families bins) (hspells : f.spells = true)
        (hn' : 0 < n' ∧ n' ≤ (bases bins).count (baseName g.solid g.key.head))
        (h : Clash f.solid f.key.head n g.solid g.key.head n') : False := by
      obtain ⟨hsolid,hhead,-,hloose,hrack,hmany⟩ := h
      rw [hloose,hrack] at hn'
      apply hnot
      exact ⟨n',by omega,⟨f,hf,hspells,hsolid,hhead⟩,count_rack bins ▸ hn'.2⟩
    obtain ⟨hn,hcount,f,hf,hspells,rfl⟩ := hfrom hx
    obtain ⟨hn',hcount',g,hg,hspells',rfl⟩ := hfrom hy
    rcases numberedName_eq (head_spaceless hf) (head_spaceless hg) heq with hsame | h | h
    · exact hsame
    · exact (hclash hf hspells ⟨hn',hcount'⟩ h).elim
    · exact (hclash hg hspells' ⟨hn,hcount⟩ h).elim

/-! ## The draft of a list -/

/-- What the draft of a list of codes keeps. -/
structure KeepsCodes (bins : List (List Char × Bool)) (d : Draft) : Prop where
  /-- Each code waits, or is in one place. -/
  eachOnce : ∀ code ∈ bins.map Prod.fst,
    (code ∈ d.unmatched ∧ d.places.countP (fun p => code ∈ p.bins.map Prod.fst) = 0) ∨
      (code ∉ d.unmatched ∧ d.places.countP (fun p => code ∈ p.bins.map Prod.fst) = 1)
  /-- No code is made up, or listed twice. -/
  accounts : (d.unmatched++d.places.flatMap fun p => p.bins.map Prod.fst).Perm (bins.map Prod.fst)
  spelt : ∀ p ∈ d.places, SpeltBack p.pattern p.grid p.bins
  namesApart : (d.places.map Drafted.name).Nodup

/-- Every bin the draft places its pattern names back, none is lost, and no two places share
a name: exactly when no pattern has a number to pad wider than the formatter takes, and no
families collide. -/
theorem draft_keeps_codes_iff (bins : List (List Char × Bool)) (hbins : (bins.map Prod.fst).Nodup) :
    (∃ d, draft bins = some d ∧ KeepsCodes bins d) ↔
      (∀ f ∈ families bins, ¬f.Overwide) ∧ ¬Collides bins := by
  constructor
  · rintro ⟨d,hd,hkeeps⟩
    have hwide : ∀ f ∈ families bins, ¬f.Overwide := by
      intro f hf hover
      rw [draft_none ⟨f,hf,(propose_none hf).mpr hover⟩] at hd
      cases hd
    have hgoes : ∀ f ∈ families bins, propose f ≠ none :=
      fun f hf hnone => hwide f hf ((propose_none hf).mp hnone)
    refine ⟨hwide,?_⟩
    rw [draft_eq hgoes,Option.some.injEq] at hd
    have hnames := hkeeps.namesApart
    rw [← hd,calledAll_names,proposals_bases hbins hgoes] at hnames
    exact (names_nodup_iff bins).mp hnames
  · rintro ⟨hwide,hcollides⟩
    have hgoes : ∀ f ∈ families bins, propose f ≠ none :=
      fun f hf hnone => hwide f hf ((propose_none hf).mp hnone)
    have hd := draft_eq hgoes
    have hperm := accounts_perm hbins hgoes hd
    refine ⟨_,hd,?_⟩
    constructor
    case eachOnce => exact fun code hcode => eachOnce_of_perm hbins hperm hcode
    case accounts => exact hperm
    case spelt =>
      intro p hp
      obtain ⟨x,hx,name,rfl⟩ := mem_calledAll hp
      obtain ⟨f,hf,hplace⟩ := List.mem_filterMap.mp hx
      obtain ⟨q,hq,rfl⟩ := Option.map_eq_some_iff.mp hplace
      exact ((outcome_sound hbins hf (hgoes f hf)).placed q hq).2
    case namesApart =>
      rw [calledAll_names,proposals_bases hbins hgoes]
      exact (names_nodup_iff bins).mpr hcollides

/-- A rack read at two widths, a dock, and a code that is none. -/
def fiveCodes : List (List Char × Bool) :=
  [("C-07-1".toList,true),("C-10-1".toList,true),("C-7-1".toList,true),("DOCK-2".toList,false),
    ("3PL".toList,false)]

theorem draft_keeps_five_codes_iff :
    (∃ d, draft fiveCodes = some d ∧ KeepsCodes fiveCodes d) ↔
      (∀ f ∈ families fiveCodes, ¬f.Overwide) ∧ ¬Collides fiveCodes :=
  draft_keeps_codes_iff fiveCodes (by decide +kernel)

/-- A rack whose first part is `(2)`, and two places on the floor whose first part is `Rack`. -/
def threeCodes : List (List Char × Bool) :=
  [("(2)-1".toList,true),("Rack-1".toList,false),("Rack-1-1".toList,false)]

/-- Two places of a draft are called `Rack (2)`. -/
theorem draft_names_alike : ¬∀ bins : List (List Char × Bool), (bins.map Prod.fst).Nodup →
    ∃ d, draft bins = some d ∧ KeepsCodes bins d := by
  intro hall
  obtain ⟨d,hd,hkeeps⟩ := hall threeCodes (by decide +kernel)
  have hnames : (draft threeCodes).map (fun d => d.places.map Drafted.name) =
      some ["Rack (2)".toList,"Rack".toList,"Rack (2)".toList] := by
    decide +kernel
  rw [hd,Option.map_some,Option.some.injEq] at hnames
  have happart := hkeeps.namesApart
  rw [hnames] at happart
  exact absurd happart (by decide +kernel)

end Layout
end Spork
