import Spork.Lib.Loop
import Spork.Outbox.Account

/-! The parts of a press name its writes apart: each call's writes stay under its own part,
and the calls of one act go on by different names. -/
namespace Spork
namespace Writes

open Bench (Uuid Level PlannedParcel)
open Outbox (Text Place Picks Write BenchWrite)

/-- The names a write's part is joined of. -/
def path (w : BenchWrite) : List Text := Paths.names ':' w.part

theorem names_under {part rest : Text} (h : part ≠ []) :
    Paths.names ':' (under part rest) = Paths.names ':' part++Paths.names ':' rest := by
  rw [under,if_neg h,Paths.names_append]

theorem names_branch {part name : Text} (h : part ≠ []) (hname : ':' ∉ name) :
    Paths.names ':' (under part name) = Paths.names ':' part++[name] := by
  rw [names_under h,Paths.names_one hname]

theorem under_ne_nil {part rest : Text} (h : part ≠ []) : under part rest ≠ [] := by
  rw [under,if_neg h]
  simp

theorem digits_plain (n : ℕ) : ':' ∉ Numerals.digits n := fun h =>
  absurd (Numerals.isDigit_of_mem_digits h) (by decide)

theorem Source.kind_plain (src : Source) : ':' ∉ src.kind := by
  cases src <;> (rw [Source.kind]; decide)

theorem BoardAct.kind_plain (a : BoardAct) : ':' ∉ a.kind := by
  cases a <;> (rw [BoardAct.kind]; decide)

theorem uuidText_name (n : ℕ) : Paths.names ':' (Rendering.uuidText n) = [Rendering.uuidText n] :=
  Paths.names_one (Rendering.uuidText_colon n)

theorem path_sourcePart {part : Text} (h : part ≠ []) (src : Source × ℕ) :
    Paths.names ':' (sourcePart part src) =
      Paths.names ':' part++[Numerals.digits src.2]++[src.1.kind] := by
  rw [sourcePart,names_under h,Paths.names_append,Paths.names_one (digits_plain _),
    Paths.names_one (Source.kind_plain _),List.append_assoc]

/-- The writes of a put's sources are told apart by which they are. -/
theorem branches_sourceWrites {screen : BenchScreen} {line carton : Uuid} {part : Text} (h : part ≠ [])
    (srcs : List Source) : Paths.Under path (Paths.names ':' part)
      (sourceWrites screen line carton part srcs.zipIdx) := by
  refine ⟨fun x hx => ?_,?_⟩
  · obtain ⟨src,-,rfl⟩ := List.mem_map.mp hx
    rw [path,path_sourcePart h,List.append_assoc]
    exact List.prefix_append _ _
  · rw [sourceWrites,List.map_map]
    have hindices : (srcs.zipIdx.map fun src => Numerals.digits src.2).Nodup := by
      rw [← Function.comp_def,← List.map_map,List.zipIdx_map_snd]
      exact (List.nodup_range' (h := Nat.one_pos)).map fun a b hab => Numerals.digits_injective hab
    refine List.Nodup.of_map (fun names => names.getD (Paths.names ':' part).length []) ?_
    rw [List.map_map]
    have hsame : (fun names : List Text => names.getD (Paths.names ':' part).length []) ∘ path ∘
        (fun src : Source × ℕ => (⟨sourcePart part src,sourceWrite (screen.staging.getD 0) line carton src.1⟩ : BenchWrite)) =
        fun src => Numerals.digits src.2 := by
      funext src
      change (Paths.names ':' (sourcePart part src)).getD _ [] = _
      rw [path_sourcePart h,List.append_assoc]
      simp
    rw [hsame]
    exact hindices

variable {screen : BenchScreen} {puts more : List Put} {w w' : Writer} {part : Text}

/-- Calls one after another, each on a branch of its own. -/
theorem fold_grown {ι : Type} {f : Writer → ι → Except Stop Writer} {name : ι → Text} {putsOf : ι → List Put}
    {at' : List Text} {xs : List ι} (hnames : (xs.map name).Nodup)
    (hcall : ∀ x ∈ xs, ∀ w w', f w x = .ok w' →
      ∃ ws, Grown screen (putsOf x) w w' ws ∧ Paths.Under path (at'++[name x]) ws)
    (h : xs.foldlM f w = .ok w') :
    ∃ ws, Grown screen (xs.flatMap putsOf) w w' ws ∧ Paths.Branches path at' (xs.map name) ws := by
  induction xs generalizing w with
  | nil =>
    cases h
    exact ⟨[],Grown.refl _,Paths.Branches.nil⟩
  | cons x xs ih =>
    obtain ⟨hfirst,hrest⟩ := List.nodup_cons.mp hnames
    rw [List.foldlM_cons] at h
    obtain ⟨w₁,hone,hall⟩ := Fallible.bind_ok_iff.mp h
    obtain ⟨ws,hgrown,hunder⟩ := hcall x List.mem_cons_self _ w₁ hone
    obtain ⟨vs,hgrown',hbranches⟩ := ih hrest (fun y hy => hcall y (List.mem_cons_of_mem x hy)) hall
    refine ⟨ws++vs,hgrown.trans hgrown',hunder.branches.append hbranches fun k hk => ?_⟩
    rwa [List.mem_singleton.mp hk]

theorem put_parts (hpart : part ≠ []) {line : Uuid} {units : ℤ} {carton : Uuid}
    (h : put screen line units carton part w = .ok w') :
    ∃ ws, Grown screen [⟨part,line,units,carton⟩] w w' ws ∧ Paths.Under path (Paths.names ':' part) ws := by
  obtain ⟨srcs,hgrown⟩ := put_grown h
  exact ⟨_,hgrown,branches_sourceWrites hpart srcs⟩

/-- One write that draws nothing, on a branch by a name. -/
theorem push_branch (screen : BenchScreen) (hpart : part ≠ []) (w : Writer) {name : Text} (hname : ':' ∉ name) {what : Write}
    (h : drawn what = none) :
    ∃ ws, Grown screen [] w (w.push (under part name) what) ws ∧
      Paths.Branches path (Paths.names ':' part) [name] ws := by
  refine ⟨_,Grown.push w _ h,Paths.Under.branches (Paths.Under.one ?_)⟩
  rw [path,names_branch hpart hname]

/-- Nothing, on a branch by a name. -/
theorem no_branch (screen : BenchScreen) (w : Writer) (p : List Text) (name : Text) :
    ∃ ws, Grown screen [] w w ws ∧ Paths.Branches path p [name] ws :=
  ⟨[],Grown.refl w,Paths.Branches.nil⟩

theorem unput_parts {line : Uuid} {units : ℤ} {carton : Uuid}
    (h : unput screen line units carton part w = .ok w') :
    ∃ ws, Grown screen [] w w' ws ∧ Paths.Under path (Paths.names ':' part) ws := by
  rw [unput] at h
  cases hreason : screen.wrongBoxReason with
  | none =>
    rw [hreason] at h
    cases h
  | some reason =>
    rw [hreason] at h
    cases h
    exact ⟨_,Grown.push w part rfl,Paths.Under.one (List.prefix_refl _)⟩

/-- A line's name on the branch its calls go by. -/
theorem names_line (hpart : part ≠ []) {name : Text} (hname : ':' ∉ name) (line : Uuid) :
    Paths.names ':' (under part (name++ ':' :: Rendering.uuidText line)) =
      Paths.names ':' part++[name]++[Rendering.uuidText line] := by
  rw [names_under hpart,Paths.names_append,Paths.names_one hname,uuidText_name,List.append_assoc]

/-- The put of a planned line. -/
def linePut (pp : PlannedParcel) (part : Text) (l : Bench.PlannedLine) : Put :=
  ⟨under part (['p','u','t']++ ':' :: Rendering.uuidText l.line),l.line,l.quantity,pp.id⟩

/-- The puts a make asks for, its planned pallet's first. -/
def putsIn (screen : BenchScreen) : ℕ → Uuid → Text → List Put
  | 0, _, _ => []
  | n+1, parcel, part =>
    match screen.plan.find? (·.id = parcel) with
    | none => []
    | some pp =>
      (match pp.onParcel with
        | some q => putsIn screen n q (under part ['p','a','l','l','e','t'])
        | none => [])++pp.lines.map (linePut pp part)

theorem startParcel_branch (fulfilment dock : Uuid) (pp : PlannedParcel) (screen : BenchScreen) (hpart : part ≠ []) (w : Writer) :
    ∃ ws, Grown screen [] w (startParcel fulfilment dock pp part w) ws ∧
      Paths.Branches path (Paths.names ':' part) [['c','a','r','t','o','n']] ws := by
  rw [startParcel]
  split
  · exact push_branch screen hpart w (by decide) rfl
  · exact push_branch screen hpart w (by decide) rfl
  · exact no_branch screen w _ _

theorem putOn_branch (pp : PlannedParcel) (screen : BenchScreen) (hpart : part ≠ []) (w : Writer) :
    ∃ ws, Grown screen [] w (putOn pp part w) ws ∧
      Paths.Branches path (Paths.names ':' part) [['o','n']] ws := by
  rw [putOn]
  split
  · exact push_branch screen hpart w (by decide) rfl
  · exact no_branch screen w _ _

theorem sealAsIs_branch (pp : PlannedParcel) (screen : BenchScreen) (hpart : part ≠ []) (w : Writer) :
    ∃ ws, Grown screen [] w (sealAsIs pp part w) ws ∧
      Paths.Branches path (Paths.names ':' part) [['s','e','a','l']] ws := by
  rw [sealAsIs]
  split
  · exact push_branch screen hpart w (by decide) rfl
  · exact no_branch screen w _ _

/-- The puts of a parcel's lines, each on the branch of its line. -/
theorem lines_branch {pp : PlannedParcel} (hpart : part ≠ []) (hlines : (pp.lines.map (·.line)).Nodup)
    (h : pp.lines.foldlM (fun w l => put screen l.line l.quantity pp.id
      (under part (['p','u','t']++ ':' :: Rendering.uuidText l.line)) w) w = .ok w') :
    ∃ ws, Grown screen (pp.lines.map (linePut pp part)) w w' ws ∧
      Paths.Branches path (Paths.names ':' part) [['p','u','t']] ws := by
  have hnames : (pp.lines.map fun l => Rendering.uuidText l.line).Nodup := by
    have hinj := hlines.map fun a b hab =>
      Fin.ext (Rendering.uuidText_injective a.isLt b.isLt hab : (a : ℕ) = b)
    rwa [List.map_map] at hinj
  have hput : ∀ l ∈ pp.lines, ∀ w w', put screen l.line l.quantity pp.id
      (under part (['p','u','t']++ ':' :: Rendering.uuidText l.line)) w = .ok w' →
      ∃ ws, Grown screen [linePut pp part l] w w' ws ∧
        Paths.Under path (Paths.names ':' part++[['p','u','t']]++[Rendering.uuidText l.line]) ws := by
    intro l _ w w' hput
    rw [← names_line hpart (by decide)]
    exact put_parts (under_ne_nil hpart) hput
  obtain ⟨ws,hgrown,hbranches⟩ := fold_grown hnames hput h
  rw [← List.map_eq_flatMap] at hgrown
  exact ⟨ws,hgrown,hbranches.under.branches⟩

theorem make_parts {fulfilment : Uuid} (hlines : ∀ pp ∈ screen.plan, (pp.lines.map (·.line)).Nodup) {n : ℕ}
    {parcel : Uuid} (hpart : part ≠ []) (h : make screen fulfilment n parcel part w = .ok w') :
    ∃ ws, Grown screen (putsIn screen n parcel part) w w' ws ∧ Paths.Under path (Paths.names ':' part) ws := by
  induction n generalizing parcel part w w' with
  | zero => cases h
  | succ n ih =>
    rw [make] at h
    rw [putsIn]
    cases hfind : screen.plan.find? (·.id = parcel) with
    | none =>
      rw [hfind] at h
      cases h
      exact ⟨[],Grown.refl w,Paths.Under.nil⟩
    | some pp =>
      rw [hfind] at h
      dsimp only at h ⊢
      cases hdock : screen.dock with
      | none =>
        rw [hdock] at h
        cases h
      | some dock =>
        rw [hdock] at h
        dsimp only at h
        obtain ⟨w₁,hpallet,h⟩ := Fallible.bind_ok_iff.mp h
        obtain ⟨w₂,hputs,h⟩ := Fallible.bind_ok_iff.mp h
        cases h
        have hpallet : ∃ ws, Grown screen (match pp.onParcel with
            | some q => putsIn screen n q (under part ['p','a','l','l','e','t'])
            | none => []) w w₁ ws ∧
            Paths.Branches path (Paths.names ':' part) [['p','a','l','l','e','t']] ws := by
          cases hon : pp.onParcel with
          | none =>
            rw [hon] at hpallet
            cases hpallet
            exact no_branch screen w _ _
          | some q =>
            rw [hon] at hpallet
            obtain ⟨ws,hgrown,hunder⟩ := ih (under_ne_nil hpart) hpallet
            rw [names_branch hpart (by decide : ':' ∉ ['p','a','l','l','e','t'])] at hunder
            exact ⟨ws,hgrown,hunder.branches⟩
        obtain ⟨as,hgrown₁,hbranch₁⟩ := hpallet
        obtain ⟨bs,hgrown₂,hbranch₂⟩ := startParcel_branch fulfilment dock pp screen hpart w₁
        obtain ⟨cs,hgrown₃,hbranch₃⟩ := putOn_branch pp screen hpart (startParcel fulfilment dock pp part w₁)
        obtain ⟨ds,hgrown₄,hbranch₄⟩ := lines_branch hpart (hlines pp (List.mem_of_find?_eq_some hfind)) hputs
        obtain ⟨es,hgrown₅,hbranch₅⟩ := sealAsIs_branch pp screen hpart w₂
        have hgrown := (((hgrown₁.trans hgrown₂).trans hgrown₃).trans hgrown₄).trans hgrown₅
        have hbranch := (((hbranch₁.append hbranch₂ (by decide)).append hbranch₃ (by decide)).append hbranch₄
          (by decide)).append hbranch₅ (by decide)
        simp only [List.append_nil] at hgrown
        exact ⟨_,hgrown,hbranch.under⟩

/-! ## Taking apart -/

theorem keys_addOf (sums : List (Uuid × ℤ)) (row : Uuid × ℤ) :
    (addOf sums row).map Prod.fst = sums.map Prod.fst ∨
      row.1 ∉ sums.map Prod.fst ∧ (addOf sums row).map Prod.fst = sums.map Prod.fst++[row.1] := by
  induction sums with
  | nil => exact Or.inr ⟨by simp,rfl⟩
  | cons sum sums ih =>
    obtain ⟨line,units⟩ := sum
    rw [addOf]
    by_cases hline : line = row.1
    · rw [if_pos hline]
      exact Or.inl rfl
    · rw [if_neg hline]
      rcases ih with hsame | ⟨hnew,hlast⟩
      · exact Or.inl (by simp [hsame])
      · refine Or.inr ⟨?_,by simp [hlast]⟩
        rw [List.map_cons,List.mem_cons,not_or]
        exact ⟨Ne.symm hline,hnew⟩

/-- A line is summed once. -/
theorem nodup_byLine (rows : List (Uuid × ℤ)) : ((byLine rows).map Prod.fst).Nodup := by
  rw [byLine]
  refine Loop.foldl_keeps (fun sums : List (Uuid × ℤ) => (sums.map Prod.fst).Nodup) List.nodup_nil fun sums row _ hsums => ?_
  rcases keys_addOf sums row with hsame | ⟨hnew,hlast⟩
  · rwa [hsame]
  · rw [hlast,← List.concat_eq_append]
    exact hsums.concat hnew

/-- The lines taken out, each on the branch of its line. -/
theorem out_branch (hpart : part ≠ []) {carton : Uuid} {rows : List (Uuid × ℤ)} (hrows : (rows.map Prod.fst).Nodup)
    (h : rows.foldlM (fun w r => unput screen r.1 r.2 carton
      (under part (['o','u','t']++ ':' :: Rendering.uuidText r.1)) w) w = .ok w') :
    ∃ ws, Grown screen [] w w' ws ∧ Paths.Branches path (Paths.names ':' part) [['o','u','t']] ws := by
  have hnames : (rows.map fun r => Rendering.uuidText r.1).Nodup := by
    have hinj := hrows.map fun a b hab =>
      Fin.ext (Rendering.uuidText_injective a.isLt b.isLt hab : (a : ℕ) = b)
    rwa [List.map_map] at hinj
  have hout : ∀ r ∈ rows, ∀ w w', unput screen r.1 r.2 carton
      (under part (['o','u','t']++ ':' :: Rendering.uuidText r.1)) w = .ok w' →
      ∃ ws, Grown screen [] w w' ws ∧
        Paths.Under path (Paths.names ':' part++[['o','u','t']]++[Rendering.uuidText r.1]) ws := by
    intro r _ w w' hout
    rw [← names_line hpart (by decide)]
    exact unput_parts hout
  obtain ⟨ws,hgrown,hbranches⟩ := fold_grown hnames hout h
  have hnone : rows.flatMap (fun _ => ([] : List Put)) = [] := by simp
  rw [hnone] at hgrown
  exact ⟨ws,hgrown,hbranches.under.branches⟩

theorem takeApart_parts (hpart : part ≠ []) {c : CartonSummary} (h : takeApart screen c part w = .ok w') :
    ∃ ws, Grown screen [] w w' ws ∧ Paths.Branches path (Paths.names ':' part)
      [['o','p','e','n'],['o','u','t'],['o','f','f'],['d','i','s','c','a','r','d']] ws := by
  rw [takeApart] at h
  obtain ⟨w₁,hout,h⟩ := Fallible.bind_ok_iff.mp h
  obtain ⟨w₂,hoff,h⟩ := Fallible.bind_ok_iff.mp h
  cases h
  have hopen : ∃ ws, Grown screen [] w
      (if c.isSealed then w.push (under part ['o','p','e','n']) (.reopen c.id) else w) ws ∧
      Paths.Branches path (Paths.names ':' part) [['o','p','e','n']] ws := by
    split
    · exact push_branch screen hpart w (by decide) rfl
    · exact no_branch screen w _ _
  have hoff : ∃ ws, Grown screen [] w₁ w₂ ws ∧ Paths.Branches path (Paths.names ':' part) [['o','f','f']] ws := by
    cases hon : c.on with
    | none =>
      rw [hon] at hoff
      cases hoff
      exact no_branch screen w₁ _ _
    | some q =>
      rw [hon] at hoff
      obtain ⟨location,-,hlast⟩ := Fallible.bind_ok_iff.mp hoff
      cases hlast
      exact push_branch screen hpart w₁ (by decide) rfl
  obtain ⟨as,hgrown₁,hbranch₁⟩ := hopen
  obtain ⟨bs,hgrown₂,hbranch₂⟩ := out_branch hpart (nodup_byLine _) hout
  obtain ⟨cs,hgrown₃,hbranch₃⟩ := hoff
  obtain ⟨ds,hgrown₄,hbranch₄⟩ := push_branch screen hpart w₂
    (by decide : ':' ∉ ['d','i','s','c','a','r','d']) (rfl : drawn (.discard c.id) = none)
  have hgrown := ((hgrown₁.trans hgrown₂).trans hgrown₃).trans hgrown₄
  exact ⟨_,hgrown,((hbranch₁.append hbranch₂ (by decide)).append hbranch₃ (by decide)).append hbranch₄ (by decide)⟩

theorem unmake_parts (hpart : part ≠ []) {carton : Uuid} {pallet : Option Uuid}
    (h : unmake screen carton pallet part w = .ok w') :
    ∃ ws, Grown screen [] w w' ws ∧ Paths.Under path (Paths.names ':' part) ws := by
  rw [unmake] at h
  obtain ⟨w₁,hcarton,h⟩ := Fallible.bind_ok_iff.mp h
  cases h
  have hcarton : ∃ ws, Grown screen [] w w₁ ws ∧ Paths.Branches path (Paths.names ':' part)
      [['o','p','e','n'],['o','u','t'],['o','f','f'],['d','i','s','c','a','r','d']] ws := by
    cases hfind : screen.cartons.find? (·.id = carton) with
    | none =>
      rw [hfind] at hcarton
      cases hcarton
      exact ⟨[],Grown.refl w,Paths.Branches.nil⟩
    | some c =>
      rw [hfind] at hcarton
      exact takeApart_parts hpart hcarton
  have hpallet : ∃ ws, Grown screen [] w₁ (discardPallet screen pallet part w₁) ws ∧
      Paths.Branches path (Paths.names ':' part) [['p','a','l','l','e','t']] ws := by
    cases pallet with
    | none => exact no_branch screen w₁ _ _
    | some q =>
      rw [discardPallet]
      split
      · exact push_branch screen hpart w₁ (by decide) rfl
      · exact no_branch screen w₁ _ _
  obtain ⟨as,hgrown₁,hbranch₁⟩ := hcarton
  obtain ⟨bs,hgrown₂,hbranch₂⟩ := hpallet
  exact ⟨_,hgrown₁.trans hgrown₂,(hbranch₁.append hbranch₂ (by decide)).under⟩

/-! ## A press -/

/-- The puts an act asks for. -/
def putsOfAct (screen : BenchScreen) (n : ℕ) (step : BoardAct) (part : Text) : List Put :=
  match step with
  | .put line units carton => [⟨part,line,units,carton⟩]
  | .make parcel => putsIn screen n parcel part
  | _ => []

theorem add_parts {fulfilment : Uuid} (hlines : ∀ pp ∈ screen.plan, (pp.lines.map (·.line)).Nodup) {n : ℕ}
    {step : BoardAct} (hpart : part ≠ []) (h : add screen fulfilment n step part w = .ok w') :
    ∃ ws, Grown screen (putsOfAct screen n step part) w w' ws ∧ Paths.Under path (Paths.names ':' part) ws := by
  have hpush : ∀ {what : Write}, drawn what = none →
      ∃ ws, Grown screen [] w (w.push part what) ws ∧ Paths.Under path (Paths.names ':' part) ws :=
    fun hwhat => ⟨_,Grown.push w part hwhat,Paths.Under.one (List.prefix_refl _)⟩
  cases step with
  | put line units carton => exact put_parts hpart h
  | unput line units carton => exact unput_parts h
  | repack line units source destination =>
    cases destination with
    | some d =>
      cases h
      exact hpush rfl
    | none =>
      obtain ⟨location,-,hlast⟩ := Fallible.bind_ok_iff.mp h
      cases hlast
      exact hpush rfl
  | make parcel => exact make_parts hlines hpart h
  | contain carton pallet =>
    cases h
    exact hpush rfl
  | takeOff carton =>
    obtain ⟨location,-,hlast⟩ := Fallible.bind_ok_iff.mp h
    cases hlast
    exact hpush rfl
  | unmake carton pallet => exact unmake_parts hpart h

/-- The part of an act: which it is, and its kind. -/
def partOfAct (s : BoardAct × ℕ) : Text := Numerals.digits s.2++ ':' :: s.1.kind

/-- The puts of a press, in the order it makes them. -/
def putsOf (screen : BenchScreen) (n : ℕ) (steps : List BoardAct) : List Put :=
  steps.zipIdx.flatMap fun s => putsOfAct screen n s.1 (partOfAct s)

theorem writesIn_parts {fulfilment : Uuid} (hlines : ∀ pp ∈ screen.plan, (pp.lines.map (·.line)).Nodup) {n : ℕ}
    {steps : List BoardAct} (h : writesIn screen fulfilment n steps = .ok w) :
    ∃ ws, Grown screen (putsOf screen n steps) start w ws ∧ (ws.map path).Nodup := by
  have hnames : (steps.zipIdx.map fun s => Numerals.digits s.2).Nodup := by
    rw [← Function.comp_def,← List.map_map,List.zipIdx_map_snd]
    exact (List.nodup_range' (h := Nat.one_pos)).map fun a b hab => Numerals.digits_injective hab
  have hact : ∀ s ∈ steps.zipIdx, ∀ w w', add screen fulfilment n s.1 (partOfAct s) w = .ok w' →
      ∃ ws, Grown screen (putsOfAct screen n s.1 (partOfAct s)) w w' ws ∧
        Paths.Under path ([]++[Numerals.digits s.2]) ws := by
    intro s _ w w' hadd
    obtain ⟨ws,hgrown,hunder⟩ := add_parts hlines (by simp [partOfAct]) hadd
    rw [partOfAct,Paths.names_append,Paths.names_one (digits_plain _)] at hunder
    exact ⟨ws,hgrown,hunder.above⟩
  obtain ⟨ws,hgrown,hbranches⟩ := fold_grown hnames hact h
  exact ⟨ws,hgrown,hbranches.apart⟩

end Writes
end Spork
