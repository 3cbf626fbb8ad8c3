import Spork.Packages.Projection

/-! Rebuilds run while events arrive, against one rebuild over the whole log: what a
rebuild in place keeps of an earlier one, and when that is nothing. -/
namespace Spork
namespace Packages

variable {packages : List ℕ}

/-! ## Runs -/

inductive Act (packages : List ℕ)
  | arrive (e : Event packages)
  | rebuild

structure State (packages : List ℕ) where
  events : List (Event packages)
  table : Table

def act (s : State packages) : Act packages → State packages
  | .arrive e => {s with events := s.events++[e]}
  | .rebuild => {s with table := (projectionPackageRebuild s.events s.table).1}

def run (acts : List (Act packages)) : State packages := acts.foldl act ⟨[],fun _ => Row.empty⟩

/-- The logs the rebuilds of a run were over, from a log on. -/
def rebuiltFrom : List (Event packages) → List (Act packages) → List (List (Event packages))
  | _, [] => []
  | es, .arrive e :: acts => rebuiltFrom (es++[e]) acts
  | es, .rebuild :: acts => es :: rebuiltFrom es acts

def rebuiltOver (acts : List (Act packages)) : List (List (Event packages)) := rebuiltFrom [] acts

/-! ## What a log says of a package -/

/-- A placed package's last identity names an identifier of a kind. -/
def Identifies (column : Event packages → Option String) (es : List (Event packages)) (p : ℕ) : Prop :=
  (winningPlacement es p).isSome = true ∧ ((winningIdentity es p).bind column).isSome = true

/-- A package's last placement is at a location, or in what is. -/
inductive Reaches (es : List (Event packages)) : ℕ → Prop
  | located {p l : ℕ} {e : Event packages} (he : winningPlacement es p = some e)
    (hl : e.locationId = some l) : Reaches es p
  | within {p q : ℕ} {e : Event packages} (he : winningPlacement es p = some e)
    (hq : e.parentPackageId = some q) (hup : Reaches es q) : Reaches es p

/-- What an earlier log says of its packages the later one still does. -/
structure NothingLost (earlier es : List (Event packages)) : Prop where
  sscc : ∀ p, Identifies Event.sscc earlier p → Identifies Event.sscc es p
  barcode : ∀ p, Identifies Event.barcode earlier p → Identifies Event.barcode es p
  reaches : ∀ p, Reaches earlier p → Reaches es p

/-! ## What a table keeps of earlier rebuilds -/

/-- What the rebuilds over some logs left: nothing on a package never placed, an
identifier where one of them had one, a location where one of them reached one. -/
structure Kept (es : List (Event packages)) (t : Table) (logs : List (List (Event packages))) : Prop where
  past : ∀ earlier ∈ logs, earlier ⊆ es
  unplaced : ∀ p, winningPlacement es p = none → t p = Row.empty
  sscc : ∀ p, (t p).sscc.isSome = true ↔ ∃ earlier ∈ logs, Identifies Event.sscc earlier p
  barcode : ∀ p, (t p).barcode.isSome = true ↔ ∃ earlier ∈ logs, Identifies Event.barcode earlier p
  resolved : ∀ p, (t p).resolvedLocationId.isSome = true ↔ ∃ earlier ∈ logs, Reaches earlier p
  depth : ∀ p, (t p).depth.isSome = true ↔ ∃ earlier ∈ logs, Reaches earlier p

variable {es : List (Event packages)} {t : Table} {logs : List (List (Event packages))}

theorem kept_start : Kept ([] : List (Event packages)) (fun _ => Row.empty) [] where
  past := by simp
  unplaced _ _ := rfl
  sscc := by simp [Row.empty]
  barcode := by simp [Row.empty]
  resolved := by simp [Row.empty]
  depth := by simp [Row.empty]

/-- An event arriving is nothing to the table. -/
theorem Kept.arrive (h : Kept es t logs) (e : Event packages) : Kept (es++[e]) t logs where
  past earlier hearlier _ hmem := List.subset_append_left es [e] (h.past earlier hearlier hmem)
  unplaced p hnone := by
    refine h.unplaced p (Option.not_isSome_iff_eq_none.mp fun hsome => ?_)
    have hmore : (winningPlacement (es++[e]) p).isSome = true :=
      winner_more (List.subset_append_left es [e]) hsome
    rw [hnone] at hmore
    cases hmore
  sscc := h.sscc
  barcode := h.barcode
  resolved := h.resolved
  depth := h.depth

/-- Where packages never placed have empty rows, the holders are the winners'. -/
theorem place_holder (hunplaced : ∀ p, winningPlacement es p = none → t p = Row.empty) (p : ℕ) :
    (place es t p).parentPackageId = (winningPlacement es p).bind Event.parentPackageId ∧
      (place es t p).locationId = (winningPlacement es p).bind Event.locationId := by
  unfold place placeRow
  cases hplaced : winningPlacement es p with
  | none => simp [hunplaced p hplaced,Row.empty]
  | some wp => simp

theorem place_held (hunplaced : ∀ p, winningPlacement es p = none → t p = Row.empty) :
    Held packages (place es t) where
  one p hparent := by
    rw [(place_holder hunplaced p).1] at hparent
    rw [(place_holder hunplaced p).2]
    cases hplaced : winningPlacement es p with
    | none => rfl
    | some wp =>
      rw [hplaced,Option.bind_some] at hparent
      have hone := wp.holder (winner_tells hplaced).2.2
      rw [Option.isSome_iff_ne_none.mpr hparent] at hone
      rw [Option.bind_some]
      exact Option.not_isSome_iff_eq_none.mp fun hsome => hone hsome.symm
  parent_there p q hq := by
    rw [(place_holder hunplaced p).1] at hq
    obtain ⟨wp,-,hparent⟩ := Option.bind_eq_some_iff.mp hq
    exact wp.parent_there q hparent

/-- A chain climbed is the winners' chain. -/
theorem climb_iff (hunplaced : ∀ p, winningPlacement es p = none → t p = Row.empty) (p : ℕ) :
    (∃ n, climb (place es t) n p ≠ none) ↔ Reaches es p := by
  constructor
  · rintro ⟨n,hn⟩
    induction n generalizing p with
    | zero =>
      rw [climb,(place_holder hunplaced p).2] at hn
      obtain ⟨l,hl⟩ := Option.ne_none_iff_exists'.mp hn
      obtain ⟨wp,hplaced,hloc⟩ := Option.bind_eq_some_iff.mp hl
      exact .located hplaced hloc
    | succ n ih =>
      obtain ⟨l,hl⟩ := Option.ne_none_iff_exists'.mp hn
      rw [climb,(place_holder hunplaced p).1] at hl
      obtain ⟨q,hq,hup⟩ := Option.bind_eq_some_iff.mp hl
      obtain ⟨wp,hplaced,hparent⟩ := Option.bind_eq_some_iff.mp hq
      exact .within hplaced hparent (ih q (hup ▸ Option.some_ne_none l))
  · intro h
    induction h with
    | @located p l e he hl =>
      refine ⟨0,?_⟩
      rw [climb,(place_holder hunplaced p).2,he,Option.bind_some,hl]
      exact Option.some_ne_none l
    | @within p q e he hq _ ih =>
      obtain ⟨n,hn⟩ := ih
      refine ⟨n+1,?_⟩
      rwa [climb,(place_holder hunplaced p).1,he,Option.bind_some,hq,Option.bind_some]

/-- The rebuild finds where a package is just when its winners' chain leads to a location. -/
theorem found_iff (hunplaced : ∀ p, winningPlacement es p = none → t p = Row.empty) (p : ℕ) :
    ((chain packages (place es t)).find? fun c => c.id = p).isSome = true ↔ Reaches es p := by
  by_cases hp : p ∈ packages
  · rw [chain_iff (place_held hunplaced) hp,climb_iff hunplaced]
  · refine iff_of_false (fun hsome => ?_) fun hreaches => ?_
    · obtain ⟨c,hc⟩ := Option.isSome_iff_exists.mp hsome
      obtain ⟨n,-,hmem⟩ := List.mem_flatMap.mp (List.mem_of_find?_eq_some hc)
      have hid : c.id = p := by simpa using List.find?_some hc
      exact hp (hid ▸ (mem_working n c hmem).1)
    · cases hreaches with
      | located he _ => exact hp ((winner_tells he).2.1 ▸ Event.there _)
      | within he _ _ => exact hp ((winner_tells he).2.1 ▸ Event.there _)

/-- A package not placed is nowhere. -/
theorem not_reaches {p : ℕ} (hnone : winningPlacement es p = none) : ¬Reaches es p := by
  intro h
  cases h with
  | located he _ => rw [hnone] at he; cases he
  | within he _ _ => rw [hnone] at he; cases he

/-! ## A rebuild -/

section
variable (rows : List ChainRow) (p : ℕ) (r : Row)

@[simp] theorem resolveRow_sscc : (resolveRow rows p r).sscc = r.sscc := by
  unfold resolveRow
  split <;> rfl

@[simp] theorem resolveRow_barcode : (resolveRow rows p r).barcode = r.barcode := by
  unfold resolveRow
  split <;> rfl

@[simp] theorem resolveRow_status : (resolveRow rows p r).status = r.status := by
  unfold resolveRow
  split <;> rfl

@[simp] theorem resolveRow_parentPackageId : (resolveRow rows p r).parentPackageId = r.parentPackageId := by
  unfold resolveRow
  split <;> rfl

/-- A location found is written over what was there, and one not found isn't. -/
theorem resolveRow_resolved : (resolveRow rows p r).resolvedLocationId =
    ((rows.find? fun c => c.id = p).map ChainRow.resolved).or r.resolvedLocationId := by
  unfold resolveRow
  split <;> simp [*]

theorem resolveRow_depth : (resolveRow rows p r).depth =
    ((rows.find? fun c => c.id = p).map ChainRow.depth).or r.depth := by
  unfold resolveRow
  split <;> simp [*]

end

section
variable (es : List (Event packages)) (t : Table) (p : ℕ)

/-- The identifiers of a placed package are the winner's, or stay. -/
theorem placeRow_sscc : (placeRow es p (t p)).sscc = if (winningPlacement es p).isSome then
    ((winningIdentity es p).bind Event.sscc).or (t p).sscc else (t p).sscc := by
  unfold placeRow
  split <;> simp [*]

theorem placeRow_barcode : (placeRow es p (t p)).barcode = if (winningPlacement es p).isSome then
    ((winningIdentity es p).bind Event.barcode).or (t p).barcode else (t p).barcode := by
  unfold placeRow
  split <;> simp [*]

theorem placeRow_resolved : (placeRow es p (t p)).resolvedLocationId = (t p).resolvedLocationId := by
  unfold placeRow
  split <;> rfl

theorem placeRow_depth : (placeRow es p (t p)).depth = (t p).depth := by
  unfold placeRow
  split <;> rfl

end

/-- What a rebuild leaves a package: an identifier where there was one or the winners name
one, a location where there was one or the chain leads to one. -/
theorem rebuild_sscc (p : ℕ) : ((projectionPackageRebuild es t).1 p).sscc.isSome = true ↔
    Identifies Event.sscc es p ∨ (t p).sscc.isSome = true := by
  have hrow : ((projectionPackageRebuild es t).1 p).sscc = (placeRow es p (t p)).sscc :=
    resolveRow_sscc _ p _
  rw [hrow,placeRow_sscc]
  unfold Identifies
  split <;> simp [*]

theorem rebuild_barcode (p : ℕ) : ((projectionPackageRebuild es t).1 p).barcode.isSome = true ↔
    Identifies Event.barcode es p ∨ (t p).barcode.isSome = true := by
  have hrow : ((projectionPackageRebuild es t).1 p).barcode = (placeRow es p (t p)).barcode :=
    resolveRow_barcode _ p _
  rw [hrow,placeRow_barcode]
  unfold Identifies
  split <;> simp [*]

theorem rebuild_resolved (hunplaced : ∀ p, winningPlacement es p = none → t p = Row.empty) (p : ℕ) :
    ((projectionPackageRebuild es t).1 p).resolvedLocationId.isSome = true ↔
      Reaches es p ∨ (t p).resolvedLocationId.isSome = true := by
  have hrow : ((projectionPackageRebuild es t).1 p).resolvedLocationId =
      (((chain packages (place es t)).find? fun c => c.id = p).map ChainRow.resolved).or
        (placeRow es p (t p)).resolvedLocationId := resolveRow_resolved _ p _
  rw [hrow,placeRow_resolved,Option.isSome_or,Option.isSome_map,Bool.or_eq_true,found_iff hunplaced]

theorem rebuild_depth (hunplaced : ∀ p, winningPlacement es p = none → t p = Row.empty) (p : ℕ) :
    ((projectionPackageRebuild es t).1 p).depth.isSome = true ↔
      Reaches es p ∨ (t p).depth.isSome = true := by
  have hrow : ((projectionPackageRebuild es t).1 p).depth =
      (((chain packages (place es t)).find? fun c => c.id = p).map ChainRow.depth).or
        (placeRow es p (t p)).depth := resolveRow_depth _ p _
  rw [hrow,placeRow_depth,Option.isSome_or,Option.isSome_map,Bool.or_eq_true,found_iff hunplaced]

/-- A package not placed is left as it was. -/
theorem rebuild_unplaced (hunplaced : ∀ p, winningPlacement es p = none → t p = Row.empty) {p : ℕ}
    (hnone : winningPlacement es p = none) : (projectionPackageRebuild es t).1 p = t p := by
  have hfind : (chain packages (place es t)).find? (fun c => c.id = p) = none :=
    Option.not_isSome_iff_eq_none.mp fun hsome => not_reaches hnone ((found_iff hunplaced p).mp hsome)
  show resolveRow _ p (placeRow es p (t p)) = t p
  rw [resolveRow,hfind,placeRow,hnone]

/-- A rebuild keeps what the earlier ones left, and adds what its own log says. -/
theorem Kept.rebuild (h : Kept es t logs) :
    Kept es (projectionPackageRebuild es t).1 (logs++[es]) where
  past earlier hearlier := by
    rcases List.mem_append.mp hearlier with hold | hnew
    · exact h.past earlier hold
    · rw [List.mem_singleton.mp hnew]
      exact List.Subset.refl es
  unplaced p hnone := by rw [rebuild_unplaced h.unplaced hnone,h.unplaced p hnone]
  sscc p := by
    rw [rebuild_sscc,h.sscc]
    simp [or_comm,or_and_right,exists_or]
  barcode p := by
    rw [rebuild_barcode,h.barcode]
    simp [or_comm,or_and_right,exists_or]
  resolved p := by
    rw [rebuild_resolved h.unplaced,h.resolved]
    simp [or_comm,or_and_right,exists_or]
  depth p := by
    rw [rebuild_depth h.unplaced,h.depth]
    simp [or_comm,or_and_right,exists_or]

/-- What a run leaves, from any state on. -/
theorem Kept.run {s : State packages} (h : Kept s.events s.table logs) (acts : List (Act packages)) :
    Kept (acts.foldl act s).events (acts.foldl act s).table (logs++rebuiltFrom s.events acts) := by
  induction acts generalizing s logs with
  | nil => simpa [rebuiltFrom] using h
  | cons a acts ih =>
    cases a with
    | arrive e => exact ih (h.arrive e)
    | rebuild =>
      have hrest := ih (s := act s .rebuild) h.rebuild
      simpa [rebuiltFrom,act] using hrest

theorem run_kept (acts : List (Act packages)) :
    Kept (run acts).events (run acts).table (rebuiltOver acts) := by
  have h := Kept.run (s := ⟨[],fun _ => Row.empty⟩) kept_start acts
  rwa [List.nil_append] at h

/-! ## Against a rebuild over the whole log -/

/-- The order events arrived in is nothing to a rebuild. -/
theorem rebuild_perm {log : List (Event packages)} (hperm : log.Perm es)
    (hids : (log.map Event.id).Nodup) (t : Table) :
    (projectionPackageRebuild log t).1 = (projectionPackageRebuild es t).1 := by
  have hplace : place log t = place es t := by
    funext p
    unfold place placeRow winningPlacement winningIdentity winningStatus
    simp only [winner_perm hperm hids]
  unfold projectionPackageRebuild
  simp only [hplace]

theorem or_same_iff {α : Type} (x y : Option α) : x.or y = x ↔ (y.isSome = true → x.isSome = true) := by
  cases x <;> cases y <;> simp

/-- Two rebuilds over one log differ by what stays of the rows before. -/
theorem rebuild_same_iff (hunplaced : ∀ p, winningPlacement es p = none → t p = Row.empty) (p : ℕ) :
    (projectionPackageRebuild es t).1 p = (projectionPackageRebuild es fun _ => Row.empty).1 p ↔
      ((t p).sscc.isSome = true → Identifies Event.sscc es p) ∧
      ((t p).barcode.isSome = true → Identifies Event.barcode es p) ∧
      ((t p).resolvedLocationId.isSome = true → Reaches es p) ∧
      ((t p).depth.isSome = true → Reaches es p) := by
  have hempty : ∀ q, winningPlacement es q = none → (fun _ => Row.empty : Table) q = Row.empty :=
    fun _ _ => rfl
  cases hplaced : winningPlacement es p with
  | none =>
    rw [rebuild_unplaced hunplaced hplaced,rebuild_unplaced hempty hplaced,hunplaced p hplaced]
    simp [Row.empty]
  | some wp =>
    have hchain : chain packages (place es t) = chain packages (place es fun _ => Row.empty) := by
      refine chain_congr fun q => ?_
      rw [(place_holder hunplaced q).1,(place_holder hunplaced q).2,(place_holder hempty q).1,
        (place_holder hempty q).2]
      exact ⟨rfl,rfl⟩
    have hfound := found_iff hunplaced p
    show resolveRow _ p (placeRow es p (t p)) = resolveRow _ p (placeRow es p Row.empty) ↔ _
    rw [← hchain]
    unfold resolveRow placeRow Identifies
    rw [← hfound]
    cases hfind : (chain packages (place es t)).find? fun c => c.id = p with
    | none => simp [hplaced,or_same_iff,Row.empty]
    | some c => simp [hplaced,or_same_iff,Row.empty]

/-- A rebuild after any run leaves every package as one over the whole log from nothing does
just when nothing an earlier rebuild's log said was lost since. -/
theorem rebuild_agrees_iff (acts : List (Act packages)) (log : List (Event packages))
    (hlog : log.Perm (run acts).events) (hids : (log.map Event.id).Nodup) :
    (∀ p, (projectionPackageRebuild (run acts).events (run acts).table).1 p =
      (projectionPackageRebuild log fun _ => Row.empty).1 p) ↔
    ∀ earlier ∈ rebuiltOver acts, NothingLost earlier (run acts).events := by
  have hkept := run_kept acts
  rw [rebuild_perm hlog hids]
  constructor
  · intro hsame earlier hearlier
    have hrow (p : ℕ) := (rebuild_same_iff hkept.unplaced p).mp (hsame p)
    exact ⟨fun p hp => (hrow p).1 ((hkept.sscc p).mpr ⟨earlier,hearlier,hp⟩),
      fun p hp => (hrow p).2.1 ((hkept.barcode p).mpr ⟨earlier,hearlier,hp⟩),
      fun p hp => (hrow p).2.2.1 ((hkept.resolved p).mpr ⟨earlier,hearlier,hp⟩)⟩
  · intro hlost p
    refine (rebuild_same_iff hkept.unplaced p).mpr ⟨fun h => ?_,fun h => ?_,fun h => ?_,fun h => ?_⟩
    · obtain ⟨earlier,hearlier,hp⟩ := (hkept.sscc p).mp h
      exact (hlost earlier hearlier).sscc p hp
    · obtain ⟨earlier,hearlier,hp⟩ := (hkept.barcode p).mp h
      exact (hlost earlier hearlier).barcode p hp
    · obtain ⟨earlier,hearlier,hp⟩ := (hkept.resolved p).mp h
      exact (hlost earlier hearlier).reaches p hp
    · obtain ⟨earlier,hearlier,hp⟩ := (hkept.depth p).mp h
      exact (hlost earlier hearlier).reaches p hp

/-- A carton created at a location under an SSCC. -/
def created : Event [1,2] where
  id := 10
  occurredAt := 0
  recordedAt := 0
  packageId := 1
  kind := .created
  parentPackageId := none
  locationId := some 7
  sscc := some "106141411234567897"
  barcode := none
  there := by decide
  parent_there := by decide
  holder := by decide
  not_own_parent := by decide

/-- A label with a bare barcode put on it. -/
def relabelled : Event [1,2] where
  id := 11
  occurredAt := 1
  recordedAt := 1
  packageId := 1
  kind := .relabelled
  parentPackageId := none
  locationId := none
  sscc := none
  barcode := some "CARTON-1"
  there := by decide
  parent_there := by decide
  holder := by decide
  not_own_parent := by decide

/-- The carton put on a pallet nobody has placed yet. -/
def contained : Event [1,2] where
  id := 12
  occurredAt := 2
  recordedAt := 2
  packageId := 1
  kind := .contained
  parentPackageId := some 2
  locationId := none
  sscc := none
  barcode := none
  there := by decide
  parent_there := by decide
  holder := by decide
  not_own_parent := by decide

/-- Two events that arrived the other way round. -/
theorem rebuild_agrees_late :
    (projectionPackageRebuild (run [.arrive relabelled,.arrive created,.rebuild]).events
      (run [.arrive relabelled,.arrive created,.rebuild]).table).1 1 =
    (projectionPackageRebuild [created,relabelled] fun _ => Row.empty).1 1 := by
  have h := rebuild_agrees_iff [.arrive relabelled,.arrive created,.rebuild] [created,relabelled]
    (List.Perm.swap _ _ _) (by decide)
  refine h.mpr (fun earlier hearlier => ?_) 1
  obtain rfl := List.mem_singleton.mp hearlier
  exact ⟨fun _ h => h,fun _ h => h,fun _ h => h⟩

/-- With a rebuild after the carton was created the SSCC and the location stay, and from
nothing there are none. -/
theorem rebuild_disagrees :
    let acts := [.arrive created,.rebuild,.arrive relabelled,.arrive contained]
    let incremental := (projectionPackageRebuild (run acts).events (run acts).table).1 1
    let scratch := (projectionPackageRebuild (run acts).events fun _ => Row.empty).1 1
    incremental ≠ scratch ∧
      incremental.sscc = some "106141411234567897" ∧ scratch.sscc = none ∧
      incremental.resolvedLocationId = some 7 ∧ scratch.resolvedLocationId = none := by
  decide

end Packages
end Spork
