import Spork.Ledger.StockFold
import Spork.Lib.Runs
import Spork.Packages.Rebuilt

/-! The projections of every tenant and their marks (projection_dirty), while writes
commit and any number of rebuilds (projection_run_dirty, projection_refresh_tenant) are
under way, each a transaction taken apart at its statements. -/
namespace Spork
namespace Projections

/-- A row of `projection_step`: its function folds a tenant's facts, with every step's
columns as it finds them. Those of the steps before it are written by then; its own and the
later ones' are as the last run left them. -/
structure ProjectionStep (ι F κ ρ : Type) where
  functionName : String
  fold : ι → List F → (ℕ → κ → ρ) → κ → ρ

variable {ι F κ ρ : Type} (steps : List (ProjectionStep ι F κ ρ)) (blank : ρ)

/-- What the first so many steps make of some facts, in order and from blank columns. -/
def builtBy (t : ι) (facts : List F) : ℕ → ℕ → κ → ρ
  | 0 => fun _ _ => blank
  | n+1 =>
    let before := builtBy t facts n
    match steps[n]? with
    | none => before
    | some p => Function.update before n (p.fold t facts before)

/-- Every step's columns, folded from scratch over all of some facts. -/
def built (t : ι) (facts : List F) : ℕ → κ → ρ := builtBy steps blank t facts steps.length

/-- A `projection_run_all` in a transaction: the facts its first fold found, the steps it
has folded, whether one raised, and whether the `DELETE` after it met a mark. -/
structure Rebuild (F : Type) where
  found : List F
  done : ℕ
  failed : Bool
  cleared : Bool

/-- A row of `discrepancy`. -/
structure Discrepancy (ι : Type) where
  tenant : ι
  kind : String
  detail : String
  automationKey : String

/-- A transaction under way: the tenants its loop has not come to, the one it is at, its
rebuilds, and what it has written and nobody else sees. -/
structure Job (ι F κ ρ : Type) where
  rest : List ι
  current : Option ι
  rebuilds : ι → Option (Rebuild F)
  own : ι → ℕ → κ → Option ρ
  discrepancies : List (Discrepancy ι)
  /-- What a refresh stamps `last_on_demand_at` with. -/
  demanded : Option (ι × ℤ)

/-- What is committed, the transactions under way, and the marks they have deleted, whose
rows stay locked until they end. -/
structure Database (ι F κ ρ : Type) where
  facts : ι → List F
  tables : ι → ℕ → κ → ρ
  marked : ι → Bool
  /-- `max(last_on_demand_at)`, in microseconds. -/
  lastOnDemandAt : ι → Option ℤ
  discrepancies : List (Discrepancy ι)
  jobs : ℕ → Option (Job ι F κ ρ)
  locked : ι → Option ℕ

inductive Event (ι F : Type)
  /-- A write commits: its facts, and its tenant's mark. -/
  | write (t : ι) (facts : List F)
  /-- `projection_run_dirty` is called, with the tenants on file. -/
  | runDirty (j : ℕ) (tenants : List ι)
  | refreshTenant (j : ℕ) (t : ι) (now : ℤ)
  /-- The loop's next tenant, which is rebuilt if it is marked. -/
  | next (j : ℕ)
  | fold (j : ℕ)
  | raises (j : ℕ) (err : String)
  /-- The `DELETE` of the mark. -/
  | clear (j : ℕ)
  | commit (j : ℕ)
  | abort (j : ℕ)

/-- What a transaction sees of a tenant's tables. -/
def Job.view (job : Job ι F κ ρ) (tables : ι → ℕ → κ → ρ) (t : ι) (i : ℕ) (k : κ) : ρ :=
  (job.own t i k).getD (tables t i k)

def Rebuild.start (facts : List F) : Rebuild F := ⟨facts,0,false,false⟩

variable [DecidableEq ι]

def Job.set (job : Job ι F κ ρ) (t : ι) (r : Rebuild F) : Job ι F κ ρ :=
  {job with rebuilds := Function.update job.rebuilds t (some r)}

/-- `projection_run_all` is called on a tenant. -/
def Job.begin (job : Job ι F κ ρ) (t : ι) (facts : List F) : Job ι F κ ρ :=
  {job.set t (Rebuild.start facts) with current := some t}

/-- A step's fold: only the rows that differ are written. -/
def Job.fold [DecidableEq ρ] (job : Job ι F κ ρ) (tables : ι → ℕ → κ → ρ) (facts : List F) (t : ι) (r : Rebuild F)
    (p : ProjectionStep ι F κ ρ) : Job ι F κ ρ :=
  let seen := job.view tables t
  let folded := p.fold t facts seen
  {job.set t {r with found := if r.done = 0 then facts else r.found, done := r.done+1} with
    own := Function.update job.own t (Function.update (job.own t) r.done fun k =>
      if folded k = seen r.done k then job.own t r.done k else some (folded k))}

/-- A fold that raises is recorded, and `projection_run_all` returns. -/
def Job.raises (job : Job ι F κ ρ) (t : ι) (r : Rebuild F) (p : ProjectionStep ι F κ ρ) (err : String) : Job ι F κ ρ :=
  {job.set t {r with failed := true} with
    discrepancies := job.discrepancies++[⟨t,"projection_failed",
      p.functionName++" raised "++err++". Every step after it was skipped, because the ordinal is a dependency "++
      "order and they would fold over inputs that were never written.","projection-run"⟩]}

/-- The `DELETE`, which meets a mark or none, and the loop goes on. -/
def Job.clear (job : Job ι F κ ρ) (t : ι) (r : Rebuild F) (marked : Bool) : Job ι F κ ρ :=
  {job.set t {r with cleared := marked} with current := none}

namespace Database

variable (s : Database ι F κ ρ)

def setJob (j : ℕ) (job : Option (Job ι F κ ρ)) : Database ι F κ ρ := {s with jobs := Function.update s.jobs j job}

/-- The transaction ends, and lets go of the marks it locked. -/
def release (j : ℕ) : Database ι F κ ρ :=
  {s.setJob j none with locked := fun t => if s.locked t = some j then none else s.locked t}

/-- A transaction's writes become everybody's. -/
def publish (job : Job ι F κ ρ) : Database ι F κ ρ :=
  {s with
    tables := job.view s.tables
    marked := fun t => s.marked t && !(job.rebuilds t).any Rebuild.cleared
    lastOnDemandAt := fun t => if job.demanded.any (·.1 = t) then job.demanded.map Prod.snd else s.lastOnDemandAt t
    discrepancies := s.discrepancies++job.discrepancies}

/-- `min_gap`: 5 seconds. -/
def minGap : ℤ := 5000000

def recent (t : ι) (now : ℤ) : Bool := (s.lastOnDemandAt t).any fun last => now-last < minGap

/-- The rebuild a transaction is at. -/
def working (j : ℕ) : Option (Job ι F κ ρ × ι × Rebuild F) :=
  (s.jobs j).bind fun job => job.current.bind fun t => (job.rebuilds t).map fun r => (job,t,r)

/-- Whether `projection_run_all` has returned. -/
def returned (r : Rebuild F) : Bool := r.failed || r.done == steps.length

end Database

open Database

/-- One event. A write waits for a mark that another transaction has deleted, and so does
a `DELETE`. -/
def step [DecidableEq ρ] (s : Database ι F κ ρ) : Event ι F → Option (Database ι F κ ρ)
  | .write t facts =>
    if s.locked t = none then
      some {s with facts := Function.update s.facts t (s.facts t++facts), marked := Function.update s.marked t true}
    else none
  | .runDirty j tenants =>
    if (s.jobs j).isNone ∧ tenants.Nodup then
      some (s.setJob j (some ⟨tenants,none,fun _ => none,fun _ _ _ => none,[],none⟩))
    else none
  | .refreshTenant j t now =>
    if (s.jobs j).isNone then
      if s.recent t now then some s
      else some (s.setJob j (some (Job.begin ⟨[],none,fun _ => none,fun _ _ _ => none,[],some (t,now)⟩ t (s.facts t))))
    else none
  | .next j =>
    match s.jobs j with
    | some ⟨t :: rest,none,rebuilds,own,discrepancies,demanded⟩ =>
      let job : Job ι F κ ρ := ⟨rest,none,rebuilds,own,discrepancies,demanded⟩
      some (s.setJob j (some (if s.marked t then job.begin t (s.facts t) else job)))
    | _ => none
  | .fold j =>
    (s.working j).bind fun (job,t,r) =>
      if r.failed then none
      else steps[r.done]?.map fun p => s.setJob j (some (job.fold s.tables (s.facts t) t r p))
  | .raises j err =>
    (s.working j).bind fun (job,t,r) =>
      if r.failed then none
      else steps[r.done]?.map fun p => s.setJob j (some (job.raises t r p err))
  | .clear j =>
    (s.working j).bind fun (job,t,r) =>
      if returned steps r ∧ s.locked t = none then
        some {s.setJob j (some (job.clear t r (s.marked t))) with
          locked := if s.marked t then Function.update s.locked t (some j) else s.locked}
      else none
  | .commit j =>
    match s.jobs j with
    | some job => if job.rest = [] ∧ job.current = none then some ((s.publish job).release j) else none
    | none => none
  | .abort j => (s.jobs j).map fun _ => s.release j

/-- All that an event can do. -/
inductive Turn [DecidableEq ρ] (s : Database ι F κ ρ) : Event ι F → Database ι F κ ρ → Prop
  | write (t : ι) (facts : List F) (hfree : s.locked t = none) :
      Turn s (.write t facts) {s with
        facts := Function.update s.facts t (s.facts t++facts), marked := Function.update s.marked t true}
  | runDirty (j : ℕ) (tenants : List ι) (hnodup : tenants.Nodup) :
      Turn s (.runDirty j tenants) (s.setJob j (some ⟨tenants,none,fun _ => none,fun _ _ _ => none,[],none⟩))
  | recent (j : ℕ) (t : ι) (now : ℤ) : Turn s (.refreshTenant j t now) s
  | refreshTenant (j : ℕ) (t : ι) (now : ℤ) : Turn s (.refreshTenant j t now)
      (s.setJob j (some (Job.begin ⟨[],none,fun _ => none,fun _ _ _ => none,[],some (t,now)⟩ t (s.facts t))))
  | passes (j : ℕ) (job : Job ι F κ ρ) (t : ι) (rest : List ι) (hjob : s.jobs j = some job)
      (hcurrent : job.current = none) (hrest : job.rest = t :: rest) :
      Turn s (.next j) (s.setJob j (some {job with rest := rest}))
  | begins (j : ℕ) (job : Job ι F κ ρ) (t : ι) (rest : List ι) (hjob : s.jobs j = some job)
      (hcurrent : job.current = none) (hrest : job.rest = t :: rest) :
      Turn s (.next j) (s.setJob j (some (Job.begin {job with rest := rest} t (s.facts t))))
  | fold (j : ℕ) (job : Job ι F κ ρ) (t : ι) (r : Rebuild F) (p : ProjectionStep ι F κ ρ) (hjob : s.jobs j = some job)
      (hcurrent : job.current = some t) (hr : job.rebuilds t = some r) (hon : r.failed = false)
      (hp : steps[r.done]? = some p) :
      Turn s (.fold j) (s.setJob j (some (job.fold s.tables (s.facts t) t r p)))
  | raises (j : ℕ) (err : String) (job : Job ι F κ ρ) (t : ι) (r : Rebuild F) (p : ProjectionStep ι F κ ρ)
      (hjob : s.jobs j = some job) (hcurrent : job.current = some t) (hr : job.rebuilds t = some r) :
      Turn s (.raises j err) (s.setJob j (some (job.raises t r p err)))
  | clear (j : ℕ) (job : Job ι F κ ρ) (t : ι) (r : Rebuild F) (hjob : s.jobs j = some job)
      (hcurrent : job.current = some t) (hr : job.rebuilds t = some r) (hend : returned steps r = true) :
      Turn s (.clear j) {s.setJob j (some (job.clear t r (s.marked t))) with
        locked := if s.marked t then Function.update s.locked t (some j) else s.locked}
  | commit (j : ℕ) (job : Job ι F κ ρ) (hjob : s.jobs j = some job) (hcurrent : job.current = none) :
      Turn s (.commit j) ((s.publish job).release j)
  | abort (j : ℕ) : Turn s (.abort j) (s.release j)

omit [DecidableEq ι] in
theorem of_working {s : Database ι F κ ρ} {j : ℕ} {job : Job ι F κ ρ} {t : ι} {r : Rebuild F}
    (h : s.working j = some (job,t,r)) : s.jobs j = some job ∧ job.current = some t ∧ job.rebuilds t = some r := by
  obtain ⟨job',hjob,h⟩ := Option.bind_eq_some_iff.mp h
  obtain ⟨t',hcurrent,h⟩ := Option.bind_eq_some_iff.mp h
  obtain ⟨r',hr,heq⟩ := Option.map_eq_some_iff.mp h
  cases heq
  exact ⟨hjob,hcurrent,hr⟩

theorem step_turn [DecidableEq ρ] {s s' : Database ι F κ ρ} {e : Event ι F} (h : step steps s e = some s') :
    Turn steps s e s' := by
  cases e with
  | write t facts =>
    obtain ⟨hfree,heq⟩ := Option.ite_none_right_eq_some.mp h
    cases heq
    exact Turn.write t facts hfree
  | runDirty j tenants =>
    obtain ⟨hcall,heq⟩ := Option.ite_none_right_eq_some.mp h
    cases heq
    exact Turn.runDirty j tenants hcall.2
  | refreshTenant j t now =>
    obtain ⟨-,h⟩ := Option.ite_none_right_eq_some.mp h
    split at h
    · cases h
      exact Turn.recent j t now
    · cases h
      exact Turn.refreshTenant j t now
  | next j =>
    dsimp only [step] at h
    split at h
    · rename_i t rest rebuilds own discrepancies demanded hjob
      cases h
      split
      · exact Turn.begins j _ t rest hjob rfl rfl
      · exact Turn.passes j _ t rest hjob rfl rfl
    · cases h
  | fold j =>
    obtain ⟨⟨job,t,r⟩,hwork,h⟩ := Option.bind_eq_some_iff.mp h
    obtain ⟨hjob,hcurrent,hr⟩ := of_working hwork
    obtain ⟨hon,h⟩ := Option.ite_none_left_eq_some.mp h
    obtain ⟨p,hp,heq⟩ := Option.map_eq_some_iff.mp h
    cases heq
    exact Turn.fold j job t r p hjob hcurrent hr (by simpa using hon) hp
  | raises j err =>
    obtain ⟨⟨job,t,r⟩,hwork,h⟩ := Option.bind_eq_some_iff.mp h
    obtain ⟨hjob,hcurrent,hr⟩ := of_working hwork
    obtain ⟨-,h⟩ := Option.ite_none_left_eq_some.mp h
    obtain ⟨p,-,heq⟩ := Option.map_eq_some_iff.mp h
    cases heq
    exact Turn.raises j err job t r p hjob hcurrent hr
  | clear j =>
    obtain ⟨⟨job,t,r⟩,hwork,h⟩ := Option.bind_eq_some_iff.mp h
    obtain ⟨hjob,hcurrent,hr⟩ := of_working hwork
    obtain ⟨hend,heq⟩ := Option.ite_none_right_eq_some.mp h
    cases heq
    exact Turn.clear j job t r hjob hcurrent hr hend.1
  | commit j =>
    dsimp only [step] at h
    split at h
    · rename_i job hjob
      obtain ⟨hend,heq⟩ := Option.ite_none_right_eq_some.mp h
      cases heq
      exact Turn.commit j job hjob hend.2
    · cases h
  | abort j =>
    obtain ⟨job,-,heq⟩ := Option.map_eq_some_iff.mp h
    cases heq
    exact Turn.abort j

/-! ## What a rebuild nobody overtakes sees -/

section
variable {steps blank} {facts facts' : ι → List F} {tables tables' : ι → ℕ → κ → ρ}

omit [DecidableEq ι] in
/-- A step writes its own columns only. -/
theorem builtBy_succ_of_ne (t : ι) (fs : List F) {n i : ℕ} (hi : i ≠ n) :
    builtBy steps blank t fs (n+1) i = builtBy steps blank t fs n i := by
  rw [builtBy]
  cases steps[n]? with
  | none => rfl
  | some p => exact Function.update_of_ne hi ..

omit [DecidableEq ι] in
/-- The columns of the steps not yet run are blank. -/
theorem builtBy_blank (t : ι) (fs : List F) {n i : ℕ} (hi : n ≤ i) : builtBy steps blank t fs n i = fun _ => blank := by
  induction n with
  | zero => rfl
  | succ n ih =>
    rw [builtBy_succ_of_ne t fs (by omega)]
    exact ih (by omega)

omit [DecidableEq ι] in
/-- A step's columns are what it made them, whatever runs after. -/
theorem builtBy_settled (t : ι) (fs : List F) {n m i : ℕ} (hi : i < n) (hnm : n ≤ m) :
    builtBy steps blank t fs m i = builtBy steps blank t fs n i := by
  induction m, hnm using Nat.le_induction with
  | base => rfl
  | succ m hnm ih =>
    rw [builtBy_succ_of_ne t fs (by omega)]
    exact ih

omit [DecidableEq ι] in
/-- A step's columns are its fold over those of the steps before it, the others blank. -/
theorem built_eq {t : ι} {fs : List F} {n : ℕ} {p : ProjectionStep ι F κ ρ} (hp : steps[n]? = some p) :
    built steps blank t fs n =
      p.fold t fs fun i => if i < n then built steps blank t fs i else fun _ => blank := by
  obtain ⟨hn,-⟩ := List.getElem?_eq_some_iff.mp hp
  have hbefore : (fun i => if i < n then built steps blank t fs i else fun _ => blank) = builtBy steps blank t fs n := by
    funext i
    split
    · rename_i hi
      exact builtBy_settled t fs hi hn.le
    · rename_i hi
      exact (builtBy_blank t fs (not_lt.mp hi)).symm
  rw [hbefore,built,builtBy_settled t fs (Nat.lt_succ_self n) hn,builtBy]
  rw [hp]
  exact Function.update_self ..

/-- A row of a step's columns as the fold of all facts has it. -/
def Folded (steps : List (ProjectionStep ι F κ ρ)) (blank : ρ) (facts : ι → List F) (t : ι) (i : ℕ) (k : κ) (v : ρ) : Prop :=
  v = built steps blank t (facts t) i k

/-- A tenant's tables are the fold of all of its facts. -/
def UpToDate (steps : List (ProjectionStep ι F κ ρ)) (blank : ρ) (facts : ι → List F) (tables : ι → ℕ → κ → ρ) (t : ι) : Prop :=
  ∀ i < steps.length, ∀ k, Folded steps blank facts t i k (tables t i k)

/-- No write has come since the first fold. -/
def Rebuild.InTime (r : Rebuild F) (fs : List F) : Prop := r.done = 0 ∨ r.found = fs

/-- A rebuild: what it has written and sees, if no write has overtaken it, is the fold of
all facts. -/
structure Rightly (steps : List (ProjectionStep ι F κ ρ)) (blank : ρ) (facts : ι → List F) (tables : ι → ℕ → κ → ρ)
    (job : Job ι F κ ρ) (t : ι) (r : Rebuild F) : Prop where
  bound : r.done ≤ steps.length
  whole : job.current = some t ∨ returned steps r = true
  grown : r.found <+: facts t
  unfolded : r.done = 0 → ∀ i k, job.own t i k = none
  wrote : r.InTime (facts t) → ∀ i k v, job.own t i k = some v → Folded steps blank facts t i k v
  sees : r.InTime (facts t) → ∀ i < r.done, ∀ k, Folded steps blank facts t i k (job.view tables t i k)

/-- A transaction under way, the tenants it has ahead being others than it has rebuilt. -/
structure Working (steps : List (ProjectionStep ι F κ ρ)) (blank : ρ) (facts : ι → List F) (tables : ι → ℕ → κ → ρ)
    (job : Job ι F κ ρ) : Prop where
  nodup : job.rest.Nodup
  ahead : ∀ t ∈ job.rest, job.rebuilds t = none
  idle : ∀ t, job.rebuilds t = none → ∀ i k, job.own t i k = none
  right : ∀ t r, job.rebuilds t = some r → Rightly steps blank facts tables job t r

variable {job : Job ι F κ ρ} {t : ι} {r : Rebuild F}

omit [DecidableEq ι] in
/-- What others commit (facts, or rows as the fold has them) is nothing to it. -/
theorem Rightly.others (h : Rightly steps blank facts tables job t r) (hfacts : facts t <+: facts' t)
    (htables : ∀ i k, tables' t i k = tables t i k ∨ Folded steps blank facts t i k (tables' t i k)) :
    Rightly steps blank facts' tables' job t r where
  bound := h.bound
  whole := h.whole
  grown := h.grown.trans hfacts
  unfolded := h.unfolded
  wrote htime i k v hv := by
    rcases htime with hzero | hfound
    · rw [h.unfolded hzero] at hv
      cases hv
    · have hsame : facts t = facts' t := hfacts.eq_of_length_le (hfound ▸ h.grown.length_le)
      have hwrote := h.wrote (Or.inr (hfound.trans hsame.symm)) i k v hv
      rwa [Folded,hsame] at hwrote
  sees htime i hi k := by
    rcases htime with hzero | hfound
    · omega
    · have hsame : facts t = facts' t := hfacts.eq_of_length_le (hfound ▸ h.grown.length_le)
      have hsees := h.sees (Or.inr (hfound.trans hsame.symm)) i hi k
      rw [Folded,← hsame]
      rw [Job.view] at hsees ⊢
      cases hown : job.own t i k with
      | some v =>
        rw [hown,Option.getD_some] at hsees
        exact hsees
      | none =>
        rw [hown,Option.getD_none] at hsees
        rw [Option.getD_none]
        rcases htables i k with heq | hfolded
        · rw [heq]
          exact hsees
        · exact hfolded

omit [DecidableEq ι] in
theorem Working.others (h : Working steps blank facts tables job) (hfacts : ∀ t, facts t <+: facts' t)
    (htables : ∀ t i k, tables' t i k = tables t i k ∨ Folded steps blank facts t i k (tables' t i k)) :
    Working steps blank facts' tables' job where
  nodup := h.nodup
  ahead := h.ahead
  idle := h.idle
  right t r hr := (h.right t r hr).others (hfacts t) (htables t)

/-- Where only what it does on one tenant changes, that tenant is all there is to see to. -/
theorem Working.change {job' : Job ι F κ ρ} {r' : Rebuild F} (h : Working steps blank facts tables job)
    (hrest : job'.rest = job.rest) (hahead : t ∉ job.rest)
    (hrebuilds : job'.rebuilds = Function.update job.rebuilds t (some r'))
    (hown : ∀ u, u ≠ t → job'.own u = job.own u) (hcurrent : ∀ u, u ≠ t → job.current = some u → job'.current = some u)
    (hright : Rightly steps blank facts tables job' t r') : Working steps blank facts tables job' where
  nodup := hrest ▸ h.nodup
  ahead u hu := by
    rw [hrest] at hu
    have hut : u ≠ t := by
      rintro rfl
      exact hahead hu
    rw [hrebuilds,Function.update_of_ne hut]
    exact h.ahead u hu
  idle u hu i k := by
    by_cases hut : u = t
    · subst hut
      rw [hrebuilds,Function.update_self] at hu
      cases hu
    · rw [hrebuilds,Function.update_of_ne hut] at hu
      rw [hown u hut]
      exact h.idle u hu i k
  right u q hq := by
    by_cases hut : u = t
    · subst hut
      rw [hrebuilds,Function.update_self] at hq
      cases hq
      exact hright
    · rw [hrebuilds,Function.update_of_ne hut] at hq
      have hsame := h.right u q hq
      refine ⟨hsame.bound,?_,hsame.grown,?_,?_,?_⟩
      · exact hsame.whole.imp (hcurrent u hut) id
      · rw [hown u hut]
        exact hsame.unfolded
      · rw [hown u hut]
        exact hsame.wrote
      · have hview : job'.view tables u = job.view tables u := by
          funext i k
          rw [Job.view,Job.view,hown u hut]
        rw [hview]
        exact hsame.sees

omit [DecidableEq ι] in
theorem Working.passes {rest : List ι} (h : Working steps blank facts tables job) (hrest : job.rest = t :: rest) :
    Working steps blank facts tables {job with rest := rest} where
  nodup := (List.nodup_cons.mp (hrest ▸ h.nodup)).2
  ahead u hu := h.ahead u (hrest ▸ List.mem_cons_of_mem t hu)
  idle := h.idle
  right u q hq :=
    let hsame := h.right u q hq
    ⟨hsame.bound,hsame.whole,hsame.grown,hsame.unfolded,hsame.wrote,hsame.sees⟩

theorem Working.begin (h : Working steps blank facts tables job) (hrest : t ∉ job.rest) (hnone : job.rebuilds t = none)
    (hcurrent : job.current = none) : Working steps blank facts tables (job.begin t (facts t)) := by
  refine h.change rfl hrest rfl (fun _ _ => rfl) (fun u _ hu => ?_) ?_
  · rw [hcurrent] at hu
    cases hu
  · refine ⟨Nat.zero_le _,Or.inl rfl,List.prefix_rfl,fun _ => h.idle t hnone,fun _ i k v hv => ?_,fun _ i hi => ?_⟩
    · have hown : job.own t i k = some v := hv
      rw [h.idle t hnone] at hown
      cases hown
    · exact absurd hi (Nat.not_lt_zero i)

omit [DecidableEq ι] in
theorem Working.not_ahead (h : Working steps blank facts tables job) (hr : job.rebuilds t = some r) : t ∉ job.rest := by
  intro hmem
  rw [h.ahead t hmem] at hr
  cases hr

theorem Working.raises {p : ProjectionStep ι F κ ρ} {err : String} (h : Working steps blank facts tables job)
    (hr : job.rebuilds t = some r) : Working steps blank facts tables (job.raises t r p err) := by
  have hright := h.right t r hr
  exact h.change rfl (h.not_ahead hr) rfl (fun _ _ => rfl) (fun _ _ hu => hu)
    ⟨hright.bound,Or.inr rfl,hright.grown,hright.unfolded,hright.wrote,hright.sees⟩

theorem Working.clear (h : Working steps blank facts tables job) (marked : Bool) (hr : job.rebuilds t = some r)
    (hcurrent : job.current = some t) (hend : returned steps r = true) :
    Working steps blank facts tables (job.clear t r marked) := by
  have hright := h.right t r hr
  refine h.change rfl (h.not_ahead hr) rfl (fun _ _ => rfl) (fun u hu hut => ?_)
    ⟨hright.bound,Or.inr hend,hright.grown,hright.unfolded,hright.wrote,hright.sees⟩
  rw [hcurrent] at hut
  exact absurd (Option.some.inj hut).symm hu

theorem fold_own [DecidableEq ρ] {p : ProjectionStep ι F κ ρ} {fs : List F} {i : ℕ} {k : κ} {v : ρ}
    (hv : (job.fold tables fs t r p).own t i k = some v) : job.own t i k = some v ∨
      i = r.done ∧ v = p.fold t fs (job.view tables t) k := by
  simp only [Job.fold,Job.set,Function.update_self] at hv
  by_cases hi : i = r.done
  · subst hi
    rw [Function.update_self] at hv
    split at hv
    · exact Or.inl hv
    · exact Or.inr ⟨rfl,(Option.some.inj hv).symm⟩
  · rw [Function.update_of_ne hi] at hv
    exact Or.inl hv

/-- A step's table is seen as folded, be its rows written or found so. -/
theorem fold_view [DecidableEq ρ] {p : ProjectionStep ι F κ ρ} {fs : List F} {i : ℕ} {k : κ} :
    (job.fold tables fs t r p).view tables t i k =
      if i = r.done then p.fold t fs (job.view tables t) k else job.view tables t i k := by
  rw [Job.view]
  simp only [Job.fold,Job.set,Function.update_self]
  by_cases hi : i = r.done
  · subst hi
    rw [Function.update_self,if_pos rfl]
    split
    · rename_i hsame
      rw [hsame]
      rfl
    · rfl
  · rw [Function.update_of_ne hi,if_neg hi]
    rfl

/-- A step makes of the columns it finds what it would with its own and the later ones'
blank: nothing of its tables' past goes into them again. -/
def FromFacts (blank : ρ) (facts : List F) (tables : ι → ℕ → κ → ρ) (job : Job ι F κ ρ) (t : ι) (r : Rebuild F)
    (p : ProjectionStep ι F κ ρ) : Prop :=
  p.fold t facts (job.view tables t) =
    p.fold t facts fun i => if i < r.done then job.view tables t i else fun _ => blank

/-- A fold that takes nothing from its own past writes what the fold of all facts has,
where none came after its rebuild's first. -/
theorem Working.fold [DecidableEq ρ] {p : ProjectionStep ι F κ ρ} (h : Working steps blank facts tables job)
    (hr : job.rebuilds t = some r) (hcurrent : job.current = some t) (hp : steps[r.done]? = some p)
    (hfresh : FromFacts blank (facts t) tables job t r p) :
    Working steps blank facts tables (job.fold tables (facts t) t r p) := by
  have hright := h.right t r hr
  obtain ⟨hlt,-⟩ := List.getElem?_eq_some_iff.mp hp
  let r' : Rebuild F := {r with found := if r.done = 0 then facts t else r.found, done := r.done+1}
  -- a rebuild whose first fold found what there is now is one all of whose folds did
  have hearlier : r'.InTime (facts t) → r.InTime (facts t) := by
    rintro (hzero | hfound)
    · cases hzero
    · by_cases hzero : r.done = 0
      · exact Or.inl hzero
      · dsimp only [r'] at hfound
        rw [if_neg hzero] at hfound
        exact Or.inr hfound
  have hfold : r.InTime (facts t) → ∀ k, Folded steps blank facts t r.done k
      (p.fold t (facts t) (job.view tables t) k) := by
    intro htime k
    have hseen : (fun i => if i < r.done then job.view tables t i else fun _ => blank) =
        fun i => if i < r.done then built steps blank t (facts t) i else fun _ => blank := by
      funext i
      split
      · rename_i hi
        exact funext fun k => hright.sees htime i hi k
      · rfl
    rw [Folded,built_eq hp,hfresh,hseen]
  have hown : ∀ u, u ≠ t → (job.fold tables (facts t) t r p).own u = job.own u :=
    fun u hu => Function.update_of_ne hu ..
  suffices hafter : Rightly steps blank facts tables (job.fold tables (facts t) t r p) t r' from
    h.change rfl (h.not_ahead hr) rfl hown (fun _ _ hu => hu) hafter
  refine ⟨hlt,Or.inl hcurrent,?_,?_,?_,?_⟩
  · dsimp only [r']
    split
    · exact List.prefix_rfl
    · exact hright.grown
  · intro hzero
    cases hzero
  · intro htime i k v hv
    rcases fold_own hv with hold | ⟨rfl,rfl⟩
    · exact hright.wrote (hearlier htime) i k v hold
    · exact hfold (hearlier htime) k
  · intro htime i hi k
    rw [fold_view]
    split
    · rename_i hlast
      rw [hlast]
      exact hfold (hearlier htime) k
    · rename_i hlast
      have hi' : i < r.done+1 := hi
      exact hright.sees (hearlier htime) i (by omega) k

/-! ## Runs -/

/-- Every tenant without a mark is up to date, and every transaction's work is right. -/
structure Sound (steps : List (ProjectionStep ι F κ ρ)) (blank : ρ) (s : Database ι F κ ρ) : Prop where
  upToDate : ∀ t, s.marked t = false → UpToDate steps blank s.facts s.tables t
  working : ∀ j job, s.jobs j = some job → Working steps blank s.facts s.tables job

/-- A transaction that commits has no rebuild that a write came into after its first fold,
and none that met a mark after a fold had raised. -/
def Undisturbed (s : Database ι F κ ρ) : Event ι F → Prop
  | .commit j => ∀ job ∈ s.jobs j, ∀ t, ∀ r ∈ job.rebuilds t,
      r.InTime (s.facts t) ∧ (r.cleared = true → r.failed = false)
  | _ => True

/-- A fold takes nothing from what the last run left. -/
def Anew (steps : List (ProjectionStep ι F κ ρ)) (blank : ρ) (s : Database ι F κ ρ) : Event ι F → Prop
  | .fold j => ∀ job t r p, s.working j = some (job,t,r) → steps[r.done]? = some p →
      FromFacts blank (s.facts t) s.tables job t r p
  | _ => True

omit [DecidableEq ι] in
/-- Steps that read no columns at all fold anew. -/
theorem anew_of_forall (h : ∀ p ∈ steps, ∀ t fs columns columns', p.fold t fs columns = p.fold t fs columns')
    (s : Database ι F κ ρ) (e : Event ι F) : Anew steps blank s e := by
  cases e with
  | fold j => exact fun job t r p _ hp => h p (List.mem_of_getElem? hp) t (s.facts t) _ _
  | _ => trivial

instance [DecidableEq F] (r : Rebuild F) (fs : List F) : Decidable (r.InTime fs) :=
  inferInstanceAs (Decidable (r.done = 0 ∨ r.found = fs))

instance [Fintype ι] [DecidableEq F] (s : Database ι F κ ρ) : ∀ e, Decidable (Undisturbed s e)
  | .commit j => inferInstanceAs (Decidable (∀ job ∈ s.jobs j, ∀ t, ∀ r ∈ job.rebuilds t,
      r.InTime (s.facts t) ∧ (r.cleared = true → r.failed = false)))
  | .write _ _ | .runDirty _ _ | .refreshTenant _ _ _ | .next _ | .fold _ | .raises _ _ | .clear _ | .abort _ => .isTrue trivial

variable {s s' : Database ι F κ ρ} {j : ℕ}

omit [DecidableEq ι] in
theorem Sound.setJob (h : Sound steps blank s) (hjob : Working steps blank s.facts s.tables job) :
    Sound steps blank (s.setJob j (some job)) where
  upToDate := h.upToDate
  working i job' hi := by
    dsimp only [Database.setJob] at hi
    by_cases hij : i = j
    · subst hij
      rw [Function.update_self] at hi
      cases hi
      exact hjob
    · rw [Function.update_of_ne hij] at hi
      exact h.working i job' hi

omit [DecidableEq ι] in
theorem Sound.release (h : Sound steps blank s) : Sound steps blank (s.release j) where
  upToDate := h.upToDate
  working i job' hi := by
    dsimp only [Database.release,Database.setJob] at hi
    by_cases hij : i = j
    · subst hij
      rw [Function.update_self] at hi
      cases hi
    · rw [Function.update_of_ne hij] at hi
      exact h.working i job' hi

theorem Sound.write {facts : List F} (h : Sound steps blank s) : Sound steps blank {s with
    facts := Function.update s.facts t (s.facts t++facts), marked := Function.update s.marked t true} where
  upToDate u hu := by
    dsimp only at hu
    have hut : u ≠ t := by
      rintro rfl
      rw [Function.update_self] at hu
      cases hu
    rw [Function.update_of_ne hut] at hu
    intro i hi k
    show s.tables u i k = built steps blank u (Function.update s.facts t (s.facts t++facts) u) i k
    rw [Function.update_of_ne hut]
    exact h.upToDate u hu i hi k
  working i job hi := by
    refine (h.working i job hi).others (fun u => ?_) fun _ _ _ => Or.inl rfl
    show s.facts u <+: Function.update s.facts t (s.facts t++facts) u
    by_cases hut : u = t
    · subst hut
      rw [Function.update_self]
      exact List.prefix_append ..
    · rw [Function.update_of_ne hut]

omit [DecidableEq ι] in
/-- What an undisturbed transaction publishes is the fold of all facts. -/
theorem Working.publishes (h : Working steps blank s.facts s.tables job)
    (hok : ∀ t, ∀ r ∈ job.rebuilds t, r.InTime (s.facts t)) (t : ι) (i : ℕ) (k : κ) :
    job.view s.tables t i k = s.tables t i k ∨ Folded steps blank s.facts t i k (job.view s.tables t i k) := by
  rw [Job.view]
  cases hown : job.own t i k with
  | none => exact Or.inl rfl
  | some v =>
    cases hr : job.rebuilds t with
    | none =>
      rw [h.idle t hr] at hown
      cases hown
    | some r => exact Or.inr ((h.right t r hr).wrote (hok t r hr) i k v hown)

theorem Sound.publish (h : Sound steps blank s) (hjob : s.jobs j = some job) (hcurrent : job.current = none)
    (hok : Undisturbed s (.commit j)) : Sound steps blank (s.publish job) := by
  have hwork := h.working j job hjob
  have hpublishes := hwork.publishes fun t r hr => (hok job hjob t r hr).1
  constructor
  · intro t ht i hi k
    dsimp only [Database.publish] at ht ⊢
    cases hmark : s.marked t with
    | false =>
      rcases hpublishes t i k with heq | hfolded
      · rw [heq]
        exact h.upToDate t hmark i hi k
      · exact hfolded
    | true =>
      -- its mark is gone, so a rebuild that no fold failed in deleted it
      rw [hmark,Bool.true_and,Bool.not_eq_false'] at ht
      obtain ⟨r,hr,hcleared⟩ := Runs.run_passes _ ht
      obtain ⟨htime,hon⟩ := hok job hjob t r hr
      have hright := hwork.right t r hr
      have hdone : r.done = steps.length := by
        rcases hright.whole with hat | hend
        · rw [hcurrent] at hat
          cases hat
        · simpa [returned,hon hcleared] using hend
      exact hright.sees htime i (by omega) k
  · intro i job' hi
    exact (h.working i job' hi).others (fun _ => List.prefix_rfl) hpublishes

theorem Turn.keeps [DecidableEq ρ] {e : Event ι F} (hturn : Turn steps s e s') (h : Sound steps blank s)
    (hok : Undisturbed s e) (hanew : Anew steps blank s e) : Sound steps blank s' := by
  have hnew : ∀ tenants : List ι, tenants.Nodup → ∀ demanded, Working steps blank s.facts s.tables
      (⟨tenants,none,fun _ => none,fun _ _ _ => none,[],demanded⟩ : Job ι F κ ρ) := fun tenants hnodup _ =>
    ⟨hnodup,fun _ _ => rfl,fun _ _ _ _ => rfl,fun _ _ hr => by cases hr⟩
  cases hturn with
  | write t facts _ => exact h.write
  | runDirty j tenants hnodup => exact h.setJob (hnew tenants hnodup none)
  | recent => exact h
  | refreshTenant j t now => exact h.setJob ((hnew [] List.nodup_nil (some (t,now))).begin (List.not_mem_nil) rfl rfl)
  | passes j job t rest hjob _ hrest => exact h.setJob ((h.working j job hjob).passes hrest)
  | begins j job t rest hjob hcurrent hrest =>
    have hwork := h.working j job hjob
    have hnodup : (t :: rest).Nodup := hrest ▸ hwork.nodup
    exact h.setJob ((hwork.passes hrest).begin (List.nodup_cons.mp hnodup).1
      (hwork.ahead t (hrest ▸ List.mem_cons_self)) hcurrent)
  | fold j job t r p hjob hcurrent hr _ hp =>
    have hwork : s.working j = some (job,t,r) := by
      rw [Database.working,hjob,Option.bind_some,hcurrent,Option.bind_some,hr,Option.map_some]
    exact h.setJob ((h.working j job hjob).fold hr hcurrent hp (hanew job t r p hwork hp))
  | raises j err job t r p hjob _ hr => exact h.setJob ((h.working j job hjob).raises hr)
  | clear j job t r hjob hcurrent hr hend =>
    have hset := h.setJob (j := j) ((h.working j job hjob).clear (s.marked t) hr hcurrent hend)
    exact ⟨hset.upToDate,hset.working⟩
  | commit j job hjob hcurrent => exact (h.publish hjob hcurrent hok).release
  | abort j => exact h.release

end

/-- A database with some facts on file, every projection folded over them, no mark and
nothing under way. -/
def Database.start (facts : ι → List F) : Database ι F κ ρ :=
  ⟨facts,fun t => built steps blank t (facts t),fun _ => false,fun _ => none,[],fun _ => none,fun _ => none⟩

omit [DecidableEq ι] in
theorem sound_start (facts : ι → List F) : Sound steps blank (Database.start steps blank facts) where
  upToDate _ _ _ _ _ := rfl
  working _ _ hjob := by cases hjob

/-- The stock fold, as a step. -/
def stockStep : ProjectionStep Bool Ledger.Movement Ledger.Cell ℤ :=
  ⟨"projection_stock_rebuild",fun t ms _ c => Ledger.quantityAt (Ledger.folded t.toNat ms) c⟩

/-- Five of an item come to a location. -/
def arrival : Ledger.Movement :=
  ⟨1,0,1,5,none,0,⟨none,none,none,none,none⟩,⟨some 1,none,none,some 1,some 1⟩,none⟩

def arrivalCell : Ledger.Cell := arrival.toSide.cell 1

/-- Where the ledger has a movement that a step's rows do not show, they are not its fold. -/
theorem not_upToDate {s : Database Bool Ledger.Movement Ledger.Cell ℤ} (hfacts : s.facts false = [arrival])
    (htables : s.tables false 0 arrivalCell = 0) : ¬UpToDate [stockStep] 0 s.facts s.tables false := by
  intro h
  have hrow := h 0 (by decide) arrivalCell
  rw [Folded,hfacts,htables] at hrow
  exact absurd hrow (by decide +kernel)

/-- A drain rebuilds the tenant a movement marked. -/
def drained : List (Event Bool Ledger.Movement) :=
  [.write false [arrival],.runDirty 0 [false,true],.next 0,.fold 0,.clear 0,.next 0,.commit 0]

/-- The fold raises, and the mark goes all the same. -/
def raised : List (Event Bool Ledger.Movement) :=
  [.write false [arrival],.runDirty 0 [false,true],.next 0,.raises 0 "40P01: deadlock detected",.clear 0,.next 0,.commit 0]

/-- A movement commits after a refresh's fold and before it deletes the mark. -/
def overtaken : List (Event Bool Ledger.Movement) :=
  [.refreshTenant 0 false 0,.fold 0,.write false [arrival],.clear 0,.commit 0]

/-- The package fold, as a step. It keeps an identifier the log no longer gives. -/
def packageStep : ProjectionStep Bool (Packages.Event [1,2]) ℕ Packages.Row :=
  ⟨"projection_package_rebuild",fun _ es columns => (Packages.projectionPackageRebuild es (columns 0)).1⟩

/-- A carton created under an SSCC, a drain, a label with a barcode put on it, a drain. -/
def relapsed : List (Event Bool (Packages.Event [1,2])) :=
  [.write false [Packages.created],.runDirty 0 [false],.next 0,.fold 0,.clear 0,.commit 0,
    .write false [Packages.relabelled],.runDirty 0 [false],.next 0,.fold 0,.clear 0,.commit 0]

end Projections
end Spork
