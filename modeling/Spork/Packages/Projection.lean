import Spork.Packages.Log

/-! The package projection's rebuild (`projection_package_rebuild`): the columns of each
package with a winning placement from the log's winners, in place, and then where the
holder chains lead. -/
namespace Spork
namespace Packages

/-- A package's projected columns. -/
structure Row where
  parentPackageId : Option ℕ
  locationId : Option ℕ
  status : Option Kind
  sscc : Option String
  barcode : Option String
  identifierKind : Option IdentifierKind
  resolvedLocationId : Option ℕ
  depth : Option ℕ
  deriving DecidableEq, Repr

/-- Nothing projected yet. -/
def Row.empty : Row := ⟨none,none,none,none,none,none,none,none⟩

abbrev Table := ℕ → Row

variable {packages : List ℕ}

/-- A package's columns from the winners. An identifier the winner doesn't give stays. -/
def placeRow (es : List (Event packages)) (p : ℕ) (r : Row) : Row :=
  match winningPlacement es p with
  | none => r
  | some wp =>
    let wi := winningIdentity es p
    {r with
      parentPackageId := wp.parentPackageId
      locationId := wp.locationId
      status := (winningStatus es p).map Event.kind
      sscc := (wi.bind Event.sscc).or r.sscc
      barcode := (wi.bind Event.barcode).or r.barcode
      identifierKind := wi.bind Event.identifierKind}

def place (es : List (Event packages)) (t : Table) : Table := fun p => placeRow es p (t p)

/-- How many packages it changes. -/
def touched (es : List (Event packages)) (t : Table) : ℕ :=
  (packages.filter fun p => place es t p ≠ t p).length

/-- A row of the query down the holder chains. -/
structure ChainRow where
  id : ℕ
  resolved : ℕ
  depth : ℕ
  deriving DecidableEq, Repr

section
variable (packages : List ℕ) (t : Table)

/-- The rows each turn of the query adds: what is at a location, then what is in it. -/
def working : ℕ → List ChainRow
  | 0 => packages.filterMap fun p => (t p).locationId.map fun l => ⟨p,l,0⟩
  | n+1 => (working n).flatMap fun parent =>
    (packages.filter fun c => (t c).parentPackageId = some parent.id).map fun c =>
      ⟨c,parent.resolved,parent.depth+1⟩

/-- All rows: no turn past as many as there are packages adds one (`working_ends`). -/
def chain : List ChainRow := (List.range packages.length).flatMap (working packages t)

end

/-- Where a package's chain leads, when it leads anywhere. -/
def resolveRow (rows : List ChainRow) (p : ℕ) (r : Row) : Row :=
  match rows.find? fun c => c.id = p with
  | none => r
  | some c => {r with resolvedLocationId := some c.resolved, depth := some c.depth}

/-- The rebuild: the table it leaves, and how many packages the winners changed. -/
def projectionPackageRebuild (es : List (Event packages)) (t : Table) : Table × ℕ :=
  let placed := place es t
  (fun p => resolveRow (chain packages placed) p (placed p),touched es t)

/-! ## Up the holder chain -/

/-- Where a package is, so many holders up. -/
def climb (t : Table) : ℕ → ℕ → Option ℕ
  | 0, p => (t p).locationId
  | n+1, p => (t p).parentPackageId.bind (climb t n)

/-- A holder is one thing, and there. -/
structure Held (packages : List ℕ) (t : Table) : Prop where
  one : ∀ p, (t p).parentPackageId ≠ none → (t p).locationId = none
  parent_there : ∀ p, ∀ q ∈ (t p).parentPackageId, q ∈ packages

section
variable {t : Table}

theorem mem_working (n : ℕ) (c : ChainRow) : c ∈ working packages t n →
    c.id ∈ packages ∧ climb t n c.id = some c.resolved := by
  induction n generalizing c with
  | zero =>
    intro hc
    obtain ⟨p,hp,hloc⟩ := List.mem_filterMap.mp hc
    obtain ⟨l,hl,rfl⟩ := Option.map_eq_some_iff.mp hloc
    exact ⟨hp,hl⟩
  | succ n ih =>
    intro hc
    obtain ⟨parent,hparent,hmem⟩ := List.mem_flatMap.mp hc
    obtain ⟨p,hp,rfl⟩ := List.mem_map.mp hmem
    obtain ⟨hpmem,hheld⟩ := List.mem_filter.mp hp
    have hholder : (t p).parentPackageId = some parent.id := by simpa using hheld
    refine ⟨hpmem,?_⟩
    rw [climb,hholder,Option.bind_some]
    exact (ih parent hparent).2

/-- Every package whose chain leads somewhere has its row. -/
theorem working_climb (hheld : Held packages t) (n : ℕ) {p l : ℕ} (hp : p ∈ packages)
    (h : climb t n p = some l) : ∃ c ∈ working packages t n, c.id = p := by
  induction n generalizing p with
  | zero => exact ⟨⟨p,l,0⟩,List.mem_filterMap.mpr ⟨p,hp,by rw [show (t p).locationId = some l from h]; rfl⟩,rfl⟩
  | succ n ih =>
    rw [climb,Option.bind_eq_some_iff] at h
    obtain ⟨q,hq,hclimb⟩ := h
    obtain ⟨parent,hparent,rfl⟩ := ih (hheld.parent_there p q hq) hclimb
    refine ⟨⟨p,parent.resolved,parent.depth+1⟩,List.mem_flatMap.mpr ⟨parent,hparent,?_⟩,rfl⟩
    exact List.mem_map.mpr ⟨p,List.mem_filter.mpr ⟨hp,by simpa using hq⟩,rfl⟩

/-- A chain that leads somewhere leads there one way only. -/
theorem climb_depth (hheld : Held packages t) {n m p : ℕ} (hn : climb t n p ≠ none)
    (hm : climb t m p ≠ none) : n = m := by
  have hparent (k q : ℕ) (hk : climb t (k+1) q ≠ none) : (t q).parentPackageId ≠ none := by
    intro hnone
    rw [climb,hnone] at hk
    exact hk rfl
  induction n generalizing m p with
  | zero =>
    cases m with
    | zero => rfl
    | succ m => exact absurd (hheld.one p (hparent m p hm)) hn
  | succ n ih =>
    cases m with
    | zero => exact absurd (hheld.one p (hparent n p hn)) hm
    | succ m =>
      obtain ⟨q,hq⟩ := Option.ne_none_iff_exists'.mp (hparent n p hn)
      rw [climb,hq,Option.bind_some] at hn hm
      rw [ih hn hm]

/-- The packages up a chain, the first included. -/
def holders (t : Table) : ℕ → ℕ → List ℕ
  | 0, p => [p]
  | n+1, p => p :: ((t p).parentPackageId.map (holders t n)).getD []

theorem holders_spec (hheld : Held packages t) {n p : ℕ} (hp : p ∈ packages) (h : climb t n p ≠ none) :
    (holders t n p).length = n+1 ∧ (holders t n p).Nodup ∧
      ∀ x ∈ holders t n p, x ∈ packages ∧ ∃ k ≤ n, climb t k x ≠ none := by
  induction n generalizing p with
  | zero => exact ⟨rfl,List.nodup_singleton p,fun x hx => by
      obtain rfl := List.mem_singleton.mp hx
      exact ⟨hp,0,le_rfl,h⟩⟩
  | succ n ih =>
    obtain ⟨q,hq⟩ : ∃ q, (t p).parentPackageId = some q := by
      cases hholder : (t p).parentPackageId with
      | none =>
        rw [climb,hholder] at h
        exact absurd rfl h
      | some q => exact ⟨q,rfl⟩
    have hclimb : climb t n q ≠ none := by rwa [climb,hq,Option.bind_some] at h
    obtain ⟨hlength,hnodup,hall⟩ := ih (hheld.parent_there p q hq) hclimb
    rw [holders,hq]
    refine ⟨by simp [hlength],List.nodup_cons.mpr ⟨fun hmem => ?_,hnodup⟩,fun x hx => ?_⟩
    · obtain ⟨-,k,hk,hagain⟩ := hall p hmem
      have hsame := climb_depth hheld h hagain
      omega
    · rcases List.mem_cons.mp hx with rfl | hx
      · exact ⟨hp,n+1,le_rfl,h⟩
      · obtain ⟨hmem,k,hk,hthere⟩ := hall x hx
        exact ⟨hmem,k,by omega,hthere⟩

/-- The query ends: no turn past as many as there are packages adds a row. -/
theorem working_ends (hheld : Held packages t) {n : ℕ} (hn : packages.length ≤ n) :
    working packages t n = [] := by
  refine List.eq_nil_iff_forall_not_mem.mpr fun c hc => ?_
  obtain ⟨hmem,hclimb⟩ := mem_working n c hc
  obtain ⟨hlength,hnodup,hall⟩ := holders_spec hheld hmem (hclimb ▸ Option.some_ne_none _)
  have hle := (hnodup.subperm fun x hx => (hall x hx).1).length_le
  omega

/-- A package has a row just when its chain leads to a location. -/
theorem chain_iff (hheld : Held packages t) {p : ℕ} (hp : p ∈ packages) :
    ((chain packages t).find? fun c => c.id = p).isSome = true ↔ ∃ n, climb t n p ≠ none := by
  rw [List.find?_isSome]
  constructor
  · rintro ⟨c,hc,hid⟩
    obtain ⟨n,-,hmem⟩ := List.mem_flatMap.mp hc
    obtain rfl : c.id = p := by simpa using hid
    exact ⟨n,(mem_working n c hmem).2 ▸ Option.some_ne_none _⟩
  · rintro ⟨n,hn⟩
    obtain ⟨l,hl⟩ := Option.ne_none_iff_exists'.mp hn
    obtain ⟨c,hc,hid⟩ := working_climb hheld n hp hl
    have hlt : n < packages.length := by
      by_contra hge
      rw [working_ends hheld (not_lt.mp hge)] at hc
      cases hc
    exact ⟨c,List.mem_flatMap.mpr ⟨n,List.mem_range.mpr hlt,hc⟩,by simpa using hid⟩

/-- The rows are those of the holders alone. -/
theorem chain_congr {t' : Table} (h : ∀ p, (t p).parentPackageId = (t' p).parentPackageId ∧
    (t p).locationId = (t' p).locationId) : chain packages t = chain packages t' := by
  have hworking : working packages t = working packages t' := by
    funext n
    induction n with
    | zero => simp only [working,(h _).2]
    | succ n ih => simp only [working,ih,(h _).1]
  rw [chain,hworking,chain]

end

end Packages
end Spork
