import Spork.Packages.Projection
import Spork.Lib.Md5
import Spork.Lib.Rendering
import Spork.Lib.Sorted

/-! The containment intervals (`projection_package_containment_rebuild`): where each package
was from one placement event to the next, rebuilt whole when the text of the set says it
differs from what is stored. -/
namespace Spork
namespace Packages

open Newest Rendering Sorted

/-- An interval of `package_containment`: from one instant, up to another or open. -/
structure Containment where
  packageId : ℕ
  parentPackageId : Option ℕ
  locationId : Option ℕ
  lower : ℤ
  upper : Option ℤ
  sourceEventId : ℕ
  deriving DecidableEq, Repr

def Containment.valid (r : Containment) : Set ℤ := {t | r.lower ≤ t ∧ ∀ u ∈ r.upper, t < u}

/-- How a session writes instants: each its own way, and in digits and marks of its own. -/
structure Stamps where
  text : ℤ → List Char
  injective : Function.Injective text
  plain : ∀ t, ',' ∉ text t ∧ '|' ∉ text t

variable {packages : List ℕ}

/-- The placement events of a package. -/
def placements (es : List (Event packages)) (p : ℕ) : List (Event packages) :=
  es.filter fun e => decide (e.packageId = p) && e.kind.assertsPlacement

/-- When the next placement event of the same package in register order happened. -/
def nextAt (es : List (Event packages)) (e : Event packages) : Option ℤ :=
  (lead Event.key (placements es e.packageId) e).map Event.occurredAt

/-- The interval a placement event holds for. -/
def interval (es : List (Event packages)) (e : Event packages) : Containment :=
  ⟨e.packageId,e.parentPackageId,e.locationId,e.occurredAt,nextAt es e,e.id⟩

/-- The intervals of a log. One of no width gets no row. -/
def computed (es : List (Event packages)) : List Containment :=
  (es.filter fun e => e.kind.assertsPlacement && (nextAt es e).all fun next => e.occurredAt < next).map
    (interval es)

/-- Rows in the order of their source events. -/
def bySource (rows : List Containment) : List Containment :=
  sortBy (compareOn Containment.sourceEventId) rows

section
variable (z : Stamps)

def rangeText (lower : ℤ) (upper : Option ℤ) : List Char :=
  let quoted := fun t => '"' :: z.text t++['"']
  '[' :: quoted lower ++ ',' :: ((upper.map quoted).getD []++[')'])

def rowText (r : Containment) : List Char :=
  uuidText r.packageId++(optionText r.parentPackageId++(optionText r.locationId++
    (rangeText z r.lower r.upper++uuidText r.sourceEventId)))

/-- The text of a set, by its source events. -/
def setText (rows : List Containment) : List Char :=
  joined '|' ((bySource rows).map (rowText z))

/-- The rebuild: the rows it leaves, and how many it wrote. -/
def projectionPackageContainmentRebuild (es : List (Event packages)) (stored : List Containment) :
    List Containment × ℕ :=
  if Md5.md5 (setText z (computed es)) = Md5.md5 (setText z stored) then (stored,0)
  else (computed es,(computed es).length)

end

/-! ## The text of a set -/

/-- Rows as a rebuild leaves them: of UUIDs, each of its own event. -/
structure Rows (rows : List Containment) : Prop where
  sources : (rows.map Containment.sourceEventId).Nodup
  uuids : ∀ r ∈ rows, r.packageId < 2^128 ∧ (∀ q ∈ r.parentPackageId, q < 2^128) ∧
    (∀ l ∈ r.locationId, l < 2^128) ∧ r.sourceEventId < 2^128

section
variable {z : Stamps}

theorem rangeText_plain (lower : ℤ) (upper : Option ℤ) : '|' ∉ rangeText z lower upper := by
  cases upper with
  | none => simp [rangeText,(z.plain lower).2]
  | some u => simp [rangeText,(z.plain lower).2,(z.plain u).2]

theorem rangeText_injective {lower lower' : ℤ} {upper upper' : Option ℤ}
    (h : rangeText z lower upper = rangeText z lower' upper') : lower = lower' ∧ upper = upper' := by
  have hquoted (t : ℤ) : ',' ∉ '[' :: '"' :: (z.text t++['"']) := by
    simp [(z.plain t).1]
  obtain ⟨hlower,hupper⟩ := append_mark_inj (hquoted lower) (hquoted lower') h
  have hinj {t t' : ℤ} (ht : '"' :: (z.text t++['"']) = '"' :: (z.text t'++['"'])) : t = t' :=
    z.injective (List.append_cancel_right (List.cons.inj ht).2)
  refine ⟨hinj (List.cons.inj hlower).2,?_⟩
  have hsame := List.append_cancel_right hupper
  cases upper with
  | none =>
    cases upper' with
    | none => rfl
    | some u => cases hsame
  | some u =>
    cases upper' with
    | none => cases hsame
    | some u' => exact congrArg some (hinj hsame)

theorem rowText_plain (r : Containment) : rowText z r ≠ [] ∧ '|' ∉ rowText z r := by
  constructor
  · intro h
    obtain ⟨hfirst,-⟩ := List.append_eq_nil_iff.mp h
    have hlength := uuidText_length r.packageId
    rw [hfirst] at hlength
    cases hlength
  · simp [rowText,uuidText_plain,optionText_plain,rangeText_plain]

theorem rowText_injective {rows rows' : List Containment} (hrows : Rows rows) (hrows' : Rows rows')
    {r r' : Containment} (hr : r ∈ rows) (hr' : r' ∈ rows') (h : rowText z r = rowText z r') : r = r' := by
  obtain ⟨hp,hparent,hloc,hid⟩ := hrows.uuids r hr
  obtain ⟨hp',hparent',hloc',hid'⟩ := hrows'.uuids r' hr'
  obtain ⟨hpackage,h⟩ := List.append_inj h (by simp)
  obtain ⟨hsameParent,h⟩ := optionText_append hparent hparent' h
  obtain ⟨hsameLoc,h⟩ := optionText_append hloc hloc' h
  obtain ⟨hrange,hsource⟩ := List.append_inj' h (by simp)
  obtain ⟨hlower,hupper⟩ := rangeText_injective hrange
  have hsamePackage := uuidText_injective hp hp' hpackage
  have hsameSource := uuidText_injective hid hid' hsource
  cases r
  cases r'
  simp_all

theorem mem_bySource {rows : List Containment} {r : Containment} : r ∈ bySource rows ↔ r ∈ rows :=
  mem_sortBy

/-- One set sorts one way. -/
theorem bySource_perm {rows rows' : List Containment} (hrows : Rows rows) (h : rows.Perm rows') :
    bySource rows = bySource rows' :=
  sortBy_eq h fun _ hr _ hr' hsame =>
    List.inj_on_of_nodup_map hrows.sources hr hr' (compare_eq_iff_eq.mp hsame)

/-- The texts of two sets are the same just when the sets are. -/
theorem setText_eq_iff {rows rows' : List Containment} (hrows : Rows rows) (hrows' : Rows rows') :
    setText z rows = setText z rows' ↔ rows.Perm rows' := by
  constructor
  · intro h
    have hplain (rows : List Containment) :
        ∀ x ∈ (bySource rows).map (rowText z), x ≠ [] ∧ '|' ∉ x := by
      intro x hx
      obtain ⟨r,-,rfl⟩ := List.mem_map.mp hx
      exact rowText_plain r
    have htexts : (bySource rows).map (rowText z) = (bySource rows').map (rowText z) :=
      joined_injective (hplain rows) (hplain rows') h
    refine (List.perm_ext_iff_of_nodup hrows.sources.of_map hrows'.sources.of_map).mpr fun r => ?_
    constructor
    · intro hr
      have htext := List.mem_map_of_mem (f := rowText z) (mem_bySource.mpr hr)
      obtain ⟨r',hr',hsame⟩ := List.mem_map.mp (htexts ▸ htext)
      rwa [rowText_injective hrows hrows' hr (mem_bySource.mp hr') hsame.symm,← mem_bySource]
    · intro hr
      have htext := List.mem_map_of_mem (f := rowText z) (mem_bySource.mpr hr)
      obtain ⟨r',hr',hsame⟩ := List.mem_map.mp (htexts ▸ htext)
      rwa [← rowText_injective hrows hrows' (mem_bySource.mp hr') hr hsame,← mem_bySource]
  · intro h
    rw [setText,setText,bySource_perm hrows h]

end

/-! ## The intervals of a log -/

variable {es : List (Event packages)}

theorem mem_placements {p : ℕ} {e : Event packages} :
    e ∈ placements es p ↔ e ∈ es ∧ e.packageId = p ∧ e.kind.assertsPlacement = true := by
  rw [placements,List.mem_filter,Bool.and_eq_true,decide_eq_true_iff]

/-- A row is a placement event's, and of some width. -/
theorem mem_computed {r : Containment} : r ∈ computed es ↔
    ∃ e ∈ placements es r.packageId, (∀ next ∈ nextAt es e, e.occurredAt < next) ∧ r = interval es e := by
  simp only [computed,List.mem_map,List.mem_filter,Bool.and_eq_true,Option.all_eq_true,decide_eq_true_eq]
  constructor
  · rintro ⟨e,⟨he,hplaced,hwidth⟩,rfl⟩
    exact ⟨e,mem_placements.mpr ⟨he,rfl,hplaced⟩,hwidth,rfl⟩
  · rintro ⟨e,he,hwidth,hrow⟩
    obtain ⟨hmem,-,hplaced⟩ := mem_placements.mp he
    exact ⟨e,⟨hmem,hplaced,hwidth⟩,hrow.symm⟩

theorem computed_sources : ((computed es).map Containment.sourceEventId).Sublist (es.map Event.id) := by
  rw [computed,List.map_map]
  exact List.filter_sublist.map Event.id

theorem key_time (e e' : Event packages) (h : e.key ≤ e'.key) : e.occurredAt ≤ e'.occurredAt := by
  rcases Prod.Lex.le_iff.mp h with hlt | ⟨heq,-⟩
  · exact hlt.le
  · exact heq.le

theorem placements_key (hids : (es.map Event.id).Nodup) (p : ℕ) :
    ∀ e ∈ placements es p, ∀ e' ∈ placements es p, e.key = e'.key → e = e' :=
  fun _ he _ he' hkey => List.inj_on_of_nodup_map hids (mem_placements.mp he).1
    (mem_placements.mp he').1 (Event.key_injective hkey)

/-- An instant is in a placement event's interval just when that event is the last
placement of its package up to the instant. -/
theorem mem_interval_iff (hids : (es.map Event.id).Nodup) {p : ℕ} {e : Event packages}
    (he : e ∈ placements es p) (t : ℤ) : t ∈ (interval es e).valid ↔
      winningPlacement (es.filter fun e => e.occurredAt ≤ t) p = some e := by
  have hfilter : (es.filter fun e => e.occurredAt ≤ t).filter (fun e =>
      decide (e.packageId = p) && e.kind.assertsPlacement) =
      (placements es p).filter fun e => e.occurredAt ≤ t := by
    rw [placements,List.filter_filter,List.filter_filter]
    congr 1
    funext e
    exact Bool.and_comm _ _
  rw [winningPlacement,winner,hfilter,newest_until_iff key_time (placements_key hids p) he]
  obtain ⟨-,hpackage,-⟩ := mem_placements.mp he
  show _ ∧ (∀ u ∈ nextAt es e, t < u) ↔ _
  rw [nextAt,hpackage]
  simp [interval]

/-- Rows tell where a package was at every instant. -/
structure Answers (es : List (Event packages)) (rows : List Containment) (p : ℕ) : Prop where
  disjoint : (rows.filter fun r => r.packageId = p).Pairwise fun r r' => Disjoint r.valid r'.valid
  abut : ∀ r ∈ rows, r.packageId = p → ∀ u ∈ r.upper, ∃ r' ∈ rows, r'.packageId = p ∧ r'.lower = u
  cover : {t | ∃ r ∈ rows, r.packageId = p ∧ t ∈ r.valid} = {t | ∃ e ∈ placements es p, e.occurredAt ≤ t}
  instant : ∀ r ∈ rows, r.packageId = p → ∀ t ∈ r.valid, ∃ e,
    winningPlacement (es.filter fun e => e.occurredAt ≤ t) p = some e ∧
      r.sourceEventId = e.id ∧ r.parentPackageId = e.parentPackageId ∧ r.locationId = e.locationId
  openEnded : placements es p ≠ [] → ∃ r ∈ rows, r.packageId = p ∧ r.upper = none
  current : ∀ r ∈ rows, r.packageId = p → r.upper = none → ∀ t,
    ((projectionPackageRebuild es t).1 p).parentPackageId = r.parentPackageId ∧
      ((projectionPackageRebuild es t).1 p).locationId = r.locationId

/-- The last placement up to an instant has a row, and the instant is in it. -/
theorem computed_at (hids : (es.map Event.id).Nodup) {p : ℕ} {t : ℤ} {e : Event packages}
    (he : winningPlacement (es.filter fun e => e.occurredAt ≤ t) p = some e) :
    interval es e ∈ computed es ∧ e.packageId = p ∧ t ∈ (interval es e).valid := by
  obtain ⟨hmem,hpackage,hplaced⟩ := winner_tells he
  have hplacement : e ∈ placements es p :=
    mem_placements.mpr ⟨(List.mem_filter.mp hmem).1,hpackage,hplaced⟩
  have hvalid := (mem_interval_iff hids hplacement t).mpr he
  have hrow : e ∈ placements es (interval es e).packageId := by rwa [← hpackage] at hplacement
  exact ⟨mem_computed.mpr ⟨e,hrow,fun next hnext => hvalid.1.trans_lt (hvalid.2 next hnext),rfl⟩,
    hpackage,hvalid⟩

/-- From a placement on there is a last one. -/
theorem placed_at {p : ℕ} {t : ℤ} {e : Event packages} (he : e ∈ placements es p)
    (ht : e.occurredAt ≤ t) :
    ∃ e, winningPlacement (es.filter fun e => e.occurredAt ≤ t) p = some e := by
  refine Option.isSome_iff_exists.mp (newest_isSome_iff.mpr (List.ne_nil_of_mem (a := e) ?_))
  obtain ⟨hmem,hpackage,hplaced⟩ := mem_placements.mp he
  refine List.mem_filter.mpr ⟨List.mem_filter.mpr ⟨hmem,by simpa using ht⟩,?_⟩
  simp [hpackage,hplaced]

/-- A placed package's columns are its winner's. -/
theorem rebuild_holder {p : ℕ} {e : Event packages} (he : winningPlacement es p = some e) (t : Table) :
    ((projectionPackageRebuild es t).1 p).parentPackageId = e.parentPackageId ∧
      ((projectionPackageRebuild es t).1 p).locationId = e.locationId := by
  show (resolveRow _ p (placeRow es p (t p))).parentPackageId = _ ∧
    (resolveRow _ p (placeRow es p (t p))).locationId = _
  rw [placeRow,he,resolveRow]
  split <;> exact ⟨rfl,rfl⟩

theorem row_event {rows : List Containment} (hrows : rows.Perm (computed es)) {p : ℕ} {r : Containment}
    (hr : r ∈ rows) (hp : r.packageId = p) : ∃ e ∈ placements es p, r = interval es e := by
  obtain ⟨e,he,-,hrow⟩ := mem_computed.mp (hrows.mem_iff.mp hr)
  exact ⟨e,hp ▸ he,hrow⟩

/-- The rows of a log tell where each package was at every instant. -/
theorem answers (hids : (es.map Event.id).Nodup) {rows : List Containment}
    (hrows : rows.Perm (computed es)) (p : ℕ) : Answers es rows p where
  disjoint := by
    have hsources : (rows.map Containment.sourceEventId).Nodup :=
      (hrows.map _).nodup_iff.mpr (hids.sublist computed_sources)
    refine ((hsources.of_map.filter _).pairwise_of_forall_ne fun r hr r' hr' hne => ?_)
    obtain ⟨hr,hp⟩ := List.mem_filter.mp hr
    obtain ⟨hr',hp'⟩ := List.mem_filter.mp hr'
    obtain ⟨e,he,rfl⟩ := row_event hrows hr (of_decide_eq_true hp)
    obtain ⟨e',he',rfl⟩ := row_event hrows hr' (of_decide_eq_true hp')
    refine Set.disjoint_left.mpr fun t ht ht' => hne ?_
    have hsame := ((mem_interval_iff hids he t).mp ht).symm.trans ((mem_interval_iff hids he' t).mp ht')
    rw [Option.some.inj hsame]
  abut r hr hp u hu := by
    obtain ⟨e,he,rfl⟩ := row_event hrows hr hp
    obtain ⟨next,hnext,rfl⟩ := Option.map_eq_some_iff.mp hu
    have hpackage := (mem_placements.mp he).2.1
    obtain ⟨hmem,-⟩ := lead_mem hnext
    rw [hpackage] at hmem
    obtain ⟨e',he'⟩ := placed_at hmem le_rfl
    obtain ⟨hrow,hp',hvalid⟩ := computed_at hids he'
    obtain ⟨hthere,hnextPackage,hplaced⟩ := mem_placements.mp hmem
    -- the next placement itself is one up to the instant it happened
    have hlast : next.key ≤ e'.key :=
      winner_last he' (List.mem_filter.mpr ⟨hthere,by simp⟩) hnextPackage hplaced
    exact ⟨interval es e',hrows.mem_iff.mpr hrow,hp',le_antisymm hvalid.1 (key_time _ _ hlast)⟩
  cover := by
    ext t
    constructor
    · rintro ⟨r,hr,hp,ht⟩
      obtain ⟨e,he,rfl⟩ := row_event hrows hr hp
      exact ⟨e,he,ht.1⟩
    · rintro ⟨e,he,ht⟩
      obtain ⟨last,hlast⟩ := placed_at he ht
      obtain ⟨hrow,hp,hvalid⟩ := computed_at hids hlast
      exact ⟨_,hrows.mem_iff.mpr hrow,hp,hvalid⟩
  instant r hr hp t ht := by
    obtain ⟨e,he,rfl⟩ := row_event hrows hr hp
    exact ⟨e,(mem_interval_iff hids he t).mp ht,rfl,rfl,rfl⟩
  openEnded hplaced := by
    obtain ⟨e,he⟩ : ∃ e, newest Event.key (placements es p) = some e :=
      Option.isSome_iff_exists.mp (newest_isSome_iff.mpr hplaced)
    have hall := (newest_eq_some_iff (placements_key hids p)).mp he
    have hpackage := (mem_placements.mp hall.1).2.1
    have hnone : nextAt es e = none := by
      rw [nextAt,hpackage,lead_eq_none_iff.mpr hall.2]
      rfl
    refine ⟨interval es e,hrows.mem_iff.mpr (mem_computed.mpr ⟨e,?_,?_,rfl⟩),hpackage,hnone⟩
    · exact (show e ∈ placements es e.packageId from hpackage ▸ hall.1)
    · rw [hnone]
      exact fun _ h => nomatch h
  current r hr hp hopen t := by
    obtain ⟨e,he,rfl⟩ := row_event hrows hr hp
    have hpackage := (mem_placements.mp he).2.1
    have hlead : lead Event.key (placements es p) e = none := by
      rw [← hpackage]
      exact Option.map_eq_none_iff.mp hopen
    have hwinner : winningPlacement es p = some e :=
      (newest_eq_some_iff (placements_key hids p)).mpr ⟨he,lead_eq_none_iff.mp hlead⟩
    exact rebuild_holder hwinner t

/-- A log's rows are such as a rebuild leaves. -/
theorem computed_rows (hpackages : ∀ p ∈ packages, p < 2^128) (hids : (es.map Event.id).Nodup)
    (huuids : ∀ e ∈ es, e.id < 2^128 ∧ ∀ l ∈ e.locationId, l < 2^128) : Rows (computed es) where
  sources := hids.sublist computed_sources
  uuids r hr := by
    obtain ⟨e,he,-,rfl⟩ := mem_computed.mp hr
    obtain ⟨hid,hloc⟩ := huuids e (mem_placements.mp he).1
    exact ⟨hpackages _ e.there,fun q hq => hpackages q (e.parent_there q hq),hloc,hid⟩

/-- Over a log of any order of arrival a rebuild writes nothing where the set is the one
stored, and the log's rows where the digests differ; and where only equal texts have equal
digests, what it leaves tells where each package was at every instant. -/
theorem containment_rebuild_answers (z : Stamps) (hpackages : ∀ p ∈ packages, p < 2^128)
    (es : List (Event packages)) (hids : (es.map Event.id).Nodup)
    (huuids : ∀ e ∈ es, e.id < 2^128 ∧ ∀ l ∈ e.locationId, l < 2^128)
    (stored : List Containment) (hstored : Rows stored) :
    let after := projectionPackageContainmentRebuild z es stored
    let digests := (Md5.md5 (setText z (computed es)),Md5.md5 (setText z stored))
    ((computed es).Perm stored → after = (stored,0)) ∧
    (¬(computed es).Perm stored → setText z (computed es) ≠ setText z stored ∧
      (digests.1 ≠ digests.2 → after = (computed es,(computed es).length))) ∧
    ((digests.1 = digests.2 → setText z (computed es) = setText z stored) →
      ∀ p, Answers es after.1 p) ∧
    Rows after.1 := by
  intro after digests
  have hcomputed := computed_rows hpackages hids huuids
  have htext := setText_eq_iff (z := z) hcomputed hstored
  refine ⟨fun hperm => ?_,fun hperm => ⟨fun hsame => hperm (htext.mp hsame),fun hne => if_neg hne⟩,
    fun hdigests => ?_,?_⟩
  · exact if_pos (congrArg Md5.md5 (htext.mpr hperm))
  · intro p
    by_cases hsame : digests.1 = digests.2
    · have hafter : after = (stored,0) := if_pos hsame
      rw [hafter]
      exact answers hids (htext.mp (hdigests hsame)).symm p
    · have hafter : after = (computed es,(computed es).length) := if_neg hsame
      rw [hafter]
      exact answers hids (List.Perm.refl _) p
  · by_cases hsame : digests.1 = digests.2
    · have hafter : after = (stored,0) := if_pos hsame
      rw [hafter]
      exact hstored
    · have hafter : after = (computed es,(computed es).length) := if_neg hsame
      rw [hafter]
      exact hcomputed

/-- Instants each written its own way, the first as a session in UTC does. -/
def utc : Stamps where
  text t := ['2','0','0','0','-','0','1','-','0','1',' ','0','0',':','0','0',':','0','0','+','0','0']++
    List.replicate (if 0 ≤ t then 2*t else -2*t-1).toNat '0'
  injective t t' h := by
    have hlength := congrArg List.length (List.append_cancel_left h)
    simp only [List.length_replicate] at hlength
    split at hlength <;> split at hlength <;> omega
  plain t := by simp [List.mem_replicate]

/-- Packages each put on one shelf. -/
def shelved (n : ℕ) (i : Fin n) : Event (List.range n) where
  id := i
  occurredAt := 0
  recordedAt := 0
  packageId := i
  kind := .placed
  parentPackageId := none
  locationId := some 7
  sscc := none
  barcode := none
  there := List.mem_range.mpr i.isLt
  parent_there := by simp
  holder := by decide
  not_own_parent := by simp

/-- A package put in the other, and one put on another shelf. -/
def putAway (id : ℕ) (occurredAt : ℤ) (kind : Kind) (parentPackageId locationId : Option ℕ)
    (hparent : ∀ q ∈ parentPackageId, q = 1) (hone : parentPackageId.isSome ≠ locationId.isSome) : Event (List.range 2) where
  id := id
  occurredAt := occurredAt
  recordedAt := id
  packageId := 0
  kind := kind
  parentPackageId := parentPackageId
  locationId := locationId
  sscc := none
  barcode := none
  there := by decide
  parent_there q hq := by
    rw [hparent q hq]
    decide
  holder _ := hone
  not_own_parent h := absurd (hparent 0 h) (by decide)

def shelves : List (Event (List.range 2)) := [shelved 2 0,shelved 2 1]

/-- The first is put in the second, and that it was on another shelf before comes in late. -/
def afterShelves : List (Event (List.range 2)) :=
  shelves++[putAway 2 2 .contained (some 1) none (by simp) (by decide),putAway 3 1 .placed none (some 8) (by simp) (by decide)]

def shelvesRows : List Containment :=
  [⟨0,none,some 7,0,some 1,0⟩,⟨1,none,some 7,0,none,1⟩,⟨0,some 1,none,2,none,2⟩,⟨0,none,some 8,1,some 2,3⟩]

/-- A rebuild over what an earlier one left writes the intervals anew. -/
theorem containment_rebuild_answers_shelves :
    projectionPackageContainmentRebuild utc afterShelves (projectionPackageContainmentRebuild utc shelves []).1 =
      (shelvesRows,4) ∧ ∀ p, Answers afterShelves shelvesRows p := by
  have hstored : (projectionPackageContainmentRebuild utc shelves []).1 =
      [⟨0,none,some 7,0,none,0⟩,⟨1,none,some 7,0,none,1⟩] := by decide +kernel
  rw [hstored]
  have h := containment_rebuild_answers utc (by decide) afterShelves (by decide) (by decide)
    [⟨0,none,some 7,0,none,0⟩,⟨1,none,some 7,0,none,1⟩] ⟨by decide,by decide⟩
  have hdigests : Md5.md5 (setText utc (computed afterShelves)) ≠
      Md5.md5 (setText utc [⟨0,none,some 7,0,none,0⟩,⟨1,none,some 7,0,none,1⟩]) := by
    decide +kernel
  have hafter := (h.2.1 (by decide)).2 hdigests
  refine ⟨hafter,?_⟩
  have hanswers := h.2.2.1 fun hsame => absurd hsame hdigests
  rwa [hafter] at hanswers

section
variable {n : ℕ} (k : ℕ)

/-- The first so many of them. -/
def shelf (n k : ℕ) : List (Event (List.range n)) := ((List.finRange n).map (shelved n)).take k

theorem shelf_ids : ((shelf n k).map Event.id).Nodup := by
  rw [shelf,← List.map_take,List.map_map]
  exact ((List.nodup_finRange n).sublist (List.take_sublist _ _)).map fun i j h => Fin.ext h

theorem shelf_length (hk : k ≤ n) : (shelf n k).length = k := by
  simp [shelf,hk]

/-- Each of them has its row. -/
theorem shelf_computed (hk : k ≤ n) : (computed (shelf n k)).length = k := by
  have hnone (e : Event (List.range n)) (he : e ∈ shelf n k) : nextAt (shelf n k) e = none := by
    have hshelved (e : Event (List.range n)) (he : e ∈ shelf n k) : ∃ i, e = shelved n i := by
      obtain ⟨i,-,rfl⟩ := List.mem_map.mp (List.mem_of_mem_take he)
      exact ⟨i,rfl⟩
    refine Option.map_eq_none_iff.mpr (lead_eq_none_iff.mpr fun b hb => ?_)
    obtain ⟨hmem,hpackage,-⟩ := mem_placements.mp hb
    obtain ⟨i,rfl⟩ := hshelved e he
    obtain ⟨j,rfl⟩ := hshelved b hmem
    have hij : j = i := Fin.ext hpackage
    rw [hij]
  rw [computed,List.length_map,List.filter_eq_self.mpr,shelf_length k hk]
  intro e he
  rw [hnone e he]
  obtain ⟨i,-,rfl⟩ := List.mem_map.mp (List.mem_of_mem_take he)
  rfl

end

/-- A digest is of 128 bits, and there are more sets than that of as many packages as there
are UUIDs. -/
theorem shelf_collides {n : ℕ} (hn : n = 2^128) : ∃ m k, m < k ∧ k ≤ n ∧
    Md5.md5 (setText utc (computed (shelf n m))) = Md5.md5 (setText utc (computed (shelf n k))) := by
  let digest := fun k : Fin (n+1) => Md5.md5 (setText utc (computed (shelf n k)))
  have hlt (k : Fin (n+1)) : (digest k).toNat < n := hn ▸ (digest k).isLt
  obtain ⟨i,j,hne,hsame⟩ := Fintype.exists_ne_map_eq_of_card_lt
    (fun k => (⟨(digest k).toNat,hlt k⟩ : Fin n)) (by simp)
  have hdigest : digest i = digest j := BitVec.eq_of_toNat_eq (Fin.mk.inj hsame)
  rcases lt_or_gt_of_ne hne with hij | hji
  · exact ⟨i,j,hij,Nat.lt_succ_iff.mp j.isLt,hdigest⟩
  · exact ⟨j,i,hji,Nat.lt_succ_iff.mp i.isLt,hdigest.symm⟩

/-- Two of them have one digest, and a rebuild over the second leaves what one over the
first did. -/
theorem containment_rebuild_stale : ¬∀ (packages : List ℕ) (z : Stamps) (earlier es : List (Event packages)),
    (∀ p ∈ packages, p < 2^128) → (es.map Event.id).Nodup →
    (∀ e ∈ es, e.id < 2^128 ∧ ∀ l ∈ e.locationId, l < 2^128) → earlier <+: es →
    let stored := (projectionPackageContainmentRebuild z earlier []).1
    (projectionPackageContainmentRebuild z es stored).1.Perm (computed es) := by
  intro hall
  obtain ⟨n,hn⟩ : ∃ n, n = 2^128 := ⟨_,rfl⟩
  obtain ⟨m,k,hmk,hk,hdigest⟩ := shelf_collides hn
  have hpackages : ∀ p ∈ List.range n, p < 2^128 := fun p hp => hn ▸ List.mem_range.mp hp
  have huuids : ∀ e ∈ shelf n k, e.id < 2^128 ∧ ∀ l ∈ e.locationId, l < 2^128 := by
    intro e he
    obtain ⟨i,-,rfl⟩ := List.mem_map.mp (List.mem_of_mem_take he)
    refine ⟨hn ▸ i.isLt,fun l hl => ?_⟩
    obtain rfl : 7 = l := Option.some.inj hl
    decide
  have hearlier : shelf n m <+: shelf n k := List.take_prefix_take_left hmk.le
  have hperm : (projectionPackageContainmentRebuild utc (shelf n k)
      (projectionPackageContainmentRebuild utc (shelf n m) []).1).1.Perm (computed (shelf n k)) :=
    hall (List.range n) utc (shelf n m) (shelf n k) hpackages (shelf_ids k) huuids hearlier
  -- what the first rebuild left has the digest of the second set, and fewer rows
  obtain ⟨stored,hstored,hlength,hsame⟩ : ∃ stored,
      (projectionPackageContainmentRebuild utc (shelf n m) []).1 = stored ∧ stored.length ≤ m ∧
      Md5.md5 (setText utc (computed (shelf n k))) = Md5.md5 (setText utc stored) := by
    by_cases hfirst : Md5.md5 (setText utc (computed (shelf n m))) = Md5.md5 (setText utc [])
    · exact ⟨[],by rw [projectionPackageContainmentRebuild,if_pos hfirst],Nat.zero_le m,
        hdigest.symm.trans hfirst⟩
    · exact ⟨computed (shelf n m),by rw [projectionPackageContainmentRebuild,if_neg hfirst],
        (shelf_computed m (hmk.le.trans hk)).le,hdigest.symm⟩
  rw [hstored,projectionPackageContainmentRebuild,if_pos hsame] at hperm
  have hrows : stored.length = k := hperm.length_eq.trans (shelf_computed k hk)
  omega

end Packages
end Spork
