import Spork.Barcodes.Scan
import Spork.Lib.FirstWins
import Spork.Lib.GroupBy
import Spork.Lib.Newest

/-! Picks made elsewhere, as reported (`importing/picks.rs`): what a send makes a report of,
what recording one writes, and what the rebuild folds of it into each line. A moment is in
the microseconds it is kept in. -/
namespace Spork
namespace Importing

abbrev Uuid := ℕ

/-- One item fulfilment's picks, as the sender read them. -/
structure Report where
  /-- Which fulfilment these lines are on. -/
  fulfilmentId : String
  document : String
  /-- When the item fulfilment last changed, per the other system. -/
  observedAt : ℤ
  pickedBy : Option String
  /-- Each line's key and how many are picked on it. -/
  lines : List (String × ℕ)
  deriving DecidableEq, Repr

def trim (s : String) : String := String.ofList (Text.trim Barcodes.isWhiteSpace s.toList)

/-- A text without what is at its ends, when that leaves any. -/
def said (s : Option String) : Option String := (s.map trim).filter (· ≠ "")

/-- Whether a status says the item fulfilment is picked. -/
def isPicked (status : String) : Bool :=
  (trim status).map Char.toLower ∈ ["picked","a","itemship:a","item fulfillment : picked"]

/-- The report a send makes, if it makes one. -/
def reportable (status fulfilmentId document : Option String) (observedAt : Option ℤ) (pickedBy : Option String)
    (lines : List (Option String × ℤ)) : Option Report :=
  if !status.any isPicked then none
  else do
    let fulfilmentId ← said fulfilmentId
    let observedAt ← observedAt
    let lines := lines.filterMap fun l => (said l.1).map fun key => (key,l.2.toNat)
    if lines = [] then none
    else some ⟨fulfilmentId,(document.map trim).getD "",observedAt,said pickedBy,lines⟩

/-- A fulfilment's line that another system's document names. -/
structure KeyedLine where
  id : Uuid
  /-- The document its fulfilment was raised by. -/
  externalId : String
  /-- Which line of that document it is. -/
  externalLine : String
  deriving DecidableEq, Repr

/-- The lines on file, each once and each of a document once. -/
structure OnFile where
  lines : List KeyedLine
  ids : (lines.map KeyedLine.id).Nodup
  keys : (lines.map fun l => (l.externalId,l.externalLine)).Nodup

/-- A row of `external_pick`. -/
structure ExternalPick where
  id : Uuid
  line : Uuid
  quantity : ℕ
  document : String
  externalId : String
  externalLine : String
  pickedBy : Option String
  observedAt : ℤ
  recordedAt : ℤ
  deriving DecidableEq, Repr

/-- `external_pick_report_key`: the quantity is not of it. -/
def ExternalPick.reportKey (p : ExternalPick) : Uuid × String × ℤ := (p.line,p.externalLine,p.observedAt)

/-- What recording did. -/
structure PicksRecorded where
  recorded : ℕ
  unchanged : ℕ
  unmatched : List String
  deriving DecidableEq, Repr

/-- A report as it arrives, with the moment and the ids its rows are written under. -/
structure Arrival where
  report : Report
  now : ℤ
  ids : ℕ → Uuid

section
variable (file : OnFile)

/-- The line a key of a fulfilment's document names. -/
def lineFor (fulfilmentId key : String) : Option Uuid :=
  (file.lines.find? fun l => l.externalId = fulfilmentId ∧ l.externalLine = key).map KeyedLine.id

def rowOf (a : Arrival) (line : Uuid) (key : String) (quantity i : ℕ) : ExternalPick :=
  ⟨a.ids i,line,quantity,a.report.document,a.report.fulfilmentId,key,a.report.pickedBy,a.report.observedAt,a.now⟩

/-- One line of a report: written, there already, or of no line. -/
def recordLine (a : Arrival) (acc : List ExternalPick × PicksRecorded) (l : (String × ℕ) × ℕ) :
    List ExternalPick × PicksRecorded :=
  match lineFor file a.report.fulfilmentId l.1.1 with
  | none => (acc.1,{acc.2 with unmatched := acc.2.unmatched++[l.1.1]})
  | some line =>
    let row := rowOf a line l.1.1 l.1.2 l.2
    if acc.1.any fun p => p.reportKey = row.reportKey then (acc.1,{acc.2 with unchanged := acc.2.unchanged+1})
    else (acc.1++[row],{acc.2 with recorded := acc.2.recorded+1})

/-- Write a report. -/
def record (rows : List ExternalPick) (a : Arrival) : List ExternalPick × PicksRecorded :=
  a.report.lines.zipIdx.foldl (recordLine file a) (rows,⟨0,0,[]⟩)

/-- The reports on file once these have come in. -/
def reported (arrivals : List Arrival) : List ExternalPick := arrivals.foldl (fun rows a => (record file rows a).1) []

end

/-- `ORDER BY observed_at, recorded_at, id`. -/
def ExternalPick.order (p : ExternalPick) : ℤ ×ₗ ℤ ×ₗ Uuid := toLex (p.observedAt,toLex (p.recordedAt,p.id))

/-- What `projection_fulfilment_rebuild` leaves in a line's `external_picked_quantity`: the
sum of each external line's newest report. -/
def externalPicked (rows : List ExternalPick) (line : Uuid) : ℕ :=
  (((GroupBy.groups (fun p : ExternalPick => (p.line,p.externalLine)) rows).filter fun g => g.1.1 = line).map fun g =>
    (Newest.newest ExternalPick.order g.2).elim 0 ExternalPick.quantity).sum

/-! ## The rows written -/

section
variable {file : OnFile}

/-- The row a line of a report would write, were none of its key there. -/
def written (file : OnFile) (a : Arrival) (l : (String × ℕ) × ℕ) : Option ExternalPick :=
  (lineFor file a.report.fulfilmentId l.1.1).map fun line => rowOf a line l.1.1 l.1.2 l.2

/-- The rows a report would write. -/
def rowsOf (file : OnFile) (a : Arrival) : List ExternalPick := a.report.lines.zipIdx.filterMap (written file a)

/-- How many a report says of a line: where it names it twice, the first. -/
def saysOf (file : OnFile) (r : Report) (line : Uuid) : Option ℕ :=
  (r.lines.find? fun l => lineFor file r.fulfilmentId l.1 = some line).map Prod.snd

theorem record_rows (rows : List ExternalPick) (a : Arrival) :
    (record file rows a).1 = (rowsOf file a).foldl (FirstWins.keep ExternalPick.reportKey) rows := by
  unfold record rowsOf
  generalize (⟨0,0,[]⟩ : PicksRecorded) = done
  induction a.report.lines.zipIdx generalizing rows done with
  | nil => rfl
  | cons l ls ih =>
    rw [List.foldl_cons]
    simp only [recordLine]
    cases hline : lineFor file a.report.fulfilmentId l.1.1 with
    | none =>
      simp only [List.filterMap_cons,written,hline,Option.map_none]
      exact ih rows _
    | some line =>
      simp only [List.filterMap_cons,written,hline,Option.map_some,List.foldl_cons,FirstWins.keep]
      split_ifs
      · exact ih rows _
      · exact ih _ _

/-- The first row of its key stands, of all that the reports would write. -/
theorem reported_eq (arrivals : List Arrival) :
    reported file arrivals = FirstWins.kept ExternalPick.reportKey (arrivals.flatMap (rowsOf file)) := by
  induction arrivals using List.reverseRecOn with
  | nil => rfl
  | append_singleton arrivals a ih =>
    have hlast : reported file (arrivals++[a]) = (record file (reported file arrivals) a).1 := by
      rw [reported,List.foldl_append]
      rfl
    rw [hlast,record_rows,ih,List.flatMap_append,FirstWins.kept,FirstWins.kept,List.foldl_append]
    simp

theorem lineFor_eq_some {fulfilmentId key : String} {line : Uuid} (h : lineFor file fulfilmentId key = some line) :
    ∃ l ∈ file.lines, l.id = line ∧ l.externalId = fulfilmentId ∧ l.externalLine = key := by
  obtain ⟨l,hl,rfl⟩ := Option.map_eq_some_iff.mp h
  have hkey := List.find?_some hl
  simp only [decide_eq_true_eq] at hkey
  exact ⟨l,List.mem_of_find?_eq_some hl,rfl,hkey.1,hkey.2⟩

/-- A line is one line of one document. -/
theorem lineFor_unique {fulfilmentId fulfilmentId' key key' : String} {line : Uuid}
    (h : lineFor file fulfilmentId key = some line) (h' : lineFor file fulfilmentId' key' = some line) :
    fulfilmentId = fulfilmentId' ∧ key = key' := by
  obtain ⟨l,hl,hid,rfl,rfl⟩ := lineFor_eq_some h
  obtain ⟨l',hl',hid',rfl,rfl⟩ := lineFor_eq_some h'
  obtain rfl := List.inj_on_of_nodup_map file.ids hl hl' (hid.trans hid'.symm)
  exact ⟨rfl,rfl⟩

theorem mem_rowsOf {a : Arrival} {p : ExternalPick} (h : p ∈ rowsOf file a) :
    lineFor file a.report.fulfilmentId p.externalLine = some p.line ∧ p.observedAt = a.report.observedAt := by
  obtain ⟨l,-,hp⟩ := List.mem_filterMap.mp h
  obtain ⟨line,hline,rfl⟩ := Option.map_eq_some_iff.mp hp
  exact ⟨hline,rfl⟩

/-- A report writes of a line what it first says of it. -/
theorem saysOf_rows (a : Arrival) (line : Uuid) :
    (saysOf file a.report line).isSome = true ↔ ∃ p ∈ rowsOf file a, p.line = line := by
  unfold saysOf rowsOf
  rw [Option.isSome_map,List.find?_isSome]
  constructor
  · rintro ⟨l,hl,hline⟩
    obtain ⟨i,hi,rfl⟩ := List.mem_iff_getElem.mp hl
    have hmem : (a.report.lines[i],i) ∈ a.report.lines.zipIdx :=
      List.mk_mem_zipIdx_iff_getElem?.mpr (List.getElem?_eq_getElem hi)
    exact ⟨_,List.mem_filterMap.mpr ⟨_,hmem,by rw [written,of_decide_eq_true hline]; rfl⟩,rfl⟩
  · rintro ⟨p,hp,rfl⟩
    obtain ⟨l,hl,hpl⟩ := List.mem_filterMap.mp hp
    obtain ⟨line,hline,rfl⟩ := Option.map_eq_some_iff.mp hpl
    exact ⟨l.1,List.mem_of_getElem? (List.mk_mem_zipIdx_iff_getElem?.mp hl),decide_eq_true hline⟩

end

end Importing
end Spork
