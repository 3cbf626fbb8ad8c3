import Spork.Importing.Picks

/-! Whether reported picks fold to the same answer in whatever order they come in. A report
is on file once for a line and a moment, so of two that differ at one moment the first to
come stands. -/
namespace Spork
namespace Importing

section
variable {file : OnFile}

/-- The first row a report writes of a line has what it first says of it. -/
theorem rowsOf_first {a : Arrival} {line : Uuid} {q : ℕ} (h : saysOf file a.report line = some q) :
    ∃ before p after, rowsOf file a = before++p :: after ∧ p.line = line ∧ p.quantity = q ∧
      ∀ s ∈ before, s.line ≠ line := by
  obtain ⟨l,hl,rfl⟩ := Option.map_eq_some_iff.mp h
  obtain ⟨hline,ls,ls',hlines,hbefore⟩ := List.find?_eq_some_iff_append.mp hl
  have hline := of_decide_eq_true hline
  refine ⟨ls.zipIdx.filterMap (written file a),rowOf a line l.1 l.2 ls.length,
    (ls'.zipIdx (ls.length+1)).filterMap (written file a),?_,rfl,rfl,?_⟩
  · have hrow : written file a (l,ls.length) = some (rowOf a line l.1 l.2 ls.length) := by
      rw [written,hline]
      rfl
    rw [rowsOf,hlines,List.zipIdx_append,List.zipIdx_cons,List.filterMap_append,Nat.zero_add,
      List.filterMap_cons_some hrow]
  · intro s hs heq
    obtain ⟨x,hx,hrow⟩ := List.mem_filterMap.mp hs
    obtain ⟨line',hline',rfl⟩ := Option.map_eq_some_iff.mp hrow
    have hmem := List.mem_of_getElem? (List.mk_mem_zipIdx_iff_getElem?.mp hx)
    have hnot := hbefore x.1 hmem
    rw [hline',show line' = line from heq] at hnot
    simp at hnot

/-- What a line's reports come to, where they all name it the same. -/
theorem externalPicked_eq (rows : List ExternalPick) (line : Uuid) (key : String)
    (h : ∀ p ∈ rows, p.line = line → p.externalLine = key) :
    externalPicked rows line =
      (Newest.newest ExternalPick.order (rows.filter fun p => (p.line,p.externalLine) = (line,key))).elim 0
        ExternalPick.quantity := by
  have hsame : (GroupBy.groups (fun p : ExternalPick => (p.line,p.externalLine)) rows).filter (fun g => g.1.1 = line) =
      (GroupBy.groups (fun p : ExternalPick => (p.line,p.externalLine)) rows).filter (fun g => g.1 = (line,key)) := by
    apply List.filter_congr
    intro g hg
    obtain ⟨⟨p,hp,hkey⟩,-⟩ := GroupBy.mem_groups hg
    rw [← hkey]
    apply decide_eq_decide.mpr
    constructor
    · intro hline
      exact Prod.ext hline (h p hp hline)
    · exact fun heq => (Prod.mk.inj heq).1
  rw [externalPicked,hsame,GroupBy.filter_groups]
  split_ifs with hmem
  · simp
  · have hnone : rows.filter (fun p => (p.line,p.externalLine) = (line,key)) = [] := by
      apply List.filter_eq_nil_iff.mpr
      intro p hp hkey
      exact hmem (List.mem_map.mpr ⟨p,hp,of_decide_eq_true hkey⟩)
    rw [hnone]
    rfl

theorem mem_reported {arrivals : List Arrival} {p : ExternalPick} (h : p ∈ reported file arrivals) :
    ∃ a ∈ arrivals, p ∈ rowsOf file a := by
  rw [reported_eq] at h
  obtain ⟨before,after,hrows,-⟩ := FirstWins.mem_kept_iff.mp h
  have hmem : p ∈ arrivals.flatMap (rowsOf file) := by
    rw [hrows]
    exact List.mem_append_right _ List.mem_cons_self
  exact List.mem_flatMap.mp hmem

/-- A line nothing is said of has nothing picked elsewhere. -/
theorem externalPicked_none {arrivals : List Arrival} {line : Uuid} (h : ∀ a ∈ arrivals, saysOf file a.report line = none) :
    externalPicked (reported file arrivals) line = 0 := by
  have hnone : ∀ p ∈ reported file arrivals, p.line ≠ line := by
    intro p hp heq
    obtain ⟨a,ha,hrow⟩ := mem_reported hp
    have hsome := (saysOf_rows a line).mpr ⟨p,hrow,heq⟩
    rw [h a ha] at hsome
    cases hsome
  rw [externalPicked_eq _ line "" fun p hp heq => absurd heq (hnone p hp)]
  have hnil : (reported file arrivals).filter (fun p => (p.line,p.externalLine) = (line,"")) = [] := by
    apply List.filter_eq_nil_iff.mpr
    intro p hp hkey
    exact hnone p hp (Prod.mk.inj (of_decide_eq_true hkey)).1
  rw [hnil]
  rfl

/-- A line has what the first of the reports at its greatest moment says of it. -/
theorem externalPicked_first {before after : List Arrival} {a : Arrival} {line : Uuid} {q : ℕ}
    (hq : saysOf file a.report line = some q)
    (hfirst : ∀ b ∈ before, (saysOf file b.report line).isSome → b.report.observedAt ≠ a.report.observedAt)
    (hgreatest : ∀ b ∈ before++a :: after, (saysOf file b.report line).isSome → b.report.observedAt ≤ a.report.observedAt) :
    externalPicked (reported file (before++a :: after)) line = q := by
  obtain ⟨rows,p,rows',hrows,rfl,rfl,hearlier⟩ := rowsOf_first hq
  have hp : p ∈ rowsOf file a := hrows ▸ List.mem_append_right _ List.mem_cons_self
  obtain ⟨hline,hmoment⟩ := mem_rowsOf hp
  -- the row is the first of its key
  have hkept : p ∈ reported file (before++a :: after) := by
    rw [reported_eq,List.flatMap_append,List.flatMap_cons,hrows]
    refine FirstWins.mem_kept_iff.mpr ⟨before.flatMap (rowsOf file)++rows,rows'++after.flatMap (rowsOf file),by simp,?_⟩
    intro s hs hkey
    obtain ⟨hsline,-,hsmoment⟩ := Prod.mk.inj hkey |>.imp_right Prod.mk.inj
    rcases List.mem_append.mp hs with hs | hs
    · obtain ⟨b,hb,hsb⟩ := List.mem_flatMap.mp hs
      apply hfirst b hb ((saysOf_rows b p.line).mpr ⟨s,hsb,hsline⟩)
      rw [← (mem_rowsOf hsb).2,← hmoment]
      exact hsmoment
    · exact hearlier s hs hsline
  have hnamed : ∀ s ∈ reported file (before++a :: after), s.line = p.line → s.externalLine = p.externalLine := by
    intro s hs heq
    obtain ⟨b,-,hsb⟩ := mem_reported hs
    have hsline := (mem_rowsOf hsb).1
    rw [heq] at hsline
    exact (lineFor_unique hsline hline).2
  rw [externalPicked_eq _ p.line p.externalLine hnamed]
  have hnewest : Newest.newest ExternalPick.order ((reported file (before++a :: after)).filter fun s =>
      (s.line,s.externalLine) = (p.line,p.externalLine)) = some p := by
    have hmoments : ∀ s ∈ reported file (before++a :: after), s.line = p.line → s.observedAt ≤ p.observedAt := by
      intro s hs heq
      obtain ⟨b,hb,hsb⟩ := mem_reported hs
      rw [(mem_rowsOf hsb).2,hmoment]
      exact hgreatest b hb ((saysOf_rows b p.line).mpr ⟨s,hsb,heq⟩)
    -- there is one row for a line, its key and a moment
    have hone : ∀ s ∈ (reported file (before++a :: after)).filter (fun s =>
        (s.line,s.externalLine) = (p.line,p.externalLine)), ∀ t ∈ (reported file (before++a :: after)).filter (fun s =>
        (s.line,s.externalLine) = (p.line,p.externalLine)), s.observedAt = t.observedAt → s = t := by
      intro s hs t ht hmoment
      obtain ⟨hs,hskey⟩ := List.mem_filter.mp hs
      obtain ⟨ht,htkey⟩ := List.mem_filter.mp ht
      have hsame := (of_decide_eq_true hskey).trans (of_decide_eq_true htkey).symm
      rw [reported_eq] at hs ht
      apply FirstWins.kept_unique hs ht
      exact Prod.ext (Prod.mk.inj hsame).1 (Prod.ext (Prod.mk.inj hsame).2 hmoment)
    have hin : p ∈ (reported file (before++a :: after)).filter fun s =>
        (s.line,s.externalLine) = (p.line,p.externalLine) := List.mem_filter.mpr ⟨hkept,by simp⟩
    refine (Newest.newest_eq_some_iff fun s hs t ht heq => hone s hs t ht ?_).mpr ⟨hin,fun s hs => ?_⟩
    · exact congrArg (fun k : ℤ ×ₗ ℤ ×ₗ Uuid => (ofLex k).1) heq
    · obtain ⟨hs',hkey⟩ := List.mem_filter.mp hs
      rcases (hmoments s hs' (Prod.mk.inj (of_decide_eq_true hkey)).1).lt_or_eq with hlt | heq
      · exact le_of_lt (Prod.Lex.toLex_lt_toLex.mpr (Or.inl hlt))
      · rw [hone s hs p hin heq]
  rw [hnewest]
  rfl

/-- Where a line is said anything of, one report is the first of those at the greatest
moment. -/
theorem exists_first {arrivals : List Arrival} {line : Uuid} (h : ∃ a ∈ arrivals, (saysOf file a.report line).isSome) :
    ∃ before a after q, arrivals = before++a :: after ∧ saysOf file a.report line = some q ∧
      (∀ b ∈ before, (saysOf file b.report line).isSome → b.report.observedAt ≠ a.report.observedAt) ∧
      ∀ b ∈ arrivals, (saysOf file b.report line).isSome → b.report.observedAt ≤ a.report.observedAt := by
  obtain ⟨m,hm⟩ : ∃ m, (arrivals.filter fun a => (saysOf file a.report line).isSome).argmax (fun a => a.report.observedAt) = some m := by
    apply Option.ne_none_iff_exists'.mp
    rw [Ne,List.argmax_eq_none,List.filter_eq_nil_iff]
    push Not
    exact h
  obtain ⟨hmem,hsome⟩ := List.mem_filter.mp (List.argmax_mem hm)
  have hgreatest : ∀ b ∈ arrivals, (saysOf file b.report line).isSome → b.report.observedAt ≤ m.report.observedAt :=
    fun b hb hbsome => List.le_of_mem_argmax (f := fun a : Arrival => a.report.observedAt) (List.mem_filter.mpr ⟨hb,hbsome⟩) hm
  cases hfind : arrivals.find? fun a => (saysOf file a.report line).isSome ∧ a.report.observedAt = m.report.observedAt with
  | none =>
    have hnot := List.find?_eq_none.mp hfind m hmem
    exact absurd (decide_eq_true ⟨hsome,rfl⟩) hnot
  | some a =>
    obtain ⟨ha,before,after,harrivals,hbefore⟩ := List.find?_eq_some_iff_append.mp hfind
    obtain ⟨hasome,hmoment⟩ := of_decide_eq_true ha
    obtain ⟨q,hq⟩ := Option.isSome_iff_exists.mp hasome
    refine ⟨before,a,after,q,harrivals,hq,fun b hb hbsome heq => ?_,fun b hb hbsome => ?_⟩
    · have hnot := hbefore b hb
      rw [decide_eq_true ⟨hbsome,heq.trans hmoment⟩] at hnot
      simp at hnot
    · rw [hmoment]
      exact hgreatest b hb hbsome

/-- A report that says something of a line names it, with that many. -/
theorem saysOf_mem {r : Report} {line : Uuid} {q : ℕ} (h : saysOf file r line = some q) :
    ∃ l ∈ r.lines, lineFor file r.fulfilmentId l.1 = some line ∧ l.2 = q := by
  obtain ⟨l,hl,rfl⟩ := Option.map_eq_some_iff.mp h
  exact ⟨l,List.mem_of_find?_eq_some hl,by simpa using List.find?_some hl,rfl⟩

end

/-- In whatever order reports come in, and however often, each line has the same picked
elsewhere: what a report of those at the greatest moment says of it, or nothing where none
names it. -/
def SameInAnyOrder (file : OnFile) (reports : List Report) : Prop :=
  ∀ xs ys : List Arrival, (∀ r, r ∈ xs.map Arrival.report ↔ r ∈ reports) → (∀ r, r ∈ ys.map Arrival.report ↔ r ∈ reports) →
    ∀ line, externalPicked (reported file xs) line = externalPicked (reported file ys) line ∧
      ((∀ r ∈ reports, saysOf file r line = none) ∧ externalPicked (reported file xs) line = 0 ∨
        ∃ r ∈ reports, (∀ r' ∈ reports, (saysOf file r' line).isSome → r'.observedAt ≤ r.observedAt) ∧
          ∃ l ∈ r.lines, lineFor file r.fulfilmentId l.1 = some line ∧ externalPicked (reported file xs) line = l.2)

/-- The reports of a line at its greatest moment say the same of it. -/
def AgreeAtNewest (file : OnFile) (reports : List Report) : Prop :=
  ∀ line ∈ file.lines.map KeyedLine.id, ∀ r ∈ reports, ∀ r' ∈ reports, r.observedAt = r'.observedAt →
    (∀ s ∈ reports, (saysOf file s line).isSome → s.observedAt ≤ r.observedAt) →
      ∀ q ∈ saysOf file r line, ∀ q' ∈ saysOf file r' line, q = q'

instance (file : OnFile) (reports : List Report) : Decidable (AgreeAtNewest file reports) := by
  unfold AgreeAtNewest
  infer_instance

/-- Reports fold to one answer in any order just when those of a line at its greatest
moment agree. -/
theorem sameInAnyOrder_iff (file : OnFile) (reports : List Report) :
    SameInAnyOrder file reports ↔ AgreeAtNewest file reports := by
  constructor
  · intro hsame line _ r hr r' hr' hmoment hgreatest q hq q' hq'
    -- one of the two first, and then all of them
    have hvalue : ∀ r ∈ reports, (∀ s ∈ reports, (saysOf file s line).isSome → s.observedAt ≤ r.observedAt) →
        ∀ q ∈ saysOf file r line,
          externalPicked (reported file ((r :: reports).map fun r => (⟨r,0,fun i => i⟩ : Arrival))) line = q := by
      intro r hr hgreatest q hq
      rw [List.map_cons,← List.nil_append (_ :: _)]
      refine externalPicked_first (a := ⟨r,0,fun i => i⟩) hq (by simp) fun b hb => ?_
      have hbr : b.report ∈ reports := by
        rcases List.mem_cons.mp hb with rfl | hb
        · exact hr
        · obtain ⟨s,hs,rfl⟩ := List.mem_map.mp hb
          exact hs
      exact hgreatest b.report hbr
    have hall : ∀ r ∈ reports, ∀ s, s ∈ ((r :: reports).map fun r => (⟨r,0,fun i => i⟩ : Arrival)).map Arrival.report ↔
        s ∈ reports := by
      intro r hr s
      rw [List.map_map]
      have hid : (Arrival.report ∘ fun r => (⟨r,0,fun i => i⟩ : Arrival)) = id := rfl
      rw [hid,List.map_id,List.mem_cons]
      exact or_iff_right_of_imp fun heq => heq ▸ hr
    rw [← hvalue r hr hgreatest q hq,← hvalue r' hr' (hmoment ▸ hgreatest) q' hq']
    exact (hsame _ _ (hall r hr) (hall r' hr') line).1
  · intro hagree xs ys hxs hys line
    by_cases hnone : ∀ r ∈ reports, saysOf file r line = none
    · have hzero (zs : List Arrival) (hzs : ∀ r, r ∈ zs.map Arrival.report ↔ r ∈ reports) :
          externalPicked (reported file zs) line = 0 :=
        externalPicked_none fun a ha => hnone _ ((hzs _).mp (List.mem_map_of_mem ha))
      exact ⟨(hzero xs hxs).trans (hzero ys hys).symm,Or.inl ⟨hnone,hzero xs hxs⟩⟩
    · -- the first of those at the greatest moment, in either order
      have hfirst (zs : List Arrival) (hzs : ∀ r, r ∈ zs.map Arrival.report ↔ r ∈ reports) :
          ∃ r ∈ reports, (∀ s ∈ reports, (saysOf file s line).isSome → s.observedAt ≤ r.observedAt) ∧
            ∃ q ∈ saysOf file r line, externalPicked (reported file zs) line = q := by
        push Not at hnone
        obtain ⟨r,hr,hsome⟩ := hnone
        obtain ⟨a,ha,rfl⟩ := List.mem_map.mp ((hzs r).mpr hr)
        obtain ⟨before,b,after,q,rfl,hq,hbefore,hgreatest⟩ :=
          exists_first ⟨a,ha,Option.isSome_iff_ne_none.mpr hsome⟩
        refine ⟨b.report,(hzs _).mp (List.mem_map_of_mem (by simp)),fun s hs hssome => ?_,q,hq,
          externalPicked_first hq hbefore hgreatest⟩
        obtain ⟨c,hc,rfl⟩ := List.mem_map.mp ((hzs s).mpr hs)
        exact hgreatest c hc hssome
      obtain ⟨r,hr,hgreatest,q,hq,hx⟩ := hfirst xs hxs
      obtain ⟨r',hr',hgreatest',q',hq',hy⟩ := hfirst ys hys
      obtain ⟨l,hl,hline,rfl⟩ := saysOf_mem hq
      have hmoment : r.observedAt = r'.observedAt := le_antisymm
        (hgreatest' r hr (Option.isSome_of_mem hq)) (hgreatest r' hr' (Option.isSome_of_mem hq'))
      obtain ⟨k,hk,rfl,-⟩ := lineFor_eq_some hline
      have hsame := hagree k.id (List.mem_map_of_mem hk) r hr r' hr' hmoment hgreatest l.2 hq q' hq'
      exact ⟨by rw [hx,hy,hsame],Or.inr ⟨r,hr,hgreatest,l,hl,hline,hx⟩⟩

/-! Two reports of one line at one moment. -/

def oneLine : OnFile where
  lines := [⟨1,"900","1"⟩]
  ids := by decide
  keys := by decide

def pickedAt (n : ℕ) : Report := ⟨"900","IF1",1000,none,[("1",n)]⟩

/-- Five picked and three picked at one moment: whichever comes first stands. -/
theorem firstStands : reportable (some "Picked") (some "900") (some "IF1") (some 1000) none [(some "1",5)] = some (pickedAt 5) ∧
    reportable (some "Picked") (some "900") (some "IF1") (some 1000) none [(some "1",3)] = some (pickedAt 3) ∧
    externalPicked (reported oneLine [⟨pickedAt 5,0,fun i => i⟩,⟨pickedAt 3,1,fun i => i+1⟩]) 1 = 5 ∧
    externalPicked (reported oneLine [⟨pickedAt 3,0,fun i => i⟩,⟨pickedAt 5,1,fun i => i+1⟩]) 1 = 3 ∧
    ¬SameInAnyOrder oneLine [pickedAt 5,pickedAt 3] := by
  have hfive : externalPicked (reported oneLine [⟨pickedAt 5,0,fun i => i⟩,⟨pickedAt 3,1,fun i => i+1⟩]) 1 = 5 := by
    decide +kernel
  have hthree : externalPicked (reported oneLine [⟨pickedAt 3,0,fun i => i⟩,⟨pickedAt 5,1,fun i => i+1⟩]) 1 = 3 := by
    decide +kernel
  refine ⟨by decide +kernel,by decide +kernel,hfive,hthree,fun hsame => ?_⟩
  have heq := (hsame [⟨pickedAt 5,0,fun i => i⟩,⟨pickedAt 3,1,fun i => i+1⟩]
    [⟨pickedAt 3,0,fun i => i⟩,⟨pickedAt 5,1,fun i => i+1⟩] (fun r => by simp) (fun r => by simp [or_comm]) 1).1
  rw [hfive,hthree] at heq
  cases heq

end Importing
end Spork
