import Spork.Outbox.Writes

/-! The account one press keeps of what it takes: what its writes draw of each key is what
it has used, and no more than a line offers. -/
namespace Spork
namespace Writes

open Bench (Uuid Level PlannedParcel)
open Outbox (Text Place Picks Write BenchWrite)

/-- What a write draws, and what from. -/
def drawn : Write → Option (Key × ℤ)
  | .repack line (.location _) _ quantity => some (.bench line,quantity)
  | .pickInto _ stock _ quantity => some (.cell stock,quantity)
  | .handOver line quantity _ _ => some (.handover line,quantity)
  | _ => none

/-- What writes draw of a key together. -/
def drawnFrom (key : Key) (ws : List BenchWrite) : ℤ :=
  (((ws.filterMap fun w => drawn w.what).filter (·.1 = key)).map Prod.snd).sum

@[simp] theorem drawnFrom_append (key : Key) (xs ys : List BenchWrite) :
    drawnFrom key (xs++ys) = drawnFrom key xs+drawnFrom key ys := by
  simp [drawnFrom]

theorem drawnFrom_one {key k : Key} {n : ℤ} {w : BenchWrite} (h : drawn w.what = some (k,n)) :
    drawnFrom key [w] = if k = key then n else 0 := by
  by_cases hkey : k = key <;> simp [drawnFrom,h,hkey]

/-- A line offers so many from a key. -/
def Offers (line : BenchLine) (n : ℤ) : Key → Prop
  | .bench id => id = line.lineId ∧ n ≤ line.onBench
  | .cell stock => ∃ c ∈ line.cells, c.stock = stock ∧ n ≤ c.available
  | .handover id => id = line.lineId ∧ ∃ e ∈ line.elsewhere, n ≤ e.reported-e.handed

def Source.key (line : Uuid) : Source → Key
  | .bench _ => .bench line
  | .cell stock _ => .cell stock
  | .handover _ => .handover line

@[simp] theorem Source.key_bench (line : Uuid) (n : ℤ) : (Source.bench n).key line = .bench line := rfl

@[simp] theorem Source.key_cell (line stock : Uuid) (n : ℤ) : (Source.cell stock n).key line = .cell stock := rfl

@[simp] theorem Source.key_handover (line : Uuid) (n : ℤ) : (Source.handover n).key line = .handover line := rfl

/-- What sources take of a key together. -/
def takenFrom (line : Uuid) (key : Key) (srcs : List Source) : ℤ := total (srcs.filter (·.key line = key))

section Taken

variable {line : Uuid} {key : Key} {left n : ℤ}

@[simp] theorem takenFrom_nil : takenFrom line key [] = 0 := rfl

@[simp] theorem takenFrom_append (xs ys : List Source) :
    takenFrom line key (xs++ys) = takenFrom line key xs+takenFrom line key ys := by
  rw [takenFrom,List.filter_append,total_append]
  rfl

theorem takenFrom_cons (src : Source) (srcs : List Source) :
    takenFrom line key (src :: srcs) = (if src.key line = key then src.units else 0)+takenFrom line key srcs := by
  rw [takenFrom,List.filter_cons]
  split <;> rename_i h <;> simp_all [takenFrom,total]

theorem takenFrom_eq_zero {srcs : List Source} (h : ∀ src ∈ srcs, src.key line ≠ key) : takenFrom line key srcs = 0 := by
  rw [takenFrom,List.filter_eq_nil_iff.mpr fun src hsrc => by simpa using h src hsrc]
  rfl

/-- What is given is of one key. -/
theorem takenFrom_given (src : Source) (hn : 0 ≤ n) (hunits : src.units = n) :
    takenFrom line key (given n src) = if src.key line = key then n else 0 := by
  split
  · rename_i hkey
    rw [takenFrom,List.filter_eq_self.mpr,total_given hn hunits]
    intro s hs
    rw [(mem_given.mp hs).2]
    simpa using hkey
  · rename_i hkey
    refine takenFrom_eq_zero fun s hs => ?_
    rwa [(mem_given.mp hs).2]

theorem mem_fromCells {cells : List Cell} {src : Source} (h : src ∈ (fromCells left cells).1) :
    ∃ c ∈ cells, ∃ n, src = .cell c.stock n ∧ 0 < n := by
  induction cells generalizing left with
  | nil => cases h
  | cons c cells ih =>
    rw [fromCells] at h
    rcases List.mem_append.mp h with h | h
    · obtain ⟨hpos,rfl⟩ := mem_given.mp h
      exact ⟨c,List.mem_cons_self,_,rfl,hpos⟩
    · obtain ⟨d,hd,hsrc⟩ := ih h
      exact ⟨d,List.mem_cons_of_mem c hd,hsrc⟩

/-- No more is taken of a cell than is available there. -/
theorem takenFrom_cells (h : 0 ≤ left) {cells : List Cell} (hcells : (cells.map Cell.stock).Nodup) (stock : Uuid) :
    takenFrom line (.cell stock) (fromCells left cells).1 = 0 ∨
    0 < takenFrom line (.cell stock) (fromCells left cells).1 ∧ ∃ c ∈ cells, c.stock = stock ∧
      takenFrom line (.cell stock) (fromCells left cells).1 ≤ c.available := by
  induction cells generalizing left with
  | nil => exact Or.inl rfl
  | cons c cells ih =>
    obtain ⟨hfirst,hrest⟩ := List.nodup_cons.mp hcells
    have htake : 0 ≤ take left c.available := take_nonneg h
    have hle : take left c.available ≤ left := take_le
    have hmax : take left c.available ≤ max 0 c.available := take_le_max
    rw [fromCells]
    dsimp only
    rw [takenFrom_append,takenFrom_given (.cell c.stock (take left c.available)) htake rfl,Source.key_cell]
    by_cases hstock : c.stock = stock
    · have hnone : takenFrom line (.cell stock) (fromCells (left-take left c.available) cells).1 = 0 := by
        refine takenFrom_eq_zero fun src hsrc hkey => ?_
        obtain ⟨d,hd,n,rfl,-⟩ := mem_fromCells hsrc
        exact hfirst (List.mem_map.mpr ⟨d,hd,(Key.cell.inj hkey).trans hstock.symm⟩)
      rw [hnone,if_pos (congrArg Key.cell hstock),add_zero]
      rcases htake.eq_or_lt with hzero | hpos
      · exact Or.inl hzero.symm
      · exact Or.inr ⟨hpos,c,List.mem_cons_self,hstock,by omega⟩
    · rw [if_neg fun hkey => hstock (Key.cell.inj hkey),zero_add]
      rcases @ih (left-take left c.available) (by omega) hrest with hzero | ⟨hpos,d,hd,hoffers⟩
      · exact Or.inl hzero
      · exact Or.inr ⟨hpos,d,List.mem_cons_of_mem c hd,hoffers⟩

end Taken

/-- Nothing is taken of a key, or no more than the line offers. -/
theorem takenFrom_sourcesFor (line : BenchLine) {units : ℤ} (h : 0 ≤ units) (key : Key) :
    takenFrom line.lineId key (sourcesFor line units).1 = 0 ∨
    0 < takenFrom line.lineId key (sourcesFor line units).1 ∧
      Offers line (takenFrom line.lineId key (sourcesFor line units).1) key := by
  have hbench : 0 ≤ take units line.onBench := take_nonneg h
  have hle : take units line.onBench ≤ units := take_le
  obtain ⟨-,hrest⟩ := fromCells_total (by omega : 0 ≤ units-take units line.onBench) line.cells
  have hcells : ∀ src ∈ (fromCells (units-take units line.onBench) line.cells).1, ∃ s, src.key line.lineId = .cell s := by
    intro src hsrc
    obtain ⟨c,-,n,rfl,-⟩ := mem_fromCells hsrc
    exact ⟨c.stock,rfl⟩
  have hnot : ∀ k, (∀ s, k ≠ .cell s) →
      takenFrom line.lineId k (fromCells (units-take units line.onBench) line.cells).1 = 0 := by
    intro k hk
    refine takenFrom_eq_zero fun src hsrc hkey => ?_
    obtain ⟨s,hs⟩ := hcells src hsrc
    exact hk s (hkey.symm.trans hs)
  obtain ⟨handed,hhanded⟩ : ∃ n, line.elsewhere.elim 0 (fun e => take
      (fromCells (units-take units line.onBench) line.cells).2 (e.reported-e.handed)) = n := ⟨_,rfl⟩
  have howed : 0 ≤ handed ∧ (handed = 0 ∨ ∃ e ∈ line.elsewhere, handed ≤ max 0 (e.reported-e.handed)) := by
    rw [← hhanded]
    cases line.elsewhere with
    | none => exact ⟨le_rfl,Or.inl rfl⟩
    | some e => exact ⟨take_nonneg hrest,Or.inr ⟨e,rfl,take_le_max⟩⟩
  rw [sourcesFor]
  dsimp only
  rw [hhanded,takenFrom_append,takenFrom_append,
    takenFrom_given (.bench (take units line.onBench)) hbench rfl,takenFrom_given (.handover handed) howed.1 rfl,
    Source.key_bench,Source.key_handover]
  cases key with
  | bench id =>
    have hmax : take units line.onBench ≤ max 0 line.onBench := take_le_max
    rw [hnot _ (by simp),if_neg (by simp : ¬Key.handover line.lineId = .bench id)]
    by_cases hid : line.lineId = id
    · rw [if_pos (congrArg Key.bench hid)]
      rcases hbench.eq_or_lt with hzero | hpos
      · exact Or.inl (by omega)
      · exact Or.inr ⟨by omega,hid.symm,by omega⟩
    · rw [if_neg fun hkey => hid (Key.bench.inj hkey)]
      exact Or.inl rfl
  | cell stock =>
    rw [if_neg (by simp : ¬Key.bench line.lineId = .cell stock),
      if_neg (by simp : ¬Key.handover line.lineId = .cell stock),zero_add,add_zero]
    exact takenFrom_cells (by omega) line.cells_once stock
  | handover id =>
    rw [hnot _ (by simp),if_neg (by simp : ¬Key.bench line.lineId = .handover id),zero_add,zero_add]
    by_cases hid : line.lineId = id
    · rw [if_pos (congrArg Key.handover hid)]
      rcases howed with ⟨hnonneg,hzero | ⟨e,he,hle⟩⟩
      · exact Or.inl hzero
      · rcases hnonneg.eq_or_lt with hzero | hpos
        · exact Or.inl hzero.symm
        · exact Or.inr ⟨hpos,hid.symm,e,he,by omega⟩
    · rw [if_neg fun hkey => hid (Key.handover.inj hkey)]
      exact Or.inl rfl

/-- What a line offers less what is used of a key is offered with what is used. -/
theorem offers_less {used : Key → ℤ} {line : BenchLine} {n : ℤ} {key : Key} (h : Offers (less used line) n key) :
    Offers line (used key+n) key := by
  cases key with
  | bench id =>
    obtain ⟨rfl,hn⟩ := h
    refine ⟨rfl,?_⟩
    change n ≤ line.onBench-used (.bench line.lineId) at hn
    change used (.bench line.lineId)+n ≤ line.onBench
    omega
  | cell stock =>
    obtain ⟨c,hc,rfl,hn⟩ := h
    obtain ⟨d,hd,rfl⟩ := List.mem_map.mp hc
    refine ⟨d,hd,rfl,?_⟩
    change n ≤ d.available-used (.cell d.stock) at hn
    change used (.cell d.stock)+n ≤ d.available
    omega
  | handover id =>
    obtain ⟨rfl,e,he,hn⟩ := h
    obtain ⟨d,hd,rfl⟩ := Option.map_eq_some_iff.mp he
    refine ⟨rfl,d,hd,?_⟩
    change n ≤ d.reported-(d.handed+used (.handover line.lineId)) at hn
    change used (.handover line.lineId)+n ≤ d.reported-d.handed
    omega

/-! ## The account -/

/-- What has been used of a key is what the writes draw of it: nothing, or no more than some
line offers. -/
structure Within (screen : BenchScreen) (w : Writer) : Prop where
  drawn : ∀ key, w.used key = drawnFrom key w.writes
  offered : ∀ key, w.used key = 0 ∨ 0 < w.used key ∧ ∃ line ∈ screen.lines, Offers line (w.used key) key

theorem within_start (screen : BenchScreen) : Within screen start := ⟨fun _ => rfl,fun _ => Or.inl rfl⟩

/-- A put that was asked for: at its part, so many of a line into a carton. -/
structure Put where
  part : Text
  line : Uuid
  units : ℤ
  carton : Uuid
  deriving DecidableEq, Repr

/-- A put and the writes it made. -/
abbrev Filling := Put × List BenchWrite

def isDrawing (w : BenchWrite) : Bool := (drawn w.what).isSome

/-- So many units went in. -/
def went (g : Filling) : ℤ := ((g.2.filterMap fun w => drawn w.what).map Prod.snd).sum

/-- A write puts some of a put's line into its carton. -/
def Fills (p : Put) (w : BenchWrite) : Prop :=
  ∃ q > 0, (∃ location, w.what = .repack p.line (.location location) (.package p.carton) q) ∨
    (∃ stock, w.what = .pickInto p.line stock p.carton q) ∨ w.what = .handOver p.line q (some p.carton) none

/-- The units asked went in, or as many of them as were here. -/
structure Filled (g : Filling) : Prop where
  fills : ∀ w ∈ g.2, Fills g.1 w
  some_went : 0 < went g
  no_more : went g ≤ g.1.units

/-- The note of a put that fell short: how many of how many went in. -/
def noteOf (screen : BenchScreen) (g : Filling) : Option String :=
  if went g < g.1.units then
    (screen.lines.find? (·.lineId = g.1.line)).map fun l => short g.1.units (g.1.units-went g) l.itemCode
  else none

/-- What a stretch of a press adds: writes, the puts among them each filled, and their
notes, all within the account. -/
structure Grown (screen : BenchScreen) (puts : List Put) (w w' : Writer) (ws : List BenchWrite) : Prop where
  writes : w'.writes = w.writes++ws
  fillings : ∃ groups : List Filling, groups.map Prod.fst = puts ∧ ws.filter isDrawing = groups.flatMap Prod.snd ∧
    w'.notes = w.notes++groups.filterMap (noteOf screen) ∧ ∀ g ∈ groups, Filled g
  within : Within screen w → Within screen w'

variable {screen : BenchScreen} {puts more : List Put} {w w' w'' : Writer} {xs ys : List BenchWrite}

theorem Grown.refl (w : Writer) : Grown screen [] w w [] :=
  ⟨(List.append_nil _).symm,⟨[],rfl,rfl,(List.append_nil _).symm,by simp⟩,id⟩

theorem Grown.trans (h : Grown screen puts w w' xs) (h' : Grown screen more w' w'' ys) :
    Grown screen (puts++more) w w'' (xs++ys) where
  writes := by rw [h'.writes,h.writes,List.append_assoc]
  fillings := by
    obtain ⟨gs,hputs,hws,hnotes,hfilled⟩ := h.fillings
    obtain ⟨gs',hputs',hws',hnotes',hfilled'⟩ := h'.fillings
    refine ⟨gs++gs',by rw [List.map_append,hputs,hputs'],by rw [List.filter_append,hws,hws',List.flatMap_append],
      by rw [hnotes',hnotes,List.filterMap_append,List.append_assoc],fun g hg => ?_⟩
    rcases List.mem_append.mp hg with hg | hg
    · exact hfilled g hg
    · exact hfilled' g hg
  within := fun hw => h'.within (h.within hw)

/-- A write that draws nothing. -/
theorem Grown.push (w : Writer) (part : Text) {what : Write} (h : drawn what = none) :
    Grown screen [] w (w.push part what) [⟨part,what⟩] where
  writes := rfl
  fillings := ⟨[],rfl,by simp [isDrawing,h],(List.append_nil _).symm,by simp⟩
  within := fun hw => by
    refine ⟨fun key => ?_,hw.offered⟩
    have hnothing : drawnFrom key [⟨part,what⟩] = 0 := by simp [drawnFrom,h]
    change w.used key = drawnFrom key (w.writes++[⟨part,what⟩])
    rw [drawnFrom_append,hnothing,add_zero,hw.drawn]

/-! ## A put -/

/-- What a source's write does. -/
def sourceWrite (location line carton : Uuid) : Source → Write
  | .bench units => .repack line (.location location) (.package carton) units
  | .cell stock units => .pickInto line stock carton units
  | .handover units => .handOver line units (some carton) none

theorem drawn_sourceWrite (location line carton : Uuid) (src : Source) :
    drawn (sourceWrite location line carton src) = some (src.key line,src.units) := by
  cases src <;> rfl

/-- Its part: the put's, which of the put's it is, and what it takes from. -/
def sourcePart (part : Text) (src : Source × ℕ) : Text := under part (Numerals.digits src.2++ ':' :: src.1.kind)

theorem writeSource_ok {line carton : Uuid} {part : Text} {src : Source × ℕ}
    (h : writeSource screen line carton part w src = .ok w') :
    w' = (w.use (src.1.key line) src.1.units).push (sourcePart part src)
      (sourceWrite (screen.staging.getD 0) line carton src.1) := by
  obtain ⟨src,i⟩ := src
  cases src with
  | bench units =>
    obtain ⟨location,hlocation,hok⟩ := Fallible.bind_ok_iff.mp h
    cases hok
    have hstaging : screen.staging = some location := by
      rw [bench] at hlocation
      cases hs : screen.staging with
      | none =>
        rw [hs] at hlocation
        cases hlocation
      | some l =>
        rw [hs] at hlocation
        cases hlocation
        rfl
    rw [hstaging]
    rfl
  | cell stock units =>
    cases h
    rfl
  | handover units =>
    cases h
    rfl

/-- The sources' writes one after another. -/
def sourceWrites (screen : BenchScreen) (line carton : Uuid) (part : Text) (srcs : List (Source × ℕ)) :
    List BenchWrite :=
  srcs.map fun src => ⟨sourcePart part src,sourceWrite (screen.staging.getD 0) line carton src.1⟩

theorem sourceWrites_cons (line carton : Uuid) (part : Text) (src : Source × ℕ) (srcs : List (Source × ℕ)) :
    sourceWrites screen line carton part (src :: srcs) =
      [⟨sourcePart part src,sourceWrite (screen.staging.getD 0) line carton src.1⟩]++
        sourceWrites screen line carton part srcs := rfl

theorem writeSources_ok {line carton : Uuid} {part : Text} {srcs : List (Source × ℕ)}
    (h : srcs.foldlM (writeSource screen line carton part) w = .ok w') :
    w'.writes = w.writes++sourceWrites screen line carton part srcs ∧ w'.notes = w.notes ∧
      ∀ key, w'.used key = w.used key+takenFrom line key (srcs.map Prod.fst) := by
  induction srcs generalizing w with
  | nil =>
    cases h
    exact ⟨(List.append_nil _).symm,rfl,fun key => (add_zero _).symm⟩
  | cons src srcs ih =>
    rw [List.foldlM_cons] at h
    obtain ⟨w₁,hone,hrest⟩ := Fallible.bind_ok_iff.mp h
    obtain ⟨hwrites,hnotes,hused⟩ := ih hrest
    rw [writeSource_ok hone] at hwrites hnotes hused
    refine ⟨?_,hnotes,fun key => ?_⟩
    · rw [hwrites,sourceWrites_cons,← List.append_assoc]
      rfl
    · rw [hused key,List.map_cons,takenFrom_cons,← add_assoc]
      refine congrArg (·+_) ?_
      change Function.update w.used (src.1.key line) (w.used (src.1.key line)+src.1.units) key = _
      by_cases hkey : src.1.key line = key
      · rw [if_pos hkey,← hkey,Function.update_self]
      · rw [if_neg hkey,Function.update_of_ne (Ne.symm hkey),add_zero]

/-- The writes of sources draw what the sources take. -/
theorem drawnFrom_sourceWrites (line carton : Uuid) (part : Text) (srcs : List (Source × ℕ)) (key : Key) :
    drawnFrom key (sourceWrites screen line carton part srcs) = takenFrom line key (srcs.map Prod.fst) := by
  induction srcs with
  | nil => rfl
  | cons src srcs ih =>
    rw [sourceWrites_cons,drawnFrom_append,ih,List.map_cons,takenFrom_cons,
      drawnFrom_one (drawn_sourceWrite (screen.staging.getD 0) line carton src.1)]

theorem went_sourceWrites (p : Put) (srcs : List (Source × ℕ)) :
    went (p,sourceWrites screen p.line p.carton p.part srcs) = total (srcs.map Prod.fst) := by
  induction srcs with
  | nil => rfl
  | cons src srcs ih =>
    have hcons : went (p,sourceWrites screen p.line p.carton p.part (src :: srcs)) =
        src.1.units+went (p,sourceWrites screen p.line p.carton p.part srcs) := by
      simp [went,sourceWrites_cons,drawn_sourceWrite]
    rw [hcons,ih]
    simp [total]

theorem isDrawing_sourceWrites (line carton : Uuid) (part : Text) (srcs : List (Source × ℕ)) :
    (sourceWrites screen line carton part srcs).filter isDrawing = sourceWrites screen line carton part srcs := by
  refine List.filter_eq_self.mpr fun x hx => ?_
  obtain ⟨src,-,rfl⟩ := List.mem_map.mp hx
  rw [isDrawing,drawn_sourceWrite]
  rfl

theorem fills_sourceWrites (p : Put) {srcs : List (Source × ℕ)} (h : ∀ src ∈ srcs, 0 < src.1.units) :
    ∀ x ∈ sourceWrites screen p.line p.carton p.part srcs, Fills p x := by
  intro x hx
  obtain ⟨⟨src,i⟩,hsrc,rfl⟩ := List.mem_map.mp hx
  have hpos := h _ hsrc
  cases src with
  | bench units => exact ⟨units,hpos,Or.inl ⟨_,rfl⟩⟩
  | cell stock units => exact ⟨units,hpos,Or.inr (Or.inl ⟨stock,rfl⟩)⟩
  | handover units => exact ⟨units,hpos,Or.inr (Or.inr rfl)⟩

/-- Every source found gives something. -/
theorem sourcesFor_pos (line : BenchLine) (units : ℤ) : ∀ src ∈ (sourcesFor line units).1, 0 < src.units := by
  intro src hsrc
  rw [sourcesFor] at hsrc
  rcases List.mem_append.mp hsrc with hsrc | hsrc
  · rcases List.mem_append.mp hsrc with hsrc | hsrc
    · obtain ⟨hpos,rfl⟩ := mem_given.mp hsrc
      exact hpos
    · obtain ⟨c,-,n,rfl,hpos⟩ := mem_fromCells hsrc
      exact hpos
  · obtain ⟨hpos,rfl⟩ := mem_given.mp hsrc
    exact hpos

theorem total_pos {srcs : List Source} (hne : srcs ≠ []) (h : ∀ src ∈ srcs, 0 < src.units) : 0 < total srcs := by
  obtain ⟨src,rest,rfl⟩ := List.exists_cons_of_ne_nil hne
  have hrest : 0 ≤ total rest := List.sum_nonneg fun n hn => by
    obtain ⟨s,hs,rfl⟩ := List.mem_map.mp hn
    exact (h s (List.mem_cons_of_mem src hs)).le
  have hfirst := h src List.mem_cons_self
  have hcons : total (src :: rest) = src.units+total rest := by simp [total]
  omega

/-- What a put takes stays within the account. -/
theorem within_put {line : BenchLine} {carton : Uuid} {part : Text} {units : ℤ} (hline : line ∈ screen.lines)
    (hunits : 0 ≤ units) (hw : Within screen w)
    (hwrites : w'.writes = w.writes++
      sourceWrites screen line.lineId carton part (sourcesFor (less w.used line) units).1.zipIdx)
    (hused : ∀ key, w'.used key = w.used key+takenFrom line.lineId key (sourcesFor (less w.used line) units).1) :
    Within screen w' := by
  refine ⟨fun key => ?_,fun key => ?_⟩
  · rw [hused key,hwrites,drawnFrom_append,drawnFrom_sourceWrites,List.zipIdx_map_fst,hw.drawn key]
  · rw [hused key]
    have hoffered := hw.offered key
    have hused : 0 ≤ w.used key := by omega
    rcases takenFrom_sourcesFor (less w.used line) hunits key with hzero | ⟨hpos,hoffers⟩
    · change takenFrom line.lineId key _ = 0 at hzero
      rwa [hzero,add_zero]
    · change 0 < takenFrom line.lineId key _ at hpos
      exact Or.inr ⟨by omega,line,hline,offers_less hoffers⟩

theorem put_grown {line : Uuid} {units : ℤ} {carton : Uuid} {part : Text}
    (h : put screen line units carton part w = .ok w') :
    ∃ srcs, Grown screen [⟨part,line,units,carton⟩] w w' (sourceWrites screen line carton part (List.zipIdx srcs)) := by
  rw [put] at h
  cases hfind : screen.lines.find? (·.lineId = line) with
  | none =>
    rw [hfind] at h
    cases h
  | some l =>
    rw [hfind] at h
    obtain rfl : l.lineId = line := by simpa using List.find?_some hfind
    have hmem : l ∈ screen.lines := List.mem_of_find?_eq_some hfind
    dsimp only at h
    have hsum := @sourcesFor_total units (less w.used l)
    have hnonpos := @sourcesFor_nonpos units (less w.used l)
    have hpos := sourcesFor_pos (less w.used l) units
    have hwithin := @within_put screen w w' l carton part units hmem
    revert h hsum hnonpos hpos hwithin
    generalize sourcesFor (less w.used l) units = found
    intro h hsum hnonpos hpos hwithin
    obtain ⟨srcs,left⟩ := found
    dsimp only at h hsum hnonpos hpos hwithin
    split at h
    · cases h
    · rename_i hne
      have hunits : 0 < units := by
        by_contra hle
        exact hne (hnonpos (not_lt.mp hle))
      obtain ⟨htotal,hleft⟩ := hsum hunits.le
      obtain ⟨w₁,hfold,hlast⟩ := Fallible.bind_ok_iff.mp h
      obtain ⟨hwrites,hnotes,hused⟩ := writeSources_ok hfold
      rw [List.zipIdx_map_fst] at hused
      have hsame : w'.writes = w₁.writes ∧ w'.used = w₁.used ∧
          w'.notes = w₁.notes++if 0 < left then [short units left l.itemCode] else [] := by
        cases hlast
        split <;> simp
      obtain ⟨hsameWrites,hsameUsed,hsameNotes⟩ := hsame
      have hwent : went (⟨part,l.lineId,units,carton⟩,sourceWrites screen l.lineId carton part srcs.zipIdx) =
          total srcs := (went_sourceWrites _ _).trans (by rw [List.zipIdx_map_fst])
      refine ⟨srcs,hsameWrites.trans hwrites,?_,fun hw => ?_⟩
      · refine ⟨[(⟨part,l.lineId,units,carton⟩,sourceWrites screen l.lineId carton part srcs.zipIdx)],rfl,?_,?_,?_⟩
        · exact (isDrawing_sourceWrites _ _ _ _).trans (by simp)
        · rw [hsameNotes,hnotes]
          refine congrArg (w.notes++·) ?_
          rw [List.filterMap_cons,List.filterMap_nil,noteOf,hwent]
          by_cases hless : 0 < left
          · have hshort : units-total srcs = left := by omega
            rw [if_pos hless,if_pos (by change total srcs < units; omega),hfind]
            change _ = [short units (units-total srcs) l.itemCode]
            rw [hshort]
          · rw [if_neg hless,if_neg (by change ¬total srcs < units; omega)]
        · rintro g hg
          obtain rfl := List.mem_singleton.mp hg
          refine ⟨fills_sourceWrites ⟨part,l.lineId,units,carton⟩ fun src hsrc => hpos _ ?_,?_,?_⟩
          · have hmap := List.mem_map_of_mem (f := Prod.fst) hsrc
            rwa [List.zipIdx_map_fst] at hmap
          · rw [hwent]
            exact total_pos hne hpos
          · rw [hwent]
            change total srcs ≤ units
            omega
      · refine hwithin hunits.le hw (hsameWrites.trans hwrites) fun key => ?_
        rw [hsameUsed]
        exact hused key

end Writes
end Spork
