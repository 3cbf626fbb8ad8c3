import Spork.Outbox.Kept

/-! One outbox over the device's list: the parts its drains have of its log, and that no
act leaves it unheard. -/
namespace Spork
namespace Outbox

variable {T P R : Type}

/-- What ends a drain's part of the log: the next drain, or a reload. -/
def opens : Happening Unit T R → Bool
  | .drains _ _ _ => true
  | .closed _ => true
  | _ => false

/-- What a drain that is under way has not told. -/
def goesOn : Happening Unit T R → Bool
  | .stuck _ _ => false
  | .ended _ _ _ => false
  | h => !opens h

/-- The part of the log, from a drain's start, that is its own. -/
def ofDrain (log : List (Happening Unit T R)) : List (Happening Unit T R) := log.takeWhile fun h => !opens h

def comeTo : Happening Unit T R → Option String
  | .passes _ key => some key
  | .starts _ entry => some entry.key
  | _ => none

/-- The keys a drain has come to, in turn. -/
def visited (log : List (Happening Unit T R)) : List String := log.filterMap comeTo

/-- A drain goes through what it listed in its order, starts no send after one that failed
for a while, and is over before it has come to all of it only after such a failure. -/
structure Walked (listed : List (Held T)) (d : List (Happening Unit T R)) : Prop where
  visits : visited d <+: keys listed
  stops : ∀ a key b, d = a++.stuck () key :: b → ∀ entry, .starts () entry ∉ b
  whole : ∀ owner n, .ended () owner n ∈ d → (∃ key, .stuck () key ∈ d) ∨ visited d = keys listed

def Past (log : List (Happening Unit T R)) : Prop :=
  ∀ l owner listed m, log = l++.drains () owner listed :: m → Walked listed (ofDrain m)

/-- The log of a drain under way, and what it has ahead. -/
def Walking (log : List (Happening Unit T R)) (d : Drain T P) : Prop :=
  ∃ l listed m, log = l++.drains () d.owner listed :: m ∧ (∀ h ∈ m, goesOn h = true) ∧
    keys listed = visited m++keys d.rest

theorem visited_append (m hs : List (Happening Unit T R)) : visited (m++hs) = visited m++visited hs :=
  List.filterMap_append

theorem not_opens {h : Happening Unit T R} (hon : goesOn h = true) : opens h = false := by
  cases h <;> first | rfl | cases hon

/-- A log has one last drain. -/
theorem split_unique {l l' m m' : List (Happening Unit T R)} {a a' : Happening Unit T R}
    (h : l++a :: m = l'++a' :: m') (ha : opens a = true) (ha' : opens a' = true)
    (hm : ∀ x ∈ m, opens x = false) (hm' : ∀ x ∈ m', opens x = false) : a = a' ∧ m = m' := by
  induction l generalizing l' with
  | nil =>
    cases l' with
    | nil =>
      rw [List.nil_append,List.nil_append] at h
      cases h
      exact ⟨rfl,rfl⟩
    | cons x xs =>
      rw [List.nil_append,List.cons_append] at h
      cases h
      exact absurd ha' (by rw [hm a' (by simp)]; simp)
  | cons y ys ih =>
    cases l' with
    | nil =>
      rw [List.nil_append,List.cons_append] at h
      cases h
      exact absurd ha (by rw [hm' a (by simp)]; simp)
    | cons x xs =>
      rw [List.cons_append,List.cons_append] at h
      exact ih (List.cons.inj h).2

/-- More of a log, none of it a drain's start: only its last drain's part grows. -/
theorem Past.append {log hs : List (Happening Unit T R)} (hpast : Past log) (hs' : ∀ h ∈ hs, opens h = false)
    (hlast : ∀ l owner listed m, log = l++.drains () owner listed :: m → (∀ h ∈ m, opens h = false) →
      Walked listed m → Walked listed (m++hs)) : Past (log++hs) := by
  intro l owner listed m hsplit
  rcases List.append_eq_append_iff.mp hsplit with ⟨a,-,hrest⟩ | ⟨c,hlog,hrest⟩
  · exact absurd (hs' (.drains () owner listed) (by rw [hrest]; simp)) (by simp [opens])
  · cases c with
    | nil => exact absurd (hs' (.drains () owner listed) (by rw [← List.nil_append hs,← hrest]; simp)) (by simp [opens])
    | cons x c =>
      rw [List.cons_append] at hrest
      cases hrest
      have hbefore := hpast l owner listed c hlog
      have hall : hs.takeWhile (fun h => !opens h) = hs :=
        List.takeWhile_eq_self_iff.mpr fun h hh => by simp [hs' h hh]
      rw [ofDrain,List.takeWhile_append]
      split
      · rename_i hlen
        have hc : c.takeWhile (fun h => !opens h) = c := (List.takeWhile_prefix _).eq_of_length hlen
        rw [ofDrain,hc] at hbefore
        rw [hall]
        exact hlast l owner listed c hlog (fun h hh => by simpa using List.takeWhile_eq_self_iff.mp hc h hh) hbefore
      · exact hbefore

/-- A drain's start, or a reload, ends the part of the drain before. -/
theorem Past.opened {log : List (Happening Unit T R)} {h : Happening Unit T R} (hpast : Past log)
    (hopen : opens h = true) : Past (log++[h]) := by
  intro l owner listed m hsplit
  rcases List.append_eq_append_iff.mp hsplit with ⟨a,-,hrest⟩ | ⟨c,hlog,hrest⟩
  · have hm : m = [] := by
      cases a with
      | nil => exact (List.cons.inj hrest).2.symm
      | cons x a =>
        have hnil := (List.cons.inj hrest).2
        simp at hnil
    subst hm
    exact ⟨by simp [ofDrain,visited],by simp [ofDrain],by simp [ofDrain]⟩
  · cases c with
    | nil =>
      cases (List.cons.inj hrest).2
      exact ⟨by simp [ofDrain,visited],by simp [ofDrain],by simp [ofDrain]⟩
    | cons x c =>
      rw [List.cons_append] at hrest
      cases hrest
      have hbefore := hpast l owner listed c hlog
      rw [ofDrain,List.takeWhile_append]
      split
      · rename_i hlen
        have hc : c.takeWhile (fun h => !opens h) = c := (List.takeWhile_prefix _).eq_of_length hlen
        rw [ofDrain,hc] at hbefore
        simpa [hopen] using hbefore
      · exact hbefore

/-- Nothing of a drain's. -/
def neutral (h : Happening Unit T R) : Bool := goesOn h && (comeTo h).isNone

/-- What is not of a drain's changes nothing of its part. -/
theorem Walked.neutral {listed : List (Held T)} {m : List (Happening Unit T R)} {h : Happening Unit T R}
    (hw : Walked listed m) (hh : Outbox.neutral h = true) : Walked listed (m++[h]) := by
  have hvis : visited (m++[h]) = visited m := by
    have hcome : comeTo h = none := by
      rw [Outbox.neutral,Bool.and_eq_true,Option.isNone_iff_eq_none] at hh
      exact hh.2
    rw [visited_append]
    simp [visited,hcome]
  constructor
  · rw [hvis]
    exact hw.visits
  · intro a key b hsplit entry hmem
    rcases List.append_eq_append_iff.mp hsplit with ⟨c,-,hrest⟩ | ⟨c,hm,hrest⟩
    · have hstuck : (.stuck () key : Happening Unit T R) ∈ [h] := by rw [hrest]; simp
      rw [List.mem_singleton] at hstuck
      subst hstuck
      cases hh
    · cases c with
      | nil =>
        cases (List.cons.inj hrest).1
        cases hh
      | cons x c =>
        rw [List.cons_append] at hrest
        cases hrest
        rcases List.mem_append.mp hmem with hin | hin
        · exact hw.stops a key c hm entry hin
        · cases List.mem_singleton.mp hin
          cases hh
  · intro owner n hmem
    rw [hvis]
    rcases List.mem_append.mp hmem with hin | hin
    · rcases hw.whole owner n hin with ⟨key,hkey⟩ | hall
      · exact Or.inl ⟨key,List.mem_append_left _ hkey⟩
      · exact Or.inr hall
    · cases List.mem_singleton.mp hin
      cases hh

/-- What a drain under way tells next: what it comes to, or its end. -/
theorem Walked.extend {listed : List (Held T)} {m hs : List (Happening Unit T R)} (hon : ∀ h ∈ m, goesOn h = true)
    (hvis : visited (m++hs) <+: keys listed) (hstops : ∀ entry, .starts () entry ∈ hs → ∀ key, .stuck () key ∉ hs)
    (hwhole : ∀ owner n, .ended () owner n ∈ hs → (∃ key, .stuck () key ∈ hs) ∨ visited (m++hs) = keys listed) :
    Walked listed (m++hs) := by
  have hm : ∀ x ∈ m, ∀ key, x ≠ .stuck () key := fun x hx key heq => by
    have hgoes := hon x hx
    rw [heq] at hgoes
    cases hgoes
  constructor
  · exact hvis
  · intro a key b hsplit entry hmem
    rcases List.append_eq_append_iff.mp hsplit with ⟨c,-,hrest⟩ | ⟨c,hmsplit,hrest⟩
    · refine hstops entry ?_ key ?_ <;> rw [hrest]
      · exact List.mem_append_right _ (List.mem_cons_of_mem _ hmem)
      · simp
    · cases c with
      | nil =>
        refine hstops entry ?_ key ?_ <;> rw [← List.nil_append hs,← hrest]
        · exact List.mem_cons_of_mem _ hmem
        · simp
      | cons x c =>
        cases (List.cons.inj hrest).1
        exact absurd rfl (hm _ (by rw [hmsplit]; simp) key)
  · intro owner n hmem
    rcases List.mem_append.mp hmem with hin | hin
    · cases hon _ hin
    · rcases hwhole owner n hin with ⟨key,hkey⟩ | hall
      · exact Or.inl ⟨key,List.mem_append_right _ hkey⟩
      · exact Or.inr hall

variable {w w' : World Unit T P R} {e : Event Unit T P R}

/-- The log's drains as they should be, and the one under way as far as it is. -/
def DrainLog (w : World Unit T P R) : Prop :=
  Past w.log ∧ ∀ d, (w.tabs ()).draining = some d → Walking w.log d

/-- A drain goes on over what is not of it. -/
theorem DrainLog.neutral {h : Happening Unit T R} (hlog : DrainLog w) (hw : w'.log = w.log++[h])
    (hh : Outbox.neutral h = true)
    (hd : ∀ d, (w'.tabs ()).draining = some d →
      ∃ d', (w.tabs ()).draining = some d' ∧ d'.owner = d.owner ∧ d'.rest = d.rest) : DrainLog w' := by
  have hgoes : goesOn h = true := ((Bool.and_eq_true _ _).mp hh).1
  have hcome : comeTo h = none := by
    rw [Outbox.neutral,Bool.and_eq_true,Option.isNone_iff_eq_none] at hh
    exact hh.2
  constructor
  · rw [hw]
    refine hlog.1.append (fun x hx => ?_) fun l owner listed m _ _ hwalked => hwalked.neutral hh
    rw [List.mem_singleton.mp hx]
    exact not_opens hgoes
  · intro d hdraining
    obtain ⟨d',hd',howner,hrest⟩ := hd d hdraining
    obtain ⟨l,listed,m,hsplit,hon,hkeys⟩ := hlog.2 d' hd'
    refine ⟨l,listed,m++[h],?_,?_,?_⟩
    · rw [hw,hsplit,← howner,List.append_assoc,List.cons_append]
    · intro x hx
      rcases List.mem_append.mp hx with hx | hx
      · exact hon x hx
      · rwa [List.mem_singleton.mp hx]
    · rw [visited_append,← hrest,hkeys]
      simp [visited,hcome]

/-- The part of the log of the drain under way grows. -/
theorem DrainLog.past {hs : List (Happening Unit T R)} {d : Drain T P} (hlog : DrainLog w)
    (hd : (w.tabs ()).draining = some d) (hs' : ∀ h ∈ hs, opens h = false)
    (hlast : ∀ l listed m, w.log = l++.drains () d.owner listed :: m → (∀ h ∈ m, goesOn h = true) →
      keys listed = visited m++keys d.rest → Walked listed (m++hs)) : Past (w.log++hs) := by
  obtain ⟨l₀,listed₀,m₀,hsplit₀,hon,hkeys⟩ := hlog.2 d hd
  refine hlog.1.append hs' fun l owner listed m hsplit hm _ => ?_
  obtain ⟨hsame,hm'⟩ := split_unique (hsplit₀.symm.trans hsplit) rfl rfl (fun x hx => not_opens (hon x hx)) hm
  cases hsame
  rw [← hm']
  exact hlast l₀ _ _ hsplit₀ hon hkeys

/-- A drain comes to the next entry it has ahead, and sends it or not. -/
theorem DrainLog.comes {h : Happening Unit T R} {owner : String} {entry : Held T} {rest : List (Held T)}
    {current : Option (Sending T P)} (hlog : DrainLog w)
    (hd : (w.tabs ()).draining = some ⟨owner,entry :: rest,none⟩) (hw : w'.log = w.log++[h])
    (hd' : (w'.tabs ()).draining = some ⟨owner,rest,current⟩) (hgoes : goesOn h = true)
    (hcome : comeTo h = some entry.key) : DrainLog w' := by
  have hvisits : ∀ m : List (Happening Unit T R), visited (m++[h]) = visited m++[entry.key] := fun m => by
    rw [visited_append]
    simp [visited,hcome]
  constructor
  · rw [hw]
    refine hlog.past hd (fun x hx => ?_) fun l listed m _ hon hkeys => Walked.extend hon ?_ ?_ ?_
    · rw [List.mem_singleton.mp hx]
      exact not_opens hgoes
    · exact ⟨keys rest,by rw [hvisits,hkeys]; simp [keys]⟩
    · intro x _ key hmem
      rw [← List.mem_singleton.mp hmem] at hgoes
      cases hgoes
    · intro o n hmem
      rw [← List.mem_singleton.mp hmem] at hgoes
      cases hgoes
  · intro d hdraining
    rw [hd'] at hdraining
    cases hdraining
    obtain ⟨l,listed,m,hsplit,hon,hkeys⟩ := hlog.2 _ hd
    refine ⟨l,listed,m++[h],?_,?_,?_⟩
    · rw [hw,hsplit,List.append_assoc,List.cons_append]
    · intro x hx
      rcases List.mem_append.mp hx with hx | hx
      · exact hon x hx
      · rwa [List.mem_singleton.mp hx]
    · rw [hvisits,hkeys]
      simp [keys]

/-- A drain is over, having come to all it listed or having been stopped. -/
theorem DrainLog.overs {hs : List (Happening Unit T R)} {d : Drain T P} (hlog : DrainLog w)
    (hd : (w.tabs ()).draining = some d) (hw : w'.log = w.log++hs) (hd' : (w'.tabs ()).draining = none)
    (hs' : ∀ h ∈ hs, opens h = false) (hvis : visited hs = []) (hstart : ∀ entry, .starts () entry ∉ hs)
    (hend : d.rest = [] ∨ ∃ key, .stuck () key ∈ hs) : DrainLog w' := by
  constructor
  · rw [hw]
    refine hlog.past hd hs' fun l listed m _ hon hkeys => Walked.extend hon ?_ ?_ ?_
    · rw [visited_append,hvis,List.append_nil,hkeys]
      exact List.prefix_append _ _
    · intro entry hmem
      exact absurd hmem (hstart entry)
    · intro owner n _
      rcases hend with hnil | hstuck
      · right
        rw [visited_append,hvis,List.append_nil,hkeys,hnil]
        simp [keys]
      · exact Or.inl hstuck
  · intro d' hdraining
    rw [hd'] at hdraining
    cases hdraining

/-- A drain starts, or a reload ends what was under way. -/
theorem DrainLog.opened {h : Happening Unit T R} (hlog : DrainLog w) (hw : w'.log = w.log++[h])
    (hopen : opens h = true)
    (hd : ∀ d, (w'.tabs ()).draining = some d → h = .drains () d.owner d.rest) : DrainLog w' := by
  constructor
  · rw [hw]
    exact hlog.1.opened hopen
  · intro d hdraining
    exact ⟨w.log,d.rest,[],by rw [hw,hd d hdraining],by simp,by simp [visited]⟩

variable [Inhabited P] in
theorem DrainLog.step (hlog : DrainLog w) (h : Turn w e w') : DrainLog w' := by
  have hkeep : ∀ d, (w.tabs ()).draining = some d →
      ∃ d', (w.tabs ()).draining = some d' ∧ d'.owner = d.owner ∧ d'.rest = d.rest := fun d hd => ⟨d,hd,rfl,rfl⟩
  cases h with
  | put entry => exact hlog.neutral rfl rfl hkeep
  | drop key => exact hlog.neutral rfl rfl hkeep
  | refuse key reason => exact hlog.neutral rfl rfl hkeep
  | counted i owner => exact hlog.neutral rfl rfl hkeep
  | now i n entry hfree =>
    refine hlog.neutral rfl rfl fun d hd => ?_
    rw [World.now_draining] at hd
    exact hkeep d hd
  | nowEnds i n s o hs =>
    have hd : ∀ d, ((w.nowEnds i n s.entry.key o).tabs ()).draining = some d →
        ∃ d', (w.tabs ()).draining = some d' ∧ d'.owner = d.owner ∧ d'.rest = d.rest := fun d hd => by
      rw [World.nowEnds_draining] at hd
      exact hkeep d hd
    rcases World.nowEnds_cases w i n s.entry.key o with ⟨_,_,_,hw⟩ | ⟨_,_,_,_,hw⟩ | ⟨_,_,_,_,hw⟩ <;>
      exact hlog.neutral hw rfl hd
  | works i press s body pos keep hs =>
    refine ⟨by rw [World.works_log]; exact hlog.1,fun d hd => ?_⟩
    obtain ⟨d',hd',howner,hrest⟩ := World.works_draining hd
    rw [World.works_log,Walking,← howner,← hrest]
    exact hlog.2 d' hd'
  | drains i owner hd =>
    refine hlog.opened rfl rfl fun d hdraining => ?_
    rw [World.tell_tabs,World.setDrain_draining,if_pos rfl] at hdraining
    cases hdraining
    rfl
  | close i =>
    refine hlog.opened rfl rfl fun d hdraining => ?_
    simp [Tab.empty] at hdraining
  | finishes i owner hd =>
    exact hlog.overs hd rfl (World.setDrain_draining.trans (if_pos rfl)) (by simp [opens]) (by simp [visited,comeTo])
      (by simp) (Or.inl rfl)
  | passes i owner entry rest hd hskip =>
    exact hlog.comes hd rfl (World.setDrain_draining.trans (if_pos rfl)) rfl rfl
  | starts i owner entry rest hd hskip =>
    exact hlog.comes hd rfl (World.setDrain_draining.trans (if_pos rfl)) rfl rfl
  | drainEnds i owner rest s o hd =>
    have hgoes : ∀ d, ((w.setDrain i (some ⟨owner,rest,none⟩)).tabs ()).draining = some d →
        ∃ d', (w.tabs ()).draining = some d' ∧ d'.owner = d.owner ∧ d'.rest = d.rest := fun d hd' => by
      rw [World.setDrain_draining,if_pos rfl] at hd'
      cases hd'
      exact ⟨_,hd,rfl,rfl⟩
    rcases World.drainEnds_cases w i owner rest s.entry.key o with ⟨reply,-,hw⟩ | ⟨error,-,-,hw⟩ | ⟨error,-,-,hw⟩ <;>
      rw [hw]
    · exact hlog.neutral (h := .heard i s.entry.key reply) rfl rfl hgoes
    · exact hlog.overs hd rfl (World.setDrain_draining.trans (if_pos rfl)) (by simp [opens]) (by simp [visited,comeTo])
        (by simp) (Or.inr ⟨s.entry.key,by simp⟩)
    · exact hlog.neutral (h := .refused i s.entry.key error) rfl rfl hgoes

variable [Inhabited P] in
/-- What a drain gives is how many of its owner's acts wait when it gives it. -/
theorem turn_counts (h : Turn w e w') {owner : String} {n : ℕ}
    (htold : .counted () owner n ∈ told w w' ∨ .ended () owner n ∈ told w w') : n = waiting w'.store owner := by
  have hnone : ∀ hs : List (Happening Unit T R), w'.log = w.log++hs →
      (∀ m, (.counted () owner m : Happening Unit T R) ∉ hs ∧ .ended () owner m ∉ hs) → n = waiting w'.store owner :=
    fun hs hlog hnot => by
      rw [told_eq hlog] at htold
      exact (htold.elim (hnot n).1 (hnot n).2).elim
  cases h with
  | counted i o =>
    rw [told_eq rfl] at htold
    rcases htold with hmem | hmem <;> cases List.mem_singleton.mp hmem
    rfl
  | finishes i o hd =>
    rw [told_eq rfl] at htold
    rcases htold with hmem | hmem <;> cases List.mem_singleton.mp hmem
    rfl
  | works i press s body pos keep hs =>
    exact hnone [] (by rw [World.works_log,List.append_nil]) fun m => by simp
  | nowEnds i k s o hs =>
    rcases World.nowEnds_cases w i k s.entry.key o with ⟨_,_,_,hlog⟩ | ⟨_,_,_,_,hlog⟩ | ⟨_,_,_,_,hlog⟩ <;>
      exact hnone _ hlog fun m => by simp
  | drainEnds i o rest s out hd =>
    rcases World.drainEnds_cases w i o rest s.entry.key out with ⟨reply,-,hw⟩ | ⟨error,-,-,hw⟩ | ⟨error,-,-,hw⟩
    · exact hnone [.heard i s.entry.key reply] (by rw [hw]; rfl) fun m => by simp
    · have hlog : (w.drainEnds i o rest s.entry.key out).log = w.log++[.stuck i s.entry.key,.ended i o (waiting w.store o)] := by rw [hw]; rfl
      have hstore : (w.drainEnds i o rest s.entry.key out).store = w.store := by rw [hw]; rfl
      rw [told_eq hlog] at htold
      rw [hstore]
      simp only [List.mem_cons,reduceCtorEq,Happening.ended.injEq,List.not_mem_nil,or_false,false_or] at htold
      rw [htold.2.2,htold.2.1]
    · exact hnone [.refused i s.entry.key error] (by rw [hw]; rfl) fun m => by simp
  | _ => exact hnone _ rfl fun m => by simp

variable [Inhabited P] in
/-- A drain lists what is kept when it starts. -/
theorem turn_lists (h : Turn w e w') {owner : String} {listed : List (Held T)}
    (htold : .drains () owner listed ∈ told w w') : listed = w.store := by
  have hnone : ∀ hs : List (Happening Unit T R), w'.log = w.log++hs →
      (.drains () owner listed : Happening Unit T R) ∉ hs → listed = w.store := fun hs hlog hnot => by
    rw [told_eq hlog] at htold
    exact absurd htold hnot
  cases h with
  | drains i o hd =>
    rw [told_eq rfl] at htold
    cases List.mem_singleton.mp htold
    rfl
  | works i press s body pos keep hs =>
    exact hnone [] (by rw [World.works_log,List.append_nil]) (by simp)
  | nowEnds i k s o hs =>
    rcases World.nowEnds_cases w i k s.entry.key o with ⟨_,_,_,hlog⟩ | ⟨_,_,_,_,hlog⟩ | ⟨_,_,_,_,hlog⟩ <;>
      exact hnone _ hlog (by simp)
  | drainEnds i o rest s out hd =>
    rcases World.drainEnds_cases w i o rest s.entry.key out with ⟨reply,-,hw⟩ | ⟨error,-,-,hw⟩ | ⟨error,-,-,hw⟩
    · exact hnone [.heard i s.entry.key reply] (by rw [hw]; rfl) (by simp)
    · exact hnone [.stuck i s.entry.key,.ended i o (waiting w.store o)] (by rw [hw]; rfl) (by simp)
    · exact hnone [.refused i s.entry.key error] (by rw [hw]; rfl) (by simp)
  | _ => exact hnone _ rfl (by simp)

/-- What every run of calls over a list of distinct acts keeps. -/
structure Unheard (known : List String) (w : World Unit T P R) : Prop where
  order : InOrder known w
  accounted : Accounted known w
  owners : OneOwner known w
  drains : DrainLog w

theorem unheard_over {kept : List (Held T)} (hkeys : (keys kept).Nodup) :
    Unheard (keys kept) (World.over kept : World Unit T P R) := by
  refine ⟨inOrder_over hkeys,fun key hkey => Or.inl hkey,oneOwner_over hkeys,?_,?_⟩
  · intro l owner listed m hsplit
    exact absurd hsplit (by simp [World.over])
  · intro d hd
    cases hd

variable [Inhabited P]

theorem unheard_run {kept : List (Held T)} (hkeys : (keys kept).Nodup) {es : List (Event Unit T P R)}
    (hown : Runs.Meets step (OwnKeys (keys kept)) (World.over kept) es)
    (hrun : Runs.run step (World.over kept) es = some w) : Unheard (keys kept) w :=
  Runs.run_keeps (unheard_over hkeys) (fun _ _ _ ht hok he =>
    ⟨ht.order.step hok (step_turn he),ht.accounted.step (step_turn he),ht.owners.step hok (step_turn he),
      ht.drains.step (step_turn he)⟩) hown hrun

/-- Nothing leaves the outbox unheard, its list keeps the order in which acts were first
put, and a drain sends its owner's, oldest first, none behind one that failed for a while,
and counts what is left. -/
theorem nothing_leaves_unheard {kept : List (Held T)} (hkeys : (keys kept).Nodup)
    {es : List (Event Unit T P R)} (hown : Runs.Meets step (OwnKeys (keys kept)) (World.over kept) (es++[e]))
    (hrun : Runs.run step (World.over kept) es = some w) (hstep : step w e = some w') :
    (∀ key ∈ keys w.store, key ∉ keys w'.store → ∃ x ∈ told w w', Leaves key x) ∧
    (∀ key ∈ firstPut (keys kept) w'.log, key ∈ keys w'.store ∨ ∃ x ∈ w'.log, Leaves key x) ∧
    (keys w'.store).Sublist (firstPut (keys kept) w'.log) ∧ (firstPut (keys kept) w'.log).Nodup ∧
    (∀ entry, .starts () entry ∈ told w w' → ∃ d, (w.tabs ()).draining = some d ∧ entry.owner = d.owner ∧
      entry.key ∉ (w.tabs ()).pressed ∧
      ∃ x ∈ w.store, x.key = entry.key ∧ x.owner = d.owner ∧ x.refused = none) ∧
    (∀ owner listed, .drains () owner listed ∈ told w w' → listed = w.store) ∧
    (∀ l owner listed m, w'.log = l++.drains () owner listed :: m → Walked listed (ofDrain m)) ∧
    ∀ owner n, .counted () owner n ∈ told w w' ∨ .ended () owner n ∈ told w w' → n = waiting w'.store owner := by
  have hturn := step_turn hstep
  have hbefore := unheard_run hkeys (hown.append hrun).1 hrun
  have hafter := unheard_run hkeys hown (Runs.run_snoc hrun hstep)
  exact ⟨fun key hkey hgone => turn_leaves hturn hkey hgone,hafter.accounted,hafter.order.1,hafter.order.2,
    fun entry hstart => turn_starts hbefore.owners hturn hstart,fun owner listed htold => turn_lists hturn htold,
    hafter.drains.1,fun owner n htold => turn_counts hturn htold⟩

/-- Two acts are kept, and a drain starts with the older. -/
def twoKept : List (Event Unit ℕ Unit Unit) :=
  [.put ⟨"a","me","Me",1,none⟩,.put ⟨"b","me","Me",2,none⟩,.drain () "me",.next ()]

theorem nothing_leaves_unheard_drained : ∃ w w' : World Unit ℕ Unit Unit,
    Runs.run step (World.over []) twoKept = some w ∧ step w (.drainEnds () (.landed ())) = some w' ∧
      keys w.store = ["a","b"] ∧ keys w'.store = ["b"] ∧ ∃ x ∈ told w w', Leaves "a" x := by
  have hall : (Runs.run step (World.over [] : World Unit ℕ Unit Unit) (twoKept++[.drainEnds () (.landed ())])).any
      (fun w' => decide (keys w'.store = ["b"])) = true := by decide +kernel
  have hbefore : (Runs.run step (World.over [] : World Unit ℕ Unit Unit) twoKept).any
      (fun w => decide (keys w.store = ["a","b"])) = true := by decide +kernel
  have hown : Runs.Meets step (OwnKeys (keys ([] : List (Held ℕ)))) (World.over [] : World Unit ℕ Unit Unit)
      (twoKept++[.drainEnds () (.landed ())]) := by decide +kernel
  obtain ⟨w',hrun',hkeys'⟩ := Runs.run_passes _ hall
  obtain ⟨w,hrun,hstep⟩ := Runs.run_of_snoc hrun'
  obtain ⟨v,hv,hkeys⟩ := Runs.run_passes _ hbefore
  cases hrun.symm.trans hv
  have hk := of_decide_eq_true hkeys
  have hk' := of_decide_eq_true hkeys'
  have hleaves := (nothing_leaves_unheard (by decide) hown hrun hstep).1 "a" (by rw [hk]; decide) (by rw [hk']; decide)
  exact ⟨w,w',hrun,hstep,hk,hk',hleaves⟩

end Outbox
end Spork
