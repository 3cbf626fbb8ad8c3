import Spork.Lib.Pieces

/-! The stream of changes as it arrives (client/domain/changes.ts): frames cut off the
front of a buffer, the same however the stream is cut into pieces. -/
namespace Spork
namespace Changes

open Pieces (indexOf cutAt cuts split)

/-- A string, as its code units. -/
abbrev Text := List UInt16

def text (s : String) : Text := s.toList.map fun c => UInt16.ofNat c.toNat

/-- `\r`, `\n`, `:` and a space. -/
def cr : UInt16 := 13
def nl : UInt16 := 10
def colon : UInt16 := 58
def space : UInt16 := 32

structure Frame where
  event : Text
  data : Text
  deriving DecidableEq, Repr

/-- What a block has said so far. -/
structure Reading where
  event : Text
  data : List Text
  said : Bool

/-- `line.slice(0, colon)` and `line.slice(colon + 1)`, or the whole line and nothing. -/
def cutLine (line : Text) : Text×Text :=
  match indexOf [colon] line with
  | none => (line,[])
  | some i => (line.take i,line.drop (i+1))

def valueOf (raw : Text) : Text := if [space] <+: raw then raw.drop 1 else raw

def readLine (s : Reading) (line : Text) : Reading :=
  if line = [] ∨ [colon] <+: line then s
  else
    let field := (cutLine line).1
    let value := valueOf (cutLine line).2
    if field = text "event" then {s with event := value,said := true}
    else if field = text "data" then {s with data := s.data++[value],said := true}
    else s

/-- The frame a block carries, if it says anything. -/
def readBlock (block : Text) : Option Frame :=
  let s := (block.splitOn nl).foldl readLine {event := text "message",data := [],said := false}
  if s.said then some {event := s.event,data := [nl].intercalate s.data} else none

/-- `FrameReader`: what has arrived of a frame not yet ended. -/
structure FrameReader where
  buffer : Text
  deriving DecidableEq

/-- The loop of `push`, in so many turns at most. -/
def frames : ℕ → Text → List Frame×Text
  | 0, buffer => ([],buffer)
  | n+1, buffer =>
    match indexOf [nl,nl] buffer with
    | none => ([],buffer)
    | some i =>
      let rest := frames n (buffer.drop (i+2))
      ((readBlock (buffer.take i)).toList++rest.1,rest.2)

/-- Each turn takes at least a blank line off the buffer, so its length bounds them. -/
def push (reader : FrameReader) (arrived : Text) : List Frame×FrameReader :=
  let buffer := reader.buffer++arrived.filter (· ≠ cr)
  let out := frames buffer.length buffer
  (out.1,⟨out.2⟩)

/-- The frames of pieces pushed in turn. -/
def pushes : FrameReader → List Text → List Frame×FrameReader
  | reader, [] => ([],reader)
  | reader, piece :: pieces =>
    let out := push reader piece
    ((out.1++(pushes out.2 pieces).1),(pushes out.2 pieces).2)

/-! What a stream carries. -/

/-- The name of a line's field: what is before its colon. -/
def field (line : Text) : Text := line.takeWhile (· ≠ colon)

/-- Its value: what is behind its colon, less one space. -/
def value (line : Text) : Text := valueOf (line.dropWhile (· ≠ colon)).tail

def isComment (line : Text) : Bool := line.head? = some colon

/-- The values of a field in the lines of a block, its comments left out. -/
def told (name : Text) (lines : List Text) : List Text :=
  ((lines.filter fun line => !isComment line).filter fun line => field line = name).map value

/-- The frame of a block's lines: none without an event or data field. -/
def frameOf (lines : List Text) : Option Frame :=
  if told (text "event") lines = [] ∧ told (text "data") lines = [] then none
  else some
    {event := (told (text "event") lines).getLast?.getD (text "message")
     data := [nl].intercalate (told (text "data") lines)}

/-- The lines of a text that are ended. -/
def lines (arrived : Text) : List Text := (arrived.splitOn nl).dropLast

/-- The blocks of lines that a blank line ends. -/
def ended (ls : List Text) : List (List Text) := (ls.splitOn []).dropLast

theorem cutLine_eq (line : Text) : cutLine line = (field line,(line.dropWhile (· ≠ colon)).tail) := by
  induction line with
  | nil => rfl
  | cons c cs ih =>
    rw [cutLine,indexOf,field]
    by_cases hc : c = colon
    · rw [if_pos (List.singleton_prefix_cons_iff.mpr hc.symm)]
      simp [hc]
    · rw [if_neg fun h => hc (List.singleton_prefix_cons_iff.mp h).symm]
      rw [cutLine,field] at ih
      cases hi : indexOf [colon] cs with
      | none =>
        rw [hi] at ih
        simpa [hc] using ih
      | some i =>
        rw [hi] at ih
        simpa [hc] using ih

theorem told_cons (name line : Text) (ls : List Text) : told name (line :: ls) = told name [line]++told name ls := by
  rw [told,told,told,← List.map_append,← List.filter_append,← List.filter_append]
  rfl

/-- A blank line tells nothing, and neither does a comment. -/
theorem told_blank {name : Text} (h : name ≠ []) : told name [[]] = [] := by
  simp [told,isComment,field,h.symm]

theorem told_comment (name : Text) {line : Text} (h : [colon] <+: line) : told name [line] = [] := by
  obtain ⟨rest,rfl⟩ := h
  simp [told,isComment]

theorem told_line (name : Text) {line : Text} (h : ¬[colon] <+: line) :
    told name [line] = if field line = name then [value line] else [] := by
  have hcomment : isComment line = false := by
    cases line with
    | nil => rfl
    | cons c cs =>
      have hc : c ≠ colon := fun hc => h (List.singleton_prefix_cons_iff.mpr hc.symm)
      simp [isComment,hc]
  rw [told,List.filter_singleton,hcomment]
  by_cases hname : field line = name <;> simp [hname]

theorem event_ne_nil : text "event" ≠ [] := by decide

theorem data_ne_nil : text "data" ≠ [] := by decide

theorem event_ne_data : text "event" ≠ text "data" := by decide

/-- One line says what it tells of either field. -/
theorem readLine_eq (s : Reading) (line : Text) :
    readLine s line =
      {event := (told (text "event") [line]).getLast?.getD s.event
       data := s.data++told (text "data") [line]
       said := s.said || !(told (text "event") [line]).isEmpty || !(told (text "data") [line]).isEmpty} := by
  rw [readLine]
  by_cases hskip : line = [] ∨ [colon] <+: line
  · have hnone : ∀ name, name ≠ [] → told name [line] = [] := by
      intro name hname
      rcases hskip with rfl | hcomment
      · exact told_blank hname
      · exact told_comment name hcomment
    rw [if_pos hskip,hnone _ event_ne_nil,hnone _ data_ne_nil]
    simp
  · obtain ⟨-,hcomment⟩ := not_or.mp hskip
    rw [if_neg hskip,told_line _ hcomment,told_line _ hcomment,cutLine_eq]
    change (if field line = text "event" then {s with event := value line,said := true}
      else if field line = text "data" then {s with data := s.data++[value line],said := true} else s) = _
    by_cases hevent : field line = text "event"
    · rw [hevent]
      simp [event_ne_data]
    · by_cases hdata : field line = text "data"
      · rw [hdata]
        simp [event_ne_data.symm]
      · simp [hevent,hdata]

/-- Reading a block line by line tells what its lines tell together. -/
theorem readLines (ls : List Text) (s : Reading) :
    ls.foldl readLine s =
      {event := (told (text "event") ls).getLast?.getD s.event
       data := s.data++told (text "data") ls
       said := s.said || !(told (text "event") ls).isEmpty || !(told (text "data") ls).isEmpty} := by
  induction ls generalizing s with
  | nil => simp [told]
  | cons line ls ih =>
    rw [List.foldl_cons,ih,readLine_eq,told_cons _ line ls,told_cons _ line ls]
    simp only [Reading.mk.injEq,List.append_assoc,true_and]
    constructor
    · cases hrest : (told (text "event") ls).getLast? <;> simp [List.getLast?_append,hrest]
    · cases told (text "event") [line] <;> cases told (text "data") [line] <;>
        cases told (text "event") ls <;> simp

theorem readBlock_eq (block : Text) : readBlock block = frameOf (block.splitOn nl) := by
  rw [readBlock,readLines,frameOf]
  cases told (text "event") (block.splitOn nl) <;> cases told (text "data") (block.splitOn nl) <;> simp

/-! The blocks the loop cuts off are the blocks a blank line ends. -/

theorem frameOf_nil : frameOf [] = none := rfl

theorem frameOf_blank (ls : List Text) : frameOf ([] :: ls) = frameOf ls := by
  have htold : ∀ name, name ≠ [] → told name ([] :: ls) = told name ls := by
    intro name hname
    rw [told_cons,told_blank hname,List.nil_append]
  rw [frameOf,frameOf,htold _ event_ne_nil,htold _ data_ne_nil]

/-- What begins with no line end begins with a line that is not blank. -/
theorem splitOn_head_ne_nil {c : UInt16} (hc : c ≠ nl) (cs : Text) :
    ∃ line more, (c :: cs).splitOn nl = (c :: line) :: more := by
  obtain ⟨line,more,hsplit⟩ := List.exists_cons_of_ne_nil (List.splitOn_ne_nil nl cs)
  refine ⟨line,more,?_⟩
  rw [List.splitOn_cons_eq_if_modifyHead,if_neg (by simpa using hc),hsplit]
  rfl

/-- A text without a doubled line end has no blank line but perhaps its first. -/
theorem lines_tail {arrived : Text} (h : ¬[nl,nl] <:+: arrived) : ∀ line ∈ (lines arrived).tail, line ≠ [] := by
  induction arrived with
  | nil => simp [lines]
  | cons c cs ih =>
    obtain ⟨hfirst,hrest⟩ := not_or.mp fun hor => h (List.infix_cons_iff.mpr hor)
    have hcs := ih hrest
    rw [lines] at hcs ⊢
    by_cases hc : c = nl
    · subst hc
      rw [List.splitOn_cons_eq_if_modifyHead,if_pos (by simp)]
      rw [List.dropLast_cons_of_ne_nil (List.splitOn_ne_nil nl cs),List.tail_cons]
      cases cs with
      | nil => simp
      | cons d ds =>
        have hd : d ≠ nl := by
          rintro rfl
          exact hfirst ⟨ds,rfl⟩
        obtain ⟨line,more,hsplit⟩ := splitOn_head_ne_nil hd ds
        rw [hsplit] at hcs ⊢
        cases more with
        | nil => simp
        | cons l more =>
          intro x hx
          rcases List.mem_cons.mp hx with rfl | hx
          · exact List.cons_ne_nil d line
          · exact hcs x hx
    · obtain ⟨line,more,hsplit⟩ := List.exists_cons_of_ne_nil (List.splitOn_ne_nil nl cs)
      rw [hsplit] at hcs
      rw [List.splitOn_cons_eq_if_modifyHead,if_neg (by simpa using hc),hsplit]
      cases more with
      | nil => simp
      | cons l more => exact hcs

/-- Lines that are not blank but perhaps the first: one block, behind perhaps an empty one. -/
theorem splitOn_blank {ls : List Text} (h : ∀ line ∈ ls.tail, line ≠ []) :
    ls.splitOn [] = [ls] ∨ ∃ rest, ls = [] :: rest ∧ ls.splitOn [] = [[],rest] := by
  cases ls with
  | nil => exact Or.inl rfl
  | cons line rest =>
    have hrest : [] ∉ rest := fun hmem => h [] hmem rfl
    by_cases hline : line = []
    · subst hline
      refine Or.inr ⟨rest,rfl,?_⟩
      rw [List.splitOn_cons_eq_if_modifyHead,if_pos (by simp),List.splitOn_eq_singleton hrest]
    · refine Or.inl (List.splitOn_eq_singleton fun hmem => ?_)
      rcases List.mem_cons.mp hmem with hmem | hmem
      · exact hline hmem.symm
      · exact hrest hmem

/-- What is left when nothing more can be cut off ends no block with a frame. -/
theorem ended_of_none {arrived : Text} (h : cutAt [nl,nl] arrived = none) :
    (ended (lines arrived)).filterMap frameOf = [] := by
  have htail := lines_tail ((Pieces.cutAt_eq_none (by simp)).mp h)
  rw [ended]
  rcases splitOn_blank htail with hsplit | ⟨rest,-,hsplit⟩
  · rw [hsplit]
    rfl
  · rw [hsplit]
    rfl

/-- A block cut off ends one block with its frame, before those of the rest. -/
theorem ended_of_some {arrived block rest : Text} (h : cutAt [nl,nl] arrived = some (block,rest)) :
    (ended (lines arrived)).filterMap frameOf =
      (readBlock block).toList++(ended (lines rest)).filterMap frameOf := by
  obtain ⟨harrived,hnone⟩ := (Pieces.cutAt_eq_some (by simp)).mp h
  have hblock : lines (block++[nl]) = block.splitOn nl := by
    rw [lines,List.splitOn_append_cons_self,List.splitOn_nil,List.dropLast_concat]
  have hlines : lines arrived = block.splitOn nl++[] :: lines rest := by
    have hcons : arrived = block++nl :: nl :: rest := by simp [harrived]
    rw [lines,hcons,List.splitOn_append_cons_self,List.splitOn_cons_eq_if_modifyHead,if_pos (by simp),
      List.dropLast_append_of_ne_nil (List.cons_ne_nil _ _),
      List.dropLast_cons_of_ne_nil (List.splitOn_ne_nil nl rest),lines]
  have hended : ended (lines arrived) = (block.splitOn nl).splitOn []++ended (lines rest) := by
    rw [ended,hlines,List.splitOn_append_cons_self,List.dropLast_append_of_ne_nil (List.splitOn_ne_nil _ _),ended]
  have htail := lines_tail hnone
  change ∀ line ∈ (lines (block++[nl])).tail, line ≠ [] at htail
  rw [hblock] at htail
  rw [hended,List.filterMap_append,readBlock_eq]
  refine congrArg (·++_) ?_
  rcases splitOn_blank htail with hsplit | ⟨more,hlines,hsplit⟩
  · rw [hsplit]
    cases hframe : frameOf (block.splitOn nl) <;> simp [hframe]
  · rw [hsplit,hlines,frameOf_blank,List.filterMap_cons_none frameOf_nil]
    cases hframe : frameOf more <;> simp [hframe]

/-- The loop reads the blocks it cuts off. -/
theorem frames_eq (n : ℕ) (buffer : Text) :
    frames n buffer = ((cuts [nl,nl] n buffer).1.filterMap readBlock,(cuts [nl,nl] n buffer).2) := by
  induction n generalizing buffer with
  | zero => rfl
  | succ n ih =>
    rw [frames,cuts,cutAt]
    cases hi : indexOf [nl,nl] buffer with
    | none => rfl
    | some i =>
      change ((readBlock (buffer.take i)).toList++(frames n (buffer.drop (i+2))).1,(frames n (buffer.drop (i+2))).2) = _
      rw [ih]
      cases hframe : readBlock (buffer.take i) <;> simp [hframe]

theorem push_eq (reader : FrameReader) (arrived : Text) :
    push reader arrived =
      ((split [nl,nl] (reader.buffer++arrived.filter (· ≠ cr))).1.filterMap readBlock,
        ⟨(split [nl,nl] (reader.buffer++arrived.filter (· ≠ cr))).2⟩) := by
  rw [push,frames_eq]
  rfl

/-- Nothing more can be cut off what a reader keeps. -/
def Read (reader : FrameReader) : Prop := cutAt [nl,nl] reader.buffer = none

theorem read_push (reader : FrameReader) (arrived : Text) : Read (push reader arrived).2 := by
  rw [push_eq]
  exact Pieces.split_left (by simp) _

/-- Two pieces are read as one. -/
theorem push_append (reader : FrameReader) (a b : Text) :
    push reader (a++b) = ((push reader a).1++(push (push reader a).2 b).1,(push (push reader a).2 b).2) := by
  rw [push_eq,push_eq,push_eq,List.filter_append,← List.append_assoc,Pieces.split_append (by simp)]
  simp

/-- However a text is cut, its pieces are read as the whole. -/
theorem pushes_flatten {reader : FrameReader} (h : Read reader) (pieces : List Text) :
    pushes reader pieces = push reader pieces.flatten := by
  induction pieces generalizing reader with
  | nil =>
    rw [List.flatten_nil,push_eq,List.filter_nil,List.append_nil,Pieces.split_none h]
    rfl
  | cons piece pieces ih =>
    rw [List.flatten_cons,push_append,pushes,ih (read_push reader piece)]

/-- The frames of a text are those of the blocks a blank line ends. -/
theorem split_frames (arrived : Text) :
    (split [nl,nl] arrived).1.filterMap readBlock = (ended (lines arrived)).filterMap frameOf := by
  induction arrived using Pieces.split_induction (by simp : [nl,nl] ≠ []) with
  | hnone b hcut =>
    rw [Pieces.split_none hcut,ended_of_none hcut]
    rfl
  | hsome b x rest hcut ih =>
    rw [Pieces.split_some (by simp) hcut,ended_of_some hcut,← ih]
    cases hframe : readBlock x <;> simp [hframe]

/-- However the stream is cut it is read as the whole; its frames are those of the blocks
a blank line ends; and the loop of a push ends by its own test. -/
theorem frames_exact :
    (∀ pieces : List Text, pushes ⟨[]⟩ pieces = push ⟨[]⟩ pieces.flatten) ∧
    (∀ arrived : Text,
      (push ⟨[]⟩ arrived).1 = (ended (lines (arrived.filter (· ≠ cr)))).filterMap frameOf) ∧
    ∀ (buffer : Text) (n : ℕ), buffer.length ≤ n →
      frames n buffer = frames buffer.length buffer ∧ indexOf [nl,nl] (frames n buffer).2 = none := by
  refine ⟨pushes_flatten rfl,fun arrived => ?_,fun buffer n hn => ?_⟩
  · rw [push_eq]
    exact split_frames _
  · rw [frames_eq,frames_eq,Pieces.cuts_enough (by simp) hn]
    exact ⟨rfl,Option.map_eq_none_iff.mp (Pieces.split_left (by simp) buffer)⟩

example : (pushes ⟨[]⟩ [text "data: a\ndata: b\r",text "\n\r\n"]).1 = [⟨text "message",text "a\nb"⟩] := by
  decide

end Changes
end Spork
