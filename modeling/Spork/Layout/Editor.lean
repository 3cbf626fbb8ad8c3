import Spork.Layout.Frames

/-! The plan editor's arithmetic (client/app/layout/edit.ts): where each place it holds is on
the site, and the plan it draws of them. In exact arithmetic it and the server's are the same. -/
namespace Spork
namespace Layout

/-- A place's box in its parent's cells. -/
structure PlaceBox (N : Type*) where
  x : N
  y : N
  z : N
  length : N
  depth : N
  height : N
  turn : N

/-- One place as the plan draws it. -/
structure PlanShape (K N : Type*) where
  placeId : K
  name : String
  solid : Bool
  /-- How many places it is inside, counted from the plan's outermost. -/
  nesting : ℕ
  /-- Corners on the site, in order around the edge. -/
  corners : List (N × N)
  z : N
  height : N
  frame : Frame N

namespace Editor

/-- A place as the editor holds it. -/
structure Draft (K N : Type*) where
  placeId : K
  parentId : Option K
  name : String
  solid : Bool
  box : PlaceBox N
  /-- Its own outline, in its own cells. -/
  outline : Option (List (N × N))

/-! ## Turns -/

section
variable {N : Type*} [Field N] [LinearOrder N] [IsStrictOrderedRing N] [FloorRing N]

/-- What a division towards nought leaves: `%`, in either language. -/
def rem (n m : N) : N := n-m*(if 0 ≤ n/m then (⌊n/m⌋ : N) else (⌈n/m⌉ : N))

def mod360 (n : N) : N := rem (rem n 360+360) 360

/-- `rem_euclid(360.0)` -/
def remEuclid360 (n : N) : N :=
  let r := rem n 360
  if r < 0 then r+360 else r

/-- What turning a number of degrees takes, in the editor. -/
def editorTurning (sinCos : N → N × N) : Turning N := ⟨sinCos,mod360⟩

/-- And on the server. -/
def serverTurning (sinCos : N → N × N) : Turning N := ⟨sinCos,remEuclid360⟩

theorem rem_bounds {m : N} (hm : 0 < m) (n : N) : -m < rem n m ∧ rem n m < m ∧ (0 ≤ n → 0 ≤ rem n m) := by
  have hsplit : n = m*(n/m) := by
    field_simp
  rw [rem]
  split_ifs with h
  · have hle := mul_le_mul_of_nonneg_left (Int.floor_le (n/m)) hm.le
    have hlt := mul_lt_mul_of_pos_left (Int.lt_floor_add_one (n/m)) hm
    rw [← hsplit] at hle hlt
    rw [mul_add,mul_one] at hlt
    exact ⟨by linarith,by linarith,fun _ => by linarith⟩
  · have hle := mul_le_mul_of_nonneg_left (Int.le_ceil (n/m)) hm.le
    have hlt := mul_lt_mul_of_pos_left (Int.ceil_lt_add_one (n/m)) hm
    rw [← hsplit] at hle
    rw [mul_add,mul_one,← hsplit] at hlt
    exact ⟨by linarith,by linarith,fun hn => absurd (div_nonneg hn hm.le) h⟩

/-- A number from nought up is left whole below what it is divided by, and less one of it
below two. -/
theorem rem_of_small {n m : N} (h0 : 0 ≤ n) (h1 : n < m) : rem n m = n := by
  have hm : 0 < m := h0.trans_lt h1
  have hquot : 0 ≤ n/m := div_nonneg h0 hm.le
  have hfloor : ⌊n/m⌋ = 0 := by
    rw [Int.floor_eq_zero_iff]
    exact ⟨hquot,(div_lt_one hm).mpr h1⟩
  simp [rem,hquot,hfloor]

theorem rem_of_over {n m : N} (h0 : m ≤ n) (h1 : n < m+m) (hm : 0 < m) : rem n m = n-m := by
  have hquot : 0 ≤ n/m := div_nonneg (hm.le.trans h0) hm.le
  have hfloor : ⌊n/m⌋ = 1 := by
    rw [Int.floor_eq_iff,le_div_iff₀ hm,div_lt_iff₀ hm]
    push_cast
    constructor <;> linarith
  simp [rem,hquot,hfloor]

theorem mod360_eq (n : N) : mod360 n = remEuclid360 n := by
  have hm : (0 : N) < 360 := by
    norm_num
  obtain ⟨hlow,hhigh,-⟩ := rem_bounds hm n
  simp only [mod360,remEuclid360]
  split_ifs with h
  · exact rem_of_small (by linarith) (by linarith)
  · rw [rem_of_over (by linarith) (by linarith) hm,add_sub_cancel_right]

theorem editorTurning_eq (sinCos : N → N × N) : editorTurning sinCos = serverTurning sinCos := by
  rw [editorTurning,serverTurning,funext mod360_eq]

end

/-! ## The places held -/

variable {K N : Type*} [DecidableEq K]

section
variable (drafts : List (Draft K N))

def byId (k : K) : Option (Draft K N) := drafts.reverse.find? fun d => d.placeId = k

/-- What a place is drawn inside: its parent, when that is held too. -/
def parentIn (d : Draft K N) : Option K := d.parentId.filter fun p => p ∈ drafts.map (·.placeId)

def kids (parent : Option K) : List (Draft K N) := drafts.filter fun d => parentIn drafts d = parent

end

/-- A place as the server has it. -/
def Draft.place (d : Draft K N) : Place K N := ⟨d.parentId,d.box.x,d.box.y,d.box.z,d.box.turn⟩

variable {drafts : List (Draft K N)}

theorem byId_eq_some (hnodup : (drafts.map (·.placeId)).Nodup) {k : K} {d : Draft K N} :
    byId drafts k = some d ↔ d ∈ drafts ∧ d.placeId = k := by
  rw [byId]
  constructor
  · intro h
    exact ⟨List.mem_reverse.mp (List.mem_of_find?_eq_some h),by simpa using List.find?_some h⟩
  · rintro ⟨hd,rfl⟩
    cases hfind : drafts.reverse.find? fun e => e.placeId = d.placeId with
    | none => simpa using List.find?_eq_none.mp hfind d (List.mem_reverse.mpr hd)
    | some e =>
      have he := List.mem_reverse.mp (List.mem_of_find?_eq_some hfind)
      have hid : e.placeId = d.placeId := by
        simpa using List.find?_some hfind
      rw [List.inj_on_of_nodup_map hnodup he hd hid]

/-- The places as the server has them. -/
def placesOf (drafts : List (Draft K N)) (hnodup : (drafts.map (·.placeId)).Nodup) : Places K N where
  keys := drafts.map (·.placeId)
  get k := (byId drafts k).map Draft.place
  nodup := hnodup
  mem_keys k := by
    rw [Option.isSome_map,Option.isSome_iff_exists,List.mem_map]
    simp only [byId_eq_some hnodup]

/-- Each place's parent is none or held too. -/
def Closed (drafts : List (Draft K N)) : Prop := ∀ d ∈ drafts, ∀ p ∈ d.parentId, p ∈ drafts.map (·.placeId)

/-- What a map of places is to the editor's. -/
structure Maps (m : Places K N) (drafts : List (Draft K N)) : Prop where
  nodup : (drafts.map (·.placeId)).Nodup
  closed : Closed drafts
  get : ∀ k, m.get k = (byId drafts k).map Draft.place

namespace Maps
variable {m : Places K N} (h : Maps m drafts)
include h

theorem mem_keys {k : K} : k ∈ m.keys ↔ k ∈ drafts.map (·.placeId) := by
  rw [m.mem_keys,h.get,Option.isSome_map,Option.isSome_iff_exists,List.mem_map]
  simp only [byId_eq_some h.nodup]

theorem get_of_mem {d : Draft K N} (hd : d ∈ drafts) : m.get d.placeId = some d.place := by
  rw [h.get,(byId_eq_some h.nodup).mpr ⟨hd,rfl⟩,Option.map_some]

theorem parentOf_of_mem {d : Draft K N} (hd : d ∈ drafts) : m.parentOf d.placeId = d.parentId := by
  rw [Places.parentOf,h.get_of_mem hd]
  rfl

theorem closedMap : m.Closed := by
  intro k hk q hq
  obtain ⟨d,hd,rfl⟩ := List.mem_map.mp (h.mem_keys.mp hk)
  rw [h.parentOf_of_mem hd] at hq
  exact h.mem_keys.mpr (h.closed d hd q hq)

theorem parentIn_of_mem {d : Draft K N} (hd : d ∈ drafts) : parentIn drafts d = d.parentId := by
  rw [parentIn]
  cases hp : d.parentId with
  | none => rfl
  | some p => rw [Option.filter_some,if_pos (by simpa using h.closed d hd p hp)]

theorem mem_kids {parent : Option K} {d : Draft K N} : d ∈ kids drafts parent ↔ d ∈ drafts ∧ d.parentId = parent := by
  rw [kids,List.mem_filter,decide_eq_true_eq]
  constructor
  · rintro ⟨hd,hp⟩
    exact ⟨hd,h.parentIn_of_mem hd ▸ hp⟩
  · rintro ⟨hd,hp⟩
    exact ⟨hd,(h.parentIn_of_mem hd).trans hp⟩

/-- There are no more places than are held. -/
theorem card_keys_lt : m.keys.toFinset.card < drafts.length+1 := by
  have hsub : m.keys.toFinset ⊆ (drafts.map (·.placeId)).toFinset := by
    intro k hk
    exact List.mem_toFinset.mpr (h.mem_keys.mp (List.mem_toFinset.mp hk))
  have hcard := (Finset.card_le_card hsub).trans (List.toFinset_card_le _)
  rw [List.length_map] at hcard
  omega

end Maps

/-! ## Frames -/

variable [Zero N] [Add N] [Sub N] [Mul N]

/-- A point in a frame's cells, on the site. -/
def at' (t : Turning N) (frame : Frame N) (u v : N) : N × N :=
  let (s,c) := t.sinCos frame.turn
  (frame.x+u*c-v*s,frame.y+u*s+v*c)

/-- A child's frame on the site, from its parent's and its box. -/
def compose (t : Turning N) (parent : Frame N) (box : PlaceBox N) : Frame N :=
  let (x,y) := at' t parent box.x box.y
  ⟨x,y,parent.z+box.z,t.around (parent.turn+box.turn)⟩

section
variable (drafts) (t : Turning N)

/-- A place's frame, its parents' worked out first and kept. None when they come back to one
seen, and then nothing is kept. So many places are looked at, at most. -/
def frameOf : ℕ → (K → Option (Frame N)) → Finset K → Draft K N →
    Option (Option (Frame N) × (K → Option (Frame N)))
  | 0, _, _, _ => none
  | n+1, out, seen, d =>
    match out d.placeId with
    | some known => some (some known,out)
    | none =>
      if d.placeId ∈ seen then some (none,out) else do
        let (base,out) ← (match d.parentId.bind (byId drafts) with
          | some parent => frameOf n out (insert d.placeId seen) parent
          | none => some (some Frame.site,out))
        match base with
        | none => some (none,out)
        | some base =>
          let f := compose t base d.box
          some (some f,Function.update out d.placeId (some f))

/-- Every place's frame on the site. A place whose parents loop gets none. -/
def framesOf : Option (K → Option (Frame N)) :=
  drafts.foldlM (fun out d => (frameOf drafts t (drafts.length+1) out ∅ d).map Prod.snd) fun _ => none

/-! ## The plan -/

/-- A place's corners on the site: its outline, or its rectangle. -/
def footprint (f : Frame N) (d : Draft K N) : List (N × N) :=
  match d.outline with
  | some outline => outline.map fun p => at' t f p.1 p.2
  | none => [at' t f 0 0,at' t f d.box.length 0,at' t f d.box.length d.box.depth,at' t f 0 d.box.depth]

def shapeOf (f : Frame N) (d : Draft K N) (nesting : ℕ) : PlanShape K N :=
  ⟨d.placeId,d.name,d.solid,nesting,footprint t f d,f.z,d.box.height,f⟩

/-- A place and what is inside it, drawn once. So many deep, at most. -/
def walk (frames : K → Option (Frame N)) :
    ℕ → Draft K N → ℕ → Finset K × List (PlanShape K N) → Option (Finset K × List (PlanShape K N))
  | 0, _, _, _ => none
  | n+1, d, nesting, (seen,out) =>
    if d.placeId ∈ seen then some (seen,out) else
      match frames d.placeId with
      | none => some (insert d.placeId seen,out)
      | some f => (kids drafts (some d.placeId)).foldlM (fun st k => walk frames n k (nesting+1) st)
          (insert d.placeId seen,out++[shapeOf t f d nesting])

/-- The site's plan from the editor's places. -/
def planOf : Option (List (PlanShape K N)) := do
  let frames ← framesOf drafts t
  let (_,out) ← (kids drafts none).foldlM
    (fun st root => walk drafts t frames (drafts.length+1) root 0 st) (∅,[])
  some out

end

variable {t : Turning N} {m : Places K N}

/-- A place's frame, worked out: the frames kept are all right, and it has one, unless its
parents loop or come back to one seen. -/
structure Works (m : Places K N) (t : Turning N) (out : K → Option (Frame N)) (seen : Finset K) (k : K)
    (base : Option (Frame N)) (out' : K → Option (Frame N)) : Prop where
  gains : m.Gains t out out'
  right : ∀ f ∈ base, (out' k).isSome = true ∧ ∃ ks, Forest.Line m.parentOf (some k) ks ∧ f = m.composed t ks
  found : ∀ ks, Forest.Line m.parentOf (some k) ks → (∀ j ∈ ks, j ∉ seen) → base.isSome = true

theorem Works.keep {out out' : K → Option (Frame N)} {seen : Finset K} {d : Draft K N} {f : Frame N} {ks : List K}
    (h : Maps m drafts) (hd : d ∈ drafts) (hgains : m.Gains t out out')
    (hline : Forest.Line m.parentOf d.parentId ks) (hf : f = m.composed t ks) :
    Works m t out seen d.placeId (some (compose t f d.box))
      (Function.update out' d.placeId (some (compose t f d.box))) := by
  have hunder : Forest.Line m.parentOf (some d.placeId) (ks++[d.placeId]) :=
    (h.parentOf_of_mem hd ▸ hline).under
  have hframe : compose t f d.box = m.composed t (ks++[d.placeId]) := by
    rw [Places.composed_concat ks (h.get_of_mem hd),hf]
    rfl
  refine ⟨⟨?_,?_⟩,?_,fun _ _ _ => rfl⟩
  · intro j g hj
    by_cases hjd : j = d.placeId
    · subst hjd
      rw [Function.update_self,Option.some.injEq] at hj
      exact ⟨h.mem_keys.mpr (List.mem_map_of_mem hd),_,hunder,hj ▸ hframe⟩
    · rw [Function.update_of_ne hjd] at hj
      exact hgains.framed j g hj
  · intro j hj
    by_cases hjd : j = d.placeId
    · simp [hjd]
    · rw [Function.update_of_ne hjd]
      exact hgains.kept j hj
  · intro g hg
    rw [← Option.mem_some_iff.mp hg]
    exact ⟨by simp,_,hunder,hframe⟩

theorem frameOf_works (h : Maps m drafts) {n : ℕ} {out : K → Option (Frame N)} {seen : Finset K} {d : Draft K N}
    (hd : d ∈ drafts) (hout : m.Framed t out) (hn : (m.keys.toFinset \ seen).card < n) :
    ∃ base out', frameOf drafts t n out seen d = some (base,out') ∧ Works m t out seen d.placeId base out' := by
  induction n generalizing out seen d with
  | zero => cases hn
  | succ n ih =>
    rw [frameOf]
    cases hk : out d.placeId with
    | some known =>
      refine ⟨some known,out,rfl,⟨hout,fun _ hj => hj⟩,?_,fun _ _ _ => rfl⟩
      intro f hf
      rw [← Option.mem_some_iff.mp hf]
      obtain ⟨-,hline⟩ := hout d.placeId known hk
      exact ⟨by rw [hk]; rfl,hline⟩
    | none =>
      simp only
      split_ifs with hseen
      · refine ⟨none,out,rfl,⟨hout,fun _ hj => hj⟩,fun f hf => (nomatch hf),?_⟩
        intro ks hks hnot
        cases hks with
        | under hks => exact absurd hseen (hnot d.placeId (by simp))
      · have hin : d.placeId ∈ m.keys := h.mem_keys.mpr (List.mem_map_of_mem hd)
        cases hp : d.parentId with
        | none =>
          have hline : Forest.Line m.parentOf d.parentId [] := hp ▸ Forest.Line.top
          exact ⟨_,_,rfl,Works.keep h hd ⟨hout,fun _ hj => hj⟩ hline rfl⟩
        | some p =>
          obtain ⟨parent,hparent,rfl⟩ := List.mem_map.mp (h.closed d hd p hp)
          have hless : (m.keys.toFinset \ insert d.placeId seen).card < n := by
            have hlt := Places.card_unseen_lt (List.mem_toFinset.mpr hin) hseen
            omega
          obtain ⟨base,out',hrun,hworks⟩ := ih hparent hout hless
          rw [Option.bind_some,(byId_eq_some h.nodup).mpr ⟨hparent,rfl⟩]
          simp only [hrun,Option.bind_eq_bind,Option.bind_some]
          cases base with
          | none =>
            refine ⟨none,out',rfl,hworks.gains,fun f hf => (nomatch hf),?_⟩
            intro ks hks hnot
            cases hks with
            | @under _ xs hxs =>
              have habove := hxs
              rw [h.parentOf_of_mem hd,hp] at habove
              refine hworks.found xs habove fun j hj => ?_
              rw [Finset.mem_insert,not_or]
              refine ⟨?_,hnot j (List.mem_append_left _ hj)⟩
              rintro rfl
              exact hxs.not_above hj
          | some base =>
            obtain ⟨-,ks,hks,hf⟩ := hworks.right base rfl
            exact ⟨_,_,rfl,Works.keep h hd hworks.gains (hp ▸ hks) hf⟩

/-- All the places' frames, one after the other. -/
theorem framesFrom_gains (h : Maps m drafts) {out : K → Option (Frame N)} (hout : m.Framed t out)
    {ds : List (Draft K N)} (hds : ∀ d ∈ ds, d ∈ drafts) :
    ∃ out', ds.foldlM (fun out d => (frameOf drafts t (drafts.length+1) out ∅ d).map Prod.snd) out = some out' ∧
      m.Gains t out out' ∧
      ∀ d ∈ ds, (∃ ks, Forest.Line m.parentOf (some d.placeId) ks) → (out' d.placeId).isSome = true := by
  induction ds generalizing out with
  | nil => exact ⟨out,rfl,⟨hout,fun _ hk => hk⟩,fun _ hd => nomatch hd⟩
  | cons d ds ih =>
    have hfuel : (m.keys.toFinset \ ∅).card < drafts.length+1 := by
      rw [Finset.sdiff_empty]
      exact h.card_keys_lt
    obtain ⟨base,mid,hrun,hworks⟩ := frameOf_works h (hds d List.mem_cons_self) hout hfuel
    obtain ⟨out',hrest,hgains,hall⟩ := ih hworks.gains.framed fun e he => hds e (List.mem_cons_of_mem d he)
    refine ⟨out',?_,⟨hgains.framed,fun k hk => hgains.kept k (hworks.gains.kept k hk)⟩,?_⟩
    · rw [List.foldlM_cons,hrun]
      exact hrest
    · intro e he hline
      rcases List.mem_cons.mp he with rfl | hin
      · obtain ⟨ks,hks⟩ := hline
        obtain ⟨f,rfl⟩ := Option.isSome_iff_exists.mp (hworks.found ks hks (by simp))
        exact hgains.kept _ (hworks.right f rfl).1
      · exact hall e hin hline

theorem framesOf_gains (h : Maps m drafts) : ∃ out, framesOf drafts t = some out ∧ m.Framed t out ∧
    ∀ k ∈ m.keys, (∃ ks, Forest.Line m.parentOf (some k) ks) → (out k).isSome = true := by
  have hnone : m.Framed t fun _ => none := by
    intro k f hk
    cases hk
  obtain ⟨out,hout,hgains,hall⟩ := framesFrom_gains (t := t) h hnone fun _ hd => hd
  refine ⟨out,hout,hgains.framed,fun k hk hline => ?_⟩
  obtain ⟨d,hd,rfl⟩ := List.mem_map.mp (h.mem_keys.mp hk)
  exact hall d hd hline

/-- The editor's frames are the server's. -/
theorem framesOf_eq (h : Maps m drafts) : framesOf drafts t = m.frames t := by
  obtain ⟨out,hout,hframed,hall⟩ := framesOf_gains (t := t) h
  obtain ⟨out',hout',hframed',hall'⟩ := Places.frames_gains t m h.closedMap
  rw [hout,hout',Option.some.injEq]
  funext k
  have hsub : ∀ {o o' : K → Option (Frame N)}, m.Framed t o → m.Framed t o' →
      (∀ k ∈ m.keys, (∃ ks, Forest.Line m.parentOf (some k) ks) → (o' k).isSome = true) →
      ∀ f, o k = some f → o' k = some f := by
    intro o o' ho ho' hsome f hf
    obtain ⟨hk,ks,hks,rfl⟩ := ho k f hf
    obtain ⟨g,hg⟩ := Option.isSome_iff_exists.mp (hsome k hk ⟨ks,hks⟩)
    obtain ⟨-,ks',hks',rfl⟩ := ho' k g hg
    rw [hg,hks.unique hks']
  apply Option.ext
  intro f
  exact ⟨hsub hframed hframed' hall' f,hsub hframed' hframed hall f⟩

end Editor
end Layout
end Spork
