import Spork.Packing.Ties

/-! A packer following the layers of the open carton: each press puts in one of what is
shown and not in yet. The plan stays as it was as long as presses take tied pieces of
one line in the order the plan has them. -/
namespace Spork
namespace Packing

/-- What the bench shows an arrangement of. -/
structure Bench where
  lines : List BenchLine
  carton : OpenCarton

/-- What is still to pack. -/
def Bench.pieces (b : Bench) : List Left := (split (b.lines.map fun l => (l,l.remaining)) false).pieces

/-- What is in the carton. -/
def Bench.inside (b : Bench) : List Left := (split (unitsIn b.carton.contents [] b.lines) true).pieces

/-- The layers `arrange` has for the carton, none when it has no plan. -/
def Bench.layers (presets : List Preset) (objective : Objective) (b : Bench) : List Layer :=
  ((arrange b.lines presets (some b.carton) objective).boxes.map BoxPlan.layers).head?.getD []

/-- What the carton leaves for the boxes after it. -/
def Bench.passed (b : Bench) : List Left := (fillOpen b.carton b.lines b.pieces).rest

/-- How many of `k` are in already. -/
def marked (k : Kind) (ps : List Placement) : ℕ := ps.countP fun p => p.kind = k ∧ p.packed = true

/-- A layer but for what is in already. -/
def Layer.bare (l : Layer) : Layer := {l with placements := l.placements.map Placement.bare}

/-- The carton, but for what is in it. -/
def OpenCarton.emptied (c : OpenCarton) : OpenCarton := {c with contents := []}

/-- One press: a piece the plan shows and does not have in goes in, and its units off
its line. -/
structure Press (presets : List Preset) (objective : Objective) (b : Bench) (p : Placement)
    (b' : Bench) : Prop where
  shown : p ∈ placements (b.layers presets objective)
  unpacked : p.packed = false
  lines : b'.lines = b.lines.map (takeOff p.kind)
  contents : ∀ item, inCarton b'.carton.contents item =
    inCarton b.carton.contents item+if item = p.kind.itemId then p.kind.units else 0
  carton : b'.carton.emptied = b.carton.emptied

/-- Presses one after another from `b`, each one `turn` has nothing against, with the kinds
put in, the last first. -/
inductive Follows (presets : List Preset) (objective : Objective) (turn : Bench → Kind → Prop)
    (b : Bench) : List Kind → Bench → Prop
  | start : Follows presets objective turn b [] b
  | press {ks : List Kind} {b' b'' : Bench} {p : Placement} :
      Follows presets objective turn b ks b' → turn b' p.kind → Press presets objective b' p b'' →
      Follows presets objective turn b (p.kind :: ks) b''

/-- No tied kind of a bigger level is still to pack with none of it in the carton. -/
def InTurn (b : Bench) (k : Kind) : Prop :=
  ∀ e ∈ b.pieces, e.kind.Tied k → e.kind.level.rank < k.level.rank → 0 < countOf e.kind b.inside

instance inTurnDecidable (b : Bench) (k : Kind) : Decidable (InTurn b k) := by
  unfold InTurn; infer_instance

/-- After the kinds `ks` are put in the plan is what it was, with those marked. -/
structure SamePlan (presets : List Preset) (objective : Objective) (b : Bench) (ks : List Kind)
    (b' : Bench) : Prop where
  layers : (b'.layers presets objective).map Layer.bare = (b.layers presets objective).map Layer.bare
  marked : ∀ k, marked k (placements (b'.layers presets objective)) = ks.count k
  passed : b'.passed = b.passed

/-- The layers of a carton that the goods are not too many for. -/
theorem Bench.layers_eq (presets : List Preset) (objective : Objective) (b : Bench) :
    b.layers presets objective =
      if total b.pieces > mostPieces then [] else (fillOpen b.carton b.lines b.pieces).plan.layers := by
  unfold Bench.layers arrange
  by_cases hmany : total b.pieces > mostPieces
  · rw [if_pos hmany]
    have hmany' : total (split (b.lines.map fun l => (l,l.remaining)) false).pieces > mostPieces := hmany
    simp only [if_pos hmany']
    rfl
  · rw [if_neg hmany]
    have hmany' : ¬total (split (b.lines.map fun l => (l,l.remaining)) false).pieces > mostPieces := hmany
    simp only [if_neg hmany',goRound_layers,boxed]
    split_ifs <;> rfl

/-! ## What a run keeps -/

/-- What the pieces make of the carton when none is in yet. -/
def Bench.packed (b : Bench) : Packed := pack (dims b.carton.size) b.pieces b.carton.maxPayloadG

/-- The bench after `put` of each kind went in from `b`: the lines less them, the carton
holding them, no more of a kind than the plan shows, and ties in order. -/
structure After (b : Bench) (put : Kind → ℕ) (b' : Bench) : Prop where
  lines : b'.lines = less put 0 b.lines
  holds : Holds b'.carton.contents put 0 b.lines
  carton : b'.carton.emptied = b.carton.emptied
  shown : ∀ k, put k ≤ placed k (placements b.packed.layers)
  steady : Steady put (b.pieces.map Left.kind)

theorem markLayers_bare (toMark : Kind → ℕ) (layers : List Layer) :
    (markLayers toMark layers).map Layer.bare = layers.map Layer.bare := by
  induction layers generalizing toMark with
  | nil => rfl
  | cons l ls ih =>
    simp only [markLayers,List.map_cons,ih]
    simp only [Layer.bare,(markPlacements_spec toMark l.placements).1]

theorem marked_add_toPlace (k : Kind) (ps : List Placement) :
    marked k ps+toPlace k ps = placed k ps := by
  induction ps with
  | nil => rfl
  | cons p ps ih =>
    rw [toPlace_cons,placed_cons,← ih]
    unfold marked
    cases hp : p.packed <;> by_cases hk : p.kind = k <;> simp [hp,hk] <;> omega

theorem placed_bare (k : Kind) (ps : List Placement) :
    placed k (ps.map Placement.bare) = placed k ps := by
  induction ps with
  | nil => rfl
  | cons p ps ih => simp [ih,Placement.bare]

theorem Bench.pieces_eq (b : Bench) : b.pieces = Packing.pieces 0 b.lines := split_pieces _ _

theorem Bench.pieces_oneEach {b : Bench} (hids : (b.lines.map BenchLine.lineId).Nodup) :
    OneEach b.pieces := by
  unfold Bench.pieces
  rw [split_pieces]
  apply allPieces_oneEach
  simpa [Function.comp_def] using hids

theorem Bench.pieces_ranked (b : Bench) : Ranked (b.pieces.map Left.kind) := by
  rw [Bench.pieces_eq]
  exact Packing.pieces_ranked 0 b.lines

theorem Bench.pieces_pos (b : Bench) : ∀ e ∈ b.pieces, 0 < e.count := by
  rw [Bench.pieces_eq]
  exact mem_pieces_pos 0 b.lines

/-- What is placed is of the pieces. -/
theorem Bench.placed_kind {b : Bench} {k : Kind} (hk : 0 < placed k (placements b.packed.layers)) :
    k ∈ b.pieces.map Left.kind := by
  have hkept := pack_kept (dims b.carton.size) b.pieces b.carton.maxPayloadG k
  by_contra hnone
  rw [countOf_eq_zero hnone] at hkept
  unfold Bench.packed at hk
  omega

section
variable {b b' : Bench} {put : Kind → ℕ} (h : After b put b')
include h

theorem After.le (k : Kind) : put k ≤ countOf k b.pieces := by
  have hkept := pack_kept (dims b.carton.size) b.pieces b.carton.maxPayloadG k
  have hshown := h.shown k
  unfold Bench.packed at hshown
  omega

variable (hids : (b.lines.map BenchLine.lineId).Nodup)
include hids

theorem After.among : Among put b.pieces := by
  intro e he
  have hle := h.le e.kind
  rwa [countOf_mem (Bench.pieces_oneEach hids) he] at hle

theorem After.pieces : b'.pieces = still put b.pieces := by
  have hput := h.among hids
  rw [Bench.pieces_eq] at hput
  rw [Bench.pieces_eq,Bench.pieces_eq,h.lines,pieces_less put 0 b.lines hput]

theorem After.countOf_taken (k : Kind) : countOf k (taken put b.pieces) = put k := by
  by_cases hk : k ∈ b.pieces.map Left.kind
  · exact Packing.countOf_taken (Bench.pieces_oneEach hids) hk put
  · have hle := h.le k
    rw [countOf_eq_zero hk] at hle
    rw [countOf_eq_zero fun hmem => hk (mem_taken.mp hmem).1]
    omega

theorem After.countOf_still (k : Kind) :
    countOf k (still put b.pieces) = countOf k b.pieces-put k := by
  have hsum := countOf_taken_still (h.among hids) k
  rw [h.countOf_taken hids] at hsum
  omega

variable (hitems : (b.lines.map BenchLine.itemId).Nodup)
include hitems

theorem After.inside : b'.inside = taken put b.pieces := by
  have hput := h.among hids
  rw [Bench.pieces_eq] at hput
  unfold Bench.inside
  rw [split_pieces,h.lines,unitsIn_items (by rwa [less_items]) (by simp),Bench.pieces_eq]
  exact inside_taken hput h.holds

/-- In the carton and still to pack, arranged together, are packed as the pieces were. -/
theorem After.packed : pack (dims b'.carton.size) ((b'.inside++b'.pieces).foldl addTo [])
    b'.carton.maxPayloadG = b.packed := by
  have hsize : b'.carton.emptied.size = b.carton.emptied.size := by rw [h.carton]
  have hmost : b'.carton.emptied.maxPayloadG = b.carton.emptied.maxPayloadG := by rw [h.carton]
  simp only [OpenCarton.emptied] at hsize hmost
  rw [h.inside hids hitems,h.pieces hids,hsize,hmost]
  exact pack_sorted (sorted_pooled (Bench.pieces_oneEach hids) b.pieces_pos b.pieces_ranked
    (h.among hids) h.steady) _ _

theorem After.layers (presets : List Preset) (objective : Objective)
    (hfew : total b.pieces ≤ mostPieces) :
    b'.layers presets objective = markLayers (counts (taken put b.pieces)) b.packed.layers := by
  have hless : ¬total b'.pieces > mostPieces := by
    have hstill := total_still put b.pieces
    rw [h.pieces hids]
    omega
  rw [Bench.layers_eq,if_neg hless,← h.packed hids hitems,← h.inside hids hitems]
  rfl

theorem After.unmarked (presets : List Preset) (objective : Objective)
    (hfew : total b.pieces ≤ mostPieces) (k : Kind) :
    toPlace k (placements (b'.layers presets objective)) =
      placed k (placements b.packed.layers)-put k := by
  have hone : OneEach (taken put b.pieces) :=
    (Bench.pieces_oneEach hids).sublist (taken_kinds put b.pieces)
  rw [h.layers hids hitems presets objective hfew,(markLayers_spec _ _).2,counts_eq hone,
    h.countOf_taken hids]

theorem After.marks (presets : List Preset) (objective : Objective)
    (hfew : total b.pieces ≤ mostPieces) (k : Kind) :
    marked k (placements (b'.layers presets objective)) = put k := by
  have hsum := marked_add_toPlace k (placements (b'.layers presets objective))
  have hplaced : placed k (placements (b'.layers presets objective)) =
      placed k (placements b.packed.layers) := by
    rw [h.layers hids hitems presets objective hfew,← placed_bare,(markLayers_spec _ _).1,placed_bare]
  have hshown := h.shown k
  rw [h.unmarked hids hitems presets objective hfew,hplaced] at hsum
  omega

/-- What does not fit is passed on whole: none of it is in the carton. -/
theorem After.passed : b'.passed = b.packed.left := by
  have hone := Bench.pieces_oneEach hids
  have hleft : OneEach b.packed.left := pack_oneEach hone
  have hstill : OneEach (still put b.pieces) := hone.sublist (still_kinds put b.pieces)
  have hsame : (b.packed.left.map fun e =>
      (⟨e.kind,min e.count (counts b'.pieces e.kind)⟩ : Left)) = b.packed.left := by
    apply List.map_congr_left (g := id) _ |>.trans (List.map_id _)
    intro e he
    have hkept := pack_kept (dims b.carton.size) b.pieces b.carton.maxPayloadG e.kind
    have hcount := countOf_mem hleft he
    have hshown := h.shown e.kind
    have hmin : min e.count (counts b'.pieces e.kind) = e.count := by
      rw [h.pieces hids,counts_eq hstill,h.countOf_still hids]
      unfold Bench.packed at hcount hshown
      omega
    rw [hmin]
    rfl
  have hrest : b'.passed = (b.packed.left.map fun e =>
      (⟨e.kind,min e.count (counts b'.pieces e.kind)⟩ : Left)).filter (·.count > 0) := by
    rw [← h.packed hids hitems]
    rfl
  rw [hrest,hsame]
  apply List.filter_eq_self.mpr
  intro e he
  obtain ⟨left,-,-,heq,-⟩ := pack_run (dims b.carton.size) b.pieces b.carton.maxPayloadG
  have hmem : e ∈ left.filter (·.count > 0) := heq ▸ he
  exact (List.mem_filter.mp hmem).2

/-- One press more, in turn. -/
theorem After.press {presets : List Preset} {objective : Objective} {p : Placement} {b'' : Bench}
    (hfew : total b.pieces ≤ mostPieces) (hpress : Press presets objective b' p b'')
    (hturn : InTurn b' p.kind) : After b (Packing.press p.kind put) b'' := by
  have hroom : put p.kind < placed p.kind (placements b.packed.layers) := by
    have hone : 0 < toPlace p.kind (placements (b'.layers presets objective)) := by
      apply List.countP_pos_iff.mpr
      exact ⟨p,hpress.shown,by simp [hpress.unpacked]⟩
    rw [h.unmarked hids hitems presets objective hfew] at hone
    omega
  have hkind : p.kind ∈ b.pieces.map Left.kind := Bench.placed_kind (by omega)
  have hgrow (k : Kind) : put k ≤ Packing.press p.kind put k := by
    unfold Packing.press
    by_cases hk : k = p.kind
    · simp [hk]
    · simp [hk]
  refine ⟨?_,?_,hpress.carton.trans h.carton,?_,?_⟩
  · rw [hpress.lines,h.lines,less_press hids (by rwa [← Bench.pieces_eq])]
  · exact holds_press hids hitems (by rwa [← Bench.pieces_eq]) hpress.contents h.holds
  · intro k
    unfold Packing.press
    by_cases hk : k = p.kind
    · simpa [hk] using hroom
    · simpa [hk] using h.shown k
  · intro k hk k' hk' htied hrank hput
    by_cases hold : 0 < put k
    · exact (h.steady k hk k' hk' htied hrank hold).trans_le (hgrow k')
    · have hthis : k = p.kind := by
        by_contra hne
        rw [Packing.press,Function.update_of_ne hne] at hput
        exact hold hput
      subst hthis
      apply lt_of_lt_of_le _ (hgrow k')
      obtain ⟨e,he,rfl⟩ := List.mem_map.mp hk'
      by_cases hall : put e.kind < e.count
      · -- some of it is still to pack, so the press being in turn says it is in the carton
        have hmem : (⟨e.kind,e.count-put e.kind⟩ : Left) ∈ b'.pieces := by
          rw [h.pieces hids]
          exact List.mem_filter.mpr ⟨List.mem_map.mpr ⟨e,he,rfl⟩,by simpa using hall⟩
        have hin := hturn _ hmem ⟨htied.1.symm,htied.2.1.symm,htied.2.2.symm⟩ hrank
        rwa [h.inside hids hitems,h.countOf_taken hids] at hin
      · have hpos := b.pieces_pos e he
        omega

end

/-- With nothing in the carton nothing is put in yet. -/
theorem After.start {b : Bench} (hempty : b.carton.contents = []) : After b (fun _ => 0) b where
  lines := (less_zero 0 b.lines).symm
  holds := hempty ▸ holds_zero 0 b.lines
  carton := rfl
  shown := fun _ => Nat.zero_le _
  steady := fun _ _ _ _ _ _ h => h

/-- However many presses, each in turn, there were. -/
theorem Follows.after {presets : List Preset} {objective : Objective} {b b' : Bench} {ks : List Kind}
    (hids : (b.lines.map BenchLine.lineId).Nodup) (hitems : (b.lines.map BenchLine.itemId).Nodup)
    (hempty : b.carton.contents = []) (h : Follows presets objective InTurn b ks b') :
    After b (fun k => ks.count k) b' ∧ (ks ≠ [] → total b.pieces ≤ mostPieces) := by
  induction h with
  | start => exact ⟨After.start hempty,fun hne => absurd rfl hne⟩
  | @press ks b' b'' p hrun hturn hpress ih =>
    obtain ⟨hafter,hsome⟩ := ih
    have hfew : total b.pieces ≤ mostPieces := by
      by_contra hmany
      have hnone : ks = [] := by
        by_contra hne
        exact hmany (hsome hne)
      subst hnone
      have hstart : b' = b := by
        cases hrun
        rfl
      have hshown := hpress.shown
      rw [hstart,Bench.layers_eq,if_pos (by omega)] at hshown
      cases hshown
    have hcount : (fun k => (p.kind :: ks).count k) = Packing.press p.kind fun k => ks.count k := by
      funext k
      unfold Packing.press
      by_cases hk : k = p.kind
      · simp [hk]
      · simp [hk,Ne.symm hk]
    rw [hcount]
    exact ⟨hafter.press hids hitems hfew hpress hturn,fun _ => hfew⟩

/-- Presses in turn leave the plan as it was, with what is put in marked. -/
theorem follow_samePlan (presets : List Preset) (objective : Objective) (b b' : Bench)
    (ks : List Kind) (hids : (b.lines.map BenchLine.lineId).Nodup)
    (hitems : (b.lines.map BenchLine.itemId).Nodup) (hempty : b.carton.contents = [])
    (h : Follows presets objective InTurn b ks b') : SamePlan presets objective b ks b' := by
  obtain ⟨hafter,hsome⟩ := h.after hids hitems hempty
  have hstart : After b (fun _ => 0) b := After.start hempty
  have hpassed : b'.passed = b.passed := by
    rw [hafter.passed hids hitems,hstart.passed hids hitems]
  by_cases hfew : total b.pieces ≤ mostPieces
  · refine ⟨?_,fun k => ?_,hpassed⟩
    · rw [hafter.layers hids hitems presets objective hfew,
        hstart.layers hids hitems presets objective hfew,markLayers_bare,markLayers_bare]
    · exact hafter.marks hids hitems presets objective hfew k
  · have hnone : ks = [] := by
      by_contra hne
      exact hfew (hsome hne)
    subst hnone
    obtain rfl : b' = b := by
      cases h
      rfl
    refine ⟨rfl,fun k => ?_,rfl⟩
    rw [Bench.layers_eq,if_pos (by omega)]
    rfl

/-- A bench of one line of straps, with an inner pack of two measured as one strap is. -/
def straps (remaining : ℤ) (contents : List Content) : Bench :=
  ⟨[⟨1,7,"STRAP",remaining,[⟨.inner,2,false,false,some ⟨10,10,10⟩,false,none⟩,
    ⟨.each,1,false,false,some ⟨10,10,10⟩,false,none⟩]⟩],
    ⟨3,"1","Tray",⟨20,10,10⟩,none,none,contents⟩⟩

/-- A strap or an inner pack of them in the tray. -/
def strapAt (level : Level) (units : ℤ) (x : ℤ) : Placement :=
  ⟨⟨1,7,"STRAP",level,units,⟨10,10,10⟩,none,false,0⟩,x,0,0,⟨10,10,10⟩,⟨0,1,2⟩,false⟩

theorem follow_samePlan_straps :
    SamePlan [] ⟨fun _ => 0⟩ (straps 3 []) [(strapAt .inner 2 0).kind] (straps 1 [⟨7,2⟩]) := by
  have hpress : Press [] ⟨fun _ => 0⟩ (straps 3 []) (strapAt .inner 2 0) (straps 1 [⟨7,2⟩]) := by
    refine ⟨by decide,rfl,by decide,fun item => ?_,rfl⟩
    by_cases hitem : item = 7
    · subst hitem
      rfl
    · simp [inCarton,straps,strapAt,hitem,Ne.symm hitem]
  exact follow_samePlan [] ⟨fun _ => 0⟩ (straps 3 []) _ _ (by decide) (by decide) rfl
    (.press .start (by decide) hpress)

/-- Putting the strap in first, the plan has it where the inner pack was. -/
theorem follow_out_of_turn : ¬∀ (presets : List Preset) (objective : Objective) (b b' : Bench)
    (ks : List Kind), (b.lines.map BenchLine.lineId).Nodup → (b.lines.map BenchLine.itemId).Nodup →
    b.carton.contents = [] → Follows presets objective (fun _ _ => True) b ks b' →
    SamePlan presets objective b ks b' := by
  intro h
  have hpress : Press [] ⟨fun _ => 0⟩ (straps 3 []) (strapAt .each 1 10) (straps 2 [⟨7,1⟩]) := by
    refine ⟨by decide,rfl,by decide,fun item => ?_,rfl⟩
    by_cases hitem : item = 7
    · subst hitem
      rfl
    · simp [inCarton,straps,strapAt,hitem,Ne.symm hitem]
  have hsame := h [] ⟨fun _ => 0⟩ (straps 3 []) _ _ (by decide) (by decide) rfl
    (.press .start trivial hpress)
  have hlayers : ((straps 2 [⟨7,1⟩]).layers [] ⟨fun _ => 0⟩).map Layer.bare ≠
      ((straps 3 []).layers [] ⟨fun _ => 0⟩).map Layer.bare := by decide
  exact hlayers hsame.layers

end Packing
end Spork
