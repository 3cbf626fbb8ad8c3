import Spork.Packing.Account
import Spork.Packing.PackSound

/-! What `greedy` skips for want of volume would not have taken everything, where rounding turns
no comparison of the two volumes: goods that lie in a box each in its own place have no more
volume than it, but the doubles the volumes come to may say otherwise. -/
namespace Spork
namespace Packing

/-! ## Volume -/

/-- The volume itself, with nothing rounded. -/
def trueVolume (d : Dims) : ℤ := d.l*d.w*d.h

def trueBulk (left : List Left) : ℤ := (left.map fun e => (e.count : ℤ)*trueVolume e.kind.size).sum

theorem trueVolume_turned {size : Dims} {axes : Axes} (h : axes ∈ ways) : trueVolume (turned size axes) = trueVolume size := by
  simp only [ways,List.mem_cons,List.not_mem_nil,or_false] at h
  rcases h with rfl | rfl | rfl | rfl | rfl | rfl <;> simp only [trueVolume,turned,Dims.side] <;> ring

/-- What is left, each with something of it to place and all three of its sides. -/
def Sized (left : List Left) : Prop := ∀ e ∈ left, e.kind.size.Positive ∧ 0 < e.count

theorem trueVolume_pos {d : Dims} (h : d.Positive) : 0 < trueVolume d := mul_pos (mul_pos h.1 h.2.1) h.2.2

theorem volume_pos {d : Dims} (h : d.Positive) : 0 < volume d :=
  Double.ofInt_pos.mpr (mul_pos (Double.ofInt_pos.mpr (mul_pos h.1 h.2.1)) h.2.2)

theorem trueBulk_nonneg {left : List Left} (h : Sized left) : 0 ≤ trueBulk left :=
  List.sum_nonneg fun v hv => by
    obtain ⟨e,he,rfl⟩ := List.mem_map.mp hv
    exact mul_nonneg (Int.natCast_nonneg _) (trueVolume_pos (h e he).1).le

theorem trueBulk_cons (e : Left) (es : List Left) : trueBulk (e :: es) = e.count*trueVolume e.kind.size+trueBulk es := rfl

/-- What the entries come to on top of a sum so far. -/
def bulkFrom (t : ℤ) (left : List Left) : ℤ :=
  left.foldl (fun t e => Double.add t (Double.mul e.count (volume e.kind.size))) t

theorem entry_pos {e : Left} (h : e.kind.size.Positive ∧ 0 < e.count) : 0 < Double.mul e.count (volume e.kind.size) :=
  Double.ofInt_pos.mpr (mul_pos (Int.natCast_pos.mpr h.2) (volume_pos h.1))

theorem bulkFrom_pos {left : List Left} (h : Sized left) {t : ℤ} (ht : 0 < t) : 0 < bulkFrom t left := by
  induction left generalizing t with
  | nil => exact ht
  | cons e es ih =>
    have hentry := entry_pos (h e List.mem_cons_self)
    exact ih (fun e' he' => h e' (List.mem_cons_of_mem e he')) (Double.ofInt_pos.mpr (add_pos ht hentry))

theorem bulk_pos {left : List Left} (h : Sized left) (hsome : left ≠ []) : 0 < bulk left := by
  cases left with
  | nil => exact absurd rfl hsome
  | cons e es =>
    have hentry := entry_pos (h e List.mem_cons_self)
    exact bulkFrom_pos (fun e' he' => h e' (List.mem_cons_of_mem e he')) (Double.ofInt_pos.mpr (add_pos_of_nonneg_of_pos le_rfl hentry))

theorem trueBulk_eq (left : List Left) : trueBulk left = ((expand left).map fun k => trueVolume k.size).sum := by
  induction left with
  | nil => rfl
  | cons e es ih =>
    have hcons : expand (e :: es) = List.replicate e.count e.kind++expand es := rfl
    rw [hcons,List.map_append,List.sum_append,← ih,List.map_replicate,List.sum_replicate,trueBulk_cons,nsmul_eq_mul]

/-- The volume placed and the volume left are the volume there was. -/
theorem pack_bulk (size : Dims) (pieces : List Left) (maxWeight : Option ℚ) :
    ((placements (pack size pieces maxWeight).layers).map fun p => trueVolume p.kind.size).sum+
      trueBulk (pack size pieces maxWeight).left = trueBulk pieces := by
  have hperm := kept_perm (pack_kept size pieces maxWeight)
  rw [trueBulk_eq,trueBulk_eq,← (hperm.map fun k : Kind => trueVolume k.size).sum_eq,List.map_append,List.sum_append,List.map_map]
  rfl

/-- A place has as many unit cells as its volume. -/
theorem card_volume (x y z : ℤ) {d : Dims} (h : d.Positive) :
    ((Cuboid.cells (⟨![x,y,z],![d.l,d.w,d.h]⟩ : Cuboid (Fin 3) ℤ)).card : ℤ) = trueVolume d := by
  obtain ⟨hl,hw,hh⟩ := h
  rw [Cuboid.card_cells,Fin.prod_univ_three]
  push_cast
  simp [trueVolume,hl.le,hw.le,hh.le]

/-- What is placed has all three of its sides, as what there was has. -/
theorem placed_positive {size : Dims} {pieces : List Left} (hpieces : ∀ e ∈ pieces, e.kind.size.Positive)
    (maxWeight : Option ℚ) : ∀ p ∈ placements (pack size pieces maxWeight).layers, p.kind.size.Positive := by
  intro p hp
  have hplaced : 0 < placed p.kind (placements (pack size pieces maxWeight).layers) :=
    List.countP_pos_iff.mpr ⟨p,hp,by simp⟩
  have hkept : placed p.kind (placements (pack size pieces maxWeight).layers)+_ = _ := pack_kept size pieces maxWeight p.kind
  have hcount : countOf p.kind pieces ≠ 0 := by omega
  obtain ⟨e,he,hkind⟩ := List.mem_map.mp (not_imp_comm.mp countOf_eq_zero hcount)
  exact hkind ▸ hpieces e he

/-- What lies in a box has no more volume than it. -/
theorem placed_volume_le {size : Dims} (hsize : size.Positive) {pieces : List Left} (hpieces : ∀ e ∈ pieces, e.kind.size.Positive)
    (maxWeight : Option ℚ) :
    ((placements (pack size pieces maxWeight).layers).map fun p => trueVolume p.kind.size).sum ≤ trueVolume size := by
  obtain ⟨left,used,hrun,-,htakes⟩ := pack_run size pieces maxWeight
  have hperm : (sorted pieces).Perm pieces := List.perm_insertionSort _ _
  have hmeasured : Measured (sorted pieces) := by
    intro k hk
    obtain ⟨e,he,rfl⟩ := List.mem_map.mp hk
    exact hpieces e (hperm.mem_iff.mp he)
  have hstowed := layersFrom_stows size maxWeight (total pieces+1) 0 (sorted pieces) left 0 _
    (by rw [total_perm hperm]; omega) hmeasured hrun
  have hkind := @placed_positive size pieces hpieces maxWeight
  set ps := placements (pack size pieces maxWeight).layers
  have hcells : ∀ p ∈ ps, trueVolume p.kind.size = ((p.cuboid.cells.card : ℕ) : ℤ) := by
    intro p hp
    obtain ⟨haxes,hdims,-⟩ := htakes.turned p hp
    have hpos := turned_positive (hkind p hp) p.axes
    rw [← hdims] at hpos
    rw [← trueVolume_turned haxes,← hdims]
    exact (card_volume (p.x) p.y p.z hpos).symm
  have hsum := Cuboid.sum_cells_le (fun a ha => by
    obtain ⟨p,hp,rfl⟩ := List.mem_map.mp ha
    exact hstowed.inside p hp) (List.pairwise_map.mpr hstowed.apart)
  have hbox : ((slab size 0).cells.card : ℤ) = trueVolume size := by
    have hcard := card_volume 0 0 0 hsize
    rwa [slab,sub_zero]
  rw [List.map_congr_left hcells,← hbox]
  have hcast := Int.ofNat_le.mpr hsum
  rw [List.map_map] at hcast
  push_cast at hcast
  rwa [List.map_map] at hcast

/-- Where nothing is placed, what is left is what there was. -/
theorem layersFrom_nothing {size : Dims} {limit : Option ℚ} {depth : ℕ} {z : ℤ} {left left' : List Left} {used : ℚ}
    {layers : List Layer} (hless : total left < depth) (h : layersFrom size limit depth z left used = some (layers,left'))
    (hnone : placements layers = []) : left' = left := by
  cases depth with
  | zero => cases h
  | succ depth =>
    simp only [layersFrom] at h
    split at h
    · cases h
      rfl
    · rename_i k w left₁ htake
      have hfewer := (takes_one ⟨left,[],used⟩ 0 0 z htake).fewer
      simp only [List.length_singleton] at hfewer
      obtain ⟨st,new,hround,htakes⟩ := round_ends (fill_ends limit depth) ⟨0,0,z,⟨size.l,size.w,w.dims.h⟩⟩ w.dims
        ⟨left₁,[putAt 0 0 z k w],used+k.weight⟩ (by simp only; omega)
      simp only [hround,Option.bind_eq_bind,Option.bind_some] at h
      obtain ⟨⟨later,left₂⟩,-,heq⟩ := Option.bind_eq_some_iff.mp h
      cases heq
      have hout : st.out = [putAt 0 0 z k w]++new := htakes.out
      simp [placements,hout] at hnone

/-- Where nothing is placed, what is left is what there was, in the order it is tried. -/
theorem pack_nothing {size : Dims} {pieces : List Left} (hpieces : Sized pieces) {maxWeight : Option ℚ}
    (hnone : placements (pack size pieces maxWeight).layers = []) : (pack size pieces maxWeight).left = sorted pieces := by
  obtain ⟨left,used,hrun,hleft,-⟩ := pack_run size pieces maxWeight
  have hperm : (sorted pieces).Perm pieces := List.perm_insertionSort _ _
  have hsame := layersFrom_nothing (by rw [total_perm hperm]; omega) hrun hnone
  rw [hleft,hsame,List.filter_eq_self]
  exact fun e he => decide_eq_true (hpieces e (hperm.mem_iff.mp he)).2

/-- What is left has no more volume than there was, and as much only where nothing is placed. -/
theorem left_less {size : Dims} {pieces : List Left} (hpieces : Sized pieces) (maxWeight : Option ℚ) :
    trueBulk (pack size pieces maxWeight).left < trueBulk pieces ∨ (pack size pieces maxWeight).left = sorted pieces := by
  have hbulk := pack_bulk size pieces maxWeight
  have hpositive := @placed_positive size pieces (fun e he => (hpieces e he).1) maxWeight
  cases hplaced : placements (pack size pieces maxWeight).layers with
  | nil => exact .inr (pack_nothing hpieces hplaced)
  | cons p ps =>
    left
    rw [hplaced] at hbulk hpositive
    have hfirst := trueVolume_pos (hpositive p List.mem_cons_self)
    have hrest : 0 ≤ (ps.map fun p => trueVolume p.kind.size).sum := List.sum_nonneg fun v hv => by
      obtain ⟨q,hq,rfl⟩ := List.mem_map.mp hv
      exact (trueVolume_pos (hpositive q (List.mem_cons_of_mem p hq))).le
    rw [List.map_cons,List.sum_cons] at hbulk
    omega

/-! ## Volumes that are doubles themselves -/

theorem volume_eq {d : Dims} (h : d.Positive) (hle : trueVolume d ≤ 2^53) : volume d = trueVolume d := by
  obtain ⟨hl,hw,hh⟩ := h
  have harea : d.l*d.w ≤ trueVolume d := le_mul_of_one_le_right (mul_pos hl hw).le hh
  have hpos : 0 < d.l*d.w := mul_pos hl hw
  have hvolume : 0 < trueVolume d := trueVolume_pos ⟨hl,hw,hh⟩
  rw [volume,Double.mul,Double.mul,@Double.ofInt_of_le (d.l*d.w) (by omega)]
  exact Double.ofInt_of_le (by rw [trueVolume] at hle hvolume; omega)

theorem bulkFrom_eq {left : List Left} (h : Sized left) {t : ℤ} (ht : 0 ≤ t) (hle : t+trueBulk left ≤ 2^53) :
    bulkFrom t left = t+trueBulk left := by
  induction left generalizing t with
  | nil => simp [bulkFrom,trueBulk]
  | cons e es ih =>
    obtain ⟨hpos,hcount⟩ := h e List.mem_cons_self
    have hes : Sized es := fun e' he' => h e' (List.mem_cons_of_mem e he')
    have hrest := trueBulk_nonneg hes
    have hvolume := trueVolume_pos hpos
    have hone : trueVolume e.kind.size ≤ e.count*trueVolume e.kind.size :=
      le_mul_of_one_le_left hvolume.le (by omega)
    rw [trueBulk_cons] at hle ⊢
    have hentry : Double.mul e.count (volume e.kind.size) = e.count*trueVolume e.kind.size := by
      rw [volume_eq hpos (by omega)]
      exact Double.ofInt_of_le (by omega)
    have hsum : Double.add t (e.count*trueVolume e.kind.size) = t+e.count*trueVolume e.kind.size :=
      Double.ofInt_of_le (by omega)
    have hlater := @ih hes (t+e.count*trueVolume e.kind.size) (by omega) (by omega)
    rw [← add_assoc,← hlater,bulkFrom,List.foldl_cons,hentry,hsum]
    rfl

theorem bulk_eq {left : List Left} (h : Sized left) (hle : trueBulk left ≤ 2^53) : bulk left = trueBulk left := by
  have hfrom := bulkFrom_eq h le_rfl (by rwa [zero_add])
  rwa [zero_add] at hfrom

/-- A box with room by volume for less than 2^53 counts for no less, however it is rounded. -/
theorem le_volume {n : ℤ} (hn : n ≤ 2^53) (hpos : 0 ≤ n) {d : Dims} (h : d.Positive) (hle : n ≤ trueVolume d) : n ≤ volume d := by
  refine Double.le_ofInt hpos hn ?_
  rcases le_or_gt (d.l*d.w) (2^53) with hsmall | hbig
  · have harea : 0 < d.l*d.w := mul_pos h.1 h.2.1
    rwa [Double.mul,Double.ofInt_of_le (by omega)]
  · have harea : 2^53 ≤ Double.mul d.l d.w := Double.le_ofInt (by norm_num) le_rfl hbig.le
    exact (hn.trans harea).trans (le_mul_of_one_le_right (by omega) h.2.2)

/-! ## Rounds -/

/-- The first box that takes it all, tried in order with none skipped. -/
def firstTaking (rest : List Left) (boxes : List Box) : Option (Box × Packed) :=
  (boxes.find? fun box => (packBox box rest).left = []).map fun box => (box,packBox box rest)

/-- `greedyFrom` with none skipped. -/
def greedyPlainFrom (boxes : List Box) : ℕ → List BoxPlan → List Left → Candidate
  | 0, plans, rest => ⟨plans,rest⟩
  | more+1, plans, rest =>
    if rest = [] then ⟨plans,rest⟩
    else
      match (firstTaking rest boxes).or (takingMost rest boxes) with
      | none => ⟨plans,rest⟩
      | some (box,p) => greedyPlainFrom boxes more (plans++[plan box p.layers]) p.left

/-- What is still to box as each round of `greedy` comes to it, and at its end. -/
def rounds (boxes : List Box) : ℕ → List Left → List (List Left)
  | 0, rest => [rest]
  | more+1, rest =>
    if rest = [] then [rest]
    else
      match (smallestTaking rest boxes).or (takingMost rest boxes) with
      | none => [rest]
      | some (_,p) => rest :: rounds boxes more p.left

/-- Rounding turns no comparison a round makes: what there is to box counts for no more as it
comes than in the order it is tried, and for no more than a box with room for it by volume. -/
structure Unturned (boxes : List Box) (rest : List Left) : Prop where
  sorted : bulk rest ≤ bulk (Packing.sorted rest)
  roomy : ∀ box ∈ boxes, trueBulk rest ≤ trueVolume (dims box.size) → bulk rest ≤ volume (dims box.size)

variable {boxes : List Box} {rest : List Left} {box : Box} {p : Packed}

/-- Nothing is turned where there is too little for the doubles to round. -/
theorem unturned_of_le (hboxes : ∀ box ∈ boxes, (dims box.size).Positive) (hrest : Sized rest) (hle : trueBulk rest ≤ 2^53) :
    Unturned boxes rest := by
  have hperm : (Packing.sorted rest).Perm rest := List.perm_insertionSort _ _
  have hbulk := bulk_eq hrest hle
  have hsame : trueBulk (Packing.sorted rest) = trueBulk rest := (hperm.map _).sum_eq
  constructor
  · rw [hbulk,bulk_eq (fun e he => hrest e (hperm.mem_iff.mp he)) (hsame ▸ hle),hsame]
  · intro box hbox hroom
    rw [hbulk]
    exact le_volume hle (trueBulk_nonneg hrest) (hboxes box hbox) hroom

/-- A box with less volume than there is to box does not take it all. -/
theorem skipped_leaves (hbox : (dims box.size).Positive) (hrest : Sized rest)
    (hroomy : trueBulk rest ≤ trueVolume (dims box.size) → bulk rest ≤ volume (dims box.size))
    (hless : volume (dims box.size) < bulk rest) : (packBox box rest).left ≠ [] := by
  intro hnone
  have hbulk := pack_bulk (dims box.size) rest box.maxPayloadG
  have hplaced := placed_volume_le hbox (fun e he => (hrest e he).1) box.maxPayloadG
  rw [packBox] at hnone
  rw [hnone] at hbulk
  have hnil : trueBulk [] = 0 := rfl
  have hcounts := hroomy (by omega)
  omega

theorem smallestTaking_eq (hboxes : ∀ box ∈ boxes, (dims box.size).Positive) (hrest : Sized rest)
    (hroomy : ∀ box ∈ boxes, trueBulk rest ≤ trueVolume (dims box.size) → bulk rest ≤ volume (dims box.size)) :
    smallestTaking rest boxes = firstTaking rest boxes := by
  induction boxes with
  | nil => rfl
  | cons box boxes ih =>
    have hlater := ih (fun b hb => hboxes b (List.mem_cons_of_mem box hb)) fun b hb => hroomy b (List.mem_cons_of_mem box hb)
    rw [smallestTaking,firstTaking,List.find?_cons]
    by_cases hless : volume (dims box.size) < bulk rest
    · have hleaves := skipped_leaves (hboxes box List.mem_cons_self) hrest (hroomy box List.mem_cons_self) hless
      rw [if_pos hless,decide_eq_false hleaves]
      exact hlater
    · rw [if_neg hless]
      by_cases hall : (packBox box rest).left = []
      · rw [decide_eq_true hall]
        exact if_pos hall
      · rw [decide_eq_false hall]
        exact (if_neg hall).trans hlater

theorem sized_left (box : Box) (hrest : Sized rest) : Sized (packBox box rest).left := by
  obtain ⟨left,used,-,hleft,htakes⟩ := pack_run (dims box.size) rest box.maxPayloadG
  intro e he
  rw [packBox,hleft] at he
  obtain ⟨hmem,hcount⟩ := List.mem_filter.mp he
  have hkinds : left.map Left.kind = (sorted rest).map Left.kind := htakes.kinds
  obtain ⟨e',he',hkind⟩ := List.mem_map.mp (hkinds ▸ List.mem_map_of_mem hmem)
  have hin : e' ∈ rest := (List.perm_insertionSort _ _).mem_iff.mp he'
  exact ⟨hkind ▸ (hrest e' hin).1,of_decide_eq_true hcount⟩

/-- The box that takes the most takes something. -/
theorem takingMost_less (h : takingMost rest boxes = some (box,p)) : bulk p.left < bulk rest := by
  suffices hloop : ∀ (boxes : List Box) (acc : ℤ × Option (Box × Packed)), 0 ≤ acc.1 →
      (∀ b q, acc.2 = some (b,q) → bulk q.left < bulk rest) → ∀ b q, (boxes.foldl (takeMore rest) acc).2 = some (b,q) →
        bulk q.left < bulk rest from hloop boxes (0,none) le_rfl (by simp) box p h
  intro boxes
  induction boxes with
  | nil => exact fun acc _ hacc => hacc
  | cons c boxes ih =>
    intro acc hnonneg hacc
    rw [List.foldl_cons,takeMore]
    split
    · rename_i hmore
      refine ih _ (hnonneg.trans hmore.le) fun b q hbq => ?_
      cases hbq
      have htook := Double.ofInt_pos.mp (hnonneg.trans_lt hmore)
      omega
    · exact ih acc hnonneg hacc

theorem smallestTaking_left (h : smallestTaking rest boxes = some (box,p)) : p.left = [] := by
  induction boxes with
  | nil => cases h
  | cons b boxes ih =>
    simp only [smallestTaking] at h
    split_ifs at h with hless hall
    · exact ih h
    · cases h
      exact hall
    · exact ih h

/-- A round boxes some of the volume. -/
theorem round_less (hrest : Sized rest) (hsome : rest ≠ [])
    (h : (smallestTaking rest boxes).or (takingMost rest boxes) = some (box,p)) : bulk p.left < bulk rest ∧ Sized p.left := by
  rcases Option.or_eq_some_iff.mp h with hsmallest | ⟨-,hmost⟩
  · rw [smallestTaking_left hsmallest]
    exact ⟨bulk_pos hrest hsome,by simp [Sized]⟩
  · obtain rfl := takingMost_some hmost
    exact ⟨takingMost_less hmost,sized_left box hrest⟩

/-- So does the volume itself, where rounding does not turn the order it is tried in. -/
theorem round_trueLess (hrest : Sized rest) (hsome : rest ≠ []) (hsorted : bulk rest ≤ bulk (sorted rest))
    (h : (smallestTaking rest boxes).or (takingMost rest boxes) = some (box,p)) : trueBulk p.left < trueBulk rest := by
  rcases Option.or_eq_some_iff.mp h with hsmallest | ⟨-,hmost⟩
  · rw [smallestTaking_left hsmallest]
    cases rest with
    | nil => exact absurd rfl hsome
    | cons e es =>
      obtain ⟨hpos,hcount⟩ := hrest e List.mem_cons_self
      have hlater := trueBulk_nonneg fun e' he' => hrest e' (List.mem_cons_of_mem e he')
      have hfirst : 0 < (e.count : ℤ)*trueVolume e.kind.size := mul_pos (Int.natCast_pos.mpr hcount) (trueVolume_pos hpos)
      rw [trueBulk_cons]
      exact add_pos_of_pos_of_nonneg hfirst hlater
  · have hless := takingMost_less hmost
    obtain rfl := takingMost_some hmost
    rcases @left_less (dims box.size) rest hrest box.maxPayloadG with htrue | hsame
    · exact htrue
    · rw [packBox,hsame] at hless
      omega

theorem rounds_head (boxes : List Box) (more : ℕ) (rest : List Left) : ∃ later, rounds boxes more rest = rest :: later := by
  cases more with
  | zero => exact ⟨[],rfl⟩
  | succ more =>
    rw [rounds]
    split
    · exact ⟨[],rfl⟩
    · split
      · exact ⟨[],rfl⟩
      · exact ⟨_,rfl⟩

/-- Round after round there is less volume to box, and what there is is as it was. -/
theorem rounds_less (more : ℕ) (hrest : Sized rest) :
    (∀ r ∈ rounds boxes more rest, Sized r ∧ bulk r ≤ bulk rest) ∧
      (rounds boxes more rest).Pairwise fun earlier later => bulk later < bulk earlier := by
  induction more generalizing rest with
  | zero => simp [rounds,hrest]
  | succ more ih =>
    rw [rounds]
    split
    · simp [hrest]
    · rename_i hsome
      split
      · simp [hrest]
      · rename_i box p hchosen
        obtain ⟨hless,hsized⟩ := round_less hrest hsome hchosen
        obtain ⟨hall,hdrop⟩ := ih hsized
        refine ⟨fun r hr => ?_,List.pairwise_cons.mpr ⟨fun r hr => (hall r hr).2.trans_lt hless,hdrop⟩⟩
        rcases List.mem_cons.mp hr with rfl | hr
        · exact ⟨hrest,le_rfl⟩
        · exact ⟨(hall r hr).1,(hall r hr).2.trans hless.le⟩

/-- A round leaves no more volume than there was. -/
theorem round_trueLe (hrest : Sized rest) (h : (smallestTaking rest boxes).or (takingMost rest boxes) = some (box,p)) :
    trueBulk p.left ≤ trueBulk rest := by
  rcases Option.or_eq_some_iff.mp h with hsmallest | ⟨-,hmost⟩
  · rw [smallestTaking_left hsmallest]
    exact trueBulk_nonneg hrest
  · obtain rfl := takingMost_some hmost
    rcases @left_less (dims box.size) rest hrest box.maxPayloadG with hless | hsame
    · exact hless.le
    · rw [packBox,hsame]
      exact ((List.perm_insertionSort _ _).map _).sum_eq.le

theorem rounds_trueLe (more : ℕ) (hrest : Sized rest) : ∀ r ∈ rounds boxes more rest, trueBulk r ≤ trueBulk rest := by
  induction more generalizing rest with
  | zero => simp [rounds]
  | succ more ih =>
    rw [rounds]
    split
    · simp
    · rename_i hsome
      split
      · simp
      · rename_i box p hchosen
        intro r hr
        rcases List.mem_cons.mp hr with rfl | hr
        · exact le_rfl
        · exact (ih (round_less hrest hsome hchosen).2 r hr).trans (round_trueLe hrest hchosen)

/-- No round turns anything where there is too little to box for the doubles to round. -/
theorem rounds_unturned (hboxes : ∀ box ∈ boxes, (dims box.size).Positive) (hrest : Sized rest) (hle : trueBulk rest ≤ 2^53)
    (more : ℕ) : ∀ r ∈ rounds boxes more rest, Unturned boxes r := fun r hr =>
  unturned_of_le hboxes ((rounds_less more hrest).1 r hr).1 ((rounds_trueLe more hrest r hr).trans hle)

/-- Round after round there is less to box by volume, too. -/
theorem rounds_trueLess (more : ℕ) (hrest : Sized rest) (hunturned : ∀ r ∈ rounds boxes more rest, Unturned boxes r) :
    (rounds boxes more rest).Pairwise fun earlier later => trueBulk later < trueBulk earlier := by
  induction more generalizing rest with
  | zero => simp [rounds]
  | succ more ih =>
    rw [rounds] at hunturned ⊢
    split
    · simp
    · rename_i hsome
      rw [if_neg hsome] at hunturned
      split
      · simp
      · rename_i box p hchosen
        simp only [hchosen,List.forall_mem_cons] at hunturned
        have hless := round_trueLess hrest hsome hunturned.1.sorted hchosen
        have hsized := (round_less hrest hsome hchosen).2
        exact List.pairwise_cons.mpr ⟨fun r hr => (rounds_trueLe more hsized r hr).trans_lt hless,ih hsized hunturned.2⟩

theorem greedyFrom_plain (hboxes : ∀ box ∈ boxes, (dims box.size).Positive) (more : ℕ) (plans : List BoxPlan)
    (hrest : Sized rest) (hunturned : ∀ r ∈ rounds boxes more rest, Unturned boxes r) :
    greedyFrom boxes more plans rest = greedyPlainFrom boxes more plans rest := by
  induction more generalizing plans rest with
  | zero => rfl
  | succ more ih =>
    obtain ⟨later,hlater⟩ := rounds_head boxes (more+1) rest
    have hfirst := hunturned rest (hlater ▸ List.mem_cons_self)
    rw [greedyFrom,greedyPlainFrom,← smallestTaking_eq hboxes hrest hfirst.roomy]
    rw [rounds] at hunturned
    by_cases hsome : rest = []
    · rw [if_pos hsome,if_pos hsome]
    · rw [if_neg hsome] at hunturned
      rw [if_neg hsome,if_neg hsome]
      cases hchosen : (smallestTaking rest boxes).or (takingMost rest boxes) with
      | none => rfl
      | some chosen =>
        simp only [hchosen,List.forall_mem_cons] at hunturned
        exact ih _ (round_less hrest hsome hchosen).2 hunturned.2

/-- What is left at the end is what the last round came to. -/
theorem greedyFrom_left (more : ℕ) (plans : List BoxPlan) (rest : List Left) :
    (rounds boxes more rest).getLast? = some (greedyFrom boxes more plans rest).left := by
  induction more generalizing plans rest with
  | zero => rfl
  | succ more ih =>
    rw [rounds,greedyFrom]
    by_cases hsome : rest = []
    · rw [if_pos hsome,if_pos hsome]
      rfl
    · rw [if_neg hsome,if_neg hsome]
      cases hchosen : (smallestTaking rest boxes).or (takingMost rest boxes) with
      | none => rfl
      | some chosen =>
        obtain ⟨later,hlater⟩ := rounds_head boxes more chosen.2.left
        have hend := ih (plans++[plan chosen.1 chosen.2.layers]) chosen.2.left
        simp only [hlater] at hend ⊢
        rw [List.getLast?_cons_cons]
        exact hend

/-- There are no more rounds than there is volume. -/
theorem greedyFrom_ends {n : ℕ} (hrest : Sized rest) (hbulk : bulk rest ≤ n) {more : ℕ} (hmore : n ≤ more)
    (plans : List BoxPlan) : greedyFrom boxes more plans rest = greedyFrom boxes n plans rest := by
  induction n generalizing more plans rest with
  | zero =>
    have hnil : rest = [] := by
      by_contra hsome
      have hpos := bulk_pos hrest hsome
      omega
    subst hnil
    cases more <;> simp [greedyFrom]
  | succ n ih =>
    obtain ⟨more,rfl⟩ := Nat.exists_eq_add_of_le' (Nat.one_le_of_lt hmore)
    rw [greedyFrom,greedyFrom]
    split
    · rfl
    · rename_i hsome
      split
      · rfl
      · rename_i box p hchosen
        obtain ⟨hless,hsized⟩ := round_less hrest hsome hchosen
        exact ih hsized (by omega) (by omega) _

/-- A block of as much of a box's floor as there is, and so high. -/
def block (id : Uuid) (h : ℤ) : Kind := ⟨id,id,"BLOCK",.each,1,⟨209453,209259,h⟩,none,true,id⟩

end Packing
end Spork
