import Spork.Receiving.Recording
import Spork.Lib.Loop

/-! One accepted receipt: what it leaves of the rows it found, what it raises and what it
hands over. -/
namespace Spork
namespace Receiving

open Acts Requests

variable {tenant : ℕ} {s s' s'' : Store tenant}

/-! ## Rows added before the handover -/

/-- Lines and findings were added, and what a later receipt reads is as it was. -/
structure Added (ids : List ℕ) (ds : List Discrepancy) (s s' : Store tenant) : Prop where
  clientEvents : s'.clientEvents = s.clientEvents
  supplies : s'.supplies = s.supplies
  packingConfigs : s'.packingConfigs = s.packingConfigs
  policies : s'.policies = s.policies
  allocations : s'.allocations = s.allocations
  lines : s'.lines.map GoodsReceiptLine.id = s.lines.map GoodsReceiptLine.id++ids
  discrepancies : s'.discrepancies = s.discrepancies++ds

theorem Added.refl (s : Store tenant) : Added [] [] s s :=
  ⟨rfl,rfl,rfl,rfl,rfl,(List.append_nil _).symm,(List.append_nil _).symm⟩

theorem Added.trans {ids ids' : List ℕ} {ds ds' : List Discrepancy} (h : Added ids ds s s')
    (h' : Added ids' ds' s' s'') : Added (ids++ids') (ds++ds') s s'' where
  clientEvents := h'.clientEvents.trans h.clientEvents
  supplies := h'.supplies.trans h.supplies
  packingConfigs := h'.packingConfigs.trans h.packingConfigs
  policies := h'.policies.trans h.policies
  allocations := h'.allocations.trans h.allocations
  lines := by rw [h'.lines,h.lines,List.append_assoc]
  discrepancies := by rw [h'.discrepancies,h.discrepancies,List.append_assoc]

theorem findOrMakeLot_added (s : Store tenant) (minted itemId : ℕ) (code : String) (expiry : Option Date) :
    Added [] [] s (findOrMakeLot s minted itemId code expiry).2 := by
  unfold findOrMakeLot
  split
  · exact {Added.refl s with}
  · split
    · exact {Added.refl s with}
    · exact Added.refl s
    · exact Added.refl s

theorem lotOf_added (s : Store tenant) (turn : Turn) (itemId : ℕ) (body : RecordReceiptRequest) :
    Added [] [] s (lotOf s turn itemId body).2 := by
  unfold lotOf
  split
  · exact Added.refl s
  · exact Added.refl s
  · exact findOrMakeLot_added s _ _ _ _

theorem ensureGoodsReceipt_added {minted : ℕ} {named : Option ℕ} {gr : ℕ → GoodsReceipt} {out : ℕ × Bool}
    (h : ensureGoodsReceipt s minted named gr = .ok (out,s')) : Added [] [] s s' := by
  unfold ensureGoodsReceipt at h
  split at h
  · cases h
    exact {Added.refl s with}
  · split at h
    · cases h
      exact {Added.refl s with}
    · split_ifs at h
      cases h
      exact Added.refl s

/-- A line is inserted under an id that is new. -/
theorem insertLine_added {l : GoodsReceiptLine} (h : insertLine s l = .ok s') :
    l.id ∉ s.lines.map GoodsReceiptLine.id ∧ Added [l.id] [] s s' := by
  unfold insertLine at h
  split at h
  · cases h
  · next hnew =>
    cases h
    refine ⟨fun hmem => ?_,{Added.refl s with lines := List.map_append}⟩
    obtain ⟨l',hl',hid⟩ := List.mem_map.mp hmem
    exact hnew (Or.inl ⟨l',hl',hid⟩)

theorem insertDiscrepancy_added {d : Discrepancy} (h : insertDiscrepancy s d = .ok s') : Added [] [d] s s' := by
  unfold insertDiscrepancy at h
  split at h
  · cases h
    exact {Added.refl s with discrepancies := rfl}
  · cases h

theorem decide_added (s : Store tenant) (line : ℕ) (disp : Disposition) : Added [] [] s (s.decide line disp) := by
  refine {Added.refl s with lines := ?_}
  rw [Store.decide,List.map_map,List.append_nil]
  exact List.map_congr_left fun l _ => l.decide_id line disp

/-- A decision raises its one finding about its line, or none. -/
theorem goodsReceiptLineDispose_added {minted line : ℕ} {now : ℤ} {disp : Disposition} {out : Option ℕ}
    (h : goodsReceiptLineDispose s minted now line disp = .ok (out,s')) : ∃ ds, Added [] ds s s' ∧
      ds.map (fun d => (d.kind,d.goodsReceiptLineId)) = disp.raised.toList.map (·,line) := by
  unfold goodsReceiptLineDispose at h
  split at h
  · cases h
  · split at h
    · cases h
    · split at h
      · next hraised =>
        cases h
        exact ⟨[],decide_added s line disp,by rw [hraised]; rfl⟩
      · next kind hraised =>
        obtain ⟨s₁,hinsert,h⟩ := bind_ok h
        cases h
        exact ⟨_,(decide_added s line disp).trans (insertDiscrepancy_added hinsert),by rw [hraised]; rfl⟩

/-- A tie of policies raises its one finding, or none. -/
theorem raiseAmbiguity_added {ambiguity : Option String} {d : Discrepancy}
    (h : raiseAmbiguity s ambiguity d = .ok s') : ∃ ds, Added [] ds s s' ∧ ∀ d' ∈ ds, d' = d := by
  unfold raiseAmbiguity at h
  split at h
  · cases h
    exact ⟨[],Added.refl s,by simp⟩
  · exact ⟨[d],insertDiscrepancy_added h,by simp⟩

/-- A line written is new, and the findings are about it: one of what was decided, if that
raises any, and otherwise of ties. -/
theorem writeLine_added {who : Caller} {turn : Turn} {body : RecordReceiptRequest} {line : Counted}
    {lotId : Option ℕ} {ambiguity : Option String} {disp : Disposition} {out : Written}
    (h : writeLine s who turn body line lotId ambiguity disp = .ok (out,s')) :
    turn.lineId ∉ s.lines.map GoodsReceiptLine.id ∧ ∃ ds, Added [turn.lineId] ds s s' ∧
      (∀ d ∈ ds, d.goodsReceiptLineId = turn.lineId) ∧
        ((∃ d ∈ ds, d.kind = .overReceipt) ↔ disp.raised = some .overReceipt) := by
  obtain ⟨⟨header,s₁⟩,hheader,h⟩ := bind_ok h
  obtain ⟨s₂,hinsert,h⟩ := bind_ok h
  obtain ⟨⟨disposed,s₃⟩,hdispose,h⟩ := bind_ok h
  obtain ⟨s₄,hambiguity,h⟩ := bind_ok h
  cases h
  have hbeside := ensureGoodsReceipt_added hheader
  obtain ⟨hnew,hline⟩ := insertLine_added hinsert
  obtain ⟨raised,hraised,hkinds⟩ := goodsReceiptLineDispose_added hdispose
  obtain ⟨ties,hties,htie⟩ := raiseAmbiguity_added hambiguity
  have hlines : s.lines.map GoodsReceiptLine.id = s₁.lines.map GoodsReceiptLine.id := by
    rw [hbeside.lines,List.append_nil]
  refine ⟨hlines ▸ hnew,raised++ties,((hbeside.trans hline).trans hraised).trans hties,fun d hd => ?_,?_⟩
  · rcases List.mem_append.mp hd with hd | hd
    · have hpair : (d.kind,d.goodsReceiptLineId) ∈ disp.raised.toList.map (·,turn.lineId) :=
        hkinds ▸ List.mem_map_of_mem hd
      obtain ⟨kind,-,heq⟩ := List.mem_map.mp hpair
      exact (Prod.mk.inj heq).2.symm
    · rw [htie d hd]
  · constructor
    · rintro ⟨d,hd,hkind⟩
      rcases List.mem_append.mp hd with hd | hd
      · have hpair : (d.kind,d.goodsReceiptLineId) ∈ disp.raised.toList.map (·,turn.lineId) :=
          hkinds ▸ List.mem_map_of_mem hd
        obtain ⟨kind,hraise,heq⟩ := List.mem_map.mp hpair
        rw [← hkind,← (Prod.mk.inj heq).1]
        exact Option.mem_toList.mp hraise
      · rw [htie d hd] at hkind
        cases hkind
    · intro hraise
      have hpair : (DiscrepancyKind.overReceipt,turn.lineId) ∈ raised.map fun d => (d.kind,d.goodsReceiptLineId) := by
        rw [hkinds,hraise]
        exact List.mem_singleton.mpr rfl
      obtain ⟨d,hd,heq⟩ := List.mem_map.mp hpair
      exact ⟨d,List.mem_append_left _ hd,(Prod.mk.inj heq).1⟩

/-! ## The handover -/

/-- The claims on a promise are told apart by their ids. -/
theorem claimsOn_ids (s : Store tenant) (promise : ℕ) : ((s.claimsOn promise).map Claim.id).Nodup := by
  rw [Store.claimsOn,List.map_map]
  exact s.allocation_ids.sublist (List.filter_sublist.map _)

/-- A claim re-pointed is on no promise any more, and the others are where they were. -/
theorem claimsOn_repoint (s : Store tenant) (r : Repoint) (promise : ℕ) : (s.repoint r).claimsOn promise =
    (s.claimsOn promise).filter fun c => c.id ≠ r.allocationId := by
  have hkept : s.allocations.filter ((fun a => decide (a.expectedSupplyId = some promise)) ∘ Allocation.moved r) =
      s.allocations.filter fun a => (decide (a.id ≠ r.allocationId) && decide (a.expectedSupplyId = some promise)) := by
    refine List.filter_congr fun a _ => ?_
    rw [Function.comp_apply,Allocation.moved]
    split
    · next hid => simp [Allocation.handed,hid]
    · next hid => simp [hid]
  rw [Store.claimsOn,Store.claimsOn,Store.repoint,List.filter_map,List.filter_map,List.filter_filter,
    List.map_map,hkept]
  refine List.map_congr_left fun a ha => ?_
  have hid : a.id ≠ r.allocationId := by
    have hboth := (List.mem_filter.mp ha).2
    simp only [Bool.and_eq_true,decide_eq_true_eq] at hboth
    exact hboth.1
  rw [Function.comp_apply,Allocation.moved,if_neg hid]

/-- Claims re-pointed one after another leave the promise, and no others. -/
theorem claimsOn_foldl (rs : List Repoint) (s : Store tenant) (promise : ℕ) :
    (rs.foldl Store.repoint s).claimsOn promise =
      (s.claimsOn promise).filter fun c => c.id ∉ rs.map Repoint.allocationId := by
  induction rs generalizing s with
  | nil => simp
  | cons r rs ih =>
    rw [List.foldl_cons,ih,claimsOn_repoint,List.filter_filter]
    refine List.filter_congr fun c _ => ?_
    simp only [List.map_cons,List.mem_cons,not_or,Bool.decide_and,Bool.and_comm]

/-- A row no re-pointing names stays as it is. -/
theorem mem_foldl_of_notMem {rs : List Repoint} {a : Allocation} (ha : a ∈ s.allocations)
    (hnot : a.id ∉ rs.map Repoint.allocationId) : a ∈ (rs.foldl Store.repoint s).allocations := by
  induction rs generalizing s with
  | nil => exact ha
  | cons r rs ih =>
    rw [List.map_cons,List.mem_cons,not_or] at hnot
    refine ih (List.mem_map.mpr ⟨a,ha,?_⟩) hnot.2
    rw [Allocation.moved,if_neg hnot.1]

/-- A row one re-pointing names is handed over by it. -/
theorem mem_foldl_of_mem {rs : List Repoint} {r : Repoint} {a : Allocation} (hr : r ∈ rs)
    (honce : (rs.map Repoint.allocationId).Nodup) (ha : a ∈ s.allocations) (hid : a.id = r.allocationId) :
    a.handed r ∈ (rs.foldl Store.repoint s).allocations := by
  induction rs generalizing s with
  | nil => cases hr
  | cons r' rs ih =>
    rw [List.map_cons,List.nodup_cons] at honce
    rw [List.foldl_cons]
    rcases List.mem_cons.mp hr with rfl | hr
    · have hhanded : a.handed r ∈ (s.repoint r).allocations := List.mem_map.mpr ⟨a,ha,if_pos hid⟩
      exact mem_foldl_of_notMem hhanded fun hmem => honce.1 (hid ▸ hmem)
    · have hne : a.id ≠ r'.allocationId := fun heq => honce.1 (heq ▸ hid ▸ List.mem_map_of_mem hr)
      exact ih hr honce.2 (List.mem_map.mpr ⟨a,ha,if_neg hne⟩)

/-! ## The claims still standing -/

/-- The active claims on a promise, in the order a receipt serves them. -/
def Store.standing (s : Store tenant) (promise : ℕ) : List Claim :=
  Sorted.sortBy firstBound ((s.claimsOn promise).filter fun c => c.state ∈ active)

theorem standing_ids (s : Store tenant) (promise : ℕ) : ((s.standing promise).map Claim.id).Nodup := by
  have hperm := (Sorted.sortBy_perm firstBound ((s.claimsOn promise).filter fun c => c.state ∈ active)).map Claim.id
  rw [Store.standing,hperm.nodup_iff]
  exact (claimsOn_ids s promise).sublist (List.filter_sublist.map _)

/-- A claim standing is a row's. -/
theorem standing_row {c : Claim} {promise : ℕ} (hc : c ∈ s.standing promise) :
    ∃ a ∈ s.allocations, a.toClaim = c := by
  rw [Store.standing,Sorted.mem_sortBy] at hc
  obtain ⟨a,ha,hrow⟩ := List.mem_map.mp (List.mem_of_mem_filter hc)
  exact ⟨a,List.mem_of_mem_filter ha,hrow⟩

theorem standing_pos {c : Claim} {promise : ℕ} (hc : c ∈ s.standing promise) : 0 < c.quantity := by
  obtain ⟨a,-,rfl⟩ := standing_row hc
  exact a.quantity_pos

/-- What an arrival may serve are the claims standing. -/
theorem eligible_eq_standing {arrival : Arrival} (h : arrival.tenantId = tenant) (s : Store tenant) :
    eligible arrival (s.claimsOn arrival.expectedSupplyId) = s.standing arrival.expectedSupplyId := by
  rw [eligible,Store.standing]
  congr 1
  refine List.filter_congr fun c hc => ?_
  obtain ⟨a,ha,rfl⟩ := List.mem_map.mp hc
  have hpromise : a.expectedSupplyId = some arrival.expectedSupplyId := by simpa using (List.mem_filter.mp ha).2
  have hnone : refusal arrival a.toClaim = none := refusal_eq_none.mpr
    ⟨(s.allocation_tenant a (List.mem_of_mem_filter ha)).trans h.symm,hpromise⟩
  rw [hnone]
  simp

/-- A plan serves the claims standing, the first bound first. -/
theorem plan_ids {arrival : Arrival} (ht : arrival.tenantId = tenant) (hpos : 0 < arrival.quantityReceived)
    (s : Store tenant) : (plan arrival (s.claimsOn arrival.expectedSupplyId)).1.map Repoint.allocationId =
      (Allot.served Claim.quantity arrival.quantityReceived (s.standing arrival.expectedSupplyId)).map Claim.id := by
  rw [plan_repoints hpos,eligible_eq_standing ht,List.map_map]
  rfl

/-- After a handover the claims standing are those it left. -/
theorem standing_handover {arrival : Arrival} (ht : arrival.tenantId = tenant)
    (hpos : 0 < arrival.quantityReceived) (s : Store tenant) :
    ((plan arrival (s.claimsOn arrival.expectedSupplyId)).1.foldl Store.repoint s).standing
      arrival.expectedSupplyId =
        Allot.left Claim.quantity arrival.quantityReceived (s.standing arrival.expectedSupplyId) := by
  have happart : ∀ a ∈ (s.claimsOn arrival.expectedSupplyId).filter fun c => c.state ∈ active,
      ∀ b ∈ (s.claimsOn arrival.expectedSupplyId).filter fun c => c.state ∈ active,
        firstBound a b = .eq → a = b := fun a ha b hb hab =>
    List.inj_on_of_nodup_map (claimsOn_ids s _) (List.mem_of_mem_filter ha) (List.mem_of_mem_filter hb)
      (firstBound_id hab)
  rw [Allot.left_eq_filter Claim.id (standing_ids s _),← plan_ids ht hpos,Store.standing,Store.standing,
    claimsOn_foldl,List.filter_filter,← Sorted.sortBy_filter happart,List.filter_filter]
  simp only [Bool.and_comm]

/-- A handover of a quantity to a cell: claims are served from it in their order, those
served are on the cell, and the rest are where they were. -/
structure HandedOver (quantity : ℤ) (promise cell : ℕ) (moment : ℤ) (ids : List ℕ) (s s' : Store tenant) :
    Prop where
  repointed : ids = (Allot.served Claim.quantity quantity (s.standing promise)).map Claim.id
  standing : s'.standing promise = Allot.left Claim.quantity quantity (s.standing promise)
  moved : ∀ a ∈ s.allocations, a.id ∈ ids → a.handed ⟨a.id,cell,moment,promise⟩ ∈ s'.allocations
  others : ∀ a ∈ s.allocations, a.id ∉ ids → a ∈ s'.allocations

theorem standing_congr (h : s.allocations = s'.allocations) (promise : ℕ) :
    s.standing promise = s'.standing promise := by
  rw [Store.standing,Store.standing,Store.claimsOn,Store.claimsOn,h]

/-- A handover is told by the allocations. -/
theorem HandedOver.of_allocations {quantity moment : ℤ} {promise cell : ℕ} {ids : List ℕ}
    (h : HandedOver quantity promise cell moment ids s s'') (hsame : s.allocations = s'.allocations) :
    HandedOver quantity promise cell moment ids s' s'' where
  repointed := by rw [h.repointed,standing_congr hsame]
  standing := by rw [h.standing,standing_congr hsame]
  moved := hsame ▸ h.moved
  others := hsame ▸ h.others

theorem plan_handedOver (arrival : Arrival) (ht : arrival.tenantId = tenant) (hpos : 0 < arrival.quantityReceived)
    (s : Store tenant) : HandedOver arrival.quantityReceived arrival.expectedSupplyId arrival.stockId
      arrival.occurredAt ((plan arrival (s.claimsOn arrival.expectedSupplyId)).1.map Repoint.allocationId) s
        ((plan arrival (s.claimsOn arrival.expectedSupplyId)).1.foldl Store.repoint s) where
  repointed := plan_ids ht hpos s
  standing := standing_handover ht hpos s
  moved := by
    intro a ha hid
    have honce : ((plan arrival (s.claimsOn arrival.expectedSupplyId)).1.map Repoint.allocationId).Nodup := by
      rw [plan_ids ht hpos]
      exact (standing_ids s _).sublist (Allot.served_sublist.map _)
    obtain ⟨r,hr,hrid⟩ := List.mem_map.mp hid
    have hhanded := mem_foldl_of_mem hr honce ha hrid.symm
    rw [plan_repoints hpos] at hr
    obtain ⟨c,-,rfl⟩ := List.mem_map.mp hr
    exact hhanded
  others := fun a ha hid => mem_foldl_of_notMem ha hid

/-! ## The request -/

/-- What of a promise no refresh rewrites. -/
structure Terms where
  itemId : ℕ
  siteId : Option ℕ
  quantityExpected : ℤ
  supplierPartyId : Option ℕ
  deriving DecidableEq, Repr

def ExpectedSupply.terms (e : ExpectedSupply) : Terms := ⟨e.itemId,e.siteId,e.quantityExpected,e.supplierPartyId⟩

def Store.termsOf (s : Store tenant) (promise : ℕ) : Option Terms := (s.supplyOf promise).map ExpectedSupply.terms

/-- What a request counts of an item, in its base unit. -/
def quantityOf (configs : List (PackingConfig × ℤ)) (itemId : ℕ) (body : RecordReceiptRequest) : ℤ :=
  match countOf configs itemId body with
  | .ok out => out.1
  | .error _ => 0

theorem countOf_pos {configs : List (PackingConfig × ℤ)} {itemId : ℕ} {body : RecordReceiptRequest}
    {out : ℤ × EnteredCount} (h : countOf configs itemId body = .ok out) : 0 < out.1 := by
  obtain ⟨config,-,h⟩ := bind_ok h
  dsimp only at h
  split at h
  · cases h
  · split at h
    · cases h
    · next hpos =>
      cases h
      exact not_le.mp hpos

/-- What passed the checks counts goods of the item promised. -/
theorem checkReceipt_ok {body : RecordReceiptRequest} {line : Counted} (h : checkReceipt s body = .ok line) :
    s.supplyOf body.expectedSupplyId = some line.supply ∧ 0 < line.baseQuantity ∧
      quantityOf s.packingConfigs line.supply.itemId body = line.baseQuantity := by
  unfold checkReceipt at h
  split at h
  · cases h
  · next supply hsupply =>
    split at h
    · cases h
    · obtain ⟨⟨q,entered⟩,hcount,h⟩ := bind_ok h
      dsimp only at h
      split at h
      · cases h
      · split at h
        · cases h
          exact ⟨hsupply,countOf_pos hcount,by rw [quantityOf,hcount]⟩
        · cases h

/-- Claims moved one after another, and nothing else. -/
theorem foldl_repoint_eq (rs : List Repoint) (s : Store tenant) : ∃ as htenant hids,
    rs.foldl Store.repoint s = {s with
      allocations := as, allocation_tenant := htenant, allocation_ids := hids} := by
  induction rs generalizing s with
  | nil => exact ⟨s.allocations,s.allocation_tenant,s.allocation_ids,rfl⟩
  | cons r rs ih => exact ih (s.repoint r)

theorem landed_eq (s : Store tenant) (turn : Turn) (body : RecordReceiptRequest) (line : Counted)
    (lotId : Option ℕ) : ∃ movements stock, s.landed turn body line lotId = {s with
      movements, stock, supplies := (s.refreshed turn.refresh).supplies} := by
  unfold Store.landed Store.refreshed
  cases turn.refresh with
  | none => exact ⟨_,_,rfl⟩
  | some p => exact ⟨_,_,rfl⟩

/-- What an accepted receipt of a quantity made of the store: an act, a line, the findings
about it, and the handover to the cell its goods are in. -/
structure Received (expected quantity : ℤ) (tolerance : Option ℚ) (r : Receipt)
    (answer : RecordReceiptResponse) (s s' : Store tenant) : Prop where
  quantity_pos : 0 < quantity
  clientEvents : s'.clientEvents = s.clientEvents++[r.body.clientEventId]
  supplies : s'.supplies = (s.refreshed r.turn.refresh).supplies
  packingConfigs : s'.packingConfigs = s.packingConfigs
  policies : s'.policies = s.policies
  line_new : answer.goodsReceiptLineId ∉ s.lines.map GoodsReceiptLine.id
  lines : s'.lines.map GoodsReceiptLine.id = s.lines.map GoodsReceiptLine.id++[answer.goodsReceiptLineId]
  findings : ∃ ds, s'.discrepancies = s.discrepancies++ds ∧
    (∀ d ∈ ds, d.goodsReceiptLineId = answer.goodsReceiptLineId) ∧
      ((∃ d ∈ ds, d.kind = .overReceipt) ↔ overReceipt tolerance expected quantity = true)
  handed : ∀ cell, answer.stockId = some cell → HandedOver quantity r.body.expectedSupplyId cell
    r.body.occurredAt answer.repointedAllocationIds s s'

theorem refreshed_supplies (h : s.supplies = s'.supplies) (refresh : Option Projected) :
    (s.refreshed refresh).supplies = (s'.refreshed refresh).supplies := by
  cases refresh with
  | none => exact h
  | some p => exact congrArg (List.map _) h

/-- A line accepted changes supplies by the refresh alone and allocations by the handover
alone, to the cell it found. -/
theorem acceptLine_handed (s : Store tenant) (turn : Turn) (body : RecordReceiptRequest) (line : Counted)
    (lotId : Option ℕ) (hpos : 0 < line.baseQuantity) :
    (∃ s₁ : Store tenant, Added [] [] {s with supplies := (s.refreshed turn.refresh).supplies} s₁ ∧
      ∃ as htenant hids, (acceptLine s turn body line lotId).2 = {s₁ with
        allocations := as, allocation_tenant := htenant, allocation_ids := hids}) ∧
    ∀ cell, (acceptLine s turn body line lotId).1.stockId = some cell →
      HandedOver line.baseQuantity body.expectedSupplyId cell body.occurredAt
        (acceptLine s turn body line lotId).1.repointed s (acceptLine s turn body line lotId).2 := by
  obtain ⟨movements,stock,hlanded⟩ := landed_eq s turn body line lotId
  have hsame : (s.landed turn body line lotId).allocations = s.allocations := by rw [hlanded]
  have hadded : Added [] [] {s with supplies := (s.refreshed turn.refresh).supplies}
      (s.landed turn body line lotId) := by
    rw [hlanded]
    exact {Added.refl s with supplies := rfl}
  rw [acceptLine]
  dsimp only
  split
  · exact ⟨⟨_,hadded,_,Store.allocation_tenant _,Store.allocation_ids _,rfl⟩,fun cell hcell => by cases hcell⟩
  · next cell _ =>
    refine ⟨⟨_,hadded,foldl_repoint_eq _ _⟩,fun cell' hcell => ?_⟩
    cases hcell
    exact (plan_handedOver (arrivalOf tenant cell body line) rfl hpos _).of_allocations hsame

/-- An accepted receipt of an act nobody claimed. -/
theorem receive_accepted {r : Receipt} {answer : RecordReceiptResponse} (h : receive s r = .ok (answer,s'))
    (hnew : r.body.clientEventId ∉ s.clientEvents) (haccepted : answer.accepted = true) :
    ∃ terms resolved, s.termsOf r.body.expectedSupplyId = some terms ∧
      resolveReceivingPolicy s.policies terms.itemId terms.supplierPartyId (terms.siteId.or r.who.siteId)
        r.body.occurredAt = .ok resolved ∧
      Received terms.quantityExpected (quantityOf s.packingConfigs terms.itemId r.body)
        resolved.policy.toleranceOverPct r answer s s' := by
  unfold receive recordReceipt at h
  split at h
  · cases h
  · next line hline =>
    obtain ⟨hsupply,hpos,hquantity⟩ := checkReceipt_ok hline
    rw [if_neg hnew] at h
    have hlot := lotOf_added (s.claimed r.body.clientEventId) r.turn line.supply.itemId r.body
    obtain ⟨resolved,hresolved,h⟩ := bind_ok h
    obtain ⟨⟨written,s₁⟩,hwritten,h⟩ := bind_ok h
    generalize lotOf (s.claimed r.body.clientEventId) r.turn line.supply.itemId r.body = lot at *
    cases h
    have hdisp : (disposition resolved.policy
      ⟨line.supply.quantityExpected,line.baseQuantity,lot.1.1.isSome⟩).accept = true := haccepted
    have hland : landLine s₁ r.turn r.body line lot.1.1 _ = acceptLine s₁ r.turn r.body line lot.1.1 := if_pos hdisp
    obtain ⟨hline,ds,hadded,habout,hfinds⟩ := writeLine_added hwritten
    rw [disposition_raised hdisp] at hfinds
    have hall : Added [r.turn.lineId] ds (s.claimed r.body.clientEventId) s₁ := hlot.trans hadded
    obtain ⟨⟨s₂,hkept,as,htenant,hids,hrest⟩,hhanded⟩ := acceptLine_handed s₁ r.turn r.body line lot.1.1 hpos
    have hold : lot.2.lines.map GoodsReceiptLine.id = s.lines.map GoodsReceiptLine.id :=
      hlot.lines.trans (List.append_nil _)
    have hterms : s.termsOf r.body.expectedSupplyId = some line.supply.terms := by
      rw [Store.termsOf,hsupply]
      rfl
    refine ⟨line.supply.terms,resolved,hterms,?_,?_⟩
    · have hpolicies : lot.2.policies = s.policies := hlot.policies
      rw [← hpolicies]
      exact hresolved
    · rw [ExpectedSupply.terms,hquantity,hland]
      exact {
        quantity_pos := hpos
        clientEvents := by
          rw [hrest]
          exact hkept.clientEvents.trans hall.clientEvents
        supplies := by
          rw [hrest]
          have hsupplies : s₁.supplies = s.supplies := hall.supplies
          exact hkept.supplies.trans (refreshed_supplies hsupplies _)
        packingConfigs := by
          rw [hrest]
          exact hkept.packingConfigs.trans hall.packingConfigs
        policies := by
          rw [hrest]
          exact hkept.policies.trans hall.policies
        line_new := hold ▸ hline
        lines := by
          rw [hrest]
          exact (hkept.lines.trans (List.append_nil _)).trans hall.lines
        findings := by
          rw [hrest]
          refine ⟨ds,(hkept.discrepancies.trans (List.append_nil _)).trans hall.discrepancies,habout,?_⟩
          rw [hfinds]
          dsimp only
          split
          · next hover => exact iff_of_true rfl hover
          · next hover => exact iff_of_false (by simp) hover
        handed := fun cell hcell => (hhanded cell hcell).of_allocations hall.allocations }

end Receiving
end Spork
