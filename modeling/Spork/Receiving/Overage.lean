import Spork.Receiving.Accepted

/-! Receipts against one promise, one after another, and the findings they raise of more
having come than was promised. -/
namespace Spork
namespace Receiving

open Acts Requests

variable {tenant : ℕ} {s s' : Store tenant}

/-! ## Receipts against one promise -/

/-- Receipts of different acts against a promise, none of them recorded yet. -/
structure Against (s : Store tenant) (promise : ℕ) (rs : List Receipt) : Prop where
  promised : ∀ r ∈ rs, r.body.expectedSupplyId = promise
  acts : (rs.map fun r => r.body.clientEventId).Nodup
  unrecorded : ∀ r ∈ rs, r.body.clientEventId ∉ s.clientEvents

/-- The quantity of a receipt, in the base unit of the item promised. -/
def Receipt.quantity (configs : List (PackingConfig × ℤ)) (terms : Terms) (r : Receipt) : ℤ :=
  quantityOf configs terms.itemId r.body

/-- The policy a receipt falls under states a tolerance. -/
def Governs (s : Store tenant) (terms : Terms) (tolerance : Option ℚ) (r : Receipt) : Prop :=
  ∃ resolved, resolveReceivingPolicy s.policies terms.itemId terms.supplierPartyId
    (terms.siteId.or r.who.siteId) r.body.occurredAt = .ok resolved ∧
      resolved.policy.toleranceOverPct = tolerance

theorem termsOf_refreshed {refresh : Option Projected} (h : s'.supplies = (s.refreshed refresh).supplies)
    (promise : ℕ) : s'.termsOf promise = s.termsOf promise := by
  rw [Store.termsOf,Store.termsOf,Store.supplyOf,Store.supplyOf,h]
  cases refresh with
  | none => rfl
  | some p =>
    rw [Store.refreshed,List.find?_map,Option.map_map]
    rfl

variable {promise : ℕ} {terms : Terms} {r : Receipt} {rs : List Receipt} {answer : RecordReceiptResponse}
  {answers : List RecordReceiptResponse}

/-- Some of such receipts, in their order, are such receipts too. -/
theorem Against.sublist {rs' : List Receipt} (h : Against s promise rs) (hsub : rs'.Sublist rs) :
    Against s promise rs' where
  promised := fun r hr => h.promised r (hsub.mem hr)
  acts := h.acts.sublist (hsub.map _)
  unrecorded := fun r hr => h.unrecorded r (hsub.mem hr)

/-- The receipts after the first are such receipts too. -/
theorem Against.tail (h : Against s promise (r :: rs))
    (hevents : s'.clientEvents = s.clientEvents++[r.body.clientEventId]) : Against s' promise rs where
  promised := fun r' hr' => h.promised r' (List.mem_cons_of_mem r hr')
  acts := (List.nodup_cons.mp h.acts).2
  unrecorded := by
    intro r' hr' hmem
    rw [hevents] at hmem
    rcases List.mem_append.mp hmem with hold | hfirst
    · exact h.unrecorded r' (List.mem_cons_of_mem r hr') hold
    · exact (List.nodup_cons.mp h.acts).1 (List.mem_map.mpr ⟨r',hr',List.mem_singleton.mp hfirst⟩)

/-- One receipt of such, accepted, leaves the terms of the promise as they were. -/
theorem receive_against (h : receive s r = .ok (answer,s')) (hagainst : Against s promise (r :: rs))
    (haccepted : answer.accepted = true) (hterms : s.termsOf promise = some terms) :
    Against s' promise rs ∧ s'.termsOf promise = some terms ∧ ∃ resolved,
      resolveReceivingPolicy s.policies terms.itemId terms.supplierPartyId (terms.siteId.or r.who.siteId)
        r.body.occurredAt = .ok resolved ∧
      Received terms.quantityExpected (r.quantity s.packingConfigs terms) resolved.policy.toleranceOverPct r
        answer s s' := by
  obtain ⟨terms',resolved,hterms',hresolved,hreceived⟩ :=
    receive_accepted h (hagainst.unrecorded r List.mem_cons_self) haccepted
  rw [hagainst.promised r List.mem_cons_self,hterms] at hterms'
  obtain rfl := Option.some.inj hterms'
  exact ⟨hagainst.tail hreceived.clientEvents,by rw [termsOf_refreshed hreceived.supplies,hterms],
    resolved,hresolved,hreceived⟩

/-! ## The findings -/

variable {tolerance : Option ℚ}

/-- Accepted receipts raise findings about their own lines, one of too much exactly when
some receipt was over by itself. -/
theorem receiveAll_findings (hrun : receiveAll s rs = .ok (answers,s')) (hagainst : Against s promise rs)
    (haccepted : ∀ a ∈ answers, a.accepted = true) (hterms : s.termsOf promise = some terms)
    (hgoverned : ∀ r ∈ rs, Governs s terms tolerance r) :
    (∀ a ∈ answers, a.goodsReceiptLineId ∉ s.lines.map GoodsReceiptLine.id) ∧
    ∃ ds, s'.discrepancies = s.discrepancies++ds ∧
      (∀ d ∈ ds, ∃ a ∈ answers, d.goodsReceiptLineId = a.goodsReceiptLineId) ∧
        ((∃ d ∈ ds, d.kind = .overReceipt) ↔ ∃ r ∈ rs,
          overReceipt tolerance terms.quantityExpected (r.quantity s.packingConfigs terms) = true) := by
  induction rs generalizing s answers with
  | nil =>
    obtain ⟨rfl,rfl⟩ := answerAll_nil hrun
    exact ⟨by simp,[],(List.append_nil _).symm,by simp,by simp⟩
  | cons r rs ih =>
    obtain ⟨answer,s₁,rest,hone,hall,rfl⟩ := answerAll_cons hrun
    obtain ⟨hnext,hterms₁,resolved,hresolved,hreceived⟩ :=
      receive_against hone hagainst (haccepted answer List.mem_cons_self) hterms
    obtain ⟨resolved',hresolved',htolerance⟩ := hgoverned r List.mem_cons_self
    obtain rfl := Except.ok.inj (hresolved.symm.trans hresolved')
    have hgoverned₁ : ∀ r' ∈ rs, Governs s₁ terms tolerance r' := by
      intro r' hr'
      rw [Governs,hreceived.policies]
      exact hgoverned r' (List.mem_cons_of_mem r hr')
    obtain ⟨hnew,ds',hds',habout',hfinds'⟩ := ih hall hnext
      (fun a ha => haccepted a (List.mem_cons_of_mem answer ha)) hterms₁ hgoverned₁
    obtain ⟨ds,hds,habout,hfinds⟩ := hreceived.findings
    rw [hreceived.packingConfigs] at hfinds'
    rw [htolerance] at hfinds
    refine ⟨fun a ha => ?_,ds++ds',by rw [hds',hds,List.append_assoc],fun d hd => ?_,?_⟩
    · rcases List.mem_cons.mp ha with rfl | ha
      · exact hreceived.line_new
      · intro hmem
        refine hnew a ha ?_
        rw [hreceived.lines]
        exact List.mem_append_left _ hmem
    · rcases List.mem_append.mp hd with hd | hd
      · exact ⟨answer,List.mem_cons_self,habout d hd⟩
      · obtain ⟨a,ha,heq⟩ := habout' d hd
        exact ⟨a,List.mem_cons_of_mem answer ha,heq⟩
    · simp only [List.mem_append,List.mem_cons,or_and_right,exists_or,exists_eq_left]
      exact or_congr hfinds hfinds'

/-- A finding of too much names a line some answer is about. -/
def Found (answers : List RecordReceiptResponse) (s : Store tenant) : Prop :=
  ∃ d ∈ s.discrepancies, d.kind = .overReceipt ∧ ∃ a ∈ answers, d.goodsReceiptLineId = a.goodsReceiptLineId

instance (answers : List RecordReceiptResponse) (s : Store tenant) : Decidable (Found answers s) := by
  unfold Found
  infer_instance

theorem found_iff (hrun : receiveAll s rs = .ok (answers,s')) (hagainst : Against s promise rs)
    (haccepted : ∀ a ∈ answers, a.accepted = true) (hterms : s.termsOf promise = some terms)
    (hgoverned : ∀ r ∈ rs, Governs s terms tolerance r) :
    Found answers s' ↔ ∃ r ∈ rs,
      overReceipt tolerance terms.quantityExpected (r.quantity s.packingConfigs terms) = true := by
  obtain ⟨hnew,ds,hds,habout,hfinds⟩ := receiveAll_findings hrun hagainst haccepted hterms hgoverned
  rw [← hfinds,Found,hds]
  constructor
  · rintro ⟨d,hd,hkind,a,ha,hline⟩
    rcases List.mem_append.mp hd with hold | hd
    · obtain ⟨l,hl,hid⟩ := s.discrepancy_line d hold
      exact absurd (List.mem_map.mpr ⟨l,hl,hid.trans hline⟩) (hnew a ha)
    · exact ⟨d,hd,hkind⟩
  · rintro ⟨d,hd,hkind⟩
    exact ⟨d,List.mem_append_right _ hd,hkind,habout d hd⟩

/-- More having come in all than the tolerance allows is found exactly when some receipt
was over by itself. -/
theorem over_delivery_found_iff (hrun : receiveAll s rs = .ok (answers,s')) (hagainst : Against s promise rs)
    (haccepted : ∀ a ∈ answers, a.accepted = true) (hterms : s.termsOf promise = some terms)
    (hgoverned : ∀ r ∈ rs, Governs s terms tolerance r) :
    (overReceipt tolerance terms.quantityExpected (rs.map (Receipt.quantity s.packingConfigs terms)).sum = true →
      Found answers s') ↔
    (overReceipt tolerance terms.quantityExpected (rs.map (Receipt.quantity s.packingConfigs terms)).sum = true →
      ∃ r ∈ rs, overReceipt tolerance terms.quantityExpected (r.quantity s.packingConfigs terms) = true) := by
  rw [found_iff hrun hagainst haccepted hterms hgoverned]

/-- A hundred of an item promised, under a policy of ten in the hundred. -/
def dock : Store 7 where
  clientEvents := []
  supplies := [⟨10,7,1,none,some 3,some 4,100,0,none,50,none⟩]
  packingConfigs := []
  locations := [⟨2,7⟩]
  available := 4
  policies := {
    policyCandidate := fun _ _ _ _ => [⟨1,0,0,0,0,0,0⟩]
    policyValue := fun _ _ => [⟨1,"require_lot",0⟩,⟨1,"tolerance_over_pct",10⟩]
    receivingPolicy := [⟨9,1,0,none⟩] }
  lots := []
  receipts := []
  lines := []
  discrepancies := []
  movements := []
  stock := [⟨20,1,some 2,none,none,4,3⟩]
  allocations := []
  discrepancy_line := by simp
  allocation_tenant := by simp
  allocation_ids := by simp

/-- A receipt of some of them at the dock. -/
def delivery (act : ℕ) (quantity : ℤ) : Receipt where
  who := ⟨none⟩
  turn := ⟨100+act,200+act,300+act,400+act,500+act,600+act,0,none⟩
  body := ⟨10,2,some quantity,none,none,none,none,none,none,none,none,none,none,none,act,0⟩

def hundred : Terms := ⟨1,none,100,none⟩

theorem delivery_governed (act : ℕ) (quantity : ℤ) : Governs dock hundred (some 10) (delivery act quantity) := by
  have h : resolveReceivingPolicy dock.policies 1 none none 0 = .ok ⟨⟨9,some 10,false⟩,none⟩ := rfl
  exact ⟨_,h,rfl⟩

theorem deliveries_against {s : Store 7} (hevents : s.clientEvents = []) (parts : List (ℕ × ℤ))
    (hacts : (parts.map Prod.fst).Nodup) : Against s 10 (parts.map fun p => delivery p.1 p.2) where
  promised := by
    intro r hr
    obtain ⟨p,-,rfl⟩ := List.mem_map.mp hr
    rfl
  acts := by
    rw [List.map_map]
    exact hacts
  unrecorded := by simp [hevents]

/-- All of a hundred and twenty in one receipt is found. -/
theorem over_delivery_found_iff_whole : ∃ out, receiveAll dock [delivery 1 120] = .ok out ∧ Found out.1 out.2 := by
  have htest : passes (receiveAll dock [delivery 1 120])
      (fun out => out.1.all RecordReceiptResponse.accepted) = true := by decide +kernel
  obtain ⟨out,hrun,haccepted⟩ := passes_ok htest
  have hterms : dock.termsOf 10 = some hundred := rfl
  have hgoverned : ∀ r ∈ [delivery 1 120], Governs dock hundred (some 10) r := by
    intro r hr
    rw [List.mem_singleton.mp hr]
    exact delivery_governed 1 120
  have hover : overReceipt (some 10) 100 120 = true := by decide +kernel
  exact ⟨out,hrun,(over_delivery_found_iff hrun (deliveries_against rfl [(1,120)] (by decide))
    (List.all_eq_true.mp haccepted) hterms hgoverned).mpr
      (fun _ => ⟨_,List.mem_singleton.mpr rfl,hover⟩) hover⟩

/-- The same in two receipts of sixty, each under a hundred, is not. -/
theorem over_delivery_unfound : ∃ out, receiveAll dock [delivery 1 60,delivery 2 60] = .ok out ∧
    Against dock 10 [delivery 1 60,delivery 2 60] ∧ (∀ a ∈ out.1, a.accepted = true) ∧
    dock.termsOf 10 = some hundred ∧
    (∀ r ∈ [delivery 1 60,delivery 2 60], Governs dock hundred (some 10) r) ∧
    overReceipt (some 10) 100 ([delivery 1 60,delivery 2 60].map (Receipt.quantity [] hundred)).sum = true ∧
    ¬Found out.1 out.2 := by
  have htest : passes (receiveAll dock [delivery 1 60,delivery 2 60])
      (fun out => out.1.all RecordReceiptResponse.accepted && decide ¬Found out.1 out.2) = true := by
    decide +kernel
  obtain ⟨out,hrun,hout⟩ := passes_ok htest
  rw [Bool.and_eq_true,List.all_eq_true,decide_eq_true_eq] at hout
  have hgoverned : ∀ r ∈ [delivery 1 60,delivery 2 60], Governs dock hundred (some 10) r := by
    intro r hr
    rcases List.mem_pair.mp hr with rfl | rfl
    · exact delivery_governed 1 60
    · exact delivery_governed 2 60
  exact ⟨out,hrun,deliveries_against rfl [(1,60),(2,60)] (by decide),hout.1,rfl,hgoverned,
    by decide +kernel,hout.2⟩

end Receiving
end Spork
