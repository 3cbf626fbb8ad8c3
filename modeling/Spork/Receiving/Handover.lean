import Spork.Receiving.Overage

/-! Goods that arrive in parts, and the claims on their promise: each receipt serves claims
from its own quantity alone and splits none. -/
namespace Spork
namespace Receiving

open Acts Requests

variable {tenant : ℕ} {s s' s'' : Store tenant} {promise : ℕ} {terms : Terms} {rs : List Receipt}
  {answers : List RecordReceiptResponse}

/-- The claims a run of receipts re-pointed. -/
def movedBy (answers : List RecordReceiptResponse) : List ℕ :=
  answers.flatMap RecordReceiptResponse.repointedAllocationIds

theorem movedBy_cons (answer : RecordReceiptResponse) (answers : List RecordReceiptResponse) :
    movedBy (answer :: answers) = answer.repointedAllocationIds++movedBy answers := List.flatMap_cons

/-- What quantities in turn made of the claims on a promise: those standing are those they
left, nobody's was moved twice or lost, and what was moved is on the cell of its receipt. -/
structure HandedInTurn (quantities : List ℤ) (promise : ℕ) (answers : List RecordReceiptResponse)
    (s s' : Store tenant) : Prop where
  quantities_pos : ∀ q ∈ quantities, 0 < q
  standing : s'.standing promise = Allot.leftAfter Claim.quantity quantities (s.standing promise)
  everyone : (movedBy answers++(s'.standing promise).map Claim.id).Perm ((s.standing promise).map Claim.id)
  within_received : Allot.total Claim.quantity (s.standing promise) ≤
    quantities.sum+Allot.total Claim.quantity (s'.standing promise)
  others : ∀ a ∈ s.allocations, a.id ∉ movedBy answers → a ∈ s'.allocations
  moved : ∀ a ∈ s.allocations, ∀ answer ∈ answers, a.id ∈ answer.repointedAllocationIds →
    ∃ cell moment, answer.stockId = some cell ∧ a.handed ⟨a.id,cell,moment,promise⟩ ∈ s'.allocations

theorem HandedInTurn.refl (promise : ℕ) (s : Store tenant) : HandedInTurn [] promise [] s s where
  quantities_pos := by simp
  standing := rfl
  everyone := List.Perm.refl _
  within_received := by simp
  others := fun _ ha _ => ha
  moved := by simp

/-- One handover, and then what the others made of the claims it left. -/
theorem HandedInTurn.cons {quantity moment : ℤ} {quantities : List ℤ} {cell : ℕ}
    {answer : RecordReceiptResponse} (hpos : 0 < quantity) (hcell : answer.stockId = some cell)
    (hone : HandedOver quantity promise cell moment answer.repointedAllocationIds s s')
    (hrest : HandedInTurn quantities promise answers s' s'') :
    HandedInTurn (quantity :: quantities) promise (answer :: answers) s s'' := by
  have hboth : (Allot.served Claim.quantity quantity (s.standing promise)++s'.standing promise).Perm
      (s.standing promise) := by
    rw [hone.standing]
    exact Allot.served_append_left
  have heveryone : (movedBy (answer :: answers)++(s''.standing promise).map Claim.id).Perm
      ((s.standing promise).map Claim.id) := by
    have hids := hboth.map Claim.id
    rw [List.map_append,← hone.repointed] at hids
    rw [movedBy_cons,List.append_assoc]
    exact (hrest.everyone.append_left _).trans hids
  have hapart : ∀ id ∈ answer.repointedAllocationIds, id ∉ movedBy answers := by
    intro id hfirst hlater
    have hnodup := (List.nodup_append.mp (heveryone.nodup_iff.mpr (standing_ids s promise))).1
    rw [movedBy_cons] at hnodup
    exact (List.nodup_append.mp hnodup).2.2 id hfirst id hlater rfl
  exact {
    quantities_pos := List.forall_mem_cons.mpr ⟨hpos,hrest.quantities_pos⟩
    standing := by
      rw [hrest.standing,hone.standing]
      rfl
    everyone := heveryone
    within_received := by
      have htotal : Allot.total Claim.quantity _ = Allot.total Claim.quantity (s.standing promise) :=
        Allot.total_perm hboth
      have hserved : Allot.total Claim.quantity (Allot.served Claim.quantity quantity (s.standing promise)) ≤
        quantity := Allot.total_served_le hpos.le
      have hlater := hrest.within_received
      rw [Allot.total_append] at htotal
      rw [List.sum_cons]
      omega
    others := by
      intro a ha hid
      rw [movedBy_cons,List.mem_append,not_or] at hid
      exact hrest.others a (hone.others a ha hid.1) hid.2
    moved := by
      intro a ha answer' hanswer hid
      rcases List.mem_cons.mp hanswer with rfl | hlater
      · exact ⟨cell,moment,hcell,hrest.others _ (hone.moved a ha hid) (hapart a.id hid)⟩
      · have hmoved : a.id ∈ movedBy answers := List.mem_flatMap.mpr ⟨answer',hlater,hid⟩
        exact hrest.moved a (hone.others a ha fun hfirst => hapart a.id hfirst hmoved) answer' hlater hid }

/-- Accepted receipts whose cells are found hand over in turn. -/
theorem receiveAll_handed (hrun : receiveAll s rs = .ok (answers,s')) (hagainst : Against s promise rs)
    (haccepted : ∀ a ∈ answers, a.accepted = true) (hfound : ∀ a ∈ answers, a.stockId.isSome = true)
    (hterms : s.termsOf promise = some terms) :
    HandedInTurn (rs.map (Receipt.quantity s.packingConfigs terms)) promise answers s s' := by
  induction rs generalizing s answers with
  | nil =>
    obtain ⟨rfl,rfl⟩ := answerAll_nil hrun
    exact HandedInTurn.refl promise _
  | cons r rs ih =>
    obtain ⟨answer,s₁,rest,hone,hall,rfl⟩ := answerAll_cons hrun
    obtain ⟨hnext,hterms₁,resolved,-,hreceived⟩ :=
      receive_against hone hagainst (haccepted answer List.mem_cons_self) hterms
    obtain ⟨cell,hcell⟩ := Option.isSome_iff_exists.mp (hfound answer List.mem_cons_self)
    have hover := hreceived.handed cell hcell
    rw [hagainst.promised r List.mem_cons_self] at hover
    have hrest := ih hall hnext (fun a ha => haccepted a (List.mem_cons_of_mem answer ha))
      (fun a ha => hfound a (List.mem_cons_of_mem answer ha)) hterms₁
    rw [hreceived.packingConfigs] at hrest
    exact HandedInTurn.cons hreceived.quantity_pos hcell hover hrest

/-! ## Delivery in parts -/

/-- What of the claims a run moved. -/
def Store.movedQuantity (s : Store tenant) (promise : ℕ) (answers : List RecordReceiptResponse) : ℤ :=
  Allot.total Claim.quantity ((s.standing promise).filter fun c => c.id ∈ movedBy answers)

theorem HandedInTurn.movedQuantity_le {quantities : List ℤ} (h : HandedInTurn quantities promise answers s s') :
    s.movedQuantity promise answers ≤ quantities.sum := by
  have hnodup := List.nodup_append.mp (h.everyone.nodup_iff.mpr (standing_ids s promise))
  have hkept : (s'.standing promise).filter (fun c => !decide (c.id ∈ movedBy answers)) = s'.standing promise := by
    refine List.filter_eq_self.mpr fun c hc => ?_
    have hnot : c.id ∉ movedBy answers := fun hmem =>
      hnodup.2.2 c.id hmem c.id (List.mem_map_of_mem hc) rfl
    simpa using hnot
  have hsub : (s'.standing promise).Sublist ((s.standing promise).filter fun c =>
      !decide (c.id ∈ movedBy answers)) := by
    rw [← hkept,h.standing]
    exact Allot.leftAfter_sublist.filter _
  have hleft : Allot.total Claim.quantity (s'.standing promise) ≤ Allot.total Claim.quantity _ :=
    Allot.total_le_of_sublist hsub fun c hc => standing_pos (List.mem_of_mem_filter hc)
  have hsplit : s.movedQuantity promise answers+Allot.total Claim.quantity ((s.standing promise).filter fun c =>
      !decide (c.id ∈ movedBy answers)) = Allot.total Claim.quantity (s.standing promise) :=
    Allot.total_filter_add _ _
  have hreceived := h.within_received
  omega

/-- Goods in parts: no claim is re-pointed twice, split or lost; those re-pointed are on the
cell of the receipt that covered them; no more is ever re-pointed than came; and no claim is
left exactly when there was none, or some receipt by itself held all there were before it. -/
theorem delivery_in_parts (hrun : receiveAll s rs = .ok (answers,s')) (hagainst : Against s promise rs)
    (haccepted : ∀ a ∈ answers, a.accepted = true) (hfound : ∀ a ∈ answers, a.stockId.isSome = true)
    (hterms : s.termsOf promise = some terms) :
    (movedBy answers++(s'.standing promise).map Claim.id).Perm ((s.standing promise).map Claim.id) ∧
    (∀ answer ∈ answers, ∀ id ∈ answer.repointedAllocationIds, ∃ a ∈ s'.allocations, a.id = id ∧
      a.stockId = answer.stockId ∧ a.expectedSupplyId = none ∧ a.originExpectedSupplyId = some promise) ∧
    (∀ n, s.movedQuantity promise (answers.take n) ≤
      ((rs.take n).map (Receipt.quantity s.packingConfigs terms)).sum) ∧
    (s'.standing promise = [] ↔ s.standing promise = [] ∨ ∃ before r after, rs = before++r :: after ∧
      ∃ first s₁, receiveAll s before = .ok (first,s₁) ∧
        Allot.total Claim.quantity (s₁.standing promise) ≤ r.quantity s.packingConfigs terms) := by
  have hhanded := receiveAll_handed hrun hagainst haccepted hfound hterms
  -- The first receipts of the run are a run of their own.
  have hfirst (n : ℕ) : ∃ s₁, receiveAll s (rs.take n) = .ok (answers.take n,s₁) ∧
      HandedInTurn ((rs.take n).map (Receipt.quantity s.packingConfigs terms)) promise (answers.take n) s s₁ := by
    obtain ⟨s₁,htake⟩ := answerAll_take hrun n
    exact ⟨s₁,htake,receiveAll_handed htake (hagainst.sublist (List.take_sublist n rs))
      (fun a ha => haccepted a (List.mem_of_mem_take ha)) (fun a ha => hfound a (List.mem_of_mem_take ha)) hterms⟩
  refine ⟨hhanded.everyone,fun answer hanswer id hid => ?_,fun n => ?_,?_⟩
  · have hmoved : id ∈ movedBy answers := List.mem_flatMap.mpr ⟨answer,hanswer,hid⟩
    obtain ⟨c,hc,rfl⟩ := List.mem_map.mp (hhanded.everyone.mem_iff.mp (List.mem_append_left _ hmoved))
    obtain ⟨a,ha,rfl⟩ := standing_row hc
    obtain ⟨cell,moment,hcell,hrow⟩ := hhanded.moved a ha answer hanswer hid
    exact ⟨_,hrow,rfl,hcell.symm,rfl,rfl⟩
  · obtain ⟨s₁,-,htaken⟩ := hfirst n
    exact htaken.movedQuantity_le
  · rw [hhanded.standing,Allot.leftAfter_eq_nil_iff (fun c hc => standing_pos hc)
      (fun q hq => (hhanded.quantities_pos q hq).le)]
    refine or_congr Iff.rfl ⟨?_,?_⟩
    · rintro ⟨before,q,after,hsplit,hle⟩
      obtain ⟨first,rest,rfl,rfl,hrest⟩ := List.map_eq_append_iff.mp hsplit
      obtain ⟨r,later,rfl,rfl,-⟩ := List.map_eq_cons_iff.mp hrest
      obtain ⟨s₁,hbefore,htaken⟩ := hfirst first.length
      rw [List.take_left] at hbefore htaken
      exact ⟨first,r,later,rfl,_,s₁,hbefore,by rwa [htaken.standing]⟩
    · rintro ⟨before,r,after,rfl,first,s₁,hbefore,hle⟩
      obtain ⟨s₂,hbefore',htaken⟩ := hfirst before.length
      rw [List.take_left,hbefore] at hbefore'
      obtain ⟨-,rfl⟩ := Prod.mk.inj (Except.ok.inj hbefore')
      rw [List.take_left] at htaken
      exact ⟨_,_,_,by rw [List.map_append,List.map_cons],by rwa [← htaken.standing]⟩

/-- The dock, with ten of the promise claimed. -/
def claimedDock : Store 7 := {dock with
  allocations := [⟨30,7,none,some 10,none,10,.allocated,0,by decide,by decide,by decide⟩]
  allocation_tenant := by simp
  allocation_ids := by simp}

/-- A receipt of five and then one of ten leave nobody waiting. -/
theorem delivery_in_parts_covered : ∃ out,
    receiveAll claimedDock [delivery 1 5,delivery 2 10] = .ok out ∧ out.2.standing 10 = [] := by
  have htest : passes (receiveAll claimedDock [delivery 1 5,delivery 2 10]) (fun out =>
      out.1.all RecordReceiptResponse.accepted && out.1.all fun a => a.stockId.isSome) = true := by decide +kernel
  have hbefore : passes (receiveAll claimedDock [delivery 1 5]) (fun out =>
      Allot.total Claim.quantity (out.2.standing 10) ≤ 10) = true := by decide +kernel
  obtain ⟨out,hrun,hout⟩ := passes_ok htest
  obtain ⟨⟨first,s₁⟩,hfirst,hle⟩ := passes_ok hbefore
  rw [Bool.and_eq_true,List.all_eq_true,List.all_eq_true] at hout
  have hterms : claimedDock.termsOf 10 = some hundred := rfl
  exact ⟨out,hrun,(delivery_in_parts hrun (deliveries_against rfl [(1,5),(2,10)] (by decide)) hout.1 hout.2
    hterms).2.2.2.mpr (Or.inr ⟨[delivery 1 5],delivery 2 10,[],rfl,first,s₁,hfirst,of_decide_eq_true hle⟩)⟩

/-- Two receipts of five leave a claim of ten where it was. -/
theorem delivery_in_parts_unmet : ∃ out,
    receiveAll claimedDock [delivery 1 5,delivery 2 5] = .ok out ∧
    Against claimedDock 10 [delivery 1 5,delivery 2 5] ∧ (∀ a ∈ out.1, a.accepted = true) ∧
    (∀ a ∈ out.1, a.stockId.isSome = true) ∧ claimedDock.termsOf 10 = some hundred ∧
    Allot.total Claim.quantity (claimedDock.standing 10) ≤
      ([delivery 1 5,delivery 2 5].map (Receipt.quantity [] hundred)).sum ∧
    out.2.standing 10 ≠ [] := by
  have htest : passes (receiveAll claimedDock [delivery 1 5,delivery 2 5]) (fun out =>
      out.1.all RecordReceiptResponse.accepted && (out.1.all (fun a => a.stockId.isSome) &&
        decide (out.2.standing 10 ≠ []))) = true := by decide +kernel
  obtain ⟨out,hrun,hout⟩ := passes_ok htest
  rw [Bool.and_eq_true,Bool.and_eq_true,List.all_eq_true,List.all_eq_true,decide_eq_true_eq] at hout
  exact ⟨out,hrun,deliveries_against rfl [(1,5),(2,5)] (by decide),hout.1,hout.2.1,rfl,
    by decide +kernel,hout.2.2⟩

end Receiving
end Spork
