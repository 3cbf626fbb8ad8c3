import Spork.Acts.Lagging
import Spork.Lib.ShareOut

/-! Voiding a package (`void_package`), and what its guard and that of a contain tell: the
ledger's sum and the nesting are read from the facts, the status and what is in a package
from columns that lag. -/
namespace Spork
namespace Acts

open Ledger Packages

variable {packages : List ℕ}

/-! ## What is in a package, by the ledger -/

section
variable (ms : List Movement) (p : ℕ)

/-- The movements into or out of a package, each with what the view gives of it. -/
def touching : List (Movement × ℤ) :=
  (ms.filter fun m => m.toSide.packageId = some p ∨ m.fromSide.packageId = some p).flatMap fun m =>
    ((stockMovementEffective ms).filter fun e => e.movementId = m.id).map fun e => (m,e.effectiveQuantity)

/-- The units of all items in a package, as the handler adds them. -/
def heldUnits : ℤ :=
  ((touching ms p).map fun x => if x.1.toSide.packageId = some p then x.2 else -x.2).sum

/-- A movement's units that came into the package, less those that left it. -/
def inLessOut (x : Movement × ℤ) : ℤ :=
  (if x.1.toSide.packageId = some p then x.2 else 0)-if x.1.fromSide.packageId = some p then x.2 else 0

/-- The net of an item in a package. -/
def packageNet (item : ℕ) : ℤ :=
  (((touching ms p).filter fun x => x.1.itemId = item).map (inLessOut p)).sum

/-- What moved from a package to the package itself. -/
def movedWithin : ℤ :=
  (((touching ms p).filter fun x =>
    x.1.toSide.packageId = some p ∧ x.1.fromSide.packageId = some p).map Prod.snd).sum

end

/-- The handler's sum is the items' nets together, and what moved within the package,
which it counts as come in. -/
theorem heldUnits_eq (ms : List Movement) (p : ℕ) : heldUnits ms p =
    ((((touching ms p).map fun x => x.1.itemId).dedup.map (packageNet ms p)).sum)+movedWithin ms p := by
  have hitems : (((touching ms p).map fun x => x.1.itemId).dedup.map (packageNet ms p)).sum =
      ((touching ms p).map (inLessOut p)).sum := by
    have hgroups : ∀ x ∈ touching ms p, x.1.itemId ∈ ((touching ms p).map fun x => x.1.itemId).dedup :=
      fun x hx => List.mem_dedup.mpr (List.mem_map.mpr ⟨x,hx,rfl⟩)
    have hperm := ShareOut.fibers_perm (List.nodup_dedup _) (fun x : Movement × ℤ => x.1.itemId) hgroups
    rw [← (hperm.map (inLessOut p)).sum_eq,Forest.sum_flatMap]
    rfl
  have hside : ∀ x ∈ touching ms p, x.1.toSide.packageId = some p ∨ x.1.fromSide.packageId = some p := by
    intro x hx
    obtain ⟨m,hm,hrow⟩ := List.mem_flatMap.mp hx
    obtain ⟨e,-,rfl⟩ := List.mem_map.mp hrow
    exact of_decide_eq_true (List.mem_filter.mp hm).2
  have hsplit (xs : List (Movement × ℤ))
      (h : ∀ x ∈ xs, x.1.toSide.packageId = some p ∨ x.1.fromSide.packageId = some p) :
      (xs.map fun x => if x.1.toSide.packageId = some p then x.2 else -x.2).sum =
        (xs.map (inLessOut p)).sum+((xs.filter fun x =>
          x.1.toSide.packageId = some p ∧ x.1.fromSide.packageId = some p).map Prod.snd).sum := by
    induction xs with
    | nil => rfl
    | cons x xs ih =>
      have hrest := ih fun y hy => h y (List.mem_cons_of_mem x hy)
      have hx := h x (by simp)
      rw [List.map_cons,List.sum_cons,hrest,List.map_cons,List.sum_cons,inLessOut]
      by_cases hto : x.1.toSide.packageId = some p
      · by_cases hfrom : x.1.fromSide.packageId = some p
        · simp [hto,hfrom]
          ring
        · simp [hto,hfrom]
          ring
      · simp [hto,hx.resolve_left hto]
        ring
  rw [hitems]
  exact hsplit (touching ms p) hside

/-- Only an item of a movement into or out of a package has a net there. -/
theorem packageNet_eq_zero {ms : List Movement} {p item : ℕ}
    (h : item ∉ (touching ms p).map fun x => x.1.itemId) : packageNet ms p item = 0 := by
  have hnone : (touching ms p).filter (fun x => x.1.itemId = item) = [] :=
    List.filter_eq_nil_iff.mpr fun x hx hitem => h (List.mem_map.mpr ⟨x,hx,by simpa using hitem⟩)
  rw [packageNet,hnone]
  rfl

/-- Where the sum is nought no item has a net, unless two items make up for each other or
something moved within the package. -/
theorem nets_zero_iff {ms : List Movement} {p : ℕ} (h : heldUnits ms p = 0) :
    (∀ item, packageNet ms p item = 0) ↔ movedWithin ms p = 0 ∧
      ∀ item other, packageNet ms p item ≠ 0 → packageNet ms p other ≠ 0 → item = other := by
  rw [heldUnits_eq] at h
  constructor
  · intro hzero
    refine ⟨?_,fun item other hitem => absurd (hzero item) hitem⟩
    have hnets : (((touching ms p).map fun x => x.1.itemId).dedup.map (packageNet ms p)).sum = 0 :=
      List.sum_eq_zero fun net hnet => by
        obtain ⟨item,-,rfl⟩ := List.mem_map.mp hnet
        exact hzero item
    rwa [hnets,zero_add] at h
  · rintro ⟨hwithin,hone⟩ item
    by_contra hne
    rw [hwithin,add_zero] at h
    have hmem : item ∈ ((touching ms p).map fun x => x.1.itemId).dedup :=
      List.mem_dedup.mpr (by_contra fun hnot => hne (packageNet_eq_zero hnot))
    have honly : (((touching ms p).map fun x => x.1.itemId).dedup.map (packageNet ms p)).sum =
        packageNet ms p item := by
      rw [← List.sum_toFinset _ (List.nodup_dedup _)]
      refine Finset.sum_eq_single item (fun other _ hother => ?_) fun hnot => ?_
      · by_contra hnet
        exact hother (hone other item hnet hne)
      · exact absurd (List.mem_toFinset.mpr hmem) hnot
    exact hne (honly ▸ h)

/-! ## The handler -/

structure VoidPackageRequest where
  clientEventId : ℕ
  occurredAt : ℤ
  source : Option String
  deriving DecidableEq, Repr

/-- Why a status keeps a package from being voided, if it does. -/
def barText : Kind → Option String
  | .despatched => some "that carton has already left"
  | .voided => some "that carton is already void"
  | .sealed => some "that carton is sealed; open it before voiding it"
  | _ => none

/-- How many packages are projected to be in a package. -/
def children (s : Store packages) (p : ℕ) : ℕ :=
  (packages.filter fun q => (s.table q).parentPackageId = some p).length

/-- What a void records. The table takes a new row from a source it knows only; nothing has
asked before. -/
def recordVoid (s : Store packages) (minted : Minted) (packageId : ℕ) (body : VoidPackageRequest) :
    Except ApiError (PackageActResponse × Store packages) :=
  if body.clientEventId ∉ s.clientEvents ∧ body.source.getD "operator_scan" ∉ sources then .error .database
  else recordPackageEvent s body.clientEventId ⟨minted,body.occurredAt,packageId,.voided,none,none⟩ []

def voidPackage (s : Store packages) (minted : Minted) (packageId : ℕ) (body : VoidPackageRequest) :
    Except ApiError (PackageActResponse × Store packages) :=
  if packageId ∉ packages then .error .notFound
  else match (s.table packageId).status.bind barText with
    | some text => .error (.rejected text)
    | none =>
      let held := heldUnits s.ledger packageId
      let children := children s packageId
      if held ≠ 0 then .error (.rejected ("that carton still holds "++toString held++
        "; take the contents out before voiding it, or the stock belongs to something no screen lists"))
      else if children ≠ 0 then .error (.rejected ("that carton still has "++toString children++
        " package(s) nested under it"))
      else recordVoid s minted packageId body

/-! ## What the guard lets through -/

/-- Nothing is against a void but what may be projected. -/
structure VoidClear (s : Store packages) (minted : Minted) (packageId : ℕ) (body : VoidPackageRequest) :
    Prop where
  package : packageId ∈ packages
  held : heldUnits s.ledger packageId = 0
  source : body.clientEventId ∈ s.clientEvents ∨ body.source.getD "operator_scan" ∈ sources
  act : ActClear s body.clientEventId ⟨minted,body.occurredAt,packageId,.voided,none,none⟩

/-- The statuses that keep a package from being voided. -/
def barring : List (Option Kind) := [some .sealed,some .despatched,some .voided]

/-- What is projected lets a package be voided: no status that bars it, and nothing in it. -/
def ProjectedOpen (s : Store packages) (p : ℕ) : Prop :=
  (s.table p).status ∉ barring ∧ ∀ q ∈ packages, (s.table q).parentPackageId ≠ some p

theorem barText_none_iff (status : Option Kind) : status.bind barText = none ↔ status ∉ barring := by
  cases status with
  | none => decide
  | some kind => cases kind <;> decide

theorem children_eq_zero_iff (s : Store packages) (p : ℕ) :
    children s p = 0 ↔ ∀ q ∈ packages, (s.table q).parentPackageId ≠ some p := by
  rw [children,List.length_eq_zero_iff,List.filter_eq_nil_iff]
  simp

/-- A void passes to the log as any package act does, from a source the table knows. -/
theorem recordVoid_eq {s : Store packages} {body : VoidPackageRequest}
    (hsource : body.clientEventId ∈ s.clientEvents ∨ body.source.getD "operator_scan" ∈ sources)
    (minted : Minted) (p : ℕ) : recordVoid s minted p body = recordPackageEvent s body.clientEventId
      ⟨minted,body.occurredAt,p,.voided,none,none⟩ [] := by
  rw [recordVoid,if_neg]
  rintro ⟨hnew,hunknown⟩
  exact hsource.elim hnew hunknown

theorem recordVoid_isOk (s : Store packages) (minted : Minted) (p : ℕ) (body : VoidPackageRequest) :
    (recordVoid s minted p body).isOk = true ↔
      (body.clientEventId ∈ s.clientEvents ∨ body.source.getD "operator_scan" ∈ sources) ∧
      ActClear s body.clientEventId ⟨minted,body.occurredAt,p,.voided,none,none⟩ := by
  by_cases hsource : body.clientEventId ∈ s.clientEvents ∨ body.source.getD "operator_scan" ∈ sources
  · rw [recordVoid_eq hsource,recordPackageEvent_isOk,and_iff_right hsource]
  · rw [recordVoid,if_pos (not_or.mp hsource)]
    exact iff_of_false (by simp [Except.isOk,Except.toBool]) fun hand => hsource hand.1

/-- When a void is accepted. -/
theorem voidPackage_isOk (s : Store packages) (minted : Minted) (p : ℕ) (body : VoidPackageRequest) :
    (voidPackage s minted p body).isOk = true ↔ VoidClear s minted p body ∧ ProjectedOpen s p := by
  have hchildren := children_eq_zero_iff s p
  have hact := recordVoid_isOk s minted p body
  unfold voidPackage
  by_cases hp : p ∈ packages
  · rw [if_neg (not_not.mpr hp)]
    cases hbar : (s.table p).status.bind barText with
    | some text =>
      refine iff_of_false (by simp [Except.isOk,Except.toBool]) fun hand => ?_
      rw [(barText_none_iff _).mpr hand.2.1] at hbar
      cases hbar
    | none =>
      have hopen := (barText_none_iff _).mp hbar
      by_cases hheld : heldUnits s.ledger p = 0
      · by_cases hnested : children s p = 0
        · simp only [hheld,hnested,ne_eq,not_true_eq_false,if_false]
          exact hact.trans ⟨fun h => ⟨⟨hp,hheld,h.1,h.2⟩,hopen,hchildren.mp hnested⟩,
            fun hand => ⟨hand.1.source,hand.1.act⟩⟩
        · simp only [hheld,hnested,ne_eq,not_true_eq_false,not_false_eq_true,if_false,if_true]
          exact iff_of_false (by simp [Except.isOk,Except.toBool]) fun hand => hnested (hchildren.mpr hand.2.2)
      · simp only [hheld,ne_eq,not_false_eq_true,if_true]
        exact iff_of_false (by simp [Except.isOk,Except.toBool]) fun hand => hheld hand.1.held
  · rw [if_pos hp]
    exact iff_of_false (by simp [Except.isOk,Except.toBool]) fun hand => hp hand.1.package

/-- A void with nothing against it is recorded. -/
theorem voidPackage_eq {s : Store packages} {p : ℕ} {body : VoidPackageRequest} (hp : p ∈ packages)
    (hheld : heldUnits s.ledger p = 0) (hopen : ProjectedOpen s p)
    (hsource : body.clientEventId ∈ s.clientEvents ∨ body.source.getD "operator_scan" ∈ sources) (minted : Minted) :
    voidPackage s minted p body = recordPackageEvent s body.clientEventId
      ⟨minted,body.occurredAt,p,.voided,none,none⟩ [] := by
  rw [voidPackage,if_neg (not_not.mpr hp),(barText_none_iff _).mpr hopen.1]
  simp [hheld,(children_eq_zero_iff s p).mpr hopen.2,recordVoid_eq hsource]

theorem voidPackage_passes {s : Store packages} {minted : Minted} {p : ℕ} {body : VoidPackageRequest}
    {out : PackageActResponse × Store packages} (h : voidPackage s minted p body = .ok out) :
    recordPackageEvent s body.clientEventId ⟨minted,body.occurredAt,p,.voided,none,none⟩ [] = .ok out := by
  obtain ⟨hclear,hopen⟩ := (voidPackage_isOk s minted p body).mp (isOk_iff.mpr ⟨out,h⟩)
  rw [← voidPackage_eq hclear.package hclear.held hopen hclear.source]
  exact h

/-- An accepted void leaves the ledger and the nesting. -/
theorem voidPackage_frame {s : Store packages} {minted : Minted} {p : ℕ} {body : VoidPackageRequest}
    {out : PackageActResponse × Store packages} (h : voidPackage s minted p body = .ok out) :
    out.2.ledger = s.ledger ∧ out.2.packageParentNow = s.packageParentNow := by
  have hrecord := voidPackage_passes h
  refine ⟨recordPackageEvent_ledger hrecord,?_⟩
  rcases recordPackageEvent_log hrecord with hsame | ⟨hallowed,hnew⟩
  · funext q
    rw [Store.packageParentNow,hsame]
    rfl
  · rcases packageParentNow_append hnew with hold | ⟨hplaces,-⟩
    · exact hold
    · cases hplaces

/-! ## Against the log -/

section
variable {s : Store packages} {seen since : List (Event packages)}

theorem Lags.projectedOpen_iff (h : Lags s seen since) (p : ℕ) : ProjectedOpen s p ↔ ¬Closed seen p := by
  rw [ProjectedOpen,Closed,not_or,← h.parent_iff p,show barring = bars.map some from rfl,h.status_mem_iff]
  simp

theorem Lags.projectedGoing_iff (h : Lags s seen since) (child parent : ℕ) :
    ProjectedGoing s child parent ↔ ¬(Gone seen child ∨ Gone seen parent) := by
  have hgone (p : ℕ) : isTerminal (s.table p).status = false ↔ ¬Gone seen p := by
    rw [Gone,← h.status_mem_iff ends p,isTerminal]
    exact decide_eq_false_iff_not
  rw [ProjectedGoing,hgone,hgone,not_or]

theorem Lags.nowOpen_iff (h : Lags s seen since) (p : ℕ) :
    ((∀ q ∈ packages, s.packageParentNow q ≠ some p) ∧ s.packageStatusNow p ∉ barring) ↔
      ¬Standing (seen++since) p bars ∧ ¬Holds (seen++since) p := by
  rw [← h.packageParentNow_iff p,show barring = bars.map some from rfl,h.packageStatusNow_mem_iff,and_comm]
  simp

/-- An accepted void leaves a package with nothing in it that was not closed, and neither
it nor a contain is any different once the projection has caught up, just when, where
nothing else is against the void, what came since the projection ran makes no difference to
it and no two items in a package shown open make up for each other, and, where nothing else
is against the contain, what came since makes no difference to that. -/
theorem void_guard_iff (h : Lags s seen since) (who : Caller) (minted : Minted) (p : ℕ)
    (body : VoidPackageRequest) (child : ℕ) (contained : ContainPackageRequest) :
    ((∀ out, voidPackage s minted p body = .ok out →
        (∀ item, packageNet out.2.ledger p item = 0) ∧
        (∀ q ∈ packages, out.2.packageParentNow q ≠ some p) ∧ s.packageStatusNow p ∉ barring) ∧
      (voidPackage s minted p body).isOk = (voidPackage s.rebuildPackages minted p body).isOk ∧
      (containPackage s who minted child contained).isOk =
        (containPackage s.rebuildPackages who minted child contained).isOk) ↔
    (VoidClear s minted p body → VoidUnturned seen since p ∧
      (Closed seen p ∨ movedWithin s.ledger p = 0 ∧
        ∀ item other, packageNet s.ledger p item ≠ 0 → packageNet s.ledger p other ≠ 0 → item = other)) ∧
    (NestingClear s who child contained ∧ ActClear s contained.clientEventId
        ⟨minted,contained.occurredAt,child,.contained,some contained.parentPackageId,none⟩ →
      ContainUnturned seen since child contained.parentPackageId) := by
  have hcaught : Lags s.rebuildPackages (seen++since) [] := h.log_eq ▸ h.rebuildPackages
  have hvoid : VoidClear s.rebuildPackages minted p body ↔ VoidClear s minted p body :=
    ⟨fun h => ⟨h.package,h.held,h.source,h.act⟩,fun h => ⟨h.package,h.held,h.source,h.act⟩⟩
  have hnest : NestingClear s.rebuildPackages who child contained ↔ NestingClear s who child contained :=
    ⟨fun h => ⟨h.source,h.not_itself,h.package,h.parent,h.tenant,h.loops,h.levels⟩,
      fun h => ⟨h.source,h.not_itself,h.package,h.parent,h.tenant,h.loops,h.levels⟩⟩
  have hact : ActClear s.rebuildPackages contained.clientEventId
      ⟨minted,contained.occurredAt,child,.contained,some contained.parentPackageId,none⟩ ↔
      ActClear s contained.clientEventId
        ⟨minted,contained.occurredAt,child,.contained,some contained.parentPackageId,none⟩ := Iff.rfl
  have hvoidSame : (voidPackage s minted p body).isOk = (voidPackage s.rebuildPackages minted p body).isOk ↔
      (VoidClear s minted p body → (¬Closed seen p ↔ ¬Closed (seen++since) p)) := by
    rw [Bool.eq_iff_iff,voidPackage_isOk,voidPackage_isOk,hvoid,h.projectedOpen_iff,hcaught.projectedOpen_iff,
      and_congr_right_iff]
  have hcontainSame : (containPackage s who minted child contained).isOk =
      (containPackage s.rebuildPackages who minted child contained).isOk ↔
      (NestingClear s who child contained ∧ ActClear s contained.clientEventId
          ⟨minted,contained.occurredAt,child,.contained,some contained.parentPackageId,none⟩ →
        ContainUnturned seen since child contained.parentPackageId) := by
    rw [Bool.eq_iff_iff,containPackage_isOk,containPackage_isOk,hnest,hact,and_congr_right_iff,
      h.projectedGoing_iff,hcaught.projectedGoing_iff,not_iff_not,containUnturned_iff]
  have haccepted : (∀ out, voidPackage s minted p body = .ok out →
      (∀ item, packageNet out.2.ledger p item = 0) ∧
      (∀ q ∈ packages, out.2.packageParentNow q ≠ some p) ∧ s.packageStatusNow p ∉ barring) ↔
      (VoidClear s minted p body → ¬Closed seen p → (∀ item, packageNet s.ledger p item = 0) ∧
        ¬Standing (seen++since) p bars ∧ ¬Holds (seen++since) p) := by
    rw [← and_imp,← h.projectedOpen_iff,← voidPackage_isOk,← h.nowOpen_iff,isOk_iff]
    constructor
    · rintro h ⟨out,hout⟩
      obtain ⟨hledger,hnow⟩ := voidPackage_frame hout
      rw [← hledger,← hnow]
      exact h out hout
    · rintro h out hout
      obtain ⟨hledger,hnow⟩ := voidPackage_frame hout
      rw [hledger,hnow]
      exact h ⟨out,hout⟩
  rw [haccepted,hvoidSame,hcontainSame,← and_assoc,and_congr_left_iff]
  intro _
  rw [← forall_and]
  refine forall_congr' fun hclear => ?_
  rw [← voidUnturned_iff,or_iff_not_imp_left,← nets_zero_iff hclear.held]
  constructor
  · rintro ⟨hleft,hsame⟩
    exact ⟨⟨hsame,fun hopen => (hleft hopen).2⟩,fun hopen => (hleft hopen).1⟩
  · rintro ⟨⟨hsame,hlog⟩,hnets⟩
    exact ⟨fun hopen => ⟨hnets hopen,hlog hopen⟩,hsame⟩

end

/-- A row of the log, under an envelope of its own. -/
def logged (r : NewEvent) (h : r.Allowed [1,2]) : PackageEvent [1,2] := ⟨r.minted.id,r.toEvent h⟩

/-- Two cartons placed, one put in the other and taken out again. -/
def takenOut : List (PackageEvent [1,2]) :=
  [logged ⟨⟨20,0⟩,0,1,.placed,none,some 5⟩ (by decide),logged ⟨⟨21,1⟩,1,2,.placed,none,some 5⟩ (by decide),
    logged ⟨⟨22,2⟩,2,2,.contained,some 1,none⟩ (by decide),logged ⟨⟨23,3⟩,3,2,.placed,none,some 5⟩ (by decide)]

/-- The other sealed and opened. -/
def looked : List (PackageEvent [1,2]) :=
  [logged ⟨⟨24,4⟩,4,1,.sealed,none,none⟩ (by decide),logged ⟨⟨25,5⟩,5,1,.opened,none,none⟩ (by decide)]

/-- A rebuild once it was taken out, and the other looked into since. -/
def emptied : Store [1,2] where
  clientEvents := [20,21,22,23,24,25]
  packageEvents := takenOut++looked
  stockMovements := []
  package := fun _ => ⟨7,none,false⟩
  table := (Packages.run ((takenOut.map PackageEvent.event).map .arrive++[.rebuild])).table
  stock := []
  adjustmentReasons := []
  discrepancies := []
  stockCounts := []
  locations := []
  lines := []
  event_act := by decide
  movement_act := by decide

theorem emptied_lags : Lags emptied (takenOut.map PackageEvent.event) (looked.map PackageEvent.event) :=
  ⟨List.map_append,(takenOut.map PackageEvent.event).map .arrive,by rw [Packages.run,foldl_arrive,List.nil_append],rfl⟩

theorem void_guard_emptied :
    (∀ out, voidPackage emptied ⟨30,6⟩ 1 ⟨30,6,none⟩ = .ok out →
      (∀ item, packageNet out.2.ledger 1 item = 0) ∧
      (∀ q ∈ [1,2], out.2.packageParentNow q ≠ some 1) ∧ emptied.packageStatusNow 1 ∉ barring) ∧
    (voidPackage emptied ⟨30,6⟩ 1 ⟨30,6,none⟩).isOk = (voidPackage emptied.rebuildPackages ⟨30,6⟩ 1 ⟨30,6,none⟩).isOk ∧
    (containPackage emptied ⟨7⟩ ⟨30,6⟩ 2 ⟨1,30,6,none⟩).isOk =
      (containPackage emptied.rebuildPackages ⟨7⟩ ⟨30,6⟩ 2 ⟨1,30,6,none⟩).isOk := by
  have hplacement {q e} (he : winningPlacement (takenOut.map PackageEvent.event++looked.map PackageEvent.event) q = some e) :
      e ∉ looked.map PackageEvent.event :=
    fun hsince => absurd (winner_tells he).2.2 ((show ∀ e ∈ looked.map PackageEvent.event,
      ¬e.kind.assertsPlacement = true by decide) e hsince)
  have hopened {e} (he : winningStatus (takenOut.map PackageEvent.event++looked.map PackageEvent.event) 1 = some e) :
      e.kind = .opened := by
    have hkind : ((winningStatus (takenOut.map PackageEvent.event++looked.map PackageEvent.event) 1).map
        Event.kind) = some .opened := by decide
    rw [he] at hkind
    exact Option.some.inj hkind
  have hunshut : ∀ p, ¬Standing (takenOut.map PackageEvent.event) p bars := by
    rintro p ⟨e,he,-⟩
    exact absurd (winner_tells he).2.2 ((show ∀ e ∈ takenOut.map PackageEvent.event,
      ¬e.assertsStatus = true by decide) e (winner_tells he).1)
  refine (void_guard_iff emptied_lags ⟨7⟩ ⟨30,6⟩ 1 ⟨30,6,none⟩ 2 ⟨1,30,6,none⟩).mpr ⟨fun _ => ⟨?_,Or.inr ⟨rfl,?_⟩⟩,fun _ => ?_⟩
  · refine ⟨fun e he hbars => ?_,fun q e he _ hsince => absurd hsince (hplacement he),
      fun _ _ _ _ hshown => absurd hshown.2 (hunshut 1),fun q _ e' _ _ he' hsince => absurd hsince (hplacement he')⟩
    rw [hopened he] at hbars
    exact absurd hbars (by decide)
  · exact fun item other hitem => absurd rfl hitem
  · refine ⟨fun p hp e _ he hends _ => ?_,fun p _ e hgone => ?_⟩
    · have hkind : ∀ p ∈ [2,1], ((winningStatus (takenOut.map PackageEvent.event++looked.map PackageEvent.event) p).map
          Event.kind) ∉ ends.map some := by decide
      exact absurd (List.mem_map.mpr ⟨e.kind,hends,by rw [he]; rfl⟩) (hkind p hp)
    · obtain ⟨-,e,he,hends⟩ := hgone
      exact absurd ⟨e,he,List.mem_cons_of_mem _ hends⟩ (hunshut p)

/-- A carton on the floor, and one in it by the log, nothing projected yet. -/
def nested : Store [1,2] where
  clientEvents := [20]
  packageEvents := [⟨20,(⟨⟨20,0⟩,0,2,.contained,some 1,none⟩ : NewEvent).toEvent (by decide)⟩]
  stockMovements := []
  package := fun _ => ⟨7,none,false⟩
  table := fun _ => Row.empty
  stock := []
  adjustmentReasons := []
  discrepancies := []
  stockCounts := []
  locations := []
  lines := []
  event_act := by decide
  movement_act := by decide

/-- Five of one item into a carton, and five of another out of it. -/
def mixed : Store [1,2] where
  clientEvents := [20,21]
  packageEvents := []
  stockMovements := [⟨20,⟨1,7,50,5,none,0,nowhere,⟨none,some 1,none,some 13,some 14⟩,none⟩,none⟩,
    ⟨21,⟨2,7,51,5,none,0,⟨none,some 1,none,some 13,some 14⟩,nowhere,none⟩,none⟩]
  package := fun _ => ⟨7,none,false⟩
  table := fun _ => Row.empty
  stock := []
  adjustmentReasons := []
  discrepancies := []
  stockCounts := []
  locations := []
  lines := []
  event_act := by decide
  movement_act := by decide

/-- A carton is voided with another in it by the log, which a rebuild would have refused,
and one with five units of an item in it. -/
theorem void_strands :
    ((voidPackage nested ⟨30,1⟩ 1 ⟨30,1,none⟩).isOk = true ∧ nested.packageParentNow 2 = some 1 ∧
      (voidPackage nested.rebuildPackages ⟨30,1⟩ 1 ⟨30,1,none⟩).isOk = false) ∧
    (voidPackage mixed ⟨30,1⟩ 1 ⟨30,1,none⟩).isOk = true ∧ packageNet mixed.ledger 1 50 = 5 := by
  decide

end Acts
end Spork
