import Spork.Importing.Stock

/-! What a loaded stock report comes to: a balance for each place its rows name, whatever order
they come in, and every row counted once. -/
namespace Spork
namespace Importing
namespace Stock

/-! ## What a row names -/

/-- What a row is found to name. -/
inductive Verdict
  | noWarehouse
  | noItem
  | noBin
  | at (key : Key)
  deriving DecidableEq

section
variable {Q : Type} (db : Database Q) (tenant : Uuid)

def resolve (r : Row) : Verdict :=
  match (sitesNamed db tenant r.warehouse).head? with
  | none => .noWarehouse
  | some site =>
    match (itemsCoded db tenant r.itemCode).head? with
    | none => .noItem
    | some item =>
      if r.binCode = "" then .at (site,item,none)
      else
        match (binsCoded db tenant site r.binCode).head? with
        | none => .noBin
        | some bin => .at (site,item,some bin)

/-- A warehouse's name is one site's at most. -/
def Plain (warehouse : String) : Prop := (sitesNamed db tenant warehouse).length ≤ 1

/-- A row with the place it names. -/
def placed (r : Row) : Option (Key × Row) :=
  match resolve db tenant r with
  | .at k => some (k,r)
  | _ => none

/-- The rows that name a place. -/
def rowsAt (rows : List Row) (k : Key) : List Row := rows.filter fun r => resolve db tenant r = .at k

variable {db tenant}

theorem placed_eq_some {r : Row} {x : Key × Row} : placed db tenant r = some x ↔ resolve db tenant r = .at x.1 ∧ x.2 = r := by
  rw [placed]
  split
  · rename_i k hk
    rw [hk,Option.some.injEq,Verdict.at.injEq]
    constructor
    · rintro rfl
      exact ⟨rfl,rfl⟩
    · rintro ⟨h1,h2⟩
      exact Prod.ext h1 h2.symm
  · rename_i hnot
    constructor
    · intro h
      cases h
    · rintro ⟨h,-⟩
      exact absurd h (hnot x.1)

theorem queryOpt_of_le {α : Type} {l : List α} (h : l.length ≤ 1) : queryOpt l = .ok l.head? := by
  match l, h with
  | [], _ => rfl
  | [_], _ => rfl

theorem queryOpt_of_lt {α : Type} {l : List α} (h : 1 < l.length) : queryOpt l = .error .unexpectedRows := by
  match l, h with
  | _ :: _ :: _, _ => rfl

/-- Where no two rows share a key, one at most has each. -/
theorem length_filter_le {α κ : Type} [DecidableEq κ] {key : α → κ} {l : List α} (h : (l.map key).Nodup) (k : κ) :
    (l.filter fun a => key a = k).length ≤ 1 := by
  cases hfound : l.filter fun a => key a = k with
  | nil => simp
  | cons a rest =>
    have ha : a ∈ l.filter fun a => key a = k := hfound ▸ List.mem_cons_self
    rw [List.mem_filter,decide_eq_true_eq] at ha
    obtain ⟨hmem,rfl⟩ := ha
    rw [← hfound,GroupBy.filter_keyed h hmem]
    simp

theorem itemsCoded_le (db : Database Q) (tenant : Uuid) (code : String) : (itemsCoded db tenant code).length ≤ 1 := by
  have h := length_filter_le db.itemCodes (some tenant,code)
  simpa [itemsCoded,Prod.ext_iff] using h

theorem binsCoded_le (db : Database Q) (tenant site : Uuid) (code : String) :
    (binsCoded db tenant site code).length ≤ 1 := by
  have h := length_filter_le db.locationCodes (tenant,site,code)
  simpa [binsCoded,Prod.ext_iff] using h

/-! ## Reading -/

/-- What is remembered is what would be found. -/
def Knows {κ : Type} (known : κ → Option (Option Uuid)) (query : κ → Except LoadError (Option Uuid)) : Prop :=
  ∀ k v, known k = some v → query k = .ok v

theorem remembered_ok {κ : Type} [DecidableEq κ] {known : κ → Option (Option Uuid)}
    {query : κ → Except LoadError (Option Uuid)} (h : Knows known query) {k : κ} {v : Option Uuid} (hk : query k = .ok v) :
    ∃ known', remembered known k (query k) = .ok (v,known') ∧ Knows known' query := by
  rw [remembered]
  cases hknown : known k with
  | some found =>
    have heq := h k found hknown
    rw [hk,Except.ok.injEq] at heq
    exact ⟨known,by rw [heq],h⟩
  | none =>
    refine ⟨Function.update known k (some v),by simp only [hk]; rfl,?_⟩
    intro j w hj
    by_cases hjk : j = k
    · subst hjk
      rw [Function.update_self,Option.some.injEq] at hj
      rw [← hj,hk]
    · rw [Function.update_of_ne hjk] at hj
      exact h j w hj

theorem remembered_error {κ : Type} [DecidableEq κ] {known : κ → Option (Option Uuid)}
    {query : κ → Except LoadError (Option Uuid)} (h : Knows known query) {k : κ} {e : LoadError} (hk : query k = .error e) :
    remembered known k (query k) = .error e := by
  rw [remembered]
  cases hknown : known k with
  | some found =>
    have heq := h k found hknown
    rw [hk] at heq
    cases heq
  | none => simp only [hk]; rfl

variable (db tenant) in
/-- A reading remembers what the database has. -/
structure Reading.Right (g : Reading) : Prop where
  sites : Knows g.sites fun w => queryOpt (sitesNamed db tenant w)
  items : Knows g.items fun c => queryOpt (itemsCoded db tenant c)
  bins : Knows g.bins fun k => queryOpt (binsCoded db tenant k.1 k.2)

/-- What a row adds to the counts. -/
def StockLoaded.count (out : StockLoaded) : Verdict → StockLoaded
  | .noWarehouse => { out with warehousesUnknown := out.warehousesUnknown+1 }
  | .noItem => { out with itemsUnknown := out.itemsUnknown+1 }
  | .noBin => { out with binsUnknown := out.binsUnknown+1 }
  | .at _ => out

/-- And to what is gathered. -/
def gather (held : List (Key × Held)) (r : Row) : Verdict → List (Key × Held)
  | .at k => Gather.putIn Held.add Held.empty held (k,r)
  | _ => held

/-- One row read, its warehouse one site's at most. -/
theorem readRow_ok {g : Reading} (hg : g.Right db tenant) {r : Row} (hplain : Plain db tenant r.warehouse) :
    ∃ g', readRow db tenant g r = .ok g' ∧ g'.Right db tenant ∧ g'.out = g.out.count (resolve db tenant r) ∧
      g'.held = gather g.held r (resolve db tenant r) := by
  obtain ⟨sites,hsites,hknows⟩ := remembered_ok hg.sites (queryOpt_of_le hplain)
  rw [readRow,hsites,resolve]
  simp only [bind,Except.bind]
  cases (sitesNamed db tenant r.warehouse).head? with
  | none => exact ⟨_,rfl,⟨hknows,hg.items,hg.bins⟩,rfl,rfl⟩
  | some site =>
    obtain ⟨items,hitems,hknowsItems⟩ := remembered_ok hg.items (queryOpt_of_le (itemsCoded_le db tenant r.itemCode))
    simp only [hitems]
    cases (itemsCoded db tenant r.itemCode).head? with
    | none => exact ⟨_,rfl,⟨hknows,hknowsItems,hg.bins⟩,rfl,rfl⟩
    | some item =>
      simp only
      split_ifs with hbin
      · exact ⟨_,rfl,⟨hknows,hknowsItems,hg.bins⟩,rfl,rfl⟩
      · obtain ⟨bins,hbins,hknowsBins⟩ :=
          remembered_ok hg.bins (k := (site,r.binCode)) (queryOpt_of_le (binsCoded_le db tenant site r.binCode))
        simp only [hbins]
        cases (binsCoded db tenant site r.binCode).head? with
        | none => exact ⟨_,rfl,⟨hknows,hknowsItems,hknowsBins⟩,rfl,rfl⟩
        | some bin => exact ⟨_,rfl,⟨hknows,hknowsItems,hknowsBins⟩,rfl,rfl⟩

/-- One whose warehouse is more than one site's is an error. -/
theorem readRow_error {g : Reading} (hg : g.Right db tenant) {r : Row} (hplain : ¬Plain db tenant r.warehouse) :
    readRow db tenant g r = .error .unexpectedRows := by
  rw [readRow,remembered_error hg.sites (queryOpt_of_lt (not_le.mp hplain))]
  rfl

/-- All the rows read. -/
theorem readRows_ok {g : Reading} (hg : g.Right db tenant) {rows : List Row} (hplain : ∀ r ∈ rows, Plain db tenant r.warehouse) :
    ∃ g', rows.foldlM (readRow db tenant) g = .ok g' ∧ g'.Right db tenant ∧
      g'.out = rows.foldl (fun out r => out.count (resolve db tenant r)) g.out ∧
      g'.held = rows.foldl (fun held r => gather held r (resolve db tenant r)) g.held := by
  induction rows generalizing g with
  | nil => exact ⟨g,rfl,hg,rfl,rfl⟩
  | cons r rows ih =>
    obtain ⟨mid,hmid,hright,hout,hheld⟩ := readRow_ok hg (hplain r List.mem_cons_self)
    obtain ⟨g',hg',hright',hout',hheld'⟩ := ih hright fun q hq => hplain q (List.mem_cons_of_mem r hq)
    refine ⟨g',by rw [List.foldlM_cons,hmid]; exact hg',hright',?_,?_⟩
    · rw [hout',hout,List.foldl_cons]
    · rw [hheld',hheld,List.foldl_cons]

theorem readRows_error {g : Reading} (hg : g.Right db tenant) {rows : List Row}
    (hplain : ∃ r ∈ rows, ¬Plain db tenant r.warehouse) :
    rows.foldlM (readRow db tenant) g = .error .unexpectedRows := by
  induction rows generalizing g with
  | nil =>
    obtain ⟨r,hr,-⟩ := hplain
    cases hr
  | cons r rows ih =>
    rw [List.foldlM_cons]
    by_cases hfirst : Plain db tenant r.warehouse
    · obtain ⟨mid,hmid,hright,-⟩ := readRow_ok hg hfirst
      rw [hmid]
      apply ih hright
      obtain ⟨q,hq,hnot⟩ := hplain
      rcases List.mem_cons.mp hq with rfl | hin
      · exact absurd hfirst hnot
      · exact ⟨q,hin,hnot⟩
    · rw [readRow_error hg hfirst]
      rfl

/-- How many rows name nothing known, each counted under what it does not. -/
theorem count_foldl (rows : List Row) (out : StockLoaded) :
    rows.foldl (fun out r => out.count (resolve db tenant r)) out =
      { out with
        warehousesUnknown := out.warehousesUnknown+rows.countP fun r => resolve db tenant r = .noWarehouse
        itemsUnknown := out.itemsUnknown+rows.countP fun r => resolve db tenant r = .noItem
        binsUnknown := out.binsUnknown+rows.countP fun r => resolve db tenant r = .noBin } := by
  induction rows generalizing out with
  | nil => rfl
  | cons r rows ih =>
    rw [List.foldl_cons,ih]
    cases hr : resolve db tenant r <;> simp [StockLoaded.count,hr] <;> omega

theorem gather_foldl (rows : List Row) (held : List (Key × Held)) :
    rows.foldl (fun held r => gather held r (resolve db tenant r)) held =
      (rows.filterMap (placed db tenant)).foldl (Gather.putIn Held.add Held.empty) held := by
  induction rows generalizing held with
  | nil => rfl
  | cons r rows ih =>
    rw [List.foldl_cons,ih]
    cases hr : resolve db tenant r with
    | «at» k =>
      rw [List.filterMap_cons_some (placed_eq_some (x := (k,r)).mpr ⟨hr,rfl⟩),List.foldl_cons]
      rfl
    | noWarehouse => rw [List.filterMap_cons_none (by simp [placed,hr])]; rfl
    | noItem => rw [List.filterMap_cons_none (by simp [placed,hr])]; rfl
    | noBin => rw [List.filterMap_cons_none (by simp [placed,hr])]; rfl

/-- Rows of one place, gathered. -/
def heldOf (rs : List Row) : Held := ⟨rs.length,rs.map Row.onHand,rs.map Row.available,rs.map Row.status⟩

theorem foldl_add (xs : List (Key × Row)) (h : Held) : xs.foldl (fun s x => s.add x.2) h =
    ⟨h.rows+xs.length,h.onHand++xs.map (·.2.onHand),h.available++xs.map (·.2.available),
      h.statuses++xs.map (·.2.status)⟩ := by
  induction xs generalizing h with
  | nil => simp
  | cons x xs ih =>
    rw [List.foldl_cons,ih]
    simp [Held.add,Nat.add_comm,Nat.add_left_comm]

theorem filter_placed (rows : List Row) (k : Key) :
    (rows.filterMap (placed db tenant)).filter (fun x => x.1 = k) = (rowsAt db tenant rows k).map fun r => (k,r) := by
  induction rows with
  | nil => rfl
  | cons r rows ih =>
    rw [rowsAt] at ih ⊢
    rw [List.filter_cons]
    cases hp : placed db tenant r with
    | none =>
      have hnot : ¬resolve db tenant r = .at k := by
        intro hk
        have hsome := placed_eq_some (x := (k,r)).mpr ⟨hk,rfl⟩
        rw [hp] at hsome
        cases hsome
      rw [List.filterMap_cons_none hp,ih,if_neg (by simpa using hnot)]
    | some x =>
      obtain ⟨hx,hr⟩ := placed_eq_some.mp hp
      rw [List.filterMap_cons_some hp,List.filter_cons,ih]
      by_cases hk : x.1 = k
      · have hat : resolve db tenant r = .at k := hk ▸ hx
        rw [if_pos (by simpa using hk),if_pos (by simpa using hat),List.map_cons,← hk,← hr]
      · have hnot : ¬resolve db tenant r = .at k := by
          rw [hx,Verdict.at.injEq]
          exact hk
        rw [if_neg (by simpa using hk),if_neg (by simpa using hnot)]

theorem under_placed (rows : List Row) (k : Key) :
    Gather.under Held.add Held.empty (rows.filterMap (placed db tenant)) k = heldOf (rowsAt db tenant rows k) := by
  rw [Gather.under,filter_placed,foldl_add]
  simp [Held.empty,heldOf,Function.comp_def]

variable (db tenant) in
/-- The places the rows name, each once. -/
def places (rows : List Row) : List Key := ((rows.filterMap (placed db tenant)).map Prod.fst).dedup

theorem mem_places {rows : List Row} {k : Key} : k ∈ places db tenant rows ↔ rowsAt db tenant rows k ≠ [] := by
  rw [places,List.mem_dedup,List.mem_map]
  constructor
  · rintro ⟨x,hx,rfl⟩ hnil
    have hin : x ∈ (rows.filterMap (placed db tenant)).filter fun y => y.1 = x.1 :=
      List.mem_filter.mpr ⟨hx,by simp⟩
    rw [filter_placed,hnil] at hin
    cases hin
  · intro hsome
    obtain ⟨r,hr⟩ := List.exists_mem_of_ne_nil _ hsome
    obtain ⟨hr,hk⟩ := List.mem_filter.mp hr
    exact ⟨(k,r),List.mem_filterMap.mpr ⟨r,hr,placed_eq_some.mpr ⟨by simpa using hk,rfl⟩⟩,rfl⟩

variable (db tenant) in
/-- What is gathered: each place once, with its rows. -/
theorem gathered_eq (rows : List Row) : ∃ ks : List Key, ks.Perm (places db tenant rows) ∧
    (rows.filterMap (placed db tenant)).foldl (Gather.putIn Held.add Held.empty) [] =
      ks.map fun k => (k,heldOf (rowsAt db tenant rows k)) := by
  obtain ⟨ks,hnodup,hmem,heq⟩ := Gather.foldl_putIn Held.add Held.empty (rows.filterMap (placed db tenant))
  refine ⟨ks,?_,?_⟩
  · rw [places,List.perm_ext_iff_of_nodup hnodup (List.nodup_dedup _)]
    intro k
    rw [hmem,List.mem_dedup]
  · simp only [heq,under_placed]

/-! ## Any order -/

theorem rowsAt_perm {rows rows' : List Row} (h : rows.Perm rows') (k : Key) :
    (rowsAt db tenant rows k).Perm (rowsAt db tenant rows' k) := h.filter _

theorem places_perm {rows rows' : List Row} (h : rows.Perm rows') :
    (places db tenant rows).Perm (places db tenant rows') := ((h.filterMap _).map _).dedup

theorem length_placed (rows : List Row) : (rows.filterMap (placed db tenant)).length+
    (rows.countP (fun r => resolve db tenant r = .noWarehouse)+rows.countP (fun r => resolve db tenant r = .noItem)+
      rows.countP fun r => resolve db tenant r = .noBin) = rows.length := by
  induction rows with
  | nil => rfl
  | cons r rows ih => cases hr : resolve db tenant r <;> simp [placed,hr] at ih ⊢ <;> omega

variable (db tenant) in
/-- Every row is at one of the places, or counted under what it names that is not known. -/
theorem length_places (rows : List Row) :
    ((places db tenant rows).map fun k => (rowsAt db tenant rows k).length).sum+
      (rows.countP (fun r => resolve db tenant r = .noWarehouse)+rows.countP (fun r => resolve db tenant r = .noItem)+
        rows.countP fun r => resolve db tenant r = .noBin) = rows.length := by
  have hgroups := (GroupBy.flatMap_groups_perm Prod.fst (rows.filterMap (placed db tenant))).length_eq
  rw [GroupBy.groups,List.flatMap_map,List.length_flatMap] at hgroups
  simp only [filter_placed,List.length_map] at hgroups
  rw [places,hgroups,length_placed]

end

/-! ## Balances -/

/-- The rows of a list agree when all have the first's status. -/
theorem agree_cons (a : Option String) (l : List (Option String)) : agree (a :: l) = true ↔ ∀ x ∈ l, x = a := by
  induction l generalizing a with
  | nil => simp [agree]
  | cons b l ih =>
    have hsplit : agree (a :: b :: l) = (decide (a = b) && agree (b :: l)) := rfl
    rw [hsplit,Bool.and_eq_true,decide_eq_true_eq,ih,List.forall_mem_cons]
    constructor
    · rintro ⟨rfl,h⟩
      exact ⟨rfl,h⟩
    · rintro ⟨rfl,h⟩
      exact ⟨rfl,h⟩

theorem agree_iff (l : List (Option String)) : agree l = true ↔ ∀ x ∈ l, ∀ y ∈ l, x = y := by
  cases l with
  | nil => simp [agree]
  | cons a l =>
    rw [agree_cons]
    constructor
    · intro h
      have hall : ∀ x ∈ a :: l, x = a := List.forall_mem_cons.mpr ⟨rfl,h⟩
      intro x hx y hy
      rw [hall x hx,hall y hy]
    · exact fun h x hx => h x (List.mem_cons_of_mem a hx) a List.mem_cons_self

/-- The one status rows have, if they have one. -/
def agreed (statuses : List (Option String)) : Option String := if agree statuses then statuses.head?.join else none

theorem agreed_eq {l : List (Option String)} {s : Option String} (hne : l ≠ []) (h : ∀ x ∈ l, x = s) : agreed l = s := by
  obtain ⟨a,rest,rfl⟩ := List.exists_cons_of_ne_nil hne
  have hall : agree (a :: rest) = true := by
    rw [agree_iff]
    intro x hx y hy
    rw [h x hx,h y hy]
  rw [agreed,if_pos hall,List.head?_cons,Option.join_some]
  exact h a List.mem_cons_self

theorem agreed_none {l : List (Option String)} (h : ∃ x ∈ l, ∃ y ∈ l, x ≠ y) : agreed l = none := by
  obtain ⟨x,hx,y,hy,hne⟩ := h
  rw [agreed,if_neg]
  intro hall
  exact hne ((agree_iff l).mp hall x hx y hy)

theorem agreed_perm {l l' : List (Option String)} (h : l.Perm l') : agreed l = agreed l' := by
  by_cases hnil : l = []
  · subst hnil
    rw [h.nil_eq]
  by_cases hall : ∀ x ∈ l, ∀ y ∈ l, x = y
  · obtain ⟨a,ha⟩ := List.exists_mem_of_ne_nil l hnil
    rw [agreed_eq hnil fun x hx => hall x hx a ha]
    have hnil' : l' ≠ [] := List.ne_nil_of_mem (h.mem_iff.mp ha)
    rw [agreed_eq hnil' fun x hx => hall x (h.mem_iff.mpr hx) a ha]
  · push Not at hall
    rw [agreed_none hall]
    obtain ⟨x,hx,y,hy,hne⟩ := hall
    rw [agreed_none ⟨x,h.mem_iff.mp hx,y,h.mem_iff.mp hy,hne⟩]

section
variable {Q : Type} [AddCommMonoid Q] (cast : String → Option Q)

/-- What texts come to, each a number. -/
def total (texts : List String) : Q := (texts.map fun t => (cast t).getD 0).sum

/-- Every quantity stated is a number. -/
def Numbers (rows : List Row) : Prop := ∀ r ∈ rows, (cast r.onHand).isSome = true ∧ ∀ a ∈ r.available, (cast a).isSome = true

/-- One item's figures on one shelf. -/
structure Balance (Q : Type) where
  onHand : Q
  available : Option Q
  status : Option String

/-- What rows of one place come to: available when each states one. -/
def balance (rs : List Row) : Balance Q where
  onHand := total cast (rs.map Row.onHand)
  available := if ∀ r ∈ rs, r.available.isSome = true then some (total cast (rs.filterMap Row.available)) else none
  status := agreed (rs.map Row.status)

/-- Neither figure is less than nothing. -/
def Balance.Kept [LE Q] (b : Balance Q) : Prop := 0 ≤ b.onHand ∧ ∀ a ∈ b.available, 0 ≤ a

instance [LE Q] [DecidableLE Q] (b : Balance Q) : Decidable b.Kept := inferInstanceAs (Decidable (_ ∧ _))

variable {cast}

variable (cast) in
theorem total_perm {ts ts' : List String} (h : ts.Perm ts') : total cast ts = total cast ts' := (h.map _).sum_eq

theorem balance_perm {rs rs' : List Row} (h : rs.Perm rs') : balance cast rs = balance cast rs' := by
  have hall : (∀ r ∈ rs, r.available.isSome = true) ↔ ∀ r ∈ rs', r.available.isSome = true :=
    forall_congr' fun r => by rw [h.mem_iff]
  simp only [balance,total_perm cast (h.map Row.onHand),total_perm cast (h.filterMap Row.available),
    agreed_perm (h.map Row.status),hall]

omit [AddCommMonoid Q] in
theorem Numbers.mono {rows rs : List Row} (h : Numbers cast rows) (hsub : ∀ r ∈ rs, r ∈ rows) : Numbers cast rs :=
  fun r hr => h r (hsub r hr)

variable (cast) in
theorem sumOf_eq (texts : List String) (h : ∀ t ∈ texts, (cast t).isSome = true) :
    sumOf cast texts = .ok (if texts.isEmpty then none else some (total cast texts)) := by
  have hmap : texts.mapM (fun t => (cast t).elim (.error LoadError.reported) Except.ok) =
      .ok (texts.map fun t => (cast t).getD 0) := by
    induction texts with
    | nil => rfl
    | cons t texts ih =>
      obtain ⟨q,hq⟩ := Option.isSome_iff_exists.mp (h t List.mem_cons_self)
      rw [List.mapM_cons,ih fun u hu => h u (List.mem_cons_of_mem t hu),hq,List.map_cons,hq]
      rfl
  rw [sumOf,hmap]
  cases texts <;> rfl

/-- Texts that are all stated, or none. -/
theorem mapM_available (rs : List Row) : (rs.map Row.available).mapM id =
    if ∀ r ∈ rs, r.available.isSome = true then some (rs.filterMap Row.available) else none := by
  induction rs with
  | nil => rfl
  | cons r rs ih =>
    rw [List.map_cons,List.mapM_cons,ih]
    cases hr : r.available with
    | none => simp [hr]
    | some a =>
      by_cases hall : ∀ r ∈ rs, r.available.isSome = true
      · have hboth : ∀ q ∈ r :: rs, q.available.isSome = true := List.forall_mem_cons.mpr ⟨by rw [hr]; rfl,hall⟩
        rw [if_pos hall,if_pos hboth,List.filterMap_cons_some hr]
        rfl
      · have hnot : ¬∀ q ∈ r :: rs, q.available.isSome = true := fun h => hall (List.forall_mem_cons.mp h).2
        rw [if_neg hall,if_neg hnot]
        rfl

end

/-! ## Writing -/

section
variable {Q : Type} [AddCommMonoid Q] [LE Q] [DecidableLE Q] {cast : String → Option Q} {tenant : Uuid} {asAt : ℤ}
  {source : String}

/-- The row a balance is written as. -/
def Balance.row (b : Balance Q) (tenant : Uuid) (k : Key) (asAt : ℤ) (source : String) : Reported Q :=
  ⟨tenant,k,b.onHand,b.available,b.status,asAt,source⟩

omit [AddCommMonoid Q] [LE Q] [DecidableLE Q] in
theorem Database.insert_ok {db : Database Q} {row : Reported Q} (h : row.position ∉ db.reported.map Reported.position) :
    db.insert row = .ok { db with reported := row ::ₘ db.reported } := if_neg h

/-- One place's rows written, or left out. -/
theorem writeHeld_eq {rs : List Row} (hnumbers : Numbers cast rs) (hne : rs ≠ []) {k : Key}
    {s : Database Q × StockLoaded} (hfresh : (tenant,k,source) ∉ s.1.reported.map Reported.position) :
    writeHeld cast tenant asAt source s (k,heldOf rs) = .ok (
      if (balance cast rs).Kept then
        ({ s.1 with reported := (balance cast rs).row tenant k asAt source ::ₘ s.1.reported },
          { s.2 with rowsWritten := s.2.rowsWritten+1, rowsSummed := s.2.rowsSummed+(rs.length-1) })
      else (s.1,{ s.2 with rowsNegative := s.2.rowsNegative+rs.length })) := by
  have honHand := sumOf_eq cast (rs.map Row.onHand) fun t ht => by
    obtain ⟨r,hr,rfl⟩ := List.mem_map.mp ht
    exact (hnumbers r hr).1
  have havailable : sumUnnest cast ((rs.map Row.available).mapM id) = .ok (balance cast rs).available := by
    rw [mapM_available,balance]
    by_cases hall : ∀ r ∈ rs, r.available.isSome = true
    · simp only [if_pos hall,sumUnnest]
      rw [sumOf_eq cast (rs.filterMap Row.available) fun t ht => by
        obtain ⟨r,hr,ha⟩ := List.mem_filterMap.mp ht
        exact (hnumbers r hr).2 t ha]
      obtain ⟨r,rest,rfl⟩ := List.exists_cons_of_ne_nil hne
      obtain ⟨a,ha⟩ := Option.isSome_iff_exists.mp (hall r List.mem_cons_self)
      rw [List.filterMap_cons_some ha]
      rfl
    · simp only [if_neg hall,sumUnnest]
  have hsome : (rs.map Row.onHand).isEmpty = false := by
    rw [List.isEmpty_eq_false_iff]
    simpa using hne
  rw [hsome,if_neg Bool.false_ne_true] at honHand
  simp only [writeHeld,heldOf,havailable,bind,Except.bind]
  rw [sumUnnest,honHand]
  simp only [Option.filter_some]
  by_cases hkept : (balance cast rs).Kept
  · have htest : (decide (0 ≤ total cast (rs.map Row.onHand)) &&
        (balance cast rs).available.all fun a => decide (0 ≤ a)) = true := by
      rw [Bool.and_eq_true,decide_eq_true_eq,Option.all_eq_true]
      exact ⟨hkept.1,fun a ha => by simpa using hkept.2 a ha⟩
    simp only [if_pos hkept,if_pos htest]
    rw [Database.insert_ok (by exact hfresh)]
    rfl
  · have htest : ¬(decide (0 ≤ total cast (rs.map Row.onHand)) &&
        (balance cast rs).available.all fun a => decide (0 ≤ a)) = true := by
      rw [Bool.and_eq_true,decide_eq_true_eq,Option.all_eq_true]
      rintro ⟨h1,h2⟩
      exact hkept ⟨h1,fun a ha => by simpa using h2 a ha⟩
    rw [if_neg hkept,if_neg htest]

variable (tenant) (asAt) (source) in
/-- All the places written, one after the other. -/
theorem writeAll_eq (rowsOf : Key → List Row) {ks : List Key} (hnodup : ks.Nodup)
    (hrows : ∀ k ∈ ks, Numbers cast (rowsOf k) ∧ rowsOf k ≠ []) {s : Database Q × StockLoaded}
    (hfresh : ∀ k ∈ ks, (tenant,k,source) ∉ s.1.reported.map Reported.position) :
    (ks.map fun k => (k,heldOf (rowsOf k))).foldlM (writeHeld cast tenant asAt source) s = .ok (
      { s.1 with reported := (((ks.filter fun k => (balance cast (rowsOf k)).Kept).map fun k =>
          (balance cast (rowsOf k)).row tenant k asAt source : List (Reported Q)) : Multiset (Reported Q))+s.1.reported },
      { s.2 with
        rowsWritten := s.2.rowsWritten+ks.countP fun k => (balance cast (rowsOf k)).Kept
        rowsSummed := s.2.rowsSummed+
          ((ks.filter fun k => (balance cast (rowsOf k)).Kept).map fun k => (rowsOf k).length-1).sum
        rowsNegative := s.2.rowsNegative+
          ((ks.filter fun k => ¬(balance cast (rowsOf k)).Kept).map fun k => (rowsOf k).length).sum }) := by
  induction ks generalizing s with
  | nil => simp [pure,Except.pure]
  | cons k ks ih =>
    obtain ⟨hk,hrest⟩ := List.nodup_cons.mp hnodup
    obtain ⟨hnumbers,hne⟩ := hrows k List.mem_cons_self
    rw [List.map_cons,List.foldlM_cons,writeHeld_eq hnumbers hne (hfresh k List.mem_cons_self)]
    simp only [bind,Except.bind]
    rw [ih hrest (fun j hj => hrows j (List.mem_cons_of_mem k hj))]
    · by_cases hkept : (balance cast (rowsOf k)).Kept
      · have hfilter : (k :: ks).filter (fun k => (balance cast (rowsOf k)).Kept) =
            k :: ks.filter fun k => (balance cast (rowsOf k)).Kept := List.filter_cons_of_pos (by simpa using hkept)
        have hothers : (k :: ks).filter (fun k => ¬(balance cast (rowsOf k)).Kept) =
            ks.filter fun k => ¬(balance cast (rowsOf k)).Kept := List.filter_cons_of_neg (by simpa using hkept)
        rw [hfilter,hothers,List.countP_cons_of_pos (by simpa using hkept)]
        simp only [if_pos hkept,List.map_cons,List.sum_cons,← Multiset.cons_coe,Multiset.cons_add,Multiset.add_cons,
          Nat.add_assoc,Nat.add_comm 1]
      · have hfilter : (k :: ks).filter (fun k => (balance cast (rowsOf k)).Kept) =
            ks.filter fun k => (balance cast (rowsOf k)).Kept := List.filter_cons_of_neg (by simpa using hkept)
        have hothers : (k :: ks).filter (fun k => ¬(balance cast (rowsOf k)).Kept) =
            k :: ks.filter fun k => ¬(balance cast (rowsOf k)).Kept := List.filter_cons_of_pos (by simpa using hkept)
        rw [hfilter,hothers,List.countP_cons_of_neg (by simpa using hkept)]
        simp only [if_neg hkept,List.map_cons,List.sum_cons,Nat.add_assoc]
    · intro j hj
      have hnot := hfresh j (List.mem_cons_of_mem k hj)
      split_ifs
      · simp only [Multiset.map_cons,Multiset.mem_cons,not_or]
        refine ⟨?_,hnot⟩
        intro heq
        have hkey : j = k := (Prod.mk.inj (Prod.mk.inj heq).2).1
        exact hk (hkey ▸ hj)
      · exact hnot

/-! ## Loading -/

variable (cast) (tenant) (asAt) (source) in
/-- The rows a load writes: one for each place whose figures are not less than nothing. -/
def written (db : Database Q) (rows : List Row) : Multiset (Reported Q) :=
  (((places db tenant rows).filter fun k => (balance cast (rowsAt db tenant rows k)).Kept).map fun k =>
    (balance cast (rowsAt db tenant rows k)).row tenant k asAt source : List (Reported Q))

variable (cast) (tenant) (asAt) (source) in
/-- What it leaves. -/
def leaving (db : Database Q) (rows : List Row) : Database Q :=
  { db with reported := written cast tenant asAt source db rows+db.reported.filter fun x => ¬Mine tenant source x }

variable (cast) (tenant) (source) in
/-- What it counts. -/
def outcome (db : Database Q) (rows : List Row) (apply : Bool) : StockLoaded where
  rowsWritten := (places db tenant rows).countP fun k => (balance cast (rowsAt db tenant rows k)).Kept
  rowsReplaced := (db.reported.filter (Mine tenant source)).card
  itemsUnknown := rows.countP fun r => resolve db tenant r = .noItem
  binsUnknown := rows.countP fun r => resolve db tenant r = .noBin
  warehousesUnknown := rows.countP fun r => resolve db tenant r = .noWarehouse
  rowsSummed := (((places db tenant rows).filter fun k => (balance cast (rowsAt db tenant rows k)).Kept).map fun k =>
    (rowsAt db tenant rows k).length-1).sum
  rowsNegative := (((places db tenant rows).filter fun k => ¬(balance cast (rowsAt db tenant rows k)).Kept).map fun k =>
    (rowsAt db tenant rows k).length).sum
  applied := apply

theorem written_perm (db : Database Q) {rows rows' : List Row} (h : rows.Perm rows') :
    written cast tenant asAt source db rows = written cast tenant asAt source db rows' := by
  have hsame : ∀ k, balance cast (rowsAt db tenant rows k) = balance cast (rowsAt db tenant rows' k) :=
    fun k => balance_perm (rowsAt_perm h k)
  simp only [written,hsame]
  exact Multiset.coe_eq_coe.mpr (((places_perm h).filter _).map _)

theorem outcome_perm (db : Database Q) {rows rows' : List Row} (h : rows.Perm rows') (apply : Bool) :
    outcome cast tenant source db rows apply = outcome cast tenant source db rows' apply := by
  have hsame : ∀ k, balance cast (rowsAt db tenant rows k) = balance cast (rowsAt db tenant rows' k) :=
    fun k => balance_perm (rowsAt_perm h k)
  have hlength : ∀ k, (rowsAt db tenant rows k).length = (rowsAt db tenant rows' k).length :=
    fun k => (rowsAt_perm h k).length_eq
  simp only [outcome,hsame,hlength,h.countP_eq,(places_perm h).countP_eq,(((places_perm h).filter _).map _).sum_eq]

/-- Every row is counted once. -/
theorem outcome_counts (db : Database Q) (rows : List Row) (apply : Bool) :
    let out := outcome cast tenant source db rows apply
    rows.length = out.rowsWritten+out.rowsSummed+out.rowsNegative+out.itemsUnknown+out.binsUnknown+
      out.warehousesUnknown := by
  have hpositive : ∀ k ∈ places db tenant rows, 0 < (rowsAt db tenant rows k).length :=
    fun k hk => List.length_pos_iff.mpr (mem_places.mp hk)
  have hsplit : ∀ ks : List Key, (∀ k ∈ ks, 0 < (rowsAt db tenant rows k).length) →
      (ks.map fun k => (rowsAt db tenant rows k).length).sum =
        (ks.countP fun k => (balance cast (rowsAt db tenant rows k)).Kept)+
        ((ks.filter fun k => (balance cast (rowsAt db tenant rows k)).Kept).map fun k => (rowsAt db tenant rows k).length-1).sum+
        ((ks.filter fun k => ¬(balance cast (rowsAt db tenant rows k)).Kept).map fun k => (rowsAt db tenant rows k).length).sum := by
    intro ks
    induction ks with
    | nil => exact fun _ => rfl
    | cons k ks ih =>
      intro hpos
      have hk := hpos k List.mem_cons_self
      have hrest := ih fun j hj => hpos j (List.mem_cons_of_mem k hj)
      rw [List.map_cons,List.sum_cons,hrest]
      by_cases hkept : (balance cast (rowsAt db tenant rows k)).Kept
      · simp only [List.filter_cons,List.countP_cons,hkept,decide_true,if_true,List.map_cons,List.sum_cons,
          not_true_eq_false,decide_false,Bool.false_eq_true,if_false]
        omega
      · simp only [List.filter_cons,List.countP_cons,hkept,decide_true,if_true,List.map_cons,List.sum_cons,
          not_false_eq_true,decide_false,Bool.false_eq_true,if_false]
        omega
  have hall := length_places db tenant rows
  rw [hsplit _ hpositive] at hall
  simp only [outcome]
  omega

omit [AddCommMonoid Q] [LE Q] [DecidableLE Q] in
/-- Nothing is known before the first row. -/
theorem right_start (tenant : Uuid) (db : Database Q) (out : StockLoaded) :
    (⟨fun _ => none,fun _ => none,fun _ => none,out,[]⟩ : Reading).Right db tenant :=
  ⟨fun _ _ h => (nomatch h),fun _ _ h => (nomatch h),fun _ _ h => (nomatch h)⟩

/-- A report whose quantities are numbers, and whose warehouses are each one site's at most. -/
theorem load_ok {db : Database Q} {rows : List Row} (hnumbers : Numbers cast rows)
    (hplain : ∀ r ∈ rows, Plain db tenant r.warehouse) (apply : Bool) :
    load cast db tenant rows asAt source apply = .ok (
      if apply then leaving cast tenant asAt source db rows else db,outcome cast tenant source db rows apply) := by
  let cleared : Database Q := { db with reported := db.reported.filter fun x => ¬Mine tenant source x }
  let out : StockLoaded := ⟨0,(db.reported.filter (Mine tenant source)).card,0,0,0,0,0,apply⟩
  obtain ⟨g,hread,-,hout,hheld⟩ := readRows_ok (right_start tenant cleared out) hplain
  obtain ⟨ks,hks,hgathered⟩ := gathered_eq cleared tenant rows
  rw [count_foldl] at hout
  rw [gather_foldl,hgathered] at hheld
  have hwrite := writeAll_eq tenant asAt source (rowsAt cleared tenant rows) (hks.nodup_iff.mpr (List.nodup_dedup _)) (s := (cleared,g.out))
    (fun k hk => ⟨hnumbers.mono fun r hr => List.mem_of_mem_filter hr,mem_places.mp (hks.mem_iff.mp hk)⟩)
    (fun k _ hin => by
      obtain ⟨x,hx,hposition⟩ := Multiset.mem_map.mp hin
      have hmine : Mine tenant source x := ⟨(Prod.mk.inj hposition).1,(Prod.mk.inj (Prod.mk.inj hposition).2).2⟩
      exact (Multiset.mem_filter.mp hx).2 hmine)
  rw [load]
  simp only [bind,Except.bind]
  rw [hread]
  simp only
  rw [hheld,hwrite,hout]
  have hrows : (((ks.filter fun k => (balance cast (rowsAt cleared tenant rows k)).Kept).map fun k =>
      (balance cast (rowsAt cleared tenant rows k)).row tenant k asAt source : List (Reported Q)) : Multiset (Reported Q)) =
      written cast tenant asAt source db rows := Multiset.coe_eq_coe.mpr ((hks.filter _).map _)
  have hcount := hks.countP_eq fun k => decide (balance cast (rowsAt cleared tenant rows k)).Kept
  have hsummed := ((hks.filter fun k => decide (balance cast (rowsAt cleared tenant rows k)).Kept).map fun k =>
    (rowsAt cleared tenant rows k).length-1).sum_eq
  have hnegative := ((hks.filter fun k => decide ¬(balance cast (rowsAt cleared tenant rows k)).Kept).map fun k =>
    (rowsAt cleared tenant rows k).length).sum_eq
  simp only [hrows,hcount,hsummed,hnegative,Nat.zero_add,out]
  rfl

/-- One that names a warehouse that is more than one site's. -/
theorem load_error {db : Database Q} {rows : List Row} (hplain : ∃ r ∈ rows, ¬Plain db tenant r.warehouse) (apply : Bool) :
    load cast db tenant rows asAt source apply = .error .unexpectedRows := by
  let cleared : Database Q := { db with reported := db.reported.filter fun x => ¬Mine tenant source x }
  let out : StockLoaded := ⟨0,(db.reported.filter (Mine tenant source)).card,0,0,0,0,0,apply⟩
  have hread := readRows_error (right_start tenant cleared out) hplain
  rw [load]
  simp only [bind,Except.bind]
  rw [hread]

variable (cast) (tenant) (asAt) (source) in
/-- What a load leaves: the rows of others, and a row of its own for each place its rows name
whose figures are not less than nothing. -/
structure Leaves (db db' : Database Q) (rows : List Row) : Prop where
  sites : db'.sites = db.sites
  items : db'.items = db.items
  locations : db'.locations = db.locations
  others : db'.reported.filter (fun x => ¬Mine tenant source x) = db.reported.filter fun x => ¬Mine tenant source x
  written : ∀ k, rowsAt db tenant rows k ≠ [] → (balance cast (rowsAt db tenant rows k)).Kept →
    ∃ status, db'.reported.filter (fun x => Mine tenant source x ∧ x.key = k) =
      {⟨tenant,k,(balance cast (rowsAt db tenant rows k)).onHand,(balance cast (rowsAt db tenant rows k)).available,status,
        asAt,source⟩} ∧
      (∀ s, (∀ r ∈ rowsAt db tenant rows k, r.status = s) → status = s) ∧
      ((∃ r ∈ rowsAt db tenant rows k, ∃ r' ∈ rowsAt db tenant rows k, r.status ≠ r'.status) → status = none)
  left : ∀ k, rowsAt db tenant rows k = [] ∨ ¬(balance cast (rowsAt db tenant rows k)).Kept →
    db'.reported.filter (fun x => Mine tenant source x ∧ x.key = k) = 0

/-- A reported row without when it was taken. -/
def Reported.undated (x : Reported Q) : Uuid × Key × Q × Option Q × Option String × String :=
  (x.tenant,x.key,x.onHand,x.available,x.status,x.source)

theorem written_mine (db : Database Q) (rows : List Row) :
    ∀ x ∈ written cast tenant asAt source db rows, Mine tenant source x := by
  intro x hx
  rw [written,Multiset.mem_coe] at hx
  obtain ⟨k,-,rfl⟩ := List.mem_map.mp hx
  exact ⟨rfl,rfl⟩

/-- The source's rows of a place. -/
theorem filter_written (db : Database Q) (rows : List Row) (k : Key) :
    (written cast tenant asAt source db rows+db.reported.filter fun x => ¬Mine tenant source x).filter
      (fun x => Mine tenant source x ∧ x.key = k) =
    if rowsAt db tenant rows k ≠ [] ∧ (balance cast (rowsAt db tenant rows k)).Kept then
      {(balance cast (rowsAt db tenant rows k)).row tenant k asAt source} else 0 := by
  have hothers : (db.reported.filter fun x => ¬Mine tenant source x).filter (fun x => Mine tenant source x ∧ x.key = k) = 0 := by
    rw [Multiset.filter_eq_nil]
    intro x hx hmine
    exact (Multiset.mem_filter.mp hx).2 hmine.1
  have hkeys : ∀ j, (decide (Mine tenant source ((balance cast (rowsAt db tenant rows j)).row tenant j asAt source) ∧
      ((balance cast (rowsAt db tenant rows j)).row tenant j asAt source).key = k)) = decide (j = k) := by
    intro j
    simp [Mine,Balance.row]
  rw [Multiset.filter_add,hothers,add_zero,written,Multiset.filter_coe,List.filter_map]
  simp only [Function.comp_def,hkeys]
  have hnodup : ((places db tenant rows).filter fun k => (balance cast (rowsAt db tenant rows k)).Kept).Nodup :=
    (List.nodup_dedup _).filter _
  split_ifs with h
  · have hmem : k ∈ (places db tenant rows).filter fun k => (balance cast (rowsAt db tenant rows k)).Kept :=
      List.mem_filter.mpr ⟨mem_places.mpr h.1,by simpa using h.2⟩
    have hone : ((places db tenant rows).filter fun k => (balance cast (rowsAt db tenant rows k)).Kept).filter
        (fun j => id j = k) = [k] := GroupBy.filter_keyed (by rwa [List.map_id]) hmem
    simp only [id] at hone
    rw [hone]
    rfl
  · have hnone : ((places db tenant rows).filter fun k => (balance cast (rowsAt db tenant rows k)).Kept).filter
        (fun j => decide (j = k)) = [] := by
      rw [List.filter_eq_nil_iff]
      intro j hj hjk
      obtain ⟨hj,hkept⟩ := List.mem_filter.mp hj
      obtain rfl : j = k := by simpa using hjk
      exact h ⟨mem_places.mp hj,by simpa using hkept⟩
    rw [hnone]
    rfl

variable (cast) (tenant) (asAt) (source) in
theorem load_leaves (db : Database Q) (rows : List Row) :
    Leaves cast tenant asAt source db (leaving cast tenant asAt source db rows) rows := by
  refine ⟨rfl,rfl,rfl,?_,?_,?_⟩
  · have hnone : (written cast tenant asAt source db rows).filter (fun x => ¬Mine tenant source x) = 0 := by
      rw [Multiset.filter_eq_nil]
      exact fun x hx hnot => hnot (written_mine db rows x hx)
    rw [leaving,Multiset.filter_add,hnone,zero_add,Multiset.filter_filter]
    simp only [and_self]
  · intro k hsome hkept
    have hne : (rowsAt db tenant rows k).map Row.status ≠ [] := by
      simpa using hsome
    refine ⟨(balance cast (rowsAt db tenant rows k)).status,?_,?_,?_⟩
    · rw [leaving,filter_written,if_pos ⟨hsome,hkept⟩]
      rfl
    · intro s hs
      refine agreed_eq hne fun x hx => ?_
      obtain ⟨r,hr,rfl⟩ := List.mem_map.mp hx
      exact hs r hr
    · rintro ⟨r,hr,r',hr',hdiffer⟩
      exact agreed_none ⟨_,List.mem_map_of_mem hr,_,List.mem_map_of_mem hr',hdiffer⟩
  · intro k hk
    rw [leaving,filter_written,if_neg]
    rintro ⟨hsome,hkept⟩
    exact hk.elim hsome fun hnot => hnot hkept

/-- A load writes the same rows over what one has left. -/
theorem written_undated (db : Database Q) (rows : List Row) (asAt asAt' : ℤ) :
    (written cast tenant asAt' source db rows).map Reported.undated =
      (written cast tenant asAt source db rows).map Reported.undated := by
  rw [written,written,Multiset.map_coe,Multiset.map_coe,List.map_map,List.map_map]
  rfl

/-- A report whose quantities are numbers is refused where a warehouse it names is more than
one site's. Elsewhere it leaves one row for each place its rows name, whatever order they come
in, and counts each row once; loaded again it changes no figure, and not applied it changes
nothing. -/
theorem load_any_order (cast : String → Option Q) (db : Database Q) (tenant : Uuid) (rows : List Row) (asAt : ℤ)
    (source : String) (hnumbers : Numbers cast rows) :
    ((∃ r ∈ rows, ¬Plain db tenant r.warehouse) → ∀ apply,
      load cast db tenant rows asAt source apply = .error .unexpectedRows) ∧
    ((∀ r ∈ rows, Plain db tenant r.warehouse) → ∃ db' out,
      load cast db tenant rows asAt source true = .ok (db',out) ∧
      load cast db tenant rows asAt source false = .ok (db,{ out with applied := false }) ∧
      Leaves cast tenant asAt source db db' rows ∧
      rows.length = out.rowsWritten+out.rowsSummed+out.rowsNegative+out.itemsUnknown+out.binsUnknown+
        out.warehousesUnknown ∧
      (∀ rows', rows.Perm rows' → ∀ apply,
        load cast db tenant rows' asAt source apply = load cast db tenant rows asAt source apply) ∧
      ∀ asAt', ∃ db'' out', load cast db' tenant rows asAt' source true = .ok (db'',out') ∧
        db''.reported.map Reported.undated = db'.reported.map Reported.undated) := by
  refine ⟨fun hplain apply => load_error hplain apply,fun hplain => ?_⟩
  have hleaves := load_leaves cast tenant asAt source db rows
  refine ⟨leaving cast tenant asAt source db rows,outcome cast tenant source db rows true,
    load_ok hnumbers hplain true,load_ok hnumbers hplain false,hleaves,outcome_counts db rows true,?_,?_⟩
  · intro rows' hperm apply
    rw [load_ok hnumbers hplain,load_ok (hnumbers.mono fun r hr => hperm.mem_iff.mpr hr) fun r hr =>
      hplain r (hperm.mem_iff.mpr hr),leaving,leaving,written_perm db hperm,outcome_perm db hperm]
  · intro asAt'
    have hplain' : ∀ r ∈ rows, Plain (leaving cast tenant asAt source db rows) tenant r.warehouse := hplain
    refine ⟨leaving cast tenant asAt' source (leaving cast tenant asAt source db rows) rows,
      outcome cast tenant source (leaving cast tenant asAt source db rows) rows true,load_ok hnumbers hplain' true,?_⟩
    have hagain : (leaving cast tenant asAt' source (leaving cast tenant asAt source db rows) rows).reported =
        written cast tenant asAt' source db rows+
          (leaving cast tenant asAt source db rows).reported.filter fun x => ¬Mine tenant source x := rfl
    rw [hagain,hleaves.others,leaving,Multiset.map_add,Multiset.map_add,written_undated _ _ asAt]

end

/-- A site named as the warehouse is, and one with the code its name makes. -/
def sameMade : Database ℤ where
  sites := [⟨1,0,"M1","Melbourne"⟩,⟨2,0,"MEL","Melrose"⟩]
  items := [⟨7,some 0,"CH110"⟩]
  locations := []
  reported := 0
  itemCodes := by decide
  locationCodes := by decide

/-- A report that names it loads nothing. -/
theorem sameMade_refused :
    siteName "Melbourne Warehouse" = "Melbourne" ∧ sitesNamed sameMade 0 "Melbourne Warehouse" = [1,2] ∧
    load (fun t => if t = "4" then some 4 else none) sameMade 0 [⟨"CH110","Melbourne Warehouse","","4",none,none⟩] 0
      "netsuite" true = .error .unexpectedRows := by
  refine ⟨by decide +kernel,by decide +kernel,load_error ⟨_,List.mem_cons_self,?_⟩ true⟩
  unfold Plain
  decide +kernel

/-- A site with a shelf, and a report of an earlier load. -/
def oneSite : Database ℤ where
  sites := [⟨1,0,"MEL","Melbourne"⟩]
  items := [⟨7,some 0,"CH110"⟩]
  locations := [⟨5,0,1,"A-01-01"⟩]
  reported := {⟨0,(1,7,none),9,none,none,0,"netsuite"⟩}
  itemCodes := by decide
  locationCodes := by decide

/-- Two lots of an item on a shelf, and a shelf nobody knows. -/
def twoLots : List Row :=
  [⟨"CH110","Melbourne Warehouse","A-01-01","4",some "4",some "Good"⟩,⟨"CH110","Melbourne","A-01-01","1",none,some "Good"⟩,
    ⟨"CH110","Melbourne","Z-09","1",none,none⟩]

def readSmall (t : String) : Option ℤ := if t = "4" then some 4 else if t = "1" then some 1 else none

theorem twoLots_any_order : ∃ db' out,
    load readSmall oneSite 0 twoLots 6 "netsuite" true = .ok (db',out) ∧
    load readSmall oneSite 0 twoLots 6 "netsuite" false = .ok (oneSite,{ out with applied := false }) ∧
    Leaves readSmall 0 6 "netsuite" oneSite db' twoLots ∧
    twoLots.length = out.rowsWritten+out.rowsSummed+out.rowsNegative+out.itemsUnknown+out.binsUnknown+
      out.warehousesUnknown ∧
    (∀ rows', twoLots.Perm rows' → ∀ apply,
      load readSmall oneSite 0 rows' 6 "netsuite" apply = load readSmall oneSite 0 twoLots 6 "netsuite" apply) ∧
    ∀ asAt', ∃ db'' out', load readSmall db' 0 twoLots asAt' "netsuite" true = .ok (db'',out') ∧
      db''.reported.map Reported.undated = db'.reported.map Reported.undated :=
  (load_any_order readSmall oneSite 0 twoLots 6 "netsuite" (by unfold Numbers; decide +kernel)).2
    (by unfold Plain; decide +kernel)

end Stock
end Importing
end Spork
