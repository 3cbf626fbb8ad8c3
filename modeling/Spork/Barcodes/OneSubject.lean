import Spork.Barcodes.Resolve

/-! Whether a scan that names two things resolves to one. The barcode arm cuts its rows to
one before they are compared, so items named by barcodes alone count as one. -/
namespace Spork
namespace Barcodes

open Text

/-! ## One hit for each subject -/

/-- What follows one that is like it is dropped, so each key there is stays. -/
theorem key_mem_destutter' (a : Subject) (xs : List Subject) (k : Kind × Uuid) :
    k ∈ (xs.destutter' (fun a b => b.key ≠ a.key) a).map Subject.key ↔ k = a.key ∨ k ∈ xs.map Subject.key := by
  induction xs generalizing a with
  | nil => simp
  | cons x xs ih =>
    rw [List.destutter'_cons]
    split_ifs with hsame
    · rw [List.map_cons,List.mem_cons,ih x,List.map_cons,List.mem_cons]
    · have hkey : x.key = a.key := not_not.mp hsame
      rw [ih a,List.map_cons,List.mem_cons,hkey]
      exact ⟨fun h => h.imp_right Or.inr,fun h => h.elim Or.inl id⟩

theorem key_mem_destutter (xs : List Subject) (k : Kind × Uuid) :
    k ∈ (xs.destutter fun a b => b.key ≠ a.key).map Subject.key ↔ k ∈ xs.map Subject.key := by
  cases xs with
  | nil => rfl
  | cons x xs =>
    rw [List.destutter_cons',key_mem_destutter',List.map_cons,List.mem_cons]

/-- The keys found, each once. -/
theorem key_mem_oneEach (xs : List Subject) (k : Kind × Uuid) :
    k ∈ (oneEach xs).map Subject.key ↔ k ∈ xs.map Subject.key := by
  rw [oneEach,FirstWins.key_mem_kept,key_mem_destutter]

theorem oneEach_nodup (xs : List Subject) : ((oneEach xs).map Subject.key).Nodup := FirstWins.kept_nodup _

/-- A list without repeats of which one thing alone is a member. -/
theorem eq_singleton_iff {α : Type*} {xs : List α} (h : xs.Nodup) (x : α) : xs = [x] ↔ ∀ y, y ∈ xs ↔ y = x := by
  constructor
  · rintro rfl y
    exact List.mem_singleton
  · intro hall
    have hperm : xs.Perm [x] := (List.perm_ext_iff_of_nodup h (List.nodup_singleton x)).mpr fun y =>
      (hall y).trans List.mem_singleton.symm
    exact List.perm_singleton.mp hperm

section
variable (upper : Str → Str) (isAlphanumeric : Char → Bool) (today : ℤ) (seen : Seen)

/-- The tenant's own row for a barcode hides the shared catalogue's for it. -/
def Hidden (b : ItemBarcode) : Prop :=
  b.tenantId = none ∧ ∃ own ∈ seen.itemBarcodes, own.tenantId.isSome = true ∧ own.barcode = b.barcode ∧
    own.effective.holds today = true ∧ (itemOf seen own.itemId).isSome = true

/-- A barcode in force for the raw string or its GTIN names an item. -/
def BarcodeNames (scan : Scanned) (id : Uuid) : Prop :=
  ∃ b ∈ seen.itemBarcodes, b.barcode ∈ candidates scan ∧ b.effective.holds today = true ∧ ¬Hidden today seen b ∧
    b.itemId = id ∧ (itemOf seen id).isSome = true

/-- Another surface names a subject. -/
def ElsewhereNames (scan : Scanned) : Kind × Uuid → Prop
  | (.item,id) => (∃ i ∈ seen.items, i.id = id ∧ i.code = scan.raw) ∨
    ∃ r ∈ seen.reported, r.role = "art_no" ∧ upper scan.raw ∈ (artNumbersIn r.value).map upper ∧
      r.itemId = id ∧ (itemOf seen id).isSome = true
  | (.package,id) => ∃ p ∈ seen.packages, p.id = id ∧ (p.sscc = some (scan.sscc.getD scan.raw) ∨ p.barcode = some scan.raw)
  | (.location,id) => ∃ l ∈ seen.locations, l.id = id ∧ l.code = scan.raw

/-- A subject of a kind wanted is named by a scan. -/
def Names (scan : Scanned) (expect : Option String) (k : Kind × Uuid) : Prop :=
  wants expect k.1 = true ∧ (k.1 = .item ∧ BarcodeNames today seen scan k.2 ∨ ElsewhereNames upper seen scan k)

/-- A subject is named by a scanned string; one whose reading panics names none. -/
def NamedBy (raw : Str) (expect : Option String) (k : Kind × Uuid) : Prop :=
  ∃ scan, parse raw = some scan ∧ Names upper today seen scan expect k

/-- Resolved exactly when one subject alone is named, then giving that one, and ambiguous
whenever two are. -/
def TellsTwoFromOne (raw : Str) (expect : Option String) : Prop :=
  (∀ r, resolve upper isAlphanumeric today seen raw expect = some r → r.outcome = .resolved →
      ∃ k, NamedBy upper today seen raw expect k ∧ ∀ k', NamedBy upper today seen raw expect k' → k' = k) ∧
    (∀ k, NamedBy upper today seen raw expect k → (∀ k', NamedBy upper today seen raw expect k' → k' = k) →
      ∃ r, resolve upper isAlphanumeric today seen raw expect = some r ∧ r.outcome = .resolved ∧
        r.subjects.map Subject.key = [k]) ∧
    ∀ k k', NamedBy upper today seen raw expect k → NamedBy upper today seen raw expect k' → k ≠ k' →
      ∃ r, resolve upper isAlphanumeric today seen raw expect = some r ∧ r.outcome = .identifierAmbiguous

/-- Cutting the barcodes to one loses nothing: they name one item at most, or another
surface names something besides the item of the row that is kept. -/
def NothingCut (scan : Scanned) (expect : Option String) : Prop :=
  wants expect .item = true → (∀ i j, BarcodeNames today seen scan i → BarcodeNames today seen scan j → i = j) ∨
    ∃ k, wants expect k.1 = true ∧ ElsewhereNames upper seen scan k ∧
      ∀ row ∈ firstBarcode today seen scan, k ≠ (.item,row.2.id)

/-! ## What is found -/

variable {upper isAlphanumeric today seen}

theorem itemOf_some {id : Uuid} {i : Item} (h : itemOf seen id = some i) : i ∈ seen.items ∧ i.id = id :=
  ⟨List.mem_of_find?_eq_some h,by simpa using List.find?_some h⟩

theorem mem_barcodeRows {scan : Scanned} {row : ItemBarcode × Item} :
    row ∈ barcodeRows today seen scan ↔ row.1 ∈ seen.itemBarcodes ∧ row.1.barcode ∈ candidates scan ∧
      row.1.effective.holds today = true ∧ itemOf seen row.1.itemId = some row.2 := by
  unfold barcodeRows
  rw [List.mem_filterMap]
  constructor
  · rintro ⟨b,hb,hrow⟩
    obtain ⟨i,hi,rfl⟩ := Option.map_eq_some_iff.mp hrow
    obtain ⟨hmem,htest⟩ := List.mem_filter.mp hb
    obtain ⟨hcandidate,hholds⟩ := of_decide_eq_true htest
    exact ⟨hmem,hcandidate,hholds,hi⟩
  · rintro ⟨hmem,hcandidate,hholds,hi⟩
    exact ⟨row.1,List.mem_filter.mpr ⟨hmem,decide_eq_true ⟨hcandidate,hholds⟩⟩,by rw [hi]; rfl⟩

/-- The row kept is in force for the scan, and no own row hides it. -/
theorem firstBarcode_names {scan : Scanned} {row : ItemBarcode × Item} (h : firstBarcode today seen scan = some row) :
    BarcodeNames today seen scan row.2.id := by
  have hmem : row ∈ barcodeRows today seen scan := by
    rcases List.mem_append.mp (List.mem_of_head? h) with hin | hin
    · exact List.mem_of_mem_filter hin
    · exact List.mem_of_mem_filter hin
  obtain ⟨hb,hcandidate,hholds,hitem⟩ := mem_barcodeRows.mp hmem
  have hid := (itemOf_some hitem).2
  refine ⟨row.1,hb,hcandidate,hholds,?_,hid.symm,by rw [hid,hitem]; rfl⟩
  rintro ⟨hshared,own,hown,htenant,hbarcode,hheld,hsome⟩
  obtain ⟨i,hi⟩ := Option.isSome_iff_exists.mp hsome
  have hrow : (own,i) ∈ (barcodeRows today seen scan).filter fun r => r.1.tenantId.isSome :=
    List.mem_filter.mpr ⟨mem_barcodeRows.mpr ⟨hown,hbarcode ▸ hcandidate,hheld,hi⟩,htenant⟩
  -- an own row would come first
  obtain ⟨first,rest,hfirst⟩ := List.exists_cons_of_ne_nil (List.ne_nil_of_mem hrow)
  rw [firstBarcode,hfirst] at h
  obtain rfl : first = row := Option.some.inj h
  have hfirst' : first ∈ (barcodeRows today seen scan).filter fun r => r.1.tenantId.isSome := by
    rw [hfirst]
    exact List.mem_cons_self
  have htenant' := (List.mem_filter.mp hfirst').2
  rw [hshared] at htenant'
  cases htenant'

/-- Where a barcode names an item a row is kept. -/
theorem firstBarcode_isSome {scan : Scanned} {id : Uuid} (h : BarcodeNames today seen scan id) :
    ∃ row, firstBarcode today seen scan = some row := by
  obtain ⟨b,hb,hcandidate,hholds,-,rfl,hsome⟩ := h
  obtain ⟨i,hi⟩ := Option.isSome_iff_exists.mp hsome
  have hrow : (b,i) ∈ barcodeRows today seen scan := mem_barcodeRows.mpr ⟨hb,hcandidate,hholds,hi⟩
  have hne : ((barcodeRows today seen scan).filter fun r => r.1.tenantId.isSome)++
      (barcodeRows today seen scan).filter (fun r => r.1.tenantId.isNone) ≠ [] := by
    apply List.ne_nil_of_mem (a := (b,i))
    rw [List.mem_append,List.mem_filter,List.mem_filter]
    cases b.tenantId <;> simp [hrow]
  exact ⟨_,List.head?_eq_some_head hne⟩

theorem key_mem_items (found : List Subject) (items : List Item) (k : Kind × Uuid)
    (hfound : ∀ s ∈ found, s.kind = .item) :
    k ∈ ((items.foldl (fun found i => if found.all fun f => f.id ≠ i.id then found++[itemSubject .itemArtNo i] else found)
      found).map Subject.key) ↔ k ∈ found.map Subject.key ∨ ∃ i ∈ items, k = (.item,i.id) := by
  induction items generalizing found with
  | nil => simp
  | cons i items ih =>
    rw [List.foldl_cons]
    split_ifs with hnew
    · rw [ih (found++[itemSubject .itemArtNo i]) (by
        intro s hs
        rcases List.mem_append.mp hs with hs | hs
        · exact hfound s hs
        · rw [List.mem_singleton.mp hs]
          rfl)]
      rw [List.map_append,List.mem_append,List.map_singleton,List.mem_singleton,or_assoc,List.exists_mem_cons_iff]
      rfl
    · rw [ih found hfound,List.exists_mem_cons_iff]
      have hthere : (Kind.item,i.id) ∈ found.map Subject.key := by
        simp only [List.all_eq_true,decide_eq_true_eq,not_forall,not_not] at hnew
        obtain ⟨f,hf,hid⟩ := hnew
        refine List.mem_map.mpr ⟨f,hf,?_⟩
        rw [Subject.key,hfound f hf,hid]
      constructor
      · exact fun h => h.imp_right Or.inr
      · rintro (h | rfl | h)
        · exact Or.inl h
        · exact Or.inl hthere
        · exact Or.inr h

theorem mem_itemsByArtNo {scan : Scanned} {id : Uuid} : (∃ i ∈ itemsByArtNo upper seen scan, i.id = id) ↔
    ∃ r ∈ seen.reported, r.role = "art_no" ∧ upper scan.raw ∈ (artNumbersIn r.value).map upper ∧
      r.itemId = id ∧ (itemOf seen id).isSome = true := by
  simp only [itemsByArtNo,List.mem_dedup,List.mem_filterMap,List.mem_filter,decide_eq_true_eq]
  constructor
  · rintro ⟨i,⟨r,⟨hr,hrole,hupper⟩,hi⟩,rfl⟩
    have hid := (itemOf_some hi).2
    exact ⟨r,hr,hrole,hupper,hid.symm,by rw [hid,hi]; rfl⟩
  · rintro ⟨r,hr,hrole,hupper,rfl,hsome⟩
    obtain ⟨i,hi⟩ := Option.isSome_iff_exists.mp hsome
    exact ⟨i,⟨r,⟨hr,hrole,hupper⟩,hi⟩,(itemOf_some hi).2⟩

theorem key_mem_itemsFound {scan : Scanned} {k : Kind × Uuid} : k ∈ (itemsFound upper today seen scan).map Subject.key ↔
    k.1 = .item ∧ ((∃ row ∈ firstBarcode today seen scan, k.2 = row.2.id) ∨ ElsewhereNames upper seen scan k) := by
  obtain ⟨kind,id⟩ := k
  rw [itemsFound,key_mem_items _ _ _ (by
    intro s hs
    rcases List.mem_append.mp hs with hs | hs
    · obtain ⟨r,-,rfl⟩ := List.mem_map.mp hs
      rfl
    · obtain ⟨i,-,rfl⟩ := List.mem_map.mp hs
      rfl)]
  have hart : (∃ i ∈ itemsByArtNo upper seen scan, (kind,id) = (Kind.item,i.id)) ↔
      kind = .item ∧ ∃ i ∈ itemsByArtNo upper seen scan, i.id = id := by
    simp only [Prod.mk.injEq]
    exact ⟨fun ⟨i,hi,hkind,hid⟩ => ⟨hkind,i,hi,hid.symm⟩,fun ⟨hkind,i,hi,hid⟩ => ⟨i,hi,hkind,hid.symm⟩⟩
  have hfirst : (kind,id) ∈ (((firstBarcode today seen scan).toList.map fun r => itemSubject .itemBarcode r.2)++
      (seen.items.filter fun i => i.code = scan.raw).map (itemSubject .itemCode)).map Subject.key ↔
        kind = .item ∧ ((∃ row ∈ firstBarcode today seen scan, id = row.2.id) ∨ ∃ i ∈ seen.items, i.id = id ∧ i.code = scan.raw) := by
    simp only [List.map_append,List.mem_append,List.mem_map,Option.mem_toList,List.mem_filter,decide_eq_true_eq]
    constructor
    · rintro (⟨-,⟨row,hrow,rfl⟩,hkey⟩ | ⟨-,⟨i,⟨hi,hcode⟩,rfl⟩,hkey⟩)
      · obtain ⟨rfl,rfl⟩ := Prod.mk.inj hkey
        exact ⟨rfl,Or.inl ⟨row,hrow,rfl⟩⟩
      · obtain ⟨rfl,rfl⟩ := Prod.mk.inj hkey
        exact ⟨rfl,Or.inr ⟨i,hi,rfl,hcode⟩⟩
    · rintro ⟨rfl,⟨row,hrow,rfl⟩ | ⟨i,hi,rfl,hcode⟩⟩
      · exact Or.inl ⟨_,⟨row,hrow,rfl⟩,rfl⟩
      · exact Or.inr ⟨_,⟨i,⟨hi,hcode⟩,rfl⟩,rfl⟩
  rw [hart,hfirst,mem_itemsByArtNo,← and_or_left,or_assoc]
  refine and_congr_right fun hkind => ?_
  subst hkind
  rfl

variable (upper) in
theorem key_mem_packagesFound {scan : Scanned} {k : Kind × Uuid} : k ∈ (packagesFound seen scan).map Subject.key ↔
    k.1 = .package ∧ ElsewhereNames upper seen scan k := by
  obtain ⟨kind,id⟩ := k
  simp only [packagesFound,List.mem_map,List.mem_filter,decide_eq_true_eq]
  constructor
  · rintro ⟨-,⟨p,⟨hp,htest⟩,rfl⟩,hkey⟩
    obtain ⟨rfl,rfl⟩ := Prod.mk.inj hkey
    exact ⟨rfl,p,hp,rfl,htest⟩
  · rintro ⟨rfl,p,hp,rfl,htest⟩
    exact ⟨_,⟨p,⟨hp,htest⟩,rfl⟩,rfl⟩

variable (upper) in
theorem key_mem_locationsFound {scan : Scanned} {k : Kind × Uuid} : k ∈ (locationsFound seen scan).map Subject.key ↔
    k.1 = .location ∧ ElsewhereNames upper seen scan k := by
  obtain ⟨kind,id⟩ := k
  simp only [locationsFound,List.mem_map,List.mem_filter,decide_eq_true_eq]
  constructor
  · rintro ⟨-,⟨l,⟨hl,hcode⟩,rfl⟩,hkey⟩
    obtain ⟨rfl,rfl⟩ := Prod.mk.inj hkey
    exact ⟨rfl,l,hl,rfl,hcode⟩
  · rintro ⟨rfl,l,hl,rfl,hcode⟩
    exact ⟨_,⟨l,⟨hl,hcode⟩,rfl⟩,rfl⟩

/-- What is found is what other surfaces name, and the item of the row kept. -/
theorem key_mem_found {scan : Scanned} {expect : Option String} {k : Kind × Uuid} :
    k ∈ (found upper today seen scan expect).map Subject.key ↔ wants expect k.1 = true ∧
      (k.1 = .item ∧ (∃ row ∈ firstBarcode today seen scan, k.2 = row.2.id) ∨ ElsewhereNames upper seen scan k) := by
  have hif {kind : Kind} {xs : List Subject} {P : Prop} (h : k ∈ xs.map Subject.key ↔ k.1 = kind ∧ P) :
      k ∈ (if wants expect kind then xs else []).map Subject.key ↔ wants expect k.1 = true ∧ k.1 = kind ∧ P := by
    split_ifs with hwants
    · rw [h]
      exact ⟨fun h => ⟨h.1 ▸ hwants,h⟩,And.right⟩
    · refine iff_of_false List.not_mem_nil ?_
      rintro ⟨hk,hkind,-⟩
      exact hwants (hkind ▸ hk)
  rw [found,List.map_append,List.map_append,List.mem_append,List.mem_append,hif key_mem_itemsFound,
    hif (key_mem_packagesFound upper),hif (key_mem_locationsFound upper),← and_or_left,← and_or_left]
  refine and_congr_right fun _ => ?_
  obtain ⟨kind,id⟩ := k
  cases kind <;> simp

/-- Nothing is found that is not named. -/
theorem names_of_found {scan : Scanned} {expect : Option String} {k : Kind × Uuid}
    (h : k ∈ (found upper today seen scan expect).map Subject.key) : Names upper today seen scan expect k := by
  obtain ⟨hwants,⟨hkind,row,hrow,hid⟩ | helse⟩ := key_mem_found.mp h
  · exact ⟨hwants,Or.inl ⟨hkind,hid ▸ firstBarcode_names hrow⟩⟩
  · exact ⟨hwants,Or.inr helse⟩

/-- What is named and not found is an item of a barcode that was cut. -/
theorem found_of_names {scan : Scanned} {expect : Option String} {k : Kind × Uuid} (h : Names upper today seen scan expect k)
    (hone : wants expect .item = true → ∀ i j, BarcodeNames today seen scan i → BarcodeNames today seen scan j → i = j) :
    k ∈ (found upper today seen scan expect).map Subject.key := by
  obtain ⟨hwants,⟨hkind,hbarcode⟩ | helse⟩ := h
  · obtain ⟨row,hrow⟩ := firstBarcode_isSome hbarcode
    exact key_mem_found.mpr ⟨hwants,Or.inl ⟨hkind,row,hrow,hone (hkind ▸ hwants) _ _ hbarcode (firstBarcode_names hrow)⟩⟩
  · exact key_mem_found.mpr ⟨hwants,Or.inr helse⟩

theorem outcomeOf_resolved {scan : Scanned} {hits : ℕ} : outcomeOf isAlphanumeric scan hits = .resolved ↔ hits = 1 := by
  unfold outcomeOf
  split_ifs <;> simp_all

theorem outcomeOf_ambiguous {scan : Scanned} {hits : ℕ} : outcomeOf isAlphanumeric scan hits = .identifierAmbiguous ↔ 1 < hits := by
  unfold outcomeOf
  split_ifs <;> simp_all

/-- One subject is said just when one alone is found. -/
theorem oneEach_eq_singleton (xs : List Subject) (k : Kind × Uuid) :
    (oneEach xs).map Subject.key = [k] ↔ ∀ k', k' ∈ xs.map Subject.key ↔ k' = k := by
  rw [eq_singleton_iff (oneEach_nodup xs)]
  exact forall_congr' fun k' => by rw [key_mem_oneEach]

/-- Two found are more than one. -/
theorem oneEach_length {xs : List Subject} {k k' : Kind × Uuid} (hk : k ∈ xs.map Subject.key) (hk' : k' ∈ xs.map Subject.key)
    (hne : k ≠ k') : 1 < (oneEach xs).length := by
  rw [← key_mem_oneEach] at hk hk'
  rw [← List.length_map (f := Subject.key)]
  by_contra hle
  obtain ⟨a,ha⟩ := List.length_eq_one_iff.mp (le_antisymm (not_lt.mp hle) (List.length_pos_of_mem hk))
  rw [ha,List.mem_singleton] at hk hk'
  exact hne (hk.trans hk'.symm)

end

/-- A scan is told for one subject or for two just when nothing is lost by cutting the
barcodes to one. -/
theorem tellsTwoFromOne_iff (upper : Str → Str) (isAlphanumeric : Char → Bool) (today : ℤ) (seen : Seen) (raw : Str)
    (expect : Option String) : TellsTwoFromOne upper isAlphanumeric today seen raw expect ↔
      ∀ scan, parse raw = some scan → NothingCut upper today seen scan expect := by
  cases hparse : parse raw with
  | none =>
    refine iff_of_true ⟨fun r hr => ?_,fun k hk => ?_,fun k k' hk => ?_⟩ (by simp)
    · simp [resolve,hparse] at hr
    · obtain ⟨scan,hscan,-⟩ := hk
      rw [hparse] at hscan
      cases hscan
    · obtain ⟨scan,hscan,-⟩ := hk
      rw [hparse] at hscan
      cases hscan
  | some scan =>
    have hnamed (k : Kind × Uuid) : NamedBy upper today seen raw expect k ↔ Names upper today seen scan expect k := by
      simp [NamedBy,hparse]
    have hresolve : resolve upper isAlphanumeric today seen raw expect =
        some ⟨outcomeOf isAlphanumeric scan (oneEach (found upper today seen scan expect)).length,scan.raw,scan.gtin,scan.sscc,
          scan.lot,scan.expiry,oneEach (found upper today seen scan expect)⟩ := by
      simp [resolve,hparse]
    simp only [TellsTwoFromOne,hnamed,hresolve,Option.some.injEq,forall_eq',exists_eq_left',outcomeOf_resolved,outcomeOf_ambiguous]
    constructor
    · rintro ⟨-,-,htwo⟩ hitem
      by_contra hcut
      push Not at hcut
      obtain ⟨⟨i,j,hi,hj,hne⟩,hall⟩ := hcut
      have hlen := htwo (.item,i) (.item,j) ⟨hitem,Or.inl ⟨rfl,hi⟩⟩ ⟨hitem,Or.inl ⟨rfl,hj⟩⟩ (by simpa using hne)
      -- all that is found is the item of the row kept
      obtain ⟨row,hrow⟩ := firstBarcode_isSome hi
      have hone : (oneEach (found upper today seen scan expect)).map Subject.key = [(.item,row.2.id)] := by
        rw [oneEach_eq_singleton]
        intro k
        constructor
        · intro hk
          obtain ⟨hwants,⟨hkind,row',hrow',hid⟩ | helse⟩ := key_mem_found.mp hk
          · obtain rfl : row = row' := Option.some.inj (hrow.symm.trans hrow')
            exact Prod.ext hkind hid
          · obtain ⟨row',hrow',heq⟩ := hall k hwants helse
            obtain rfl : row = row' := Option.some.inj (hrow.symm.trans hrow')
            exact heq
        · rintro rfl
          exact key_mem_found.mpr ⟨hitem,Or.inl ⟨rfl,row,hrow,rfl⟩⟩
      have hlen' := congrArg List.length hone
      rw [List.length_map,List.length_singleton] at hlen'
      omega
    · intro hcut
      by_cases hitem : wants expect .item = true →
          ∀ i j, BarcodeNames today seen scan i → BarcodeNames today seen scan j → i = j
      · -- all that is named is found
        have hfound (k : Kind × Uuid) : Names upper today seen scan expect k ↔
            k ∈ (found upper today seen scan expect).map Subject.key :=
          ⟨fun h => found_of_names h hitem,names_of_found⟩
        simp only [hfound]
        refine ⟨fun hone => ?_,fun k hk hall => ?_,fun k k' hk hk' hne => oneEach_length hk hk' hne⟩
        · rw [← List.length_map (f := Subject.key)] at hone
          obtain ⟨k,hk⟩ := List.length_eq_one_iff.mp hone
          exact ⟨k,((oneEach_eq_singleton _ k).mp hk k).mpr rfl,fun k' hk' => ((oneEach_eq_singleton _ k).mp hk k').mp hk'⟩
        · have hone := (oneEach_eq_singleton _ k).mpr fun k' => ⟨hall k',fun heq => heq ▸ hk⟩
          have hlen := congrArg List.length hone
          rw [List.length_map,List.length_singleton] at hlen
          exact ⟨hlen,hone⟩
      · push Not at hitem
        obtain ⟨hwants,i,j,hi,hj,hne⟩ := hitem
        obtain ⟨row,hrow⟩ := firstBarcode_isSome hi
        obtain hone | ⟨k₀,hk₀,helse,hother⟩ := hcut hwants
        · exact absurd (hone i j hi hj) hne
        · have hlen : 1 < (oneEach (found upper today seen scan expect)).length :=
            oneEach_length (key_mem_found.mpr ⟨hk₀,Or.inr helse⟩)
              (key_mem_found.mpr ⟨hwants,Or.inl ⟨rfl,row,hrow,rfl⟩⟩ : (Kind.item,row.2.id) ∈ _) (hother row hrow)
          refine ⟨fun hone => absurd hone hlen.ne',fun k _ hall => ?_,fun k k' _ _ _ => hlen⟩
          have hik := hall (.item,i) ⟨hwants,Or.inl ⟨rfl,hi⟩⟩
          have hjk := hall (.item,j) ⟨hwants,Or.inl ⟨rfl,hj⟩⟩
          exact absurd (Prod.mk.inj (hik.trans hjk.symm)).2 hne

/-! A number the tenant put on one item of its own, which padded is the shared catalogue's
GTIN of another. -/

def twoSpellings : Seen where
  itemBarcodes := [⟨none,2,"09312345678907".toList,⟨some 0,none⟩⟩,⟨some 9,1,"9312345678907".toList,⟨some 0,none⟩⟩]
  items := [⟨1,"OURS".toList,none⟩,⟨2,"THEIRS".toList,none⟩]
  reported := []
  packages := []
  locations := []

/-- Two items are named, and the scan resolves to one. -/
theorem resolvesOneOfTwo : ((resolve id Char.isAlphanum 5 twoSpellings "9312345678907".toList none).map fun r =>
      (r.outcome,r.subjects.map Subject.key)) = some (.resolved,[(.item,1)]) ∧
    ¬TellsTwoFromOne id Char.isAlphanum 5 twoSpellings "9312345678907".toList none := by
  have hresolved : ((resolve id Char.isAlphanum 5 twoSpellings "9312345678907".toList none).map fun r =>
      (r.outcome,r.subjects.map Subject.key)) = some (.resolved,[(.item,1)]) := by decide +kernel
  refine ⟨hresolved,fun htells => ?_⟩
  have hscan : parse "9312345678907".toList =
      some {Scanned.bare "9312345678907".toList with gtin := some "09312345678907".toList} := by decide +kernel
  have hfirst : NamedBy id 5 twoSpellings "9312345678907".toList none (.item,1) := by
    refine ⟨_,hscan,by decide,Or.inl ⟨rfl,⟨some 9,1,"9312345678907".toList,⟨some 0,none⟩⟩,by decide,by decide,by decide,?_,rfl,by decide⟩⟩
    rintro ⟨hshared,-⟩
    cases hshared
  have hsecond : NamedBy id 5 twoSpellings "9312345678907".toList none (.item,2) := by
    refine ⟨_,hscan,by decide,Or.inl ⟨rfl,⟨none,2,"09312345678907".toList,⟨some 0,none⟩⟩,by decide,by decide,by decide,?_,rfl,by decide⟩⟩
    rintro ⟨-,own,hown,htenant,hbarcode,-⟩
    revert own
    decide
  obtain ⟨r,hr,hambiguous⟩ := htells.2.2 _ _ hfirst hsecond (by decide)
  rw [hr] at hresolved
  simp [hambiguous] at hresolved

end Barcodes
end Spork
