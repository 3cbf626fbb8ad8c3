import Spork.Lib.SecondChoice
import Spork.Lib.Sorted

/-! A code for each new customer (`orders.rs`, `importing/orders.rs`): the customers an order
export names are written in the order of their names, and one with no code is given one. -/
namespace Spork
namespace Importing
namespace Customers

/-- A customer on file. -/
structure Party where
  name : String
  code : String
  deriving DecidableEq

/-- The letters and digits of a name, as capitals, the first of them. -/
def slug (name : String) : String :=
  let base := ((name.toList.filter Char.isAlphanum).take 24).map Char.toUpper
  if base = [] then "PARTY" else String.ofList base

/-- FNV-1a over the full name: short, stable, and not the row's position. -/
def hash (name : String) : UInt64 :=
  (name.toList.flatMap String.utf8EncodeChar).foldl (fun h b => (h ^^^ b.toUInt64)*0x1000000001b3) 0xcbf29ce484222325

/-- One digit of a number in sixteens. -/
def hexDigit (n : ℕ) : Char := (Nat.digitChar (n%16)).toUpper

/-- `{:04X}` of sixteen bits. -/
def hex4 (n : ℕ) : List Char := [hexDigit (n/4096),hexDigit (n/256),hexDigit (n/16),hexDigit n]

/-- A shorter slug and sixteen bits of the hash. -/
def hashed (name : String) : String :=
  String.ofList ((slug name).toList.take 19++ '-' :: hex4 ((hash name).toNat%65536))

/-- A stable code for a customer that has none. -/
def customerCode (name : String) (taken : String → Bool) : String :=
  if !taken (slug name) then slug name else hashed name

/-- Why no customer is written. -/
inductive WriteError
  | unexpectedRows
  | duplicateCode (name : String)

/-- The customers on file, and the codes a run knows to be taken. -/
structure Written where
  parties : List Party
  codes : List String

/-- One customer: the one on file of that name, or a new one. -/
def writeName (s : Written) (name : String) : Except WriteError Written :=
  match s.parties.filter fun p => p.name = name with
  | [_] => .ok s
  | [] =>
    let code := customerCode name fun c => decide (c ∈ s.codes)
    -- `party_tenant_code_key`
    if code ∈ s.parties.map Party.code then .error (.duplicateCode name)
    else .ok ⟨⟨name,code⟩ :: s.parties,code :: s.codes⟩
  | _ => .error .unexpectedRows

/-- Sorted, so the codes a run assigns do not depend on row order. -/
def names (customers : List String) : List String := Sorted.sortBy compare (customers.filter (· ≠ "")).dedup

def writeCustomers (file : List Party) (customers : List String) : Except WriteError Written :=
  (names customers).foldlM writeName ⟨file,file.map Party.code⟩

/-- The codes a run gives the names that are new. -/
def assigned (file : List Party) (customers : List String) : List String :=
  SecondChoice.chosen slug hashed (file.map Party.code) (names customers)

/-! ## Slugs and hashes -/

theorem isAlphanum_toUpper {c : Char} (h : c.isAlphanum = true) : c.toUpper.isAlphanum = true := by
  rw [Char.isAlphanum,Bool.or_eq_true] at h ⊢
  rcases h with h | h
  · left
    rw [Char.isAlpha_toUpper_eq_isAlpha,h]
  · right
    rwa [Char.toUpper_eq_of_not_isLower]
    intro hlower
    simp only [Char.isDigit,Char.isLower,Bool.and_eq_true,decide_eq_true_eq] at h hlower
    exact absurd (UInt32.le_trans hlower.1 h.2) (by decide)

theorem slug_alphanum (name : String) : ∀ c ∈ (slug name).toList, c.isAlphanum = true := by
  intro c hc
  rw [slug] at hc
  split_ifs at hc with hnone
  · have hword : "PARTY".toList.all Char.isAlphanum = true := by decide +kernel
    exact List.all_eq_true.mp hword c hc
  · rw [String.toList_ofList] at hc
    obtain ⟨d,hd,rfl⟩ := List.mem_map.mp hc
    exact isAlphanum_toUpper (List.mem_filter.mp (List.mem_of_mem_take hd)).2

/-- A hashed code is nobody's slug. -/
theorem slug_ne_hashed (name name' : String) : slug name ≠ hashed name' := by
  intro heq
  have hdash : '-' ∈ (slug name).toList := by
    rw [heq,hashed,String.toList_ofList]
    exact List.mem_append_right _ List.mem_cons_self
  exact absurd (slug_alphanum name '-' hdash) (by decide)

/-! ## Names in order -/

theorem mem_names {customers : List String} {n : String} : n ∈ names customers ↔ n ∈ customers ∧ n ≠ "" := by
  simp [names,Sorted.mem_sortBy]

theorem nodup_names (customers : List String) : (names customers).Nodup :=
  (Sorted.sortBy_perm compare _).nodup_iff.mpr (List.nodup_dedup _)

theorem names_sorted (customers : List String) : (names customers).Pairwise (· < ·) := by
  have hle : (names customers).Pairwise fun a b => (compare a b).isLE = true := Sorted.sortBy_sorted _
  refine (hle.and (nodup_names customers)).imp fun ⟨h,hne⟩ => ?_
  exact lt_of_le_of_ne (compare_le_iff_le.mp (Ordering.isLE_iff_ne_gt.mp h)) hne

/-- The order of the rows is nothing to it, nor how often a name comes. -/
theorem names_congr {customers customers' : List String} (h : ∀ n, n ∈ customers ↔ n ∈ customers') :
    names customers = names customers' := by
  apply Sorted.sortBy_eq
  · rw [List.perm_ext_iff_of_nodup (List.nodup_dedup _) (List.nodup_dedup _)]
    intro n
    simp [h]
  · intro a _ b _ hab
    exact Std.LawfulEqOrd.eq_of_compare hab

/-! ## Codes -/

/-- A new name's code: its slug, or where that is taken its hashed code. -/
theorem customerCode_eq (taken : List String) (name : String) :
    customerCode name (fun c => decide (c ∈ taken)) = SecondChoice.choice slug hashed taken name := by
  by_cases h : slug name ∈ taken <;> simp [customerCode,SecondChoice.choice,h]

theorem writeName_new {s : Written} {name : String} (hnew : name ∉ s.parties.map Party.name)
    (hcodes : s.parties.map Party.code = s.codes) : writeName s name =
      if SecondChoice.choice slug hashed s.codes name ∈ s.codes then .error (.duplicateCode name)
      else .ok ⟨⟨name,SecondChoice.choice slug hashed s.codes name⟩ :: s.parties,
        SecondChoice.choice slug hashed s.codes name :: s.codes⟩ := by
  have hnil : s.parties.filter (fun p => p.name = name) = [] := by
    rw [List.filter_eq_nil_iff]
    intro p hp hname
    exact hnew (List.mem_map.mpr ⟨p,hp,by simpa using hname⟩)
  rw [writeName,hnil]
  simp only [customerCode_eq,hcodes]

/-- New names are all written when no two of their codes are one and none is on file, and
each with its own. -/
theorem writeNames_ok_iff {s : Written} {ns : List String} (hnodup : ns.Nodup)
    (hnew : ∀ n ∈ ns, n ∉ s.parties.map Party.name) (hcodes : s.parties.map Party.code = s.codes) :
    (∃ s', ns.foldlM writeName s = .ok s') ↔ (SecondChoice.chosen slug hashed s.codes ns).Nodup ∧
      ∀ c ∈ SecondChoice.chosen slug hashed s.codes ns, c ∉ s.codes := by
  induction ns generalizing s with
  | nil =>
    simp only [SecondChoice.chosen,List.nodup_nil,true_and]
    exact ⟨fun _ c hc => absurd hc List.not_mem_nil,fun _ => ⟨s,rfl⟩⟩
  | cons n ns ih =>
    obtain ⟨hn,hrest⟩ := List.nodup_cons.mp hnodup
    rw [List.foldlM_cons,writeName_new (hnew n List.mem_cons_self) hcodes,SecondChoice.chosen,List.nodup_cons,
      List.forall_mem_cons]
    split_ifs with hin
    · constructor
      · rintro ⟨s',h⟩
        cases h
      · exact fun h => absurd hin h.2.1
    · show (∃ s', ns.foldlM writeName _ = .ok s') ↔ _
      rw [ih hrest _ _]
      · simp only [List.mem_cons,not_or]
        constructor
        · rintro ⟨hone,hfresh⟩
          exact ⟨⟨fun h => (hfresh _ h).1 rfl,hone⟩,hin,fun c hc => (hfresh c hc).2⟩
        · rintro ⟨⟨hnot,hone⟩,-,hfresh⟩
          exact ⟨hone,fun c hc => ⟨fun heq => hnot (heq ▸ hc),hfresh c hc⟩⟩
      · intro m hm hmem
        rw [List.map_cons,List.mem_cons] at hmem
        rcases hmem with rfl | hmem
        · exact hn hm
        · exact hnew m (List.mem_cons_of_mem n hm) hmem
      · rw [List.map_cons,hcodes]

/-- What is written is each name with the code given it. -/
theorem writeNames_parties {s s' : Written} {ns : List String} (hnodup : ns.Nodup)
    (hnew : ∀ n ∈ ns, n ∉ s.parties.map Party.name) (hcodes : s.parties.map Party.code = s.codes)
    (h : ns.foldlM writeName s = .ok s') :
    s'.parties = (ns.zipWith Party.mk (SecondChoice.chosen slug hashed s.codes ns)).reverse++s.parties := by
  induction ns generalizing s with
  | nil =>
    cases h
    rfl
  | cons n ns ih =>
    obtain ⟨hn,hrest⟩ := List.nodup_cons.mp hnodup
    rw [List.foldlM_cons,writeName_new (hnew n List.mem_cons_self) hcodes] at h
    split_ifs at h with hin
    · cases h
    · rw [ih hrest _ _ h,SecondChoice.chosen,List.zipWith_cons_cons,List.reverse_cons,List.append_assoc]
      · rfl
      · intro m hm hmem
        rw [List.map_cons,List.mem_cons] at hmem
        rcases hmem with rfl | hmem
        · exact hn hm
        · exact hnew m (List.mem_cons_of_mem n hm) hmem
      · rw [List.map_cons,hcodes]

/-- A name's slug is on file, or is that of one before it. -/
def Clashes (file : List Party) (customers : List String) (n : String) : Prop :=
  slug n ∈ file.map Party.code ∨ ∃ m ∈ names customers, m < n ∧ slug m = slug n

theorem mem_late {file : List Party} {customers : List String} {n : String} :
    n ∈ SecondChoice.late slug (file.map Party.code) (names customers) ↔ n ∈ names customers ∧ Clashes file customers n := by
  rw [SecondChoice.mem_late_iff]
  constructor
  · rintro ⟨before,after,heq,hlate⟩
    have hsorted := names_sorted customers
    rw [heq,List.pairwise_append] at hsorted
    refine ⟨heq ▸ List.mem_append_right _ List.mem_cons_self,hlate.imp_right ?_⟩
    rintro ⟨m,hm,hslug⟩
    exact ⟨m,heq ▸ List.mem_append_left _ hm,hsorted.2.2 m hm n List.mem_cons_self,hslug⟩
  · rintro ⟨hn,hclash⟩
    obtain ⟨before,after,heq⟩ := List.append_of_mem hn
    refine ⟨before,after,heq,hclash.imp_right ?_⟩
    rintro ⟨m,hm,hless,hslug⟩
    have hsorted := names_sorted customers
    rw [heq,List.pairwise_append,List.pairwise_cons] at hsorted
    rw [heq,List.mem_append,List.mem_cons] at hm
    rcases hm with hm | rfl | hm
    · exact ⟨m,hm,hslug⟩
    · exact absurd hless (lt_irrefl _)
    · exact absurd (hless.trans (hsorted.2.1.1 m hm)) (lt_irrefl _)

/-- Each new customer has a code of its own, in whatever order the rows come. -/
structure OwnCodes (file : List Party) (customers : List String) : Prop where
  distinct : (assigned file customers).Nodup
  fresh : ∀ c ∈ assigned file customers, c ∉ file.map Party.code
  written : ∃ s, writeCustomers file customers = .ok s ∧
    s.parties = ((names customers).zipWith Party.mk (assigned file customers)).reverse++file
  anyOrder : ∀ customers', (∀ n, n ∈ customers' ↔ n ∈ customers) → assigned file customers' = assigned file customers

/-- Of the names whose slug is taken no two have one hashed code, and none has one on file. -/
def HashesApart (file : List Party) (customers : List String) : Prop :=
  (∀ n ∈ names customers, ∀ m ∈ names customers, Clashes file customers n → Clashes file customers m →
    hashed n = hashed m → n = m) ∧
  ∀ n ∈ names customers, Clashes file customers n → hashed n ∉ file.map Party.code

/-- New customers have codes of their own exactly when the hashes of those whose slugs are taken
come out apart. -/
theorem ownCodes_iff (file : List Party) (customers : List String)
    (hnew : ∀ n ∈ customers, n ∉ file.map Party.name) : OwnCodes file customers ↔ HashesApart file customers := by
  have hnames : ∀ n ∈ names customers, n ∉ file.map Party.name := fun n hn => hnew n (mem_names.mp hn).1
  have hwritten := writeNames_ok_iff (s := ⟨file,file.map Party.code⟩) (nodup_names customers) hnames rfl
  have hlate : (SecondChoice.late slug (file.map Party.code) (names customers)).Nodup :=
    (nodup_names customers).sublist (SecondChoice.late_sublist _ _)
  have hnodup := SecondChoice.nodup_chosen_iff slug_ne_hashed (file.map Party.code) (names customers)
  have hfresh := SecondChoice.fresh_chosen_iff slug_ne_hashed (file.map Party.code) (names customers)
  rw [List.nodup_map_iff_inj_on hlate] at hnodup
  simp only [mem_late,and_imp] at hnodup hfresh
  constructor
  · intro h
    refine ⟨fun n hn m hm hclash hclash' heq => ?_,fun n hn hclash => hfresh.mp h.fresh n hn hclash⟩
    exact hnodup.mp h.distinct n hn hclash m hm hclash' heq
  · rintro ⟨hinj,hoff⟩
    have hone := hnodup.mpr fun n hn hclash m hm hclash' heq => hinj n hn m hm hclash hclash' heq
    have hall := hfresh.mpr hoff
    obtain ⟨s,hs⟩ := hwritten.mpr ⟨hone,hall⟩
    refine ⟨hone,hall,⟨s,hs,writeNames_parties (nodup_names customers) hnames rfl hs⟩,fun customers' hsame => ?_⟩
    rw [assigned,assigned,names_congr hsame]

/-- A parent on file, and two of its stores whose hashes come out the same. -/
def parent : List Party := [⟨"PMFresh Pty Ltd : PMFresh Pty Ltd Colmslie","PMFRESHPTYLTDPMFRESHPTYL"⟩]

def twoStores : List String := ["PMFresh Pty Ltd : PMFresh Pty Ltd 188","PMFresh Pty Ltd : PMFresh Pty Ltd 294"]

theorem twoStores_clash :
    (∀ n ∈ twoStores, n ∉ parent.map Party.name) ∧ twoStores.Nodup ∧ ¬(assigned parent twoStores).Nodup ∧
      ¬∃ s, writeCustomers parent twoStores = .ok s := by
  have hnew : ∀ n ∈ twoStores, n ∉ parent.map Party.name := by decide +kernel
  have htwice : ¬(assigned parent twoStores).Nodup := by decide +kernel
  refine ⟨hnew,by decide +kernel,htwice,?_⟩
  rintro ⟨s,hs⟩
  have hok := (writeNames_ok_iff (s := ⟨parent,parent.map Party.code⟩) (nodup_names twoStores)
    (fun n hn => hnew n (mem_names.mp hn).1) rfl).mp ⟨s,hs⟩
  exact htwice hok.1

def otherStores : List String := ["PMFresh Pty Ltd : PMFresh Pty Ltd Coolum","Acme Pty Ltd"]

theorem otherStores_ownCodes : OwnCodes parent otherStores ↔ HashesApart parent otherStores :=
  ownCodes_iff parent otherStores (by decide +kernel)

end Customers
end Importing
end Spork
