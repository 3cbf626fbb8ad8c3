import Mathlib

/-! Things named by paths: names joined by a mark none of them has, and how branches that
begin with different names stay apart. -/
namespace Spork
namespace Paths

section Names

variable {α : Type*} [DecidableEq α]

/-- The names a text is joined of. -/
def names (mark : α) (text : List α) : List (List α) := text.splitOn mark

theorem names_append (mark : α) (a b : List α) : names mark (a++mark :: b) = names mark a++names mark b :=
  List.splitOn_append_cons_self a b

theorem names_one {mark : α} {a : List α} (h : mark ∉ a) : names mark a = [a] :=
  List.splitOn_eq_singleton h

end Names

variable {κ β : Type*} (path : β → List κ)

/-- Things whose paths all go on from one, no two the same. -/
structure Under (p : List κ) (xs : List β) : Prop where
  under : ∀ x ∈ xs, p <+: path x
  apart : (xs.map path).Nodup

/-- Things whose paths go on from one by some names, no two the same. -/
structure Branches (p ks : List κ) (xs : List β) : Prop where
  branch : ∀ x ∈ xs, ∃ k ∈ ks, p++[k] <+: path x
  apart : (xs.map path).Nodup

variable {path} {p ks ls : List κ} {xs ys : List β} {k : κ}

theorem Under.nil : Under path p [] := ⟨by simp,List.nodup_nil⟩

theorem Branches.nil : Branches path p ks [] := ⟨by simp,List.nodup_nil⟩

theorem Under.one {x : β} (h : p <+: path x) : Under path p [x] := ⟨by simpa using h,List.nodup_singleton _⟩

/-- A branch by one name. -/
theorem Under.branches (h : Under path (p++[k]) xs) : Branches path p [k] xs :=
  ⟨fun x hx => ⟨k,List.mem_singleton.mpr rfl,h.under x hx⟩,h.apart⟩

theorem Branches.under (h : Branches path p ks xs) : Under path p xs := by
  refine ⟨fun x hx => ?_,h.apart⟩
  obtain ⟨k,-,hk⟩ := h.branch x hx
  exact (List.prefix_append p [k]).trans hk

/-- A branch further down is one from further up. -/
theorem Under.above {q : List κ} (h : Under path (p++q) xs) : Under path p xs :=
  ⟨fun x hx => (List.prefix_append p q).trans (h.under x hx),h.apart⟩

/-- Branches by different names stay apart. -/
theorem Branches.append (hx : Branches path p ks xs) (hy : Branches path p ls ys) (h : ∀ k ∈ ks, k ∉ ls) :
    Branches path p (ks++ls) (xs++ys) := by
  refine ⟨fun z hz => ?_,?_⟩
  · rcases List.mem_append.mp hz with hz | hz
    · obtain ⟨k,hk,hpath⟩ := hx.branch z hz
      exact ⟨k,List.mem_append_left _ hk,hpath⟩
    · obtain ⟨k,hk,hpath⟩ := hy.branch z hz
      exact ⟨k,List.mem_append_right _ hk,hpath⟩
  · rw [List.map_append,List.nodup_append']
    refine ⟨hx.apart,hy.apart,fun q hqx hqy => ?_⟩
    obtain ⟨x,hxmem,rfl⟩ := List.mem_map.mp hqx
    obtain ⟨y,hymem,hsame⟩ := List.mem_map.mp hqy
    obtain ⟨k,hk,hkpath⟩ := hx.branch x hxmem
    obtain ⟨l,hl,hlpath⟩ := hy.branch y hymem
    rw [hsame] at hlpath
    have hlen : (p++[k]).length = (p++[l]).length := by simp
    have heq : p++[k] = p++[l] :=
      (List.prefix_of_prefix_length_le hkpath hlpath hlen.le).eq_of_length hlen
    obtain rfl : k = l := List.singleton_inj.mp (List.append_cancel_left heq)
    exact h k hk hl

end Paths
end Spork
