/-
# Setka.Lib.IterOrder — unspecified iteration orders.

A Python `set` iterates its elements in an order that depends on hashing and history. A program that
does so is modelled with an `IterOrder` as a parameter: any way of listing finite sets without
repetition. What is proved for every `IterOrder` does not depend on the order.
-/
import Mathlib.Data.Finset.Sort

namespace Setka.Lib

/-- A way of listing the elements of finite sets. -/
structure IterOrder (α : Type) [DecidableEq α] where
  list : Finset α → List α
  toFinset_list : ∀ s, (list s).toFinset = s
  nodup_list : ∀ s, (list s).Nodup

namespace IterOrder

variable {α : Type} [DecidableEq α] (order : IterOrder α)

@[simp] theorem mem_list {s : Finset α} {a : α} : a ∈ order.list s ↔ a ∈ s := by
  rw [← List.mem_toFinset, order.toFinset_list]

theorem list_eq_nil_iff {s : Finset α} : order.list s = [] ↔ s = ∅ := by
  rw [← List.toFinset_eq_empty_iff, order.toFinset_list]

/-- Increasing order. -/
def sorted (α : Type) [LinearOrder α] : IterOrder α where
  list s := Quot.lift (fun l => l.insertionSort (· ≤ ·)) (fun l l' h => ((List.perm_insertionSort _ l).trans
      (h.trans (List.perm_insertionSort _ l').symm)).eq_of_sortedLE
      List.sortedLE_insertionSort List.sortedLE_insertionSort) s.val
  toFinset_list s := by
    ext a
    obtain ⟨⟨l⟩, hn⟩ := s
    show a ∈ (l.insertionSort (· ≤ ·)).toFinset ↔ _
    rw [List.mem_toFinset, (List.perm_insertionSort _ l).mem_iff]
    rfl
  nodup_list s := by
    obtain ⟨⟨l⟩, hn⟩ := s
    exact (List.perm_insertionSort _ l).nodup_iff.mpr hn

/-- The order of the elements that stand for these. -/
def via {β : Type} [DecidableEq β] (e : α ≃ β) : IterOrder β where
  list s := (order.list (s.map e.symm.toEmbedding)).map e
  toFinset_list s := by
    ext b
    rw [List.mem_toFinset, List.mem_map, e.exists_congr_left]
    simp
  nodup_list s := (order.nodup_list _).map e.injective

end IterOrder

end Setka.Lib
