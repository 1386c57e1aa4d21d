/-
# Setka.Lib.Heapq — priority queues.

Of a heap only its items matter, and that the least of them is popped. It is a list of its items, in no order.
-/
import Mathlib.Data.List.MinMax
import Mathlib.Data.List.Perm.Basic

namespace Setka.Lib.Heapq

variable {α : Type} [LinearOrder α]

omit [LinearOrder α] in
/-- `heapify`. -/
def heapify (items : List α) : List α := items

omit [LinearOrder α] in
/-- `heappush`. -/
def heappush (heap : List α) (item : α) : List α := heap ++ [item]

/-- `heappop`, if there is an item. -/
def heappop (heap : List α) : Option (α × List α) := heap.min?.map fun least => (least, heap.erase least)

theorem heappop_eq_none {heap : List α} : heappop heap = none ↔ heap = [] := by
  rw [heappop, Option.map_eq_none_iff, List.min?_eq_none_iff]

/-- What is popped is least, and the rest is left. -/
theorem heappop_eq_some {heap rest : List α} {least : α} (h : heappop heap = some (least, rest)) :
    heap.Perm (least :: rest) ∧ ∀ item ∈ heap, least ≤ item := by
  obtain ⟨item, hmin, heq⟩ := Option.map_eq_some_iff.mp h
  obtain ⟨rfl, rfl⟩ := Prod.mk.inj heq
  obtain ⟨hmem, hle⟩ := List.min?_eq_some_iff.mp hmin
  exact ⟨List.perm_cons_erase hmem, hle⟩

end Setka.Lib.Heapq
