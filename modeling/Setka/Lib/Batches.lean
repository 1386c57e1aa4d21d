/-
# Setka.Lib.Batches — lists in batches.

Long lists are worked off a fixed number of entries at a time. The batches, one behind the other, are the list.
-/
import Mathlib.Data.List.Basic

namespace Setka.Lib

theorem flatten_toChunks {α : Type} (n : ℕ) (l : List α) : (l.toChunks n).flatten = l := by
  have hgo : ∀ (xs : List α) (acc : Array α) (chunks : Array (List α)),
      (List.toChunks.go n xs acc chunks).flatten = chunks.toList.flatten ++ acc.toList ++ xs := by
    intro xs
    induction xs with
    | nil => simp [List.toChunks.go]
    | cons x xs ih =>
      intro acc chunks
      rw [List.toChunks.go]
      split
      · rw [ih]
        simp
      · rw [ih]
        simp
  cases l with
  | nil => simp [List.toChunks]
  | cons x xs =>
    cases n with
    | zero => simp [List.toChunks]
    | succ n =>
      rw [List.toChunks]
      · rw [hgo]
        simp
      · simp

end Setka.Lib
