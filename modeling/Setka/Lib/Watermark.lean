/-
# Setka.Lib.Watermark — positions below all unfinished work.

A position `v` is *clear* of a finite set of pending items when it lies strictly below every one of
them. This is what a low watermark promises. Clearness is downward closed in the position and
antitone in the set; a fresh item above every position in use never destroys it; and a clear
position may move up by one whenever the next value is not itself pending.
-/
import Mathlib.Data.Finset.Max
import Mathlib.Algebra.Order.Group.Int

namespace Setka.Lib

/-- `v` lies strictly below every member of `pending`. -/
def Clear (pending : Finset Int) (v : Int) : Prop := ∀ u ∈ pending, v < u

namespace Clear

variable {s t : Finset Int} {v w : Int}

@[simp] theorem empty (v : Int) : Clear ∅ v := by simp [Clear]

theorem le (h : Clear s v) (hw : w ≤ v) : Clear s w := fun u hu => lt_of_le_of_lt hw (h u hu)

theorem notMem (h : Clear s v) : v ∉ s := fun hv => lt_irrefl v (h v hv)

theorem max (hv : Clear s v) (hw : Clear s w) : Clear s (max v w) :=
  fun u hu => max_lt (hv u hu) (hw u hu)

/-- A watermark moves over a value that is not pending. -/
theorem succ (h : Clear s v) (hv : v + 1 ∉ s) : Clear s (v + 1) := by
  intro u hu
  have hlt := h u hu
  have hne : v + 1 ≠ u := fun he => hv (he ▸ hu)
  omega

end Clear

end Setka.Lib
