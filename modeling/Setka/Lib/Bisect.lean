/-
# Setka.Lib.Bisect — binary search among integers.

From zero on, as long as no position that is looked at is before what is searched for, these are the half of the
end, the half of that, and so on.
-/
import Mathlib.Algebra.Order.Ring.Int

namespace Setka.Lib

/-- The first position of a range that is not before what is searched for, or the end. -/
def bisect (before : ℤ → Bool) (lo hi : ℤ) : ℤ :=
  if _h : hi - lo > 0 then
    if before ((hi + lo) / 2) then bisect before ((hi + lo) / 2 + 1) hi
    else bisect before lo ((hi + lo) / 2)
  else hi
termination_by (hi - lo).toNat
decreasing_by all_goals omega

namespace Bisect

variable {before : ℤ → Bool} {lo hi r : ℤ}

/-- From `lo` on, what is in front of a position that is before the target is so too. -/
def Searchable (before : ℤ → Bool) (lo : ℤ) : Prop :=
  ∀ m n, lo ≤ m → m ≤ n → before n = true → before m = true

/-- The positions of the range below `r` are those before the target. -/
structure Found (before : ℤ → Bool) (lo hi r : ℤ) : Prop where
  ge : lo ≤ r
  iff : ∀ m, lo ≤ m → m < hi → (before m = true ↔ m < r)

theorem Found.of_true {mid : ℤ} (h : Found before (mid + 1) hi r) (hsearch : Searchable before lo) (hmid : lo ≤ mid)
    (htrue : before mid = true) : Found before lo hi r := by
  refine ⟨by have := h.ge; omega, fun m hm hlt => ?_⟩
  by_cases hle : m ≤ mid
  · exact iff_of_true (hsearch m mid hm hle htrue) (by have := h.ge; omega)
  · exact h.iff m (by omega) hlt

theorem Found.of_false {mid : ℤ} (h : Found before lo mid r) (hsearch : Searchable before lo) (hr : r ≤ mid)
    (hmid : lo ≤ mid) (hfalse : before mid = false) : Found before lo hi r := by
  refine ⟨h.ge, fun m hm _ => ?_⟩
  by_cases hlt : m < mid
  · exact h.iff m hm hlt
  refine iff_of_false (fun htrue => ?_) (by omega)
  rw [hsearch mid m hmid (by omega) htrue] at hfalse
  cases hfalse

/-- **The search finds its target.** -/
theorem bisect_spec (h : Searchable before lo) (hle : lo ≤ hi) :
    Found before lo hi (bisect before lo hi) ∧ bisect before lo hi ≤ hi := by
  fun_induction bisect before lo hi with
  | case1 lo hi hpos htrue ih =>
    obtain ⟨hfound, hr⟩ := ih (fun m n hm => h m n (by omega)) (by omega)
    exact ⟨hfound.of_true h (by omega) htrue, hr⟩
  | case2 lo hi hpos hfalse ih =>
    obtain ⟨hfound, hr⟩ := ih h (by omega)
    exact ⟨hfound.of_false h hr (by omega) (Bool.eq_false_iff.mpr hfalse), by omega⟩
  | case3 lo hi hpos => exact ⟨⟨hle, fun m hm hlt => by omega⟩, le_rfl⟩

/-- The search goes on behind the first position that it looks at. -/
theorem found_behind (h : Searchable before lo) (hhi : 0 < hi) (hlo : lo ≤ hi / 2) (htrue : before (hi / 2) = true) :
    Found before lo hi (bisect before 0 hi) ∧ bisect before 0 hi ≤ hi := by
  have hmono : Searchable before (hi / 2 + 1) := fun m n hm => h m n (by omega)
  obtain ⟨hfound, hr⟩ := bisect_spec hmono (by omega : hi / 2 + 1 ≤ hi)
  rw [bisect, add_zero, dif_pos (by omega), if_pos htrue]
  exact ⟨hfound.of_true h hlo htrue, hr⟩

theorem half_half (hi : ℤ) (j : ℕ) : hi / 2 / 2 ^ (j + 1) = hi / 2 ^ (j + 1 + 1) := by
  rw [Int.ediv_ediv_of_nonneg (by decide), ← pow_succ']

/-- It is enough that one of the halves of the end is before the target, and that what lies behind is in order. -/
theorem found_of_half {j : ℕ} (h : Searchable before (hi / 2 ^ (j + 1))) (hhi : 0 < hi)
    (hj : before (hi / 2 ^ (j + 1)) = true) :
    Found before (hi / 2 ^ (j + 1)) hi (bisect before 0 hi) ∧ bisect before 0 hi ≤ hi := by
  induction j generalizing hi with
  | zero =>
    exact found_behind h hhi le_rfl hj
  | succ j ih =>
    rw [← half_half] at h hj ⊢
    have hle : hi / 2 / 2 ^ (j + 1) ≤ hi / 2 := Int.ediv_le_self _ (by omega)
    -- the search looks at the first half, and goes on behind it or below it
    by_cases htrue : before (hi / 2) = true
    · exact found_behind h hhi hle htrue
    have hpos : 0 < hi / 2 := by
      by_contra hnot
      have hzero : hi / 2 = 0 := by omega
      rw [hzero, Int.zero_ediv, ← hzero] at hj
      exact htrue hj
    obtain ⟨hfound, hr⟩ := ih h hpos hj
    rw [bisect, add_zero, dif_pos (by omega), if_neg htrue]
    exact ⟨hfound.of_false h hr hle (Bool.eq_false_iff.mpr htrue), by omega⟩

/-- If none of the halves is, zero is found. -/
theorem bisect_of_halves (hhi : 0 ≤ hi) (h : ∀ j : ℕ, before (hi / 2 ^ (j + 1)) = false) : bisect before 0 hi = 0 := by
  induction hn : hi.toNat using Nat.strongRecOn generalizing hi with
  | _ n ih =>
    rw [bisect, add_zero]
    split
    · have hhalf := h 0
      rw [zero_add, pow_one] at hhalf
      rw [hhalf]
      exact ih _ (by omega) (by omega) (fun j => by rw [half_half]; exact h (j + 1)) rfl
    · omega

end Bisect

end Setka.Lib
