/-
# Setka.Lib.LeakyBucket — a bucket that leaks, and what passes through it.

A bucket is given by the time at which it will be empty. A request is admitted if there is room for it, and fills the
bucket for as long as it takes to leak. In any stretch of time no more is admitted than the bucket holds and what
leaks meanwhile.
-/
import Mathlib.Algebra.Order.Field.Basic
import Mathlib.Tactic.Linarith

namespace Setka.Lib.LeakyBucket

variable {𝕜 : Type*} [Field 𝕜] [LinearOrder 𝕜] [IsStrictOrderedRing 𝕜]

/-- What is in a bucket that will be empty at a time. -/
def level (rate empty now : 𝕜) : 𝕜 := (max empty now - now) * rate

/-- When a bucket will be empty to which an amount is added. -/
def fill (rate empty now amount : 𝕜) : 𝕜 := max empty now + amount / rate

variable {rate : 𝕜}

/-- There is room as soon as what is in the bucket will not take longer to leak than the room. -/
theorem level_le_iff {room : 𝕜} (hrate : 0 < rate) (hroom : 0 ≤ room) (empty now : 𝕜) :
    level rate empty now ≤ room ↔ empty - room / rate ≤ now := by
  have hlast : now ≤ room / rate + now := le_add_of_nonneg_left (div_nonneg hroom hrate.le)
  rw [level, ← le_div_iff₀ hrate, sub_le_iff_le_add, max_le_iff, sub_le_iff_le_add']
  exact and_iff_left hlast

/-- The requests, with their times and amounts, for which there is room. -/
def admitted (rate burst : 𝕜) : 𝕜 → List (𝕜 × 𝕜) → List (𝕜 × 𝕜)
  | _, [] => []
  | empty, request :: rest =>
    if level rate empty request.1 ≤ burst - request.2 then
      request :: admitted rate burst (fill rate empty request.1 request.2) rest
    else admitted rate burst empty rest

/-- The amount that is admitted from one time to another. -/
def total (first last : 𝕜) (requests : List (𝕜 × 𝕜)) : 𝕜 :=
  ((requests.filter fun request => first ≤ request.1 ∧ request.1 ≤ last).map Prod.snd).sum

omit [IsStrictOrderedRing 𝕜] in
theorem total_cons (first last : 𝕜) (request : 𝕜 × 𝕜) (requests : List (𝕜 × 𝕜)) :
    total first last (request :: requests) =
      (if first ≤ request.1 ∧ request.1 ≤ last then request.2 else 0) + total first last requests := by
  rw [total, total, List.filter_cons]
  by_cases h : first ≤ request.1 ∧ request.1 ≤ last
  · simp [h]
  · simp [h]

variable {burst : 𝕜} {requests : List (𝕜 × 𝕜)}

omit [IsStrictOrderedRing 𝕜] in
theorem mem_of_mem_admitted {empty : 𝕜} {request : 𝕜 × 𝕜}
    (h : request ∈ admitted rate burst empty requests) : request ∈ requests := by
  induction requests generalizing empty with
  | nil => cases h
  | cons first rest ih =>
    rw [admitted] at h
    split at h
    · rcases List.mem_cons.mp h with rfl | hrest
      · exact List.mem_cons_self
      · exact List.mem_cons_of_mem _ (ih hrest)
    · exact List.mem_cons_of_mem _ (ih h)

variable {first last : 𝕜}

omit [IsStrictOrderedRing 𝕜] in
/-- After the last time nothing counts. -/
theorem total_of_late {empty : 𝕜}
    (h : ∀ request ∈ requests, last < request.1) : total first last (admitted rate burst empty requests) = 0 := by
  have hnone :
      (admitted rate burst empty requests).filter (fun request => first ≤ request.1 ∧ request.1 ≤ last) = [] := by
    rw [List.filter_eq_nil_iff]
    intro request hrequest
    simp only [decide_eq_true_eq, not_and, not_le]
    exact fun _ => h request (mem_of_mem_admitted hrequest)
  rw [total, hnone, List.map_nil, List.sum_nil]

/-- What is admitted from the first time on is paid for by the time until the bucket is empty. -/
theorem total_le_of_begun (hrate : 0 < rate) (hsorted : requests.Pairwise fun a b => a.1 ≤ b.1)
    (hbegun : ∀ request ∈ requests, first ≤ request.1) (hamount : ∀ request ∈ requests, 0 ≤ request.2)
    (empty : 𝕜) :
    total first last (admitted rate burst empty requests) ≤ max 0 (burst + (last - max empty first) * rate) := by
  induction requests generalizing empty with
  | nil => exact le_max_left _ _
  | cons request rest ih =>
    obtain ⟨hfirst, hrest⟩ := List.pairwise_cons.mp hsorted
    have hrestBegun := fun r hr => hbegun r (List.mem_cons_of_mem _ hr)
    have hrestAmount := fun r hr => hamount r (List.mem_cons_of_mem _ hr)
    have hbegins := hbegun request List.mem_cons_self
    by_cases hlate : last < request.1
    · rw [total_of_late]
      · exact le_max_left _ _
      · intro r hr
        rcases List.mem_cons.mp hr with rfl | hmem
        · exact hlate
        · exact hlate.trans_le (hfirst r hmem)
    rw [not_lt] at hlate
    rw [admitted]
    split
    · next hroom =>
        have hlater := ih hrest hrestBegun hrestAmount (fill rate empty request.1 request.2)
        have hafter : first ≤ fill rate empty request.1 request.2 :=
          (hbegins.trans (le_max_right _ _)).trans
            (le_add_of_nonneg_right (div_nonneg (hamount request List.mem_cons_self) hrate.le))
        have hfill : (last - fill rate empty request.1 request.2) * rate =
            (last - max empty request.1) * rate - request.2 := by
          rw [fill, ← sub_sub, sub_mul, div_mul_cancel₀ _ hrate.ne']
        -- the bucket, if it is emptied from the first time on, is empty no later than with the request
        have hempty : (last - max empty request.1) * rate ≤ (last - max empty first) * rate :=
          mul_le_mul_of_nonneg_right (sub_le_sub_left (max_le_max_left _ hbegins) _) hrate.le
        have hlast : (request.1 - max empty request.1) * rate ≤ (last - max empty request.1) * rate :=
          mul_le_mul_of_nonneg_right (sub_le_sub_right hlate _) hrate.le
        rw [max_eq_left hafter, hfill] at hlater
        rw [level] at hroom
        rw [total_cons, if_pos ⟨hbegins, hlate⟩]
        refine le_max_of_le_right ?_
        rcases le_total (burst + ((last - max empty request.1) * rate - request.2)) 0 with hneg | hpos
        · rw [max_eq_left hneg] at hlater
          linarith
        · rw [max_eq_right hpos] at hlater
          linarith
    · exact ih hrest hrestBegun hrestAmount empty

/-- **The bound.** In any stretch of time no more is admitted than the bucket holds and what leaks meanwhile. -/
theorem total_admitted_le (hrate : 0 < rate) (hburst : 0 ≤ burst) (hle : first ≤ last)
    (hsorted : requests.Pairwise fun a b => a.1 ≤ b.1) (hamount : ∀ request ∈ requests, 0 ≤ request.2)
    (empty : 𝕜) : total first last (admitted rate burst empty requests) ≤ burst + rate * (last - first) := by
  have hleak : 0 ≤ rate * (last - first) := mul_nonneg hrate.le (sub_nonneg.mpr hle)
  induction requests generalizing empty with
  | nil => exact add_nonneg hburst hleak
  | cons request rest ih =>
    obtain ⟨hfirst, hrest⟩ := List.pairwise_cons.mp hsorted
    have hrestAmount := fun r hr => hamount r (List.mem_cons_of_mem _ hr)
    by_cases hbegins : first ≤ request.1
    · have hbegun : ∀ r ∈ request :: rest, first ≤ r.1 := by
        intro r hr
        rcases List.mem_cons.mp hr with rfl | hmem
        · exact hbegins
        · exact hbegins.trans (hfirst r hmem)
      refine (total_le_of_begun hrate hsorted hbegun hamount empty).trans (max_le (add_nonneg hburst hleak) ?_)
      have hempty : (last - max empty first) * rate ≤ (last - first) * rate :=
        mul_le_mul_of_nonneg_right (sub_le_sub_left (le_max_right _ _) _) hrate.le
      linarith
    · rw [admitted]
      split
      · rw [total_cons, if_neg fun h => hbegins h.1, zero_add]
        exact ih hrest hrestAmount _
      · exact ih hrest hrestAmount empty

end Setka.Lib.LeakyBucket
