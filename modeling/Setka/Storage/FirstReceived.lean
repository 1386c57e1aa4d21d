/-
# Setka.Storage.FirstReceived — the first event received at a time or later.

There is no index on the time, so the stream ordering is searched for by halving, on the grounds that both are in
the same order. A gap counts as the row in front of it. In front of the first event from zero on that is a
backfilled one, whose ordering is negative and whose time may be any.
-/
import Setka.Lib.Bisect

namespace Setka.Storage.FirstReceived

open Setka.Lib

/-- A row of `events`. Whatever inserts one gives it a time. -/
structure EventRow where
  streamOrdering : ℤ
  receivedTs : ℤ

/-- The query for the row at a position, or the last one in front of it. -/
def rowAt (events : List EventRow) (middle : ℤ) : Option EventRow :=
  (events.filter fun row => row.streamOrdering ≤ middle).maxOn? EventRow.streamOrdering

/-- Whether the search goes on above a position. -/
def isBefore (events : List EventRow) (ts middle : ℤ) : Bool :=
  match rowAt events middle with
  | none => true
  | some row => ts > row.receivedTs

/-- `_find_first_stream_ordering_after_ts_txn`. -/
def findFirstStreamOrderingAfterTsTxn (events : List EventRow) (ts : ℤ) : ℤ :=
  match (events.maxOn? EventRow.streamOrdering).map EventRow.streamOrdering with
  | none => 0
  | some maxStreamOrdering => bisect (isBefore events ts) 0 (maxStreamOrdering + 1)

/-- The times of the events from zero on are in the order of the events. -/
def Ordered (events : List EventRow) : Prop :=
  ∀ row ∈ events, ∀ row' ∈ events, 0 ≤ row.streamOrdering → row.streamOrdering ≤ row'.streamOrdering →
    row.receivedTs ≤ row'.receivedTs

/-- **What is searched for**: the events from zero on that are below `r` were received before the time, and the
others then or later. -/
def Splits (events : List EventRow) (ts r : ℤ) : Prop :=
  ∀ row ∈ events, 0 ≤ row.streamOrdering →
    (row.streamOrdering < r → row.receivedTs < ts) ∧ (r ≤ row.streamOrdering → ts ≤ row.receivedTs)

/-- **The condition.** Halving the end comes upon a position that is before the time; or no event from zero on was
received before the time. -/
def Shielded (events : List EventRow) (ts : ℤ) : Prop :=
  (∃ top, ∃ j : ℕ, events.maxOn? EventRow.streamOrdering = some top ∧
    isBefore events ts ((top.streamOrdering + 1) / 2 ^ (j + 1)) = true) ∨
  ∀ row ∈ events, 0 ≤ row.streamOrdering → ts ≤ row.receivedTs

variable {events : List EventRow} {ts m r : ℤ} {row : EventRow}

theorem le_of_maxOn? (h : events.maxOn? EventRow.streamOrdering = some row) {row' : EventRow} (hrow' : row' ∈ events) :
    row'.streamOrdering ≤ row.streamOrdering := by
  have hle := List.le_apply_get_maxOn?_of_mem (f := EventRow.streamOrdering) hrow'
  simpa only [h, Option.get_some] using hle

theorem maxOn?_eq_none : events.maxOn? EventRow.streamOrdering = none ↔ events = [] :=
  not_iff_not.mp (Option.isSome_iff_ne_none.symm.trans List.isSome_maxOn?_iff)

theorem rowAt_some (h : rowAt events m = some row) : row ∈ events ∧ row.streamOrdering ≤ m ∧
    ∀ row' ∈ events, row'.streamOrdering ≤ m → row'.streamOrdering ≤ row.streamOrdering := by
  obtain ⟨hmem, hle⟩ := List.mem_filter.mp (List.maxOn?_mem h)
  exact ⟨hmem, of_decide_eq_true hle, fun row' hrow' hle' =>
    le_of_maxOn? h (List.mem_filter.mpr ⟨hrow', decide_eq_true hle'⟩)⟩

/-- There is an event from zero on at a position or in front of it, or the position reads the last backfilled row. -/
theorem rowAt_cases (events : List EventRow) (hm : 0 ≤ m) :
    (∃ row, rowAt events m = some row ∧ 0 ≤ row.streamOrdering) ∨
      rowAt events m = rowAt events (-1) ∧ ∀ row ∈ events, row.streamOrdering ≤ m → row.streamOrdering < 0 := by
  by_cases hlow : ∀ row ∈ events, row.streamOrdering ≤ m → row.streamOrdering < 0
  · refine Or.inr ⟨congrArg (List.maxOn? EventRow.streamOrdering) (List.filter_congr fun row hrow => ?_), hlow⟩
    rw [decide_eq_decide]
    exact ⟨fun hle => by have := hlow row hrow hle; omega, fun hle => by omega⟩
  push Not at hlow
  obtain ⟨row, hrow, hle, hpos⟩ := hlow
  cases hat : rowAt events m with
  | none =>
    have hnil := maxOn?_eq_none.mp hat
    exact absurd (List.mem_filter.mpr ⟨hrow, decide_eq_true hle⟩) (hnil ▸ List.not_mem_nil)
  | some last => exact Or.inl ⟨last, rfl, hpos.trans ((rowAt_some hat).2.2 row hrow hle)⟩

theorem isBefore_iff (h : rowAt events m = some row) : isBefore events ts m = true ↔ row.receivedTs < ts := by
  rw [isBefore, h]
  exact decide_eq_true_iff

/-- From a position on that is before the time, the search has what it needs. -/
theorem Ordered.searchable (h : Ordered events) {lo : ℤ} (hlo : 0 ≤ lo) (hbefore : isBefore events ts lo = true) :
    Bisect.Searchable (isBefore events ts) lo := by
  intro m n hm hmn htrue
  rcases rowAt_cases events (hlo.trans hm) with ⟨row, hrow, hpos⟩ | ⟨hlowest, hnone⟩
  · obtain ⟨hmem, hle, -⟩ := rowAt_some hrow
    rcases rowAt_cases events ((hlo.trans hm).trans hmn) with ⟨row', hrow', -⟩ | ⟨-, hnone⟩
    · obtain ⟨hmem', -, hlast⟩ := rowAt_some hrow'
      have hordered := h row hmem row' hmem' hpos (hlast row hmem (hle.trans hmn))
      exact (isBefore_iff hrow).mpr (hordered.trans_lt ((isBefore_iff hrow').mp htrue))
    · exact absurd (hnone row hmem (hle.trans hmn)) (not_lt.mpr hpos)
  · -- both positions read the last backfilled row
    rcases rowAt_cases events hlo with ⟨row, hrow, hpos⟩ | ⟨hlowest', -⟩
    · obtain ⟨hmem, hle, -⟩ := rowAt_some hrow
      exact absurd (hnone row hmem (hle.trans hm)) (not_lt.mpr hpos)
    · rw [isBefore, hlowest, ← hlowest']
      exact hbefore

/-- An event from zero on is the row at its position. -/
theorem Ordered.isBefore_iff (h : Ordered events) (hrow : row ∈ events) (hpos : 0 ≤ row.streamOrdering) :
    isBefore events ts row.streamOrdering = true ↔ row.receivedTs < ts := by
  rcases rowAt_cases events hpos with ⟨row', hrow', hpos'⟩ | ⟨-, hnone⟩
  · obtain ⟨hmem', hle, hlast⟩ := rowAt_some hrow'
    rw [FirstReceived.isBefore_iff hrow', le_antisymm (h row' hmem' row hrow hpos' hle)
      (h row hrow row' hmem' hpos (hlast row hrow le_rfl))]
  · exact absurd (hnone row hrow le_rfl) (not_lt.mpr hpos)

/-- **The search finds its target exactly under the condition.** -/
theorem findFirst_splits_iff (h : Ordered events) :
    Splits events ts (findFirstStreamOrderingAfterTsTxn events ts) ↔ Shielded events ts := by
  unfold findFirstStreamOrderingAfterTsTxn Shielded
  cases htop : events.maxOn? EventRow.streamOrdering with
  | none =>
    rw [maxOn?_eq_none.mp htop]
    exact iff_of_true (fun row hrow => absurd hrow List.not_mem_nil)
      (Or.inr fun row hrow => absurd hrow List.not_mem_nil)
  | some top =>
    have hlast : ∀ row ∈ events, row.streamOrdering < top.streamOrdering + 1 := fun row hrow =>
      Int.lt_add_one_of_le (le_of_maxOn? htop hrow)
    dsimp only [Option.map_some]
    by_cases hneg : top.streamOrdering + 1 ≤ 0
    · -- there is no event from zero on
      have hnone : ∀ row ∈ events, ¬0 ≤ row.streamOrdering := fun row hrow hpos => by have := hlast row hrow; omega
      exact iff_of_true (fun row hrow hpos => absurd hpos (hnone row hrow))
        (Or.inr fun row hrow hpos => absurd hpos (hnone row hrow))
    by_cases hhalf : ∃ j : ℕ, isBefore events ts ((top.streamOrdering + 1) / 2 ^ (j + 1)) = true
    · -- from that position on the search has what it needs
      obtain ⟨j, hj⟩ := hhalf
      refine iff_of_true (fun row hrow hpos => ?_) (Or.inl ⟨top, j, rfl, hj⟩)
      have hlo : 0 ≤ (top.streamOrdering + 1) / 2 ^ (j + 1) :=
        Int.ediv_nonneg (not_le.mp hneg).le (pow_nonneg (by decide) _)
      obtain ⟨hfound, -⟩ := Bisect.found_of_half (h.searchable hlo hj) (not_le.mp hneg) hj
      by_cases hbelow : row.streamOrdering < (top.streamOrdering + 1) / 2 ^ (j + 1)
      · refine ⟨fun _ => ?_, fun hge => absurd (hfound.ge.trans hge) (not_le.mpr hbelow)⟩
        rcases rowAt_cases events hlo with ⟨row', hrow', -⟩ | ⟨-, hnone⟩
        · obtain ⟨hmem', -, hbetween⟩ := rowAt_some hrow'
          exact (h row hrow row' hmem' hpos (hbetween row hrow hbelow.le)).trans_lt ((isBefore_iff hrow').mp hj)
        · exact absurd (hnone row hrow hbelow.le) (not_lt.mpr hpos)
      · rw [← not_lt, ← not_lt, ← hfound.iff _ (not_lt.mp hbelow) (hlast row hrow), h.isBefore_iff hrow hpos]
        exact ⟨id, id⟩
    · -- the search ends at zero
      have hnever : ∀ j : ℕ, isBefore events ts ((top.streamOrdering + 1) / 2 ^ (j + 1)) = false := fun j =>
        Bool.eq_false_iff.mpr fun htrue => hhalf ⟨j, htrue⟩
      rw [Bisect.bisect_of_halves (not_le.mp hneg).le hnever]
      constructor
      · exact fun hsplits => Or.inr fun row hrow hpos => (hsplits row hrow hpos).2 hpos
      rintro (⟨_, j, htop', hj⟩ | hlate) row hrow hpos
      · cases htop'
        exact absurd ⟨j, hj⟩ hhalf
      · exact ⟨fun hlt => absurd hpos (not_le.mpr hlt), fun _ => hlate row hrow hpos⟩

/-- Two events and one that was backfilled later. -/
def backfilled : List EventRow := [⟨10, 100⟩, ⟨11, 200⟩, ⟨-1, 1000⟩]

theorem findFirst_splits_iff_backfilled : Splits backfilled 1001 (findFirstStreamOrderingAfterTsTxn backfilled 1001) :=
  (findFirst_splits_iff (show ∀ row ∈ backfilled, ∀ row' ∈ backfilled, _ from by decide)).mpr
    (Or.inl ⟨⟨11, 200⟩, 0, rfl, by decide⟩)

/-- The search looks at position 6, sees the backfilled event, and never comes to the event at 10. -/
theorem backfilled_misleads : Ordered backfilled ∧
    ¬Splits backfilled 150 (findFirstStreamOrderingAfterTsTxn backfilled 150) := by
  refine ⟨show ∀ row ∈ backfilled, ∀ row' ∈ backfilled, _ from by decide, fun h => ?_⟩
  have hfound : findFirstStreamOrderingAfterTsTxn backfilled 150 = 0 := by
    show bisect (isBefore backfilled 150) 0 12 = 0
    have hlow : ∀ m ∈ [6, 3, 1, 0], isBefore backfilled 150 m = false := by decide
    simp [bisect, hlow]
  rw [hfound] at h
  exact absurd ((h ⟨10, 100⟩ (by simp [backfilled]) (by decide)).2 (by decide)) (by decide)

end Setka.Storage.FirstReceived
