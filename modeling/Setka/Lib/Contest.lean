/-
# Setka.Lib.Contest — one place, and newcomers that take it or do not.

A store holds one value in a place. Each newcomer is compared with the holder, and a pairwise test says
whether it takes over. Values also have a rank, the lower the better. When the test is exactly "the
newcomer has the lower rank", the place ends with one of the best. Here the test may let in more than
that: it is known to let in a better one and to refuse one of the same rank. What the place then holds in
the end is among the best exactly when one of the best came after which no other took over.
-/
import Mathlib.Data.List.Induction
import Mathlib.Order.Lattice

namespace Setka.Lib

variable {α β : Type}

/-- The holder of the place after a newcomer. -/
def contest (replaces : α → α → Bool) (holder : Option α) (new : α) : Option α :=
  match holder with
  | none => some new
  | some current => if replaces current new then some new else some current

/-- The test lets in what is better, refuses what is of the same rank, and looks at the rank of the holder
only. -/
structure Favours [LinearOrder β] (replaces : α → α → Bool) (rank : α → β) : Prop where
  better : ∀ current new, rank new < rank current → replaces current new = true
  equal : ∀ current new, rank new = rank current → replaces current new = false
  holder : ∀ a b new, rank a = rank b → replaces a new = replaces b new

/-- One of the best of `l` came, and nothing after it takes its place. -/
def BestStays [LinearOrder β] (replaces : α → α → Bool) (rank : α → β) (l : List α) : Prop :=
  ∃ before best after, l = before ++ best :: after ∧ (∀ a ∈ l, rank best ≤ rank a) ∧
    ∀ a ∈ after, replaces best a = false

namespace Favours

variable {replaces : α → α → Bool}

variable {l : List α}

/-- The holder came at some point, and nothing after it took its place. -/
theorem exists_of_contest {a : α} (h : l.foldl (contest replaces) none = some a) :
    ∃ before after, l = before ++ a :: after ∧ ∀ b ∈ after, replaces a b = false := by
  induction l using List.reverseRecOn generalizing a with
  | nil => cases h
  | append_singleton l new ih =>
    rw [List.foldl_append, List.foldl_cons, List.foldl_nil] at h
    cases hl : l.foldl (contest replaces) none with
    | none =>
      rw [hl] at h
      obtain rfl : new = a := Option.some.inj h
      exact ⟨l, [], rfl, by simp⟩
    | some current =>
      rw [hl] at h
      simp only [contest] at h
      split at h
      · obtain rfl : new = a := Option.some.inj h
        exact ⟨l, [], rfl, by simp⟩
      next hkeep =>
        obtain rfl : current = a := Option.some.inj h
        obtain ⟨before, after, rfl, hafter⟩ := ih hl
        refine ⟨before, after ++ [new], by simp, ?_⟩
        intro b hb
        rcases List.mem_append.mp hb with hb | hb
        · exact hafter b hb
        · rw [List.mem_singleton.mp hb]
          exact Bool.eq_false_iff.mpr hkeep

variable [LinearOrder β] {rank : α → β}

/-- A holder of some rank stays at that rank while nothing comes that takes the place of its like. -/
theorem contest_of_rank_eq (h : Favours replaces rank) {best current : α} (hrank : rank current = rank best)
    (hl : ∀ a ∈ l, replaces best a = false) : l.foldl (contest replaces) (some current) = some current := by
  induction l with
  | nil => rfl
  | cons new l ih =>
    have hkeep : replaces current new = false :=
      (h.holder current best new hrank).trans (hl new List.mem_cons_self)
    rw [List.foldl_cons]
    simp only [contest, hkeep, Bool.false_eq_true, if_false]
    exact ih fun a ha => hl a (List.mem_cons_of_mem new ha)

/-- **The place ends with one of the best exactly when one of the best stays.** -/
theorem contest_best_iff (h : Favours replaces rank) (l : List α) :
    (∃ a, l.foldl (contest replaces) none = some a ∧ ∀ b ∈ l, rank a ≤ rank b) ↔
      BestStays replaces rank l := by
  constructor
  · rintro ⟨a, ha, hbest⟩
    obtain ⟨before, after, hl, hafter⟩ := exists_of_contest ha
    exact ⟨before, a, after, hl, hbest, hafter⟩
  rintro ⟨before, best, after, rfl, hbest, hafter⟩
  -- what holds the place once `best` came has its rank
  obtain ⟨current, hcurrent, hrank⟩ : ∃ current,
      contest replaces (before.foldl (contest replaces) none) best = some current ∧
        rank current = rank best := by
    cases hbefore : before.foldl (contest replaces) none with
    | none => exact ⟨best, rfl, rfl⟩
    | some holder =>
      obtain ⟨l₁, l₂, rfl, _⟩ := exists_of_contest hbefore
      have hle : rank best ≤ rank holder := hbest holder (by simp)
      rcases hle.lt_or_eq with hlt | heq
      · exact ⟨best, by simp [contest, h.better holder best hlt], rfl⟩
      · exact ⟨holder, by simp [contest, h.equal holder best heq], heq.symm⟩
  refine ⟨current, ?_, fun b hb => hrank ▸ hbest b hb⟩
  rw [List.foldl_append, List.foldl_cons, hcurrent]
  exact h.contest_of_rank_eq hrank hafter

/-- Two orders of the same values leave values of the same rank, if in each one of the best stays. -/
theorem rank_eq_of_bestStays (h : Favours replaces rank) {l' : List α} (hmem : ∀ a, a ∈ l ↔ a ∈ l')
    (hl : BestStays replaces rank l) (hl' : BestStays replaces rank l') {a b : α}
    (ha : l.foldl (contest replaces) none = some a)
    (hb : l'.foldl (contest replaces) none = some b) : rank a = rank b := by
  obtain ⟨a', ha', hbest⟩ := (h.contest_best_iff l).mpr hl
  obtain ⟨b', hb', hbest'⟩ := (h.contest_best_iff l').mpr hl'
  obtain rfl : a' = a := Option.some.inj (ha'.symm.trans ha)
  obtain rfl : b' = b := Option.some.inj (hb'.symm.trans hb)
  obtain ⟨_, _, hsplit, _⟩ := exists_of_contest ha
  obtain ⟨_, _, hsplit', _⟩ := exists_of_contest hb
  have hin : a' ∈ l := by simp [hsplit]
  have hin' : b' ∈ l' := by simp [hsplit']
  exact le_antisymm (hbest b' ((hmem b').mpr hin')) (hbest' a' ((hmem a').mp hin))

end Favours

end Setka.Lib
