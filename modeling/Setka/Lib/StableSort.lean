/-
# Setka.Lib.StableSort — where a stable sort puts an element.

Before an element come those in front of it that do not exceed it, and those behind it that it exceeds. Their number
says whether it is among the first few of the sorted list, whatever the others are.
-/
import Mathlib.Data.List.Sort

namespace Setka.Lib.StableSort

variable {α : Type} {r : α → α → Prop} [DecidableRel r]

/-- How many elements a stable sort puts before an element, with the elements in front of it and behind it. -/
def rank (r : α → α → Prop) [DecidableRel r] (front : List α) (a : α) (behind : List α) : ℕ :=
  front.countP (fun b => r b a) + behind.countP (fun b => ¬r a b)

section Order

variable [IsTrans α r]

/-- An element goes behind those that it exceeds. -/
theorem orderedInsert_eq {l : List α} (hsorted : l.Pairwise r) (a : α) :
    ∃ before after, l.orderedInsert r a = before ++ a :: after ∧ before.length = l.countP fun b => ¬r a b := by
  refine ⟨l.takeWhile fun b => ¬r a b, l.dropWhile fun b => ¬r a b, ?_, ?_⟩
  · rw [List.orderedInsert_eq_take_drop]
  induction l with
  | nil => rfl
  | cons b l ih =>
    rw [List.pairwise_cons] at hsorted
    by_cases hab : r a b
    · -- nothing behind `b` is exceeded either
      have hnone : (b :: l).countP (fun b => ¬r a b) = 0 := by
        refine List.countP_eq_zero.mpr (List.forall_mem_cons.mpr ⟨by simpa using hab, fun c hc => ?_⟩)
        simpa using trans_of r hab (hsorted.1 c hc)
      rw [hnone, List.takeWhile_cons_of_neg (by simpa using hab)]
      rfl
    · rw [List.takeWhile_cons_of_pos (by simpa using hab), List.countP_cons_of_pos (by simpa using hab),
        List.length_cons, ih hsorted.2]

/-- An element that does not exceed a member of a sorted list goes before it, any other behind it. -/
theorem orderedInsert_append_cons {before after : List α} {a : α} (hsorted : (before ++ a :: after).Pairwise r)
    (c : α) :
    ∃ before' after', (before ++ a :: after).orderedInsert r c = before' ++ a :: after' ∧
      before'.length = before.length + if r c a then 1 else 0 := by
  induction before with
  | nil =>
    by_cases hca : r c a
    · exact ⟨[c], after, by rw [List.nil_append, List.orderedInsert_cons_of_le _ _ hca]; rfl, by simp [hca]⟩
    · exact ⟨[], after.orderedInsert r c, by
        rw [List.nil_append, List.orderedInsert_of_not_le _ _ hca]; rfl, by simp [hca]⟩
  | cons b before ih =>
    rw [List.cons_append, List.pairwise_cons] at hsorted
    by_cases hcb : r c b
    · have hca : r c a := trans_of r hcb (hsorted.1 a (by simp))
      refine ⟨c :: b :: before, after, ?_, ?_⟩
      · rw [List.cons_append, List.orderedInsert_cons_of_le _ _ hcb]
        rfl
      · rw [if_pos hca, List.length_cons]
    · obtain ⟨before', after', heq, hlength⟩ := ih hsorted.2
      refine ⟨b :: before', after', ?_, ?_⟩
      · rw [List.cons_append, List.orderedInsert_of_not_le _ _ hcb, heq]
        rfl
      · rw [List.length_cons, hlength, List.length_cons]
        omega

variable [Std.Total r]

/-- **The place of an element in a sorted list** is its rank. -/
theorem insertionSort_append_cons (front : List α) (a : α) (behind : List α) :
    ∃ before after, (front ++ a :: behind).insertionSort r = before ++ a :: after ∧
      before.length = rank r front a behind := by
  induction front with
  | nil =>
    obtain ⟨before, after, heq, hlength⟩ := orderedInsert_eq (List.pairwise_insertionSort r behind) a
    refine ⟨before, after, heq, ?_⟩
    rw [hlength, (List.perm_insertionSort r behind).countP_eq]
    simp [rank]
  | cons c front ih =>
    obtain ⟨before, after, heq, hlength⟩ := ih
    have hsorted := List.pairwise_insertionSort r (front ++ a :: behind)
    rw [heq] at hsorted
    obtain ⟨before', after', heq', hlength'⟩ := orderedInsert_append_cons hsorted c
    refine ⟨before', after', ?_, ?_⟩
    · rw [List.cons_append, List.insertionSort_cons, heq, heq']
    rw [hlength', hlength]
    unfold rank
    rw [List.countP_cons]
    simp only [decide_eq_true_eq]
    omega

/-- **Which elements are among the first**: those of a small rank. -/
theorem mem_take_insertionSort {front behind : List α} {a : α} (hnodup : (front ++ a :: behind).Nodup) (n : ℕ) :
    a ∈ ((front ++ a :: behind).insertionSort r).take n ↔ rank r front a behind < n := by
  obtain ⟨before, after, heq, hlength⟩ := @insertionSort_append_cons _ r _ _ _ front a behind
  have hsorted := (List.perm_insertionSort r (front ++ a :: behind)).nodup_iff.mpr hnodup
  rw [heq] at hsorted ⊢
  have hbefore : a ∉ before := fun hmem =>
    (List.nodup_append.mp hsorted).2.2 a hmem a List.mem_cons_self rfl
  rw [List.take_append, List.mem_append, ← hlength]
  constructor
  · intro hmem
    obtain hmem | hmem := hmem
    · exact absurd (List.mem_of_mem_take hmem) hbefore
    by_contra hle
    rw [Nat.sub_eq_zero_of_le (Nat.le_of_not_lt hle)] at hmem
    cases hmem
  · intro hlt
    obtain ⟨k, hk⟩ := Nat.exists_eq_succ_of_ne_zero (Nat.sub_ne_zero_of_lt hlt)
    rw [hk, List.take_succ_cons]
    exact Or.inr List.mem_cons_self

end Order

end Setka.Lib.StableSort
