/-
# Setka.Lib.OldestFirst — the first few entries of a list by a key.

`ORDER BY key LIMIT n` and a rank by the key say which entries come first, up to entries with equal keys.
Whoever picks `n` entries of which none comes after one that is left picks the same keys, and the same
entries where the keys are distinct.
-/
import Mathlib.Data.List.Sort

namespace Setka.Lib

variable {α β : Type} [LinearOrder β] {key : α → β} {l l' taken taken' : List α} {n : ℕ}

/-- **The oldest entries**: `n` of them, or all there are, and none comes after one that is left. -/
structure Oldest (key : α → β) (l : List α) (n : ℕ) (taken : List α) : Prop where
  among : taken.Subperm l
  length : taken.length = min n l.length
  first : ∀ a ∈ taken, ∀ b ∈ l, b ∉ taken → key a ≤ key b

namespace Oldest

/-- The order of the list, and of the entries taken, makes no difference. -/
theorem perm (h : Oldest key l n taken) (hl : l.Perm l') (htaken : taken.Perm taken') : Oldest key l' n taken' where
  among := (htaken.symm.subperm.trans h.among).trans hl.subperm
  length := by rw [← htaken.length_eq, h.length, hl.length_eq]
  first := fun a ha b hb hnot =>
    h.first a (htaken.mem_iff.mpr ha) b (hl.mem_iff.mpr hb) fun hin => hnot (htaken.mem_iff.mp hin)

/-- The first entries of a sorted list. -/
theorem of_sorted (hl : l'.Perm l) (hsorted : l'.Pairwise fun a b => key a ≤ key b) (n : ℕ) :
    Oldest key l n (l'.take n) where
  among := (List.take_sublist n l').subperm.trans hl.subperm
  length := by rw [List.length_take, hl.length_eq]
  first := by
    intro a ha b hb hnot
    have hb' : b ∈ l'.take n ++ l'.drop n := by
      rw [List.take_append_drop]
      exact hl.mem_iff.mpr hb
    rw [← List.take_append_drop n l'] at hsorted
    exact (List.pairwise_append.mp hsorted).2.2 a ha b ((List.mem_append.mp hb').resolve_left hnot)

/-- The keys of the oldest entries are the first of all keys. -/
theorem insertionSort_map (h : Oldest key l n taken) (hnodup : l.Nodup) :
    (taken.map key).insertionSort (· ≤ ·) = ((l.map key).insertionSort (· ≤ ·)).take n := by
  classical
  obtain ⟨rest, hrest⟩ : ∃ rest, (taken ++ rest).Perm l :=
    ⟨l.diff taken, List.subperm_append_diff_self_of_count_le fun a _ => h.among.count_le a⟩
  have hdisjoint : ∀ b ∈ rest, b ∉ taken := fun b hb hin =>
    (List.nodup_append.mp (hrest.nodup_iff.mpr hnodup)).2.2 b hin b hb rfl
  -- sorted parts, one behind the other, are the whole sorted
  have hsorted : ((taken.map key).insertionSort (· ≤ ·) ++
      (rest.map key).insertionSort (· ≤ ·)).Pairwise (· ≤ ·) := by
    refine List.pairwise_append.mpr ⟨List.pairwise_insertionSort _ _, List.pairwise_insertionSort _ _, ?_⟩
    intro x hx y hy
    obtain ⟨a, ha, rfl⟩ := List.mem_map.mp ((List.mem_insertionSort _).mp hx)
    obtain ⟨b, hb, rfl⟩ := List.mem_map.mp ((List.mem_insertionSort _).mp hy)
    exact h.first a ha b (hrest.mem_iff.mp (List.mem_append_right taken hb)) (hdisjoint b hb)
  have hperm : ((taken.map key).insertionSort (· ≤ ·) ++ (rest.map key).insertionSort (· ≤ ·)).Perm
      ((l.map key).insertionSort (· ≤ ·)) := by
    refine ((List.perm_insertionSort _ _).append (List.perm_insertionSort _ _)).trans ?_
    rw [← List.map_append]
    exact (hrest.map key).trans (List.perm_insertionSort _ _).symm
  have hwhole := hperm.eq_of_pairwise' hsorted (List.pairwise_insertionSort _ _)
  have hlength : ((taken.map key).insertionSort (· ≤ ·)).length = min n l.length := by
    rw [List.length_insertionSort, List.length_map, h.length]
  rw [← hwhole]
  by_cases hn : n ≤ l.length
  · exact (List.take_left' (by omega)).symm
  have hsum := hrest.length_eq
  rw [List.length_append, h.length] at hsum
  obtain rfl : rest = [] := List.eq_nil_of_length_eq_zero (by omega)
  rw [List.map_nil, List.insertionSort_nil, List.append_nil, List.take_of_length_le (by omega)]

/-- **Agreement up to ties**: two selections of the oldest entries have the same keys. -/
theorem perm_map (h : Oldest key l n taken) (h' : Oldest key l n taken') (hnodup : l.Nodup) :
    (taken.map key).Perm (taken'.map key) := by
  have heq := (h.insertionSort_map hnodup).trans (h'.insertionSort_map hnodup).symm
  exact (List.perm_insertionSort (· ≤ ·) _).symm.trans (heq ▸ List.perm_insertionSort (· ≤ ·) _)

/-- Where no two entries have the same key, there is one selection. -/
theorem mem_iff (h : Oldest key l n taken) (h' : Oldest key l n taken') (hnodup : l.Nodup)
    (hinj : ∀ a ∈ l, ∀ b ∈ l, key a = key b → a = b) {a : α} : a ∈ taken ↔ a ∈ taken' := by
  have hhalf : ∀ {t t' : List α}, Oldest key l n t → Oldest key l n t' → a ∈ t → a ∈ t' := by
    intro t t' ht ht' ha
    have hkey := (ht.perm_map ht' hnodup).mem_iff.mp (List.mem_map_of_mem ha)
    obtain ⟨b, hb, heq⟩ := List.mem_map.mp hkey
    rw [← hinj b (ht'.among.subset hb) a (ht.among.subset ha) heq]
    exact hb
  exact ⟨hhalf h h', hhalf h' h⟩

end Oldest

/-- Where no two entries have the same key, the first entries are those up to the last of them. -/
theorem mem_take_iff_le (hl : l.Pairwise fun a b => key a < key b) {last : α}
    (hlast : (l.take n).getLast? = some last) {a : α} : a ∈ l.take n ↔ a ∈ l ∧ key a ≤ key last := by
  have hlastMem : last ∈ l.take n := List.mem_of_getLast? hlast
  have hsplit := hl
  rw [← List.take_append_drop n l, List.pairwise_append] at hsplit
  constructor
  · intro ha
    refine ⟨List.mem_of_mem_take ha, ?_⟩
    obtain ⟨front, hfront⟩ := List.getLast?_eq_some_iff.mp hlast
    have hsorted := hsplit.1
    rw [hfront, List.pairwise_append] at hsorted
    rw [hfront] at ha
    rcases List.mem_append.mp ha with ha | ha
    · exact le_of_lt (hsorted.2.2 a ha last (List.mem_singleton.mpr rfl))
    · rw [List.mem_singleton.mp ha]
  · rintro ⟨ha, hle⟩
    rw [← List.take_append_drop n l] at ha
    refine (List.mem_append.mp ha).resolve_right fun hdrop => ?_
    exact absurd hle (not_le.mpr (hsplit.2.2 last hlastMem a hdrop))

/-- `ROW_NUMBER()`: the first `n` entries are those with a rank up to `n`. -/
theorem mem_take_iff_rank {a : α} : a ∈ l.take n ↔ ∃ r, (a, r) ∈ l.zipIdx 1 ∧ r ≤ n := by
  constructor
  · intro ha
    obtain ⟨i, hi⟩ := List.getElem?_of_mem ha
    have hlt : i < n := by
      by_contra hle
      rw [List.getElem?_take_eq_none (by omega)] at hi
      cases hi
    rw [List.getElem?_take_of_lt hlt] at hi
    refine ⟨1 + i, List.mem_iff_getElem?.mpr ⟨i, ?_⟩, by omega⟩
    rw [List.getElem?_zipIdx, hi, Option.map_some]
  · rintro ⟨r, hr, hle⟩
    obtain ⟨i, hi⟩ := List.getElem?_of_mem hr
    rw [List.getElem?_zipIdx, Option.map_eq_some_iff] at hi
    obtain ⟨b, hb, heq⟩ := hi
    obtain ⟨rfl, rfl⟩ := Prod.mk.inj heq
    refine List.mem_iff_getElem?.mpr ⟨i, ?_⟩
    rw [List.getElem?_take_of_lt (by omega)]
    exact hb

/-- A database sorts rows by a key in some way where keys are equal. -/
structure TieBreak where
  sort : {α : Type} → (α → ℤ) → List α → List α
  perm : ∀ {α : Type} (key : α → ℤ) (l : List α), (sort key l).Perm l
  sorted : ∀ {α : Type} (key : α → ℤ) (l : List α), (sort key l).Pairwise fun a b => key a ≤ key b

/-- The order in which the rows come. -/
def TieBreak.stable : TieBreak where
  sort key l := l.insertionSort fun a b => key a ≤ key b
  perm _ l := List.perm_insertionSort _ l
  sorted key l := by
    have htotal : Std.Total fun a b => key a ≤ key b := ⟨fun a b => le_total (key a) (key b)⟩
    have htrans : IsTrans _ fun a b => key a ≤ key b := ⟨fun _ _ _ => le_trans⟩
    exact List.pairwise_insertionSort _ l

end Setka.Lib
