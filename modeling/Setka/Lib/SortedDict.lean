/-
# Setka.Lib.SortedDict — dictionaries that are read in the order of their keys.

A sorted dictionary stores what any dictionary stores; only its first and last keys and its slices look
at the order. So it is a `Dict`, and the order comes in when it is read.
-/
import Setka.Lib.Dict
import Mathlib.Data.List.Sort

namespace Setka.Lib.Dict

variable {κ ν : Type} [LinearOrder κ]

/-- The keys in increasing order. -/
def sortedKeys (d : Dict κ ν) : List κ := d.keys.insertionSort (· ≤ ·)

variable {d : Dict κ ν} {k : κ}

@[simp] theorem mem_sortedKeys : k ∈ d.sortedKeys ↔ k ∈ d.keys :=
  List.mem_insertionSort _

/-- The first key, and the last. -/
def firstKey? (d : Dict κ ν) : Option κ := d.sortedKeys.head?

def lastKey? (d : Dict κ ν) : Option κ := d.sortedKeys.getLast?

/-- The keys behind `k`. -/
def keysAfter (d : Dict κ ν) (k : κ) : List κ := d.sortedKeys.dropWhile fun a => a ≤ k

theorem lastKey?_eq_none_iff : d.lastKey? = none ↔ d.items = [] := by
  unfold lastKey? sortedKeys keys
  rw [List.getLast?_eq_none_iff, ← List.length_eq_zero_iff, List.length_insertionSort,
    List.length_map, List.length_eq_zero_iff]

variable {a : κ}

/-- No key is behind the last. -/
theorem le_lastKey? (h : d.lastKey? = some k) (ha : a ∈ d.keys) : a ≤ k := by
  obtain ⟨front, hfront⟩ := List.getLast?_eq_some_iff.mp h
  have hsorted : d.sortedKeys.Pairwise (· ≤ ·) := List.pairwise_insertionSort _ _
  rw [hfront, List.pairwise_append] at hsorted
  have hmem : a ∈ front ++ [k] := hfront ▸ mem_sortedKeys.mpr ha
  rcases List.mem_append.mp hmem with hfrontMem | hlast
  · exact hsorted.2.2 a hfrontMem k (List.mem_singleton_self k)
  · exact le_of_eq (List.mem_singleton.mp hlast)

theorem mem_keysAfter : a ∈ d.keysAfter k ↔ a ∈ d.keys ∧ k < a := by
  have hsorted : d.sortedKeys.Pairwise (· ≤ ·) := List.pairwise_insertionSort _ _
  have hdrop : ∀ l : List κ, l.Pairwise (· ≤ ·) → (a ∈ l.dropWhile (fun b => b ≤ k) ↔ a ∈ l ∧ k < a) := by
    intro l hl
    induction l with
    | nil => simp
    | cons b l ih =>
      rw [List.pairwise_cons] at hl
      by_cases hb : b ≤ k
      · rw [List.dropWhile_cons_of_pos (by simpa using hb), ih hl.2, List.mem_cons]
        constructor
        · rintro ⟨hmem, hlt⟩
          exact ⟨Or.inr hmem, hlt⟩
        rintro ⟨rfl | hmem, hlt⟩
        · exact absurd hlt (not_lt.mpr hb)
        · exact ⟨hmem, hlt⟩
      · rw [List.dropWhile_cons_of_neg (by simpa using hb)]
        refine ⟨fun hmem => ⟨hmem, ?_⟩, And.left⟩
        -- the keys are sorted: all of them are behind `b`
        rcases List.mem_cons.mp hmem with rfl | hmem
        · exact not_le.mp hb
        · exact lt_of_lt_of_le (not_le.mp hb) (hl.1 a hmem)
  rw [← mem_sortedKeys (d := d)]
  exact hdrop _ hsorted

/-! ## Slices -/

/-- The items in the order of their keys. -/
def sortedItems (d : Dict κ ν) : List (κ × ν) :=
  d.sortedKeys.filterMap fun k => (d.get? k).map fun v => (k, v)

/-- `d.bisect_left(k)` and `d.bisect_right(k)`: how many keys are below `k`, and how many at most
`k`. -/
def bisectLeft (d : Dict κ ν) (k : κ) : ℕ := d.sortedItems.countP fun e => e.1 < k

def bisectRight (d : Dict κ ν) (k : κ) : ℕ := d.sortedItems.countP fun e => e.1 ≤ k

/-- `l[i:j]`. -/
def slice {α : Type} (l : List α) (i j : ℕ) : List α := (l.take j).drop i

theorem mem_sortedItems {e : κ × ν} : e ∈ d.sortedItems ↔ d.get? e.1 = some e.2 := by
  obtain ⟨k, v⟩ := e
  rw [sortedItems, List.mem_filterMap]
  constructor
  · rintro ⟨a, _, ha⟩
    obtain ⟨w, hw, heq⟩ := Option.map_eq_some_iff.mp ha
    cases heq
    exact hw
  · intro h
    exact ⟨k, mem_sortedKeys.mpr (mem_keys_iff.mpr ⟨v, h⟩), Option.map_eq_some_iff.mpr ⟨v, h, rfl⟩⟩

/-- Keys increase strictly along the sorted items. -/
theorem pairwise_sortedItems (d : Dict κ ν) : d.sortedItems.Pairwise fun a b => a.1 < b.1 := by
  have hle : d.sortedKeys.Pairwise (· ≤ ·) := List.pairwise_insertionSort _ _
  have hnodup : d.sortedKeys.Nodup := (List.perm_insertionSort _ _).nodup_iff.mpr d.nodup
  have hlt : d.sortedKeys.Pairwise (· < ·) :=
    hle.imp₂ (fun _ _ h hne => lt_of_le_of_ne h hne) hnodup
  refine List.Pairwise.filterMap _ ?_ hlt
  intro a b hab e he f hf
  obtain ⟨v, _, rfl⟩ := Option.map_eq_some_iff.mp he
  obtain ⟨w, _, rfl⟩ := Option.map_eq_some_iff.mp hf
  exact hab

/-- A list with increasing keys that has just the items of a dictionary is its sorted items. -/
theorem sortedItems_eq {l : List (κ × ν)} (hl : l.Pairwise fun a b => a.1 < b.1)
    (hmem : ∀ e, e ∈ l ↔ d.get? e.1 = some e.2) : d.sortedItems = l := by
  have hd := pairwise_sortedItems d
  have hne : ∀ {m : List (κ × ν)}, m.Pairwise (fun a b => a.1 < b.1) → m.Nodup := by
    intro m hm
    refine hm.imp ?_
    rintro a b hab rfl
    exact lt_irrefl _ hab
  have hperm : d.sortedItems.Perm l := by
    rw [List.perm_ext_iff_of_nodup (hne hd) (hne hl)]
    intro e
    rw [mem_sortedItems, hmem]
  refine hperm.eq_of_pairwise ?_ hd hl
  intro a b _ _ hab hba
  exact absurd hba (lt_asymm hab)

/-- In a sorted list the keys below a bound come first. -/
theorem take_countP {l : List (κ × ν)} (hl : l.Pairwise fun a b => a.1 < b.1) {p : κ → Bool}
    (hp : ∀ a b, a < b → p b = true → p a = true) :
    l.take (l.countP fun e => p e.1) = l.filter (fun e => p e.1) ∧
      l.drop (l.countP fun e => p e.1) = l.filter fun e => !p e.1 := by
  induction l with
  | nil => exact ⟨rfl, rfl⟩
  | cons e l ih =>
    rw [List.pairwise_cons] at hl
    obtain ⟨htake, hdrop⟩ := ih hl.2
    cases he : p e.1 with
    | true =>
      rw [List.countP_cons_of_pos (p := fun e : κ × ν => p e.1) he,
        List.filter_cons_of_pos (p := fun e : κ × ν => p e.1) he,
        List.filter_cons_of_neg (by simp [he]), List.take_succ_cons, List.drop_succ_cons]
      exact ⟨by rw [htake], hdrop⟩
    | false =>
      -- behind the first key out of bounds there is none within
      have hall : ∀ f ∈ e :: l, p f.1 = false := by
        intro f hf
        rcases List.mem_cons.mp hf with rfl | hf
        · exact he
        by_contra hpf
        rw [hp _ _ (hl.1 f hf) (by simpa using hpf)] at he
        cases he
      have hzero : (e :: l).countP (fun e => p e.1) = 0 :=
        List.countP_eq_zero.mpr fun f hf => by simp [hall f hf]
      rw [hzero, List.take_zero, List.drop_zero]
      exact ⟨(List.filter_eq_nil_iff.mpr fun f hf => by simp [hall f hf]).symm,
        (List.filter_eq_self.mpr fun f hf => by simp [hall f hf]).symm⟩

theorem slice_bisectLeft (d : Dict κ ν) (k : κ) :
    slice d.sortedItems 0 (d.bisectLeft k) = d.sortedItems.filter fun e => e.1 < k := by
  refine (take_countP d.pairwise_sortedItems (p := fun a => decide (a < k)) ?_).1
  intro a b hab hb
  exact decide_eq_true (lt_trans hab (of_decide_eq_true hb))

/-- **What the slice up to one behind `bisect_right` holds**: the keys between the bounds, and one
more when there is one. -/
theorem slice_bisectRight_succ (d : Dict κ ν) {b : κ} (hab : a ≤ b) :
    slice d.sortedItems (d.bisectRight a) (d.bisectRight b + 1) =
      (d.sortedItems.filter fun e => a < e.1 ∧ e.1 ≤ b) ++ (d.sortedItems.filter fun e => b < e.1).take 1 := by
  have hle : ∀ k : κ, d.sortedItems.take (d.bisectRight k) = (d.sortedItems.filter fun e => e.1 ≤ k) ∧
      d.sortedItems.drop (d.bisectRight k) = d.sortedItems.filter fun e => k < e.1 := by
    intro k
    have h := take_countP d.pairwise_sortedItems (p := fun a => decide (a ≤ k))
      fun a b hab hb => decide_eq_true (le_trans (le_of_lt hab) (of_decide_eq_true hb))
    refine ⟨h.1, h.2.trans (List.filter_congr fun e _ => ?_)⟩
    rw [← decide_not]
    simp
  have hcount : d.bisectRight a ≤ d.bisectRight b :=
    List.countP_mono_left fun e _ he => decide_eq_true (le_trans (of_decide_eq_true he) hab)
  rw [slice, List.take_add, List.drop_append_of_le_length]
  · rw [(hle b).2, (hle b).1]
    congr 1
    -- dropping the keys up to `a` from those up to `b`
    have hsub : (d.sortedItems.filter fun e => e.1 ≤ b).Pairwise fun e f => e.1 < f.1 :=
      d.pairwise_sortedItems.filter _
    have h := (take_countP hsub (p := fun c => decide (c ≤ a))
      fun x y hxy hy => decide_eq_true (le_trans (le_of_lt hxy) (of_decide_eq_true hy))).2
    have hsame : (d.sortedItems.filter fun e => e.1 ≤ b).countP (fun e => decide (e.1 ≤ a)) = d.bisectRight a := by
      rw [List.countP_filter]
      refine List.countP_congr fun e _ => ?_
      simp only [Bool.and_eq_true, decide_eq_true_eq]
      exact ⟨And.left, fun h => ⟨h, le_trans h hab⟩⟩
    rw [← hsame, h, List.filter_filter]
    refine List.filter_congr fun e _ => ?_
    by_cases h1 : e.1 ≤ a <;> by_cases h2 : e.1 ≤ b <;> simp [h1, h2, not_lt.mpr, not_le.mp]
  · rw [List.length_take]
    exact le_min hcount (le_trans hcount List.countP_le_length)

end Setka.Lib.Dict
