/-
# Setka.Lib.PyStr — the string methods of Python.

Strings are read as lists of code points. Changing case is ASCII only; where the code depends on it for
other letters, the Unicode tables are a parameter.
-/
import Mathlib.Data.List.DropRight
import Mathlib.Data.String.Basic
import Setka.Lib.Delimited

namespace Setka.Lib.PyStr

open String (ofList toList_ofList toList_append ofList_toList toList_injective)

/-- The characters `str.strip` removes. -/
def isSpace (c : Char) : Bool :=
  (9 ≤ c.toNat && c.toNat ≤ 13) || (28 ≤ c.toNat && c.toNat ≤ 32) || c.toNat == 0x85 ||
    c.toNat == 0xa0 || c.toNat == 0x1680 || (0x2000 ≤ c.toNat && c.toNat ≤ 0x200a) ||
    c.toNat == 0x2028 || c.toNat == 0x2029 || c.toNat == 0x202f || c.toNat == 0x205f ||
    c.toNat == 0x3000

/-- `s.strip()`. -/
def strip (s : String) : String :=
  String.ofList (((s.toList.dropWhile isSpace).reverse.dropWhile isSpace).reverse)

/-- `s.lower()` and `s.upper()`. -/
def lower (s : String) : String := String.ofList (s.toList.map Char.toLower)

def upper (s : String) : String := String.ofList (s.toList.map Char.toUpper)

/-- The Unicode tables that Python looks up: `ch.isalnum()`, `s.upper()` and `s.lower()`. -/
structure Unicode where
  isAlnum : Char → Bool
  upper : String → String
  lower : String → String
  lower_ascii : ∀ s : String, (∀ c ∈ s.toList, c.toNat < 128) → lower s = PyStr.lower s

/-- Tables that know the letters of ASCII only. -/
def Unicode.ascii : Unicode := ⟨Char.isAlphanum, PyStr.upper, PyStr.lower, fun _ _ => rfl⟩

/-- `s.replace(c, "")` for a single character. -/
def without (c : Char) (s : String) : String := String.ofList (s.toList.filter fun d => d ≠ c)

/-- `s[:n]` and `s[n:]`. -/
def take (n : ℕ) (s : String) : String := String.ofList (s.toList.take n)

def drop (n : ℕ) (s : String) : String := String.ofList (s.toList.drop n)

/-- `s.startswith(p)`. -/
def startsWith (p s : String) : Bool := p.toList.isPrefixOf s.toList

/-- `s.split(c)` for a separator of one character. -/
def split (c : Char) (s : String) : List String := (s.toList.splitOn c).map String.ofList

/-- `sep.join(xs)`. -/
def join (sep : String) (xs : List String) : String := String.intercalate sep xs

/-- What stands before and behind the first `c`: `s[:i]` and `s[i + 1:]` for `i = s.find(c)`. -/
def cut (c : Char) : List Char → Option (List Char × List Char)
  | [] => none
  | d :: ds => if d = c then some ([], ds) else (cut c ds).map fun (a, b) => (d :: a, b)

def partition (c : Char) (s : String) : Option (String × String) :=
  (cut c s.toList).map fun (a, b) => (String.ofList a, String.ofList b)

/-- `s.split(c, n)`: at most `n` cuts, from the left. -/
def splitMax (c : Char) : ℕ → String → List String
  | 0, s => [s]
  | n + 1, s =>
    match partition c s with
    | some (a, b) => a :: splitMax c n b
    | none => [s]

variable {s : String}

/-- What a string's characters are, from a test that runs over them. -/
theorem not_isSpace_of_all (h : (s.toList.all fun c => !isSpace c) = true) : ∀ c ∈ s.toList, isSpace c = false := by
  intro c hc
  simpa using List.all_eq_true.mp h c hc

theorem ascii_of_all (h : (s.toList.all fun c => decide (c.toNat < 128)) = true) :
    ∀ c ∈ s.toList, c.toNat < 128 := by
  intro c hc
  simpa using List.all_eq_true.mp h c hc

theorem startsWith_iff {p : String} : startsWith p s ↔ ∃ rest, s = p ++ rest := by
  rw [startsWith, List.isPrefixOf_iff_prefix]
  constructor
  · rintro ⟨rest, hrest⟩
    refine ⟨ofList rest, toList_injective ?_⟩
    rw [toList_append, toList_ofList, hrest]
  rintro ⟨rest, rfl⟩
  rw [toList_append]
  exact List.prefix_append _ _

theorem drop_append (p rest : String) : drop p.toList.length (p ++ rest) = rest := by
  rw [drop, toList_append, List.drop_left, ofList_toList]

variable {c : Char} {xs : List String}

/-- What was joined is split again, when no part contains the separator. -/
theorem split_join (hne : xs ≠ []) (h : ∀ x ∈ xs, c ∉ x.toList) : split c (join (ofList [c]) xs) = xs := by
  unfold split join
  rw [String.toList_intercalate, toList_ofList,
    List.splitOn_intercalate c (by simpa using h) (by simpa using hne), List.map_map]
  simp

theorem join_split (c : Char) (s : String) : join (ofList [c]) (split c s) = s := by
  unfold split join
  apply String.toList_inj.mp
  rw [String.toList_intercalate, List.map_map, toList_ofList]
  have hparts : String.toList ∘ ofList = id := funext fun cs => toList_ofList
  rw [hparts, List.map_id]
  exact List.intercalate_splitOn c

/-- The parts of a split string do not contain the separator. -/
theorem not_mem_of_mem_split {part : String} (h : part ∈ split c s) : c ∉ part.toList := by
  obtain ⟨chars, hchars, rfl⟩ := List.mem_map.mp h
  rw [toList_ofList]
  exact Delimited.not_mem_of_mem_splitOn hchars

theorem cut_append {a : List Char} (h : c ∉ a) (b : List Char) : cut c (a ++ c :: b) = some (a, b) := by
  induction a with
  | nil => exact if_pos rfl
  | cons d a ih =>
    rw [List.mem_cons, not_or] at h
    rw [List.cons_append, cut, if_neg (Ne.symm h.1), ih h.2]
    rfl

/-- The first cut is where a part without the separator ends. -/
theorem partition_append {a : String} (h : c ∉ a.toList) (b : String) :
    partition c (a ++ ofList [c] ++ b) = some (a, b) := by
  unfold partition
  rw [toList_append, toList_append, toList_ofList, List.append_assoc,
    List.singleton_append, cut_append h]
  show some (ofList a.toList, ofList b.toList) = _
  rw [ofList_toList, ofList_toList]

theorem cut_spec {cs a b : List Char} (h : cut c cs = some (a, b)) : c ∉ a ∧ cs = a ++ c :: b := by
  induction cs generalizing a with
  | nil => cases h
  | cons d ds ih =>
    rw [cut] at h
    split at h
    · rename_i heq
      obtain ⟨rfl, rfl⟩ := Prod.mk.inj (Option.some.inj h)
      exact ⟨List.not_mem_nil, by rw [heq]; rfl⟩
    rename_i hne
    obtain ⟨⟨a', b'⟩, hcut, heq⟩ := Option.map_eq_some_iff.mp h
    obtain ⟨rfl, rfl⟩ := Prod.mk.inj heq
    obtain ⟨hmem, rfl⟩ := ih hcut
    refine ⟨?_, rfl⟩
    rw [List.mem_cons, not_or]
    exact ⟨Ne.symm hne, hmem⟩

/-- No part but the last one of a split string contains the separator. -/
theorem not_mem_splitMax {c : Char} {n : ℕ} {s a : String} (h : a ∈ (splitMax c n s).dropLast) : c ∉ a.toList := by
  induction n generalizing s with
  | zero => cases h
  | succ n ih =>
    unfold splitMax at h
    split at h
    · rename_i a' b hpart
      obtain ⟨⟨as, bs⟩, hcut, heq⟩ := Option.map_eq_some_iff.mp hpart
      obtain ⟨rfl, -⟩ := Prod.mk.inj heq
      have hne : splitMax c n b ≠ [] := by
        cases n with
        | zero => exact List.cons_ne_nil _ _
        | succ n =>
          unfold splitMax
          split <;> exact List.cons_ne_nil _ _
      rw [List.dropLast_cons_of_ne_nil hne] at h
      rcases List.mem_cons.mp h with rfl | h
      · rw [toList_ofList]
        exact (cut_spec hcut).1
      · exact ih h
    · cases h

theorem splitMax_append {a : String} (h : c ∉ a.toList) (n : ℕ) (b : String) :
    splitMax c (n + 1) (a ++ ofList [c] ++ b) = a :: splitMax c n b := by
  rw [splitMax, partition_append h]

/-- What was joined is cut again, the last part whatever it contains. -/
theorem splitMax_join (h : ∀ x ∈ xs, c ∉ x.toList) (last : String) :
    splitMax c xs.length (join (ofList [c]) (xs ++ [last])) = xs ++ [last] := by
  induction xs with
  | nil =>
    show [String.intercalate (ofList [c]) [last]] = [last]
    rw [String.intercalate_singleton]
  | cons x xs ih =>
    obtain ⟨y, ys, hys⟩ : ∃ y ys, xs ++ [last] = y :: ys := by
      cases xs with
      | nil => exact ⟨last, [], rfl⟩
      | cons y ys => exact ⟨y, ys ++ [last], rfl⟩
    have hrest := ih fun z hz => h z (List.mem_cons_of_mem x hz)
    rw [List.cons_append, List.length_cons]
    rw [hys] at hrest ⊢
    show splitMax c (xs.length + 1) (String.intercalate (ofList [c]) (x :: y :: ys)) = _
    rw [String.intercalate_cons_cons, splitMax_append (h x List.mem_cons_self)]
    exact congrArg (x :: ·) hrest

/-- A character of a joined string is one of the separator or of a part. -/
theorem mem_join {sep : String} (h : c ∈ (join sep xs).toList) : c ∈ sep.toList ∨ ∃ x ∈ xs, c ∈ x.toList := by
  unfold join at h
  induction xs with
  | nil =>
    exact absurd h (by simp)
  | cons x xs ih =>
    cases xs with
    | nil =>
      exact Or.inr ⟨x, List.mem_cons_self, h⟩
    | cons y ys =>
      rw [String.intercalate_cons_cons, toList_append, toList_append,
        List.mem_append, List.mem_append] at h
      rcases h with (h | h) | h
      · exact Or.inr ⟨x, List.mem_cons_self, h⟩
      · exact Or.inl h
      · rcases ih h with h | ⟨z, hz, hc⟩
        · exact Or.inl h
        · exact Or.inr ⟨z, List.mem_cons_of_mem x hz, hc⟩

/-- Without white space at its ends, a string stays as it is. -/
theorem strip_of_ends {a b : Char} {mid : List Char} (hs : s.toList = a :: (mid ++ [b]))
    (ha : isSpace a = false) (hb : isSpace b = false) : strip s = s := by
  have hlast : (a :: (mid ++ [b])).reverse = b :: (mid.reverse ++ [a]) := by simp
  rw [strip, hs, List.dropWhile_cons_of_neg (by simp [ha]), hlast,
    List.dropWhile_cons_of_neg (by simp [hb]), ← hlast, List.reverse_reverse, ← hs,
    ofList_toList]

example : strip "\t a b\n" = "a b" := by decide

/-! ## §2 Stripping and cutting -/

theorem toList_strip (s : String) : (strip s).toList = (s.toList.dropWhile isSpace).rdropWhile isSpace := by
  rw [strip, toList_ofList, List.rdropWhile]

theorem toList_take (n : ℕ) (s : String) : (take n s).toList = s.toList.take n := by
  rw [take, toList_ofList]

theorem strip_eq_empty_iff : strip s = "" ↔ ∀ c ∈ s.toList, isSpace c = true := by
  rw [← String.toList_inj, toList_strip]
  show _ = [] ↔ _
  rw [List.rdropWhile_eq_nil_iff]
  constructor
  · intro h c hc
    by_contra hspace
    -- `dropWhile` stops at a character that is not white space, and keeps it
    have hne : s.toList.dropWhile isSpace ≠ [] := fun hnil =>
      hspace (List.dropWhile_eq_nil_iff.mp hnil c hc)
    have hhead := List.head_dropWhile_not isSpace hne
    rw [h _ (List.head_mem hne)] at hhead
    exact absurd hhead (by simp)
  · intro h c hc
    exact h c ((List.dropWhile_sublist _).mem hc)

theorem length_strip_le (s : String) : (strip s).toList.length ≤ s.toList.length := by
  rw [toList_strip]
  calc ((s.toList.dropWhile isSpace).rdropWhile isSpace).length
      ≤ (s.toList.dropWhile isSpace).length := List.IsPrefix.length_le (List.rdropWhile_prefix _ _)
    _ ≤ s.toList.length := (List.dropWhile_sublist _).length_le

/-- Stripping takes nothing off the front of a beginning of a stripped string. -/
theorem dropWhile_isSpace {l m : List Char} (h : l <+: m.dropWhile isSpace) : l.dropWhile isSpace = l := by
  rw [List.dropWhile_eq_self_iff]
  intro hl
  obtain ⟨rest, hrest⟩ := h
  have hne : m.dropWhile isSpace ≠ [] := by
    rw [← hrest]
    intro hnil
    rw [List.append_eq_nil_iff] at hnil
    rw [hnil.1] at hl
    exact absurd hl (by simp)
  have hhead := List.head_dropWhile_not isSpace hne
  have hget : l[0] = (m.dropWhile isSpace).head hne := by
    rw [List.head_eq_getElem]
    simp only [← hrest, List.getElem_append_left hl]
  rw [hget, hhead]
  simp

theorem strip_strip (s : String) : strip (strip s) = strip s := by
  apply toList_injective
  rw [toList_strip (strip s), toList_strip s, dropWhile_isSpace (List.rdropWhile_prefix _ _),
    List.rdropWhile_idempotent]

/-- The first character that stripping leaves is not white space. -/
theorem isSpace_head_strip (h : (strip s).toList ≠ []) : isSpace ((strip s).toList.head h) = false := by
  have hself : (strip s).toList.dropWhile isSpace = (strip s).toList := by
    conv_lhs => rw [toList_strip s]
    rw [dropWhile_isSpace (List.rdropWhile_prefix _ _), ← toList_strip]
  rw [List.dropWhile_eq_self_iff] at hself
  have hpos := List.length_pos_iff.mpr h
  rw [List.head_eq_getElem]
  simpa using hself hpos

theorem take_eq_self {n : ℕ} (h : s.toList.length ≤ n) : take n s = s := by
  apply toList_injective
  rw [toList_take, List.take_of_length_le h]

theorem length_take_le (n : ℕ) (s : String) : (take n s).toList.length ≤ n := by
  rw [toList_take]
  exact List.length_take_le _ _

theorem dropWhile_of_not_space {l : List Char} (hl : ∀ c ∈ l, isSpace c = false) : l.dropWhile isSpace = l := by
  rw [List.dropWhile_eq_self_iff]
  intro hpos
  rw [hl _ (List.getElem_mem hpos)]
  simp

theorem dropWhile_append_of_not_space {l : List Char} (hne : l ≠ []) (hl : ∀ c ∈ l, isSpace c = false) (m : List Char) :
    (l ++ m).dropWhile isSpace = l ++ m := by
  obtain ⟨c, cs, rfl⟩ := List.exists_cons_of_ne_nil hne
  simp [hl c List.mem_cons_self]

theorem strip_of_not_space (h : ∀ c ∈ s.toList, isSpace c = false) : strip s = s := by
  have hrev : ∀ c ∈ s.toList.reverse, isSpace c = false := fun c hc => h c (List.mem_reverse.mp hc)
  rw [strip, dropWhile_of_not_space h, dropWhile_of_not_space hrev, List.reverse_reverse, ofList_toList]

/-- A beginning without white space survives stripping. -/
theorem startsWith_strip {p : String} (hp : p.toList ≠ []) (hspace : ∀ c ∈ p.toList, isSpace c = false)
    (h : startsWith p s) : startsWith p (strip s) := by
  obtain ⟨rest, rfl⟩ := startsWith_iff.mp h
  have hback : (p.toList ++ rest.toList).rdropWhile isSpace = p.toList ++ rest.toList.rdropWhile isSpace := by
    unfold List.rdropWhile
    rw [List.reverse_append, List.dropWhile_append]
    split
    · rename_i hempty
      have hnil : rest.toList.reverse.dropWhile isSpace = [] := List.isEmpty_iff.mp hempty
      have hself := @dropWhile_of_not_space p.toList.reverse (by simpa using hspace)
      rw [hself, hnil, List.reverse_reverse, List.reverse_nil, List.append_nil]
    · rw [List.reverse_append, List.reverse_reverse]
  rw [startsWith, List.isPrefixOf_iff_prefix, toList_strip, toList_append,
    dropWhile_append_of_not_space hp hspace, hback]
  exact List.prefix_append _ _

end Setka.Lib.PyStr
