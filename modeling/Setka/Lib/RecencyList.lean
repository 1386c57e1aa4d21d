/-
# Setka.Lib.RecencyList — a bounded list of entries, the one used last in front.

What a least-recently-used cache is, without its data structures: a list of entries with distinct keys, a
bound on the sum of their sizes, and callbacks on each entry that run when it goes or gets another value.
Entries go from the old end while the bound is exceeded. Callbacks that were registered are there still or
have run: each is counted once.
-/
import Setka.Lib.IterOrder
import Mathlib.Data.Finset.Union
import Mathlib.Tactic.Abel

namespace Setka.Lib

/-- An entry, with the callbacks that are registered on it. -/
structure RecencyEntry (κ ν γ : Type) where
  key : κ
  value : ν
  callbacks : Finset γ

/-- The entries, the bound, and a record of the callbacks that were registered and of those that ran. -/
structure RecencyList (κ ν γ : Type) where
  entries : List (RecencyEntry κ ν γ)
  nodup : (entries.map RecencyEntry.key).Nodup
  maxSize : ℤ
  registered : Multiset (κ × γ)
  ran : Multiset (κ × γ)

namespace RecencyList

variable {κ ν γ : Type}

/-! ## §1 Sizes and callbacks of a list of entries -/

/-- Callbacks under their key. -/
def tagged (key : κ) (callbacks : Finset γ) : Multiset (κ × γ) := callbacks.val.map (Prod.mk key)

/-- The callbacks on some entries. -/
def stored (l : List (RecencyEntry κ ν γ)) : Multiset (κ × γ) :=
  (l.map fun e => tagged e.key e.callbacks).sum

def total (size : ν → ℤ) (l : List (RecencyEntry κ ν γ)) : ℤ := (l.map fun e => size e.value).sum

@[simp] theorem stored_nil : stored ([] : List (RecencyEntry κ ν γ)) = 0 := rfl

@[simp] theorem stored_cons (e : RecencyEntry κ ν γ) (l : List (RecencyEntry κ ν γ)) :
    stored (e :: l) = tagged e.key e.callbacks + stored l := by
  simp [stored]

@[simp] theorem stored_append (l l' : List (RecencyEntry κ ν γ)) : stored (l ++ l') = stored l + stored l' := by
  simp [stored]

theorem stored_reverse (l : List (RecencyEntry κ ν γ)) : stored l.reverse = stored l := by
  rw [stored, stored, List.map_reverse, List.sum_reverse]

theorem stored_perm {l l' : List (RecencyEntry κ ν γ)} (h : l.Perm l') : stored l = stored l' :=
  (h.map _).sum_eq

theorem total_reverse (size : ν → ℤ) (l : List (RecencyEntry κ ν γ)) : total size l.reverse = total size l := by
  rw [total, total, List.map_reverse, List.sum_reverse]

theorem stored_filter (p : RecencyEntry κ ν γ → Bool) (l : List (RecencyEntry κ ν γ)) :
    stored l = stored (l.filter p) + stored (l.filter fun e => !p e) := by
  induction l with
  | nil => rfl
  | cons e l ih =>
    cases hp : p e with
    | true => simp [hp, ih, add_assoc]
    | false => simp [hp, ih, add_left_comm]

theorem tagged_union [DecidableEq γ] (key : κ) (s t : Finset γ) :
    tagged key (s ∪ t) = tagged key s + tagged key (t \ s) := by
  have hval : (s ∪ t).val = s.val + (t \ s).val := by
    rw [← Finset.union_sdiff_self_eq_union, ← Finset.disjUnion_eq_union _ _ Finset.disjoint_sdiff]
    rfl
  rw [tagged, hval, Multiset.map_add]
  rfl

/-- What is kept and what goes of a list, the oldest entry first. -/
def trim (size : ν → ℤ) (maxSize : ℤ) :
    List (RecencyEntry κ ν γ) → List (RecencyEntry κ ν γ) × List (RecencyEntry κ ν γ)
  | [] => ([], [])
  | e :: newer =>
    if maxSize < total size (e :: newer) then
      ((trim size maxSize newer).1, e :: (trim size maxSize newer).2)
    else (e :: newer, [])

/-- Nothing goes while the bound is kept. -/
theorem trim_of_le {size : ν → ℤ} {maxSize : ℤ} {l : List (RecencyEntry κ ν γ)}
    (h : total size l ≤ maxSize) : trim size maxSize l = (l, []) := by
  cases l with
  | nil => rfl
  | cons e newer => rw [trim, if_neg (not_lt.mpr h)]

theorem stored_trim (size : ν → ℤ) (maxSize : ℤ) (l : List (RecencyEntry κ ν γ)) :
    stored l = stored (trim size maxSize l).1 + stored (trim size maxSize l).2 := by
  induction l with
  | nil => rfl
  | cons e newer ih =>
    rw [trim]
    split
    · rw [stored_cons, stored_cons, ih, add_left_comm]
    · rw [stored_nil, add_zero]

theorem trim_sublist (size : ν → ℤ) (maxSize : ℤ) (l : List (RecencyEntry κ ν γ)) :
    (trim size maxSize l).1.Sublist l := by
  induction l with
  | nil => exact List.Sublist.slnil
  | cons e newer ih =>
    rw [trim]
    split
    · exact ih.cons e
    · exact List.Sublist.refl _

/-! ## §2 Entries go -/

/-- **Every callback that was registered has run, or is registered still**, as often as it was. -/
def Balanced (m : RecencyList κ ν γ) : Prop := m.registered = m.ran + stored m.entries

/-- Entries go from the old end while their total exceeds the bound. -/
def evict (size : ν → ℤ) (m : RecencyList κ ν γ) : RecencyList κ ν γ where
  entries := (trim size m.maxSize m.entries.reverse).1.reverse
  nodup := by
    refine m.nodup.sublist (List.Sublist.map RecencyEntry.key ?_)
    simpa using (trim_sublist size m.maxSize m.entries.reverse).reverse
  maxSize := m.maxSize
  registered := m.registered
  ran := m.ran + stored (trim size m.maxSize m.entries.reverse).2

/-- Entries are removed: those that `p` holds of. -/
def remove (p : RecencyEntry κ ν γ → Bool) (m : RecencyList κ ν γ) : RecencyList κ ν γ where
  entries := m.entries.filter fun e => !p e
  nodup := m.nodup.sublist (List.filter_sublist.map RecencyEntry.key)
  maxSize := m.maxSize
  registered := m.registered
  ran := m.ran + stored (m.entries.filter p)

/-- The bound changes. -/
def resize (size : ν → ℤ) (maxSize : ℤ) (m : RecencyList κ ν γ) : RecencyList κ ν γ :=
  if maxSize = m.maxSize then m else evict size { m with maxSize := maxSize }

variable {m : RecencyList κ ν γ}

theorem Balanced.evict (h : m.Balanced) (size : ν → ℤ) : (m.evict size).Balanced := by
  have htrim := stored_trim size m.maxSize m.entries.reverse
  rw [stored_reverse] at htrim
  show m.registered = m.ran + stored _ + stored (List.reverse _)
  rw [h, stored_reverse, htrim, add_assoc, add_comm (stored _) (stored _)]

theorem Balanced.remove (h : m.Balanced) (p : RecencyEntry κ ν γ → Bool) : (m.remove p).Balanced := by
  show m.registered = m.ran + stored (m.entries.filter p) + stored (m.entries.filter fun e => !p e)
  rw [h, stored_filter p m.entries, add_assoc]

theorem Balanced.resize (h : m.Balanced) (size : ν → ℤ) (maxSize : ℤ) : (m.resize size maxSize).Balanced := by
  unfold RecencyList.resize
  split
  · exact h
  · exact Balanced.evict (m := { m with maxSize := maxSize }) h size

/-! ## §3 Entries are found and set -/

section Operations

variable [DecidableEq κ]

def without (key : κ) (l : List (RecencyEntry κ ν γ)) : List (RecencyEntry κ ν γ) :=
  l.filter fun e => e.key ≠ key

def find? (m : RecencyList κ ν γ) (key : κ) : Option (RecencyEntry κ ν γ) :=
  m.entries.find? fun e => e.key = key

/-- The value under a key. -/
def get? (m : RecencyList κ ν γ) (key : κ) : Option ν := (m.find? key).map RecencyEntry.value

theorem nodup_cons_without {l : List (RecencyEntry κ ν γ)} (h : (l.map RecencyEntry.key).Nodup)
    (e : RecencyEntry κ ν γ) : ((e :: without e.key l).map RecencyEntry.key).Nodup := by
  refine List.nodup_cons.mpr ⟨?_, h.sublist (List.filter_sublist.map RecencyEntry.key)⟩
  intro hmem
  obtain ⟨e', he', heq⟩ := List.mem_map.mp hmem
  exact of_decide_eq_true (List.mem_filter.mp he').2 heq

variable {e : RecencyEntry κ ν γ}

/-- Around an entry of a list with distinct keys. -/
theorem split_eqs {l₁ l₂ : List (RecencyEntry κ ν γ)} (h : ((l₁ ++ e :: l₂).map RecencyEntry.key).Nodup) :
    (l₁ ++ e :: l₂).find? (fun x => x.key = e.key) = some e ∧
      without e.key (l₁ ++ e :: l₂) = l₁ ++ l₂ := by
  rw [List.map_append, List.map_cons] at h
  have hperm := (List.nodup_cons.mp (List.perm_middle.nodup_iff.mp h)).1
  have hne : ∀ x ∈ l₁ ++ l₂, x.key ≠ e.key := by
    intro x hx heq
    exact hperm (heq ▸ List.map_append ▸ List.mem_map_of_mem hx)
  refine ⟨?_, ?_⟩
  · rw [List.find?_append, List.find?_eq_none.mpr, Option.none_or, List.find?_cons_of_pos]
    · simp
    · intro x hx
      simpa using hne x (List.mem_append_left l₂ hx)
  · rw [without, List.filter_append, List.filter_cons_of_neg (by simp), ← List.filter_append]
    exact List.filter_eq_self.mpr fun x hx => by simpa using hne x hx

variable {m : RecencyList κ ν γ} {key : κ}

theorem exists_split (h : m.find? key = some e) :
    e.key = key ∧ ∃ l₁ l₂, m.entries = l₁ ++ e :: l₂ ∧ without key m.entries = l₁ ++ l₂ := by
  obtain rfl : e.key = key := by simpa using List.find?_some h
  obtain ⟨l₁, l₂, hsplit⟩ := List.append_of_mem (List.mem_of_find?_eq_some h)
  have hnodup := m.nodup
  rw [hsplit] at hnodup
  exact ⟨rfl, l₁, l₂, hsplit, by rw [hsplit, (split_eqs hnodup).2]⟩

theorem without_of_find?_eq_none (h : m.find? key = none) : without key m.entries = m.entries := by
  refine List.filter_eq_self.mpr ?_
  intro e he
  simpa using List.find?_eq_none.mp h e he

/-- The callbacks under a key, and the others. -/
theorem stored_of_find? (h : m.find? key = some e) :
    stored m.entries = tagged key e.callbacks + stored (without key m.entries) := by
  obtain ⟨rfl, l₁, l₂, hsplit, hwithout⟩ := exists_split h
  rw [hwithout, hsplit, stored_append, stored_append, stored_cons, add_left_comm]

variable [DecidableEq γ]

/-- The entry that is watched, among the others. -/
theorem watched_split {l₁ l₂ : List (RecencyEntry κ ν γ)} (h : ((l₁ ++ e :: l₂).map RecencyEntry.key).Nodup)
    (callbacks : Finset γ) : ((l₁ ++ e :: l₂).map fun x =>
      if x.key = e.key then { x with callbacks := x.callbacks ∪ callbacks } else x) =
      l₁ ++ { e with callbacks := e.callbacks ∪ callbacks } :: l₂ := by
  have hother : ∀ x ∈ l₁ ++ l₂, x.key ≠ e.key := by
    intro x hx
    rw [← (split_eqs h).2] at hx
    exact of_decide_eq_true (List.mem_filter.mp hx).2
  have hmap : ∀ l ⊆ l₁ ++ l₂, (l.map fun x =>
      if x.key = e.key then { x with callbacks := x.callbacks ∪ callbacks } else x) = l := by
    intro l hl
    refine (List.map_congr_left ?_).trans (List.map_id l)
    intro x hx
    exact if_neg (hother x (hl hx))
  rw [List.map_append, List.map_cons, if_pos rfl, hmap l₁ (List.subset_append_left l₁ l₂),
    hmap l₂ (List.subset_append_right l₁ l₂)]

/-- An entry is used, and gets more callbacks. -/
def touch (key : κ) (callbacks : Finset γ) (m : RecencyList κ ν γ) : RecencyList κ ν γ :=
  match m.find? key with
  | none => m
  | some e =>
    { m with
      entries := ⟨key, e.value, e.callbacks ∪ callbacks⟩ :: without key m.entries
      nodup := nodup_cons_without m.nodup ⟨key, e.value, e.callbacks ∪ callbacks⟩
      registered := m.registered + tagged key (callbacks \ e.callbacks) }

theorem Balanced.touch (h : m.Balanced) (key : κ) (callbacks : Finset γ) : (m.touch key callbacks).Balanced := by
  cases hfind : m.find? key with
  | none => simpa [RecencyList.touch, hfind] using h
  | some e =>
    simp only [RecencyList.touch, hfind]
    show m.registered + _ = m.ran + stored (_ :: _)
    rw [h, stored_of_find? hfind, stored_cons, tagged_union]
    abel

/-- An entry gets more callbacks, and stays in its place. -/
def watch (key : κ) (callbacks : Finset γ) (m : RecencyList κ ν γ) : RecencyList κ ν γ where
  entries := m.entries.map fun e =>
    if e.key = key then { e with callbacks := e.callbacks ∪ callbacks } else e
  nodup := by
    have hkeys : (m.entries.map fun e =>
        if e.key = key then { e with callbacks := e.callbacks ∪ callbacks } else e).map
          RecencyEntry.key = m.entries.map RecencyEntry.key := by
      rw [List.map_map]
      refine List.map_congr_left ?_
      intro e _
      show (if e.key = key then _ else e : RecencyEntry κ ν γ).key = e.key
      split
      · rfl
      · rfl
    rw [hkeys]
    exact m.nodup
  maxSize := m.maxSize
  registered := m.registered + match m.find? key with
    | none => 0
    | some e => tagged key (callbacks \ e.callbacks)
  ran := m.ran

theorem watch_of_find?_eq_none (h : m.find? key = none) (callbacks : Finset γ) : m.watch key callbacks = m := by
  have hsame : (m.entries.map fun e => if e.key = key then
      { e with callbacks := e.callbacks ∪ callbacks } else e) = m.entries := by
    refine (List.map_congr_left ?_).trans (List.map_id m.entries)
    intro e he
    exact if_neg (by simpa using List.find?_eq_none.mp h e he)
  simp only [watch, h, hsame, add_zero]

theorem Balanced.watch (h : m.Balanced) (key : κ) (callbacks : Finset γ) : (m.watch key callbacks).Balanced := by
  cases hfind : m.find? key with
  | none =>
    rw [watch_of_find?_eq_none hfind]
    exact h
  | some e =>
    obtain ⟨rfl, l₁, l₂, hsplit, -⟩ := exists_split hfind
    have hnodup := m.nodup
    rw [hsplit] at hnodup
    simp only [Balanced, RecencyList.watch, hfind]
    rw [h, hsplit, watched_split hnodup]
    simp only [stored_append, stored_cons, tagged_union]
    abel

variable [DecidableEq ν]

/-- The callbacks that stay when a key gets a value: those on an entry with the same value. -/
def kept (m : RecencyList κ ν γ) (key : κ) (value : ν) : Finset γ :=
  match m.find? key with
  | none => ∅
  | some e => if value = e.value then e.callbacks else ∅

/-- The callbacks that run then: those on an entry with a different one. -/
def replaced (m : RecencyList κ ν γ) (key : κ) (value : ν) : Multiset (κ × γ) :=
  match m.find? key with
  | none => 0
  | some e => if value = e.value then 0 else tagged key e.callbacks

/-- A key gets a value. -/
def put (size : ν → ℤ) (key : κ) (value : ν) (callbacks : Finset γ) (m : RecencyList κ ν γ) : RecencyList κ ν γ :=
  evict size { m with
      entries := ⟨key, value, m.kept key value ∪ callbacks⟩ :: without key m.entries
      nodup := nodup_cons_without m.nodup ⟨key, value, m.kept key value ∪ callbacks⟩
      registered := m.registered + tagged key (callbacks \ m.kept key value)
      ran := m.ran + m.replaced key value }

/-- A key that has none gets a value. -/
def putDefault (size : ν → ℤ) (key : κ) (value : ν) (m : RecencyList κ ν γ) : RecencyList κ ν γ :=
  match m.find? key with
  | none => put size key value ∅ m
  | some _ => m

theorem Balanced.put (h : m.Balanced) (size : ν → ℤ) (key : κ) (value : ν)
    (callbacks : Finset γ) : (m.put size key value callbacks).Balanced := by
  refine Balanced.evict ?_ size
  show m.registered + _ = m.ran + _ + stored (_ :: _)
  have hold : stored m.entries = m.replaced key value + tagged key (m.kept key value) +
      stored (without key m.entries) := by
    cases hfind : m.find? key with
    | none => simp [replaced, kept, hfind, without_of_find?_eq_none hfind, tagged]
    | some e =>
      rw [stored_of_find? hfind]
      by_cases hvalue : value = e.value
      · simp [replaced, kept, hfind, hvalue]
      · simp [replaced, kept, hfind, hvalue, tagged]
  rw [h, hold, stored_cons, tagged_union]
  abel

theorem Balanced.putDefault (h : m.Balanced) (size : ν → ℤ) (key : κ)
    (value : ν) : (m.putDefault size key value).Balanced := by
  unfold RecencyList.putDefault
  split
  · exact h.put size key value ∅
  · exact h

/-! ### What is found afterwards -/

omit [DecidableEq γ] [DecidableEq ν] in
theorem find?_eq_some_iff : m.find? key = some e ↔ e ∈ m.entries ∧ e.key = key := by
  constructor
  · intro h
    exact ⟨List.mem_of_find?_eq_some h, (exists_split h).1⟩
  rintro ⟨he, rfl⟩
  obtain ⟨l₁, l₂, hsplit⟩ := List.append_of_mem he
  have hnodup := m.nodup
  rw [hsplit] at hnodup
  rw [find?, hsplit, (split_eqs hnodup).1]

variable {value : ν}

omit [DecidableEq γ] [DecidableEq ν] in
theorem get?_eq_some_iff : m.get? key = some value ↔ ∃ e ∈ m.entries, e.key = key ∧ e.value = value := by
  simp only [get?, Option.map_eq_some_iff, find?_eq_some_iff, and_assoc]

omit [DecidableEq ν] in
/-- To use an entry changes no value. -/
theorem get?_touch (m : RecencyList κ ν γ) (key key' : κ) (callbacks : Finset γ) :
    (m.touch key callbacks).get? key' = m.get? key' := by
  cases hfind : m.find? key with
  | none => simp only [touch, hfind]
  | some e =>
    obtain ⟨he, hkey⟩ := find?_eq_some_iff.mp hfind
    refine Option.ext fun value => ?_
    rw [get?_eq_some_iff, get?_eq_some_iff]
    simp only [touch, hfind]
    constructor
    · rintro ⟨e', he', rfl, rfl⟩
      rcases List.mem_cons.mp he' with rfl | he'
      · exact ⟨e, he, hkey, rfl⟩
      · exact ⟨e', (List.mem_filter.mp he').1, rfl, rfl⟩
    · rintro ⟨e', he', rfl, rfl⟩
      by_cases hk : e'.key = key
      · have hsame := Option.some.inj ((find?_eq_some_iff.mpr ⟨he', hk⟩).symm.trans hfind)
        exact ⟨_, List.mem_cons_self, hk.symm, by rw [hsame]⟩
      · exact ⟨e', List.mem_cons_of_mem _ (List.mem_filter.mpr ⟨he', by simpa using hk⟩), rfl, rfl⟩

/-- A value that is there after a `put` was put, or was there. -/
theorem get?_put_some {size : ν → ℤ} {key' : κ} {value' : ν} {callbacks : Finset γ}
    (h : (m.put size key value callbacks).get? key' = some value') :
    key' = key ∧ value' = value ∨ key' ≠ key ∧ m.get? key' = some value' := by
  obtain ⟨e, he, rfl, rfl⟩ := get?_eq_some_iff.mp h
  have he := (trim_sublist _ _ _).subset (List.mem_reverse.mp he)
  rcases List.mem_cons.mp (List.mem_reverse.mp he) with rfl | he
  · exact Or.inl ⟨rfl, rfl⟩
  · obtain ⟨he, hne⟩ := List.mem_filter.mp he
    exact Or.inr ⟨of_decide_eq_true hne, get?_eq_some_iff.mpr ⟨e, he, rfl, rfl⟩⟩

omit [DecidableEq γ] [DecidableEq ν] in
theorem get?_remove_some {p : RecencyEntry κ ν γ → Bool} (h : (m.remove p).get? key = some value) :
    m.get? key = some value ∧ ∃ e ∈ m.entries, e.key = key ∧ p e = false := by
  obtain ⟨e, he, rfl, rfl⟩ := get?_eq_some_iff.mp h
  obtain ⟨he, hp⟩ := List.mem_filter.mp he
  exact ⟨get?_eq_some_iff.mpr ⟨e, he, rfl, rfl⟩, e, he, rfl, by simpa using hp⟩

end Operations

end RecencyList

end Setka.Lib
