/-
# Setka.Lib.Dict — insertion-ordered dictionaries with pairwise distinct keys.

A `Dict κ ν` is the list of its items in insertion order together with the proof that no key occurs
twice, so that a dictionary with two entries for one key cannot be built. Assigning to a key that is
present keeps its place, assigning to a new key appends: this is the iteration order of a Python
`dict`. Everything a later module needs about one operation is its effect on `get?`.
-/
import Mathlib.Data.List.Nodup
import Mathlib.Data.List.Lookmap

namespace Setka.Lib

open List (map_cons mem_cons lookup_cons foldl_cons countP_cons nodup_cons mem_map)

/-- Whether a pair of strings is in a list is decided by comparing both. -/
instance lawfulBEq_pair : LawfulBEq (String × String) := inferInstance

/-- An association list without repeated keys, in insertion order. -/
structure Dict (κ ν : Type) where
  items : List (κ × ν)
  nodup : (items.map Prod.fst).Nodup

namespace Dict

variable {κ ν μ : Type} [DecidableEq κ]

/-! ## §1 Lookup, keys and values -/

/-- The empty dictionary. -/
def empty : Dict κ ν := ⟨[], List.nodup_nil⟩

instance : EmptyCollection (Dict κ ν) := ⟨empty⟩

/-- The keys, in insertion order. -/
def keys (d : Dict κ ν) : List κ := d.items.map Prod.fst

/-- The values, in the order of their keys. -/
def values (d : Dict κ ν) : List ν := d.items.map Prod.snd

/-- `d.get(k)`: the value stored under `k`, if any. -/
def get? (d : Dict κ ν) (k : κ) : Option ν := d.items.lookup k

/-- `d.get(k, v)`. -/
def getD (d : Dict κ ν) (k : κ) (v : ν) : ν := (d.get? k).getD v

variable {l : List (κ × ν)} {k : κ} {v : ν}

theorem lookup_eq_some_iff (h : (l.map Prod.fst).Nodup) : l.lookup k = some v ↔ (k, v) ∈ l := by
  induction l with
  | nil => simp
  | cons p t ih =>
    obtain ⟨a, b⟩ := p
    simp only [map_cons, nodup_cons] at h
    by_cases hk : k = a
    · subst hk
      simp only [List.lookup_cons_self, Option.some.injEq, mem_cons, Prod.mk.injEq, true_and]
      constructor
      · intro hb
        exact Or.inl hb.symm
      rintro (rfl | hm)
      · rfl
      · exact absurd (List.mem_map.mpr ⟨(k, v), hm, rfl⟩) h.1
    · have hb : (k == a) = false := by simpa using hk
      simp only [lookup_cons, hb, ih h.2, mem_cons, Prod.mk.injEq, hk, false_and, false_or]

variable {d : Dict κ ν}

theorem get?_eq_some_iff : d.get? k = some v ↔ (k, v) ∈ d.items :=
  lookup_eq_some_iff d.nodup

theorem mem_keys_iff : k ∈ d.keys ↔ ∃ v, d.get? k = some v := by
  simp only [keys, mem_map, get?_eq_some_iff]
  constructor
  · rintro ⟨⟨a, b⟩, h, rfl⟩
    exact ⟨b, h⟩
  · rintro ⟨v, h⟩
    exact ⟨(k, v), h, rfl⟩

theorem mem_values_iff : v ∈ d.values ↔ ∃ k, d.get? k = some v := by
  simp only [values, mem_map, get?_eq_some_iff]
  constructor
  · rintro ⟨⟨a, b⟩, h, rfl⟩
    exact ⟨a, h⟩
  · rintro ⟨k, h⟩
    exact ⟨(k, v), h, rfl⟩

theorem get?_eq_none_iff : d.get? k = none ↔ k ∉ d.keys := by
  rw [mem_keys_iff, Option.eq_none_iff_forall_ne_some, not_exists]

@[simp] theorem get?_empty (k : κ) : (empty : Dict κ ν).get? k = none := rfl

theorem getD_of_get? (h : d.get? k = some v) (w : ν) : d.getD k w = v := by
  simp [getD, h]

/-! ## §2 Assignment -/

/-- Replace the value of `k` in place, or append the pair at the end. -/
def setItems (k : κ) (v : ν) : List (κ × ν) → List (κ × ν)
  | [] => [(k, v)]
  | (a, b) :: t => if a = k then (k, v) :: t else (a, b) :: setItems k v t

variable {a : κ}

theorem mem_map_fst_setItems : a ∈ (setItems k v l).map Prod.fst ↔ a = k ∨ a ∈ l.map Prod.fst := by
  induction l with
  | nil => simp [setItems]
  | cons p t ih =>
    obtain ⟨b, c⟩ := p
    by_cases hb : b = k
    · subst hb
      simp [setItems]
    · simp only [setItems, if_neg hb, map_cons, mem_cons, ih]
      exact or_left_comm

theorem nodup_setItems (h : (l.map Prod.fst).Nodup) : ((setItems k v l).map Prod.fst).Nodup := by
  induction l with
  | nil => simp [setItems]
  | cons p t ih =>
    obtain ⟨b, c⟩ := p
    simp only [map_cons, nodup_cons] at h
    by_cases hb : b = k
    · subst hb
      simpa [setItems] using h
    simp only [setItems, if_neg hb, map_cons, nodup_cons]
    refine ⟨?_, ih h.2⟩
    rw [mem_map_fst_setItems]
    rintro (rfl | hm)
    · exact hb rfl
    · exact h.1 hm

theorem lookup_setItems (a : κ) : (setItems k v l).lookup a = if a = k then some v else l.lookup a := by
  induction l with
  | nil =>
    by_cases ha : a = k
    · simp [setItems, ha]
    · simp [setItems, ha, lookup_cons, beq_false_of_ne ha]
  | cons p t ih =>
    obtain ⟨b, c⟩ := p
    by_cases hb : b = k
    · subst hb
      by_cases ha : a = b
      · simp [setItems, ha]
      · simp [setItems, ha, lookup_cons, beq_false_of_ne ha]
    · by_cases hab : a = b
      · subst hab
        simp [setItems, hb]
      · simp only [setItems, if_neg hb, lookup_cons, beq_false_of_ne hab, ih]

/-- `d[k] = v`. -/
def set (d : Dict κ ν) (k : κ) (v : ν) : Dict κ ν :=
  ⟨setItems k v d.items, nodup_setItems d.nodup⟩

@[simp] theorem get?_set (d : Dict κ ν) (k a : κ) (v : ν) :
    (d.set k v).get? a = if a = k then some v else d.get? a :=
  lookup_setItems a

/-- What an entry is after an assignment. -/
theorem of_get?_set {w : ν} (h : (d.set k v).get? a = some w) : a = k ∧ v = w ∨ a ≠ k ∧ d.get? a = some w := by
  rw [get?_set] at h
  split at h
  · exact Or.inl ⟨‹_›, Option.some.inj h⟩
  · exact Or.inr ⟨‹_›, h⟩

theorem mem_keys_set : a ∈ (d.set k v).keys ↔ a = k ∨ a ∈ d.keys :=
  mem_map_fst_setItems

variable {e : Dict κ ν}

omit [DecidableEq κ] in
/-- A dictionary is its items. -/
theorem ext_items (h : d.items = e.items) : d = e := by
  cases d
  cases e
  cases h
  rfl

/-- A new key goes to the end. -/
theorem items_set_of_notMem (h : k ∉ d.keys) (v : ν) : (d.set k v).items = d.items ++ [(k, v)] := by
  have hitems : ∀ l : List (κ × ν), k ∉ l.map Prod.fst → setItems k v l = l ++ [(k, v)] := by
    intro l hl
    induction l with
    | nil => rfl
    | cons e l ih =>
      rw [map_cons, mem_cons, not_or] at hl
      rw [setItems, if_neg (Ne.symm hl.1), ih hl.2, List.cons_append]
  exact hitems d.items h

/-- A key that is there keeps its place. -/
theorem keys_set_of_mem (h : k ∈ d.keys) (v : ν) : (d.set k v).keys = d.keys := by
  have hitems : ∀ l : List (κ × ν), k ∈ l.map Prod.fst → (setItems k v l).map Prod.fst = l.map Prod.fst := by
    intro l hl
    induction l with
    | nil => exact absurd hl List.not_mem_nil
    | cons e l ih =>
      by_cases he : e.1 = k
      · rw [setItems, if_pos he, map_cons, map_cons, he]
      · rw [map_cons, mem_cons] at hl
        rw [setItems, if_neg he, map_cons, ih (hl.resolve_left fun heq => he heq.symm), map_cons]
  exact hitems d.items h

/-- The items are the keys with what is under them. -/
theorem items_eq_map_keys (d : Dict κ ν) (v : ν) : d.items = d.keys.map fun k => (k, d.getD k v) := by
  rw [keys, List.map_map]
  conv_lhs => rw [← List.map_id d.items]
  refine List.map_congr_left fun item hitem => ?_
  exact Prod.ext rfl (getD_of_get? (get?_eq_some_iff.mpr hitem) v).symm

/-- Assigning new keys one after the other appends the items in their order. -/
theorem items_foldl_set (h : ((d.items ++ l).map Prod.fst).Nodup) :
    (l.foldl (fun d item => d.set item.1 item.2) d).items = d.items ++ l := by
  induction l generalizing d with
  | nil => simp
  | cons item l ih =>
    have hnew : item.1 ∉ d.keys := by
      rw [List.map_append, List.nodup_append] at h
      exact fun hk => h.2.2 item.1 hk item.1 (by simp) rfl
    have hset := items_set_of_notMem hnew item.2
    have happ : (d.set item.1 item.2).items ++ l = d.items ++ item :: l := by
      rw [hset, List.append_assoc, List.singleton_append]
    rw [foldl_cons, ih (happ ▸ h), happ]

/-- A dictionary is rebuilt from its items. -/
theorem foldl_set_items (d : Dict κ ν) : d.items.foldl (fun e item => e.set item.1 item.2) empty = d :=
  ext_items (items_foldl_set d.nodup)

/-- `d.setdefault(k, v)`: assign only when `k` is absent. -/
def setDefault (d : Dict κ ν) (k : κ) (v : ν) : Dict κ ν :=
  if (d.get? k).isSome then d else d.set k v

theorem get?_setDefault (d : Dict κ ν) (k a : κ) (v : ν) :
    (d.setDefault k v).get? a = if a = k then some (d.getD k v) else d.get? a := by
  unfold setDefault getD
  cases hk : d.get? k with
  | none => simp
  | some w =>
    by_cases ha : a = k
    · simp [ha, hk]
    · simp [ha]

/-- `d.pop(k, None)`: drop the entry of `k`. -/
def erase (d : Dict κ ν) (k : κ) : Dict κ ν :=
  ⟨d.items.filter fun p => p.1 ≠ k, d.nodup.sublist (List.filter_sublist.map _)⟩

theorem get?_erase (d : Dict κ ν) (k a : κ) : (d.erase k).get? a = if a = k then none else d.get? a := by
  ext v
  rw [get?_eq_some_iff]
  by_cases ha : a = k
  · simp [erase, ha]
  · simp [erase, ha, get?_eq_some_iff]

theorem of_get?_erase (h : (d.erase k).get? a = some v) : a ≠ k ∧ d.get? a = some v := by
  rw [get?_erase] at h
  split at h
  · cases h
  · exact ⟨‹_›, h⟩

/-- Counting entries across an assignment to a key that is present. -/
theorem countP_items_set (h : d.get? k = some v) (w : ν) (p : κ × ν → Bool) :
    (d.set k w).items.countP p + (if p (k, v) then 1 else 0) = d.items.countP p + (if p (k, w) then 1 else 0) := by
  have hitems : ∀ l : List (κ × ν), l.lookup k = some v → (setItems k w l).countP p + (if p (k, v) then 1 else 0) =
        l.countP p + (if p (k, w) then 1 else 0) := by
    intro l hl
    induction l with
    | nil => simp at hl
    | cons e l ih =>
      obtain ⟨a, b⟩ := e
      by_cases ha : a = k
      · subst ha
        obtain rfl : b = v := by simpa using hl
        rw [setItems, if_pos rfl, countP_cons, countP_cons]
        omega
      · have hl' : l.lookup k = some v := by
          simpa [lookup_cons, beq_false_of_ne (Ne.symm ha)] using hl
        have ih := ih hl'
        rw [setItems, if_neg ha, countP_cons, countP_cons]
        omega
  exact hitems d.items h

/-- Counting entries across the removal of a key that is present. -/
theorem countP_items_erase (h : d.get? k = some v) (p : κ × ν → Bool) :
    (d.erase k).items.countP p + (if p (k, v) then 1 else 0) = d.items.countP p := by
  have hitems : ∀ l : List (κ × ν), (l.map Prod.fst).Nodup → l.lookup k = some v →
      (l.filter fun e => e.1 ≠ k).countP p + (if p (k, v) then 1 else 0) = l.countP p := by
    intro l hnodup hl
    induction l with
    | nil => simp at hl
    | cons e l ih =>
      obtain ⟨a, b⟩ := e
      simp only [map_cons, nodup_cons] at hnodup
      by_cases ha : a = k
      · subst ha
        obtain rfl : b = v := by simpa using hl
        have hrest : (l.filter fun e => e.1 ≠ a) = l := by
          rw [List.filter_eq_self]
          intro e he
          have hne : e.1 ≠ a := fun heq => hnodup.1 (List.mem_map.mpr ⟨e, he, heq⟩)
          simpa using hne
        rw [List.filter_cons_of_neg (by simp), hrest, countP_cons]
      · have hl' : l.lookup k = some v := by
          simpa [lookup_cons, beq_false_of_ne (Ne.symm ha)] using hl
        have ih := ih hnodup.2 hl'
        rw [List.filter_cons_of_pos (by simpa using ha), countP_cons, countP_cons]
        omega
  exact hitems d.items d.nodup h

/-- Counting entries across the assignment of a new key. -/
theorem countP_items_set_of_notMem (h : k ∉ d.keys) (v : ν) (p : κ × ν → Bool) :
    (d.set k v).items.countP p = d.items.countP p + (if p (k, v) then 1 else 0) := by
  rw [items_set_of_notMem h, List.countP_append, List.countP_singleton]

/-- Drop the entries of several keys. -/
theorem items_foldl_erase (ks : List κ) (d : Dict κ ν) :
    (ks.foldl erase d).items = d.items.filter fun p => decide (p.1 ∉ ks) := by
  induction ks generalizing d with
  | nil => simp
  | cons k ks ih =>
    rw [foldl_cons, ih, erase, List.filter_filter]
    refine List.filter_congr fun p _ => ?_
    simp only [mem_cons, not_or, decide_not, Bool.decide_and]
    exact Bool.and_comm _ _

theorem get?_foldl_erase_eq (ks : List κ) (d : Dict κ ν) (a : κ) :
    (ks.foldl erase d).get? a = if a ∈ ks then none else d.get? a := by
  induction ks generalizing d with
  | nil => simp
  | cons k ks ih =>
    rw [foldl_cons, ih, get?_erase]
    by_cases hks : a ∈ ks
    · simp [hks]
    by_cases ha : a = k
    · simp [ha]
    · simp [hks, ha]

/-- What is left after several keys were dropped was there before. -/
theorem get?_foldl_erase {ks : List κ} (h : (ks.foldl erase d).get? a = some v) : d.get? a = some v := by
  rw [get?_foldl_erase_eq] at h
  split at h
  · cases h
  · exact h

/-- `{k: v for k, v in d.items() if p(k, v)}`. -/
def filter (p : κ → ν → Bool) (d : Dict κ ν) : Dict κ ν :=
  ⟨d.items.filter fun e => p e.1 e.2, d.nodup.sublist (List.filter_sublist.map _)⟩

theorem get?_filter {p : κ → ν → Bool} : (d.filter p).get? k = some v ↔ d.get? k = some v ∧ p k v = true := by
  rw [get?_eq_some_iff, get?_eq_some_iff]
  exact List.mem_filter

/-- `{k: f(v) for k, v in d.items()}`. -/
def mapValues (f : ν → μ) (d : Dict κ ν) : Dict κ μ :=
  ⟨d.items.map fun e => (e.1, f e.2), by
    rw [List.map_map]
    exact d.nodup⟩

theorem get?_mapValues (f : ν → μ) (d : Dict κ ν) (k : κ) : (d.mapValues f).get? k = (d.get? k).map f := by
  show (d.items.map fun e => (e.1, f e.2)).lookup k = (d.items.lookup k).map f
  induction d.items with
  | nil => rfl
  | cons e items ih =>
    obtain ⟨a, v⟩ := e
    by_cases hk : k = a
    · subst hk
      simp
    · simp only [map_cons, lookup_cons, beq_false_of_ne hk, ih]

/-- `{k: f(v) for k, v in d.items() if f(v) is there}`. -/
def filterMapValues (f : ν → Option μ) (d : Dict κ ν) : Dict κ μ :=
  ⟨d.items.filterMap fun e => (f e.2).map (Prod.mk e.1), by
    refine d.nodup.sublist ?_
    induction d.items with
    | nil => exact List.Sublist.slnil
    | cons e items ih =>
      rw [List.filterMap_cons]
      cases f e.2 with
      | none => exact ih.cons _
      | some w => exact ih.cons_cons _⟩

theorem get?_filterMapValues {f : ν → Option μ} {w : μ} :
    (d.filterMapValues f).get? k = some w ↔ ∃ v, d.get? k = some v ∧ f v = some w := by
  rw [get?_eq_some_iff]
  show (k, w) ∈ d.items.filterMap _ ↔ _
  rw [List.mem_filterMap]
  constructor
  · rintro ⟨⟨a, v⟩, hitem, hw⟩
    obtain ⟨w', hv, heq⟩ := Option.map_eq_some_iff.mp hw
    obtain ⟨rfl, rfl⟩ := Prod.mk.inj heq
    exact ⟨v, get?_eq_some_iff.mpr hitem, hv⟩
  · rintro ⟨v, hv, hw⟩
    exact ⟨(k, v), get?_eq_some_iff.mp hv, by rw [hw]; rfl⟩

/-- `{k: f(k) for k in ks}`. -/
def ofKeys (ks : List κ) (f : κ → ν) : Dict κ ν := ks.foldl (fun d k => d.set k (f k)) empty

theorem get?_ofKeys (ks : List κ) (f : κ → ν) (a : κ) :
    (ofKeys ks f).get? a = if a ∈ ks then some (f a) else none := by
  have hfold : ∀ d : Dict κ ν, (ks.foldl (fun d k => d.set k (f k)) d).get? a =
      if a ∈ ks then some (f a) else d.get? a := by
    induction ks with
    | nil => simp
    | cons k ks ih =>
      intro d
      rw [foldl_cons, ih, get?_set]
      by_cases hks : a ∈ ks
      · simp [hks]
      by_cases ha : a = k
      · simp [ha]
      · simp [hks, ha]
  exact hfold empty

/-- `d.update(e)`. -/
def update (d e : Dict κ ν) : Dict κ ν := e.items.foldl (fun d item => d.set item.1 item.2) d

theorem get?_foldl_set (h : (l.map Prod.fst).Nodup) (d : Dict κ ν) (a : κ) :
    (l.foldl (fun d item => d.set item.1 item.2) d).get? a = (l.lookup a).or (d.get? a) := by
  induction l generalizing d with
  | nil => simp
  | cons item l ih =>
    obtain ⟨k, v⟩ := item
    simp only [map_cons, nodup_cons] at h
    rw [foldl_cons, ih h.2, get?_set]
    by_cases ha : a = k
    · subst ha
      have hnone : l.lookup a = none := by
        rw [List.lookup_eq_none_iff]
        intro p hp
        exact bne_iff_ne.mpr fun heq => h.1 (List.mem_map.mpr ⟨p, hp, heq.symm⟩)
      simp [hnone]
    · simp [ha, lookup_cons, beq_false_of_ne ha]

/-- What is updated wins. -/
theorem get?_update (d e : Dict κ ν) (a : κ) : (d.update e).get? a = (e.get? a).or (d.get? a) :=
  get?_foldl_set e.nodup d a

/-- The rows of a table with a key of two columns whose first column is `a`. -/
def column {ι : Type} [DecidableEq ι] (d : Dict (ι × κ) ν) (a : ι) : Dict κ ν :=
  ⟨(d.items.filter fun e => e.1.1 = a).map fun e => (e.1.2, e.2), by
    have hfilter : ((d.items.filter fun e => e.1.1 = a).map Prod.fst).Nodup :=
      d.nodup.sublist (List.filter_sublist.map _)
    rw [List.map_map]
    refine List.Nodup.map_on ?_ (List.Nodup.of_map _ hfilter)
    intro e he f hf heq
    have hkey : e.1 = f.1 := Prod.ext ((of_decide_eq_true (List.mem_filter.mp he).2).trans
        (of_decide_eq_true (List.mem_filter.mp hf).2).symm) heq
    exact List.inj_on_of_nodup_map hfilter he hf hkey⟩

theorem get?_column {ι : Type} [DecidableEq ι] (d : Dict (ι × κ) ν) (a : ι) (k : κ) :
    (d.column a).get? k = d.get? (a, k) := by
  ext v
  rw [get?_eq_some_iff, get?_eq_some_iff]
  show (k, v) ∈ (d.items.filter fun e => e.1.1 = a).map (fun e => (e.1.2, e.2)) ↔ _
  rw [mem_map]
  constructor
  · rintro ⟨⟨⟨b, l⟩, w⟩, he, heq⟩
    obtain ⟨hmem, hb⟩ := List.mem_filter.mp he
    cases heq
    obtain rfl : b = a := of_decide_eq_true hb
    exact hmem
  · intro hmem
    exact ⟨((a, k), v), List.mem_filter.mpr ⟨hmem, by simp⟩, rfl⟩

/-- `l` as a dictionary of dictionaries: `ret.setdefault(a, {})[b] = v` for each `((a, b), v)` of it. -/
def nest {ι : Type} [DecidableEq ι] (l : List ((ι × κ) × ν)) : Dict ι (Dict κ ν) :=
  l.foldl (fun ret row => ret.set row.1.1 ((ret.getD row.1.1 ∅).set row.1.2 row.2)) ∅

theorem get?_nest {ι : Type} [DecidableEq ι] (d : Dict (ι × κ) ν) (a : ι) (b : κ) :
    ((nest d.items).getD a ∅).get? b = d.get? (a, b) := by
  have hfold : ∀ (l : List ((ι × κ) × ν)) (h : (l.map Prod.fst).Nodup) (ret : Dict ι (Dict κ ν)),
      ((l.foldl (fun ret row => ret.set row.1.1 ((ret.getD row.1.1 ∅).set row.1.2 row.2))
        ret).getD a ∅).get? b = (get? ⟨l, h⟩ (a, b)).or ((ret.getD a ∅).get? b) := by
    intro l
    induction l with
    | nil => exact fun _ _ => rfl
    | cons row l ih =>
      obtain ⟨⟨i, k⟩, v⟩ := row
      intro h ret
      have hnot : (i, k) ∉ l.map Prod.fst := (List.nodup_cons.mp h).1
      rw [foldl_cons, ih (List.nodup_cons.mp h).2]
      by_cases hab : (a, b) = (i, k)
      · obtain ⟨rfl, rfl⟩ := Prod.mk.inj hab
        have hnone : get? ⟨l, (List.nodup_cons.mp h).2⟩ (a, b) = none := get?_eq_none_iff.mpr hnot
        rw [hnone]
        simp [get?, getD, lookup_setItems, set]
      have hstep : ((ret.set i ((ret.getD i ∅).set k v)).getD a ∅).get? b = (ret.getD a ∅).get? b := by
        by_cases ha : a = i
        · subst ha
          have hb : b ≠ k := fun hb => hab (by rw [hb])
          simp [getD, get?_set, hb]
        · simp [getD, get?_set, ha]
      have hcons : get? ⟨((i, k), v) :: l, h⟩ (a, b) = get? ⟨l, (List.nodup_cons.mp h).2⟩ (a, b) := by
        ext w
        rw [get?_eq_some_iff, get?_eq_some_iff]
        simp [hab]
      rw [hstep, hcons]
  have hempty : ((∅ : Dict ι (Dict κ ν)).getD a ∅).get? b = none := rfl
  rw [nest, hfold d.items d.nodup ∅, hempty, Option.or_none]

/-- `d == e`: the order of the items does not count. -/
def Agrees (d e : Dict κ ν) : Prop := ∀ k, d.get? k = e.get? k

theorem Agrees.symm (h : d.Agrees e) : e.Agrees d := fun k => (h k).symm

theorem Agrees.trans {f : Dict κ ν} (h : d.Agrees e) (h' : e.Agrees f) : d.Agrees f :=
  fun k => (h k).trans (h' k)

/-! ## §3 Grouping -/

section Group

variable {α : Type} (d : Dict κ (List ν))

/-- `d.setdefault(k, []).append(v)`. -/
def appendTo (k : κ) (v : ν) : Dict κ (List ν) := d.set k (d.getD k [] ++ [v])

variable {a : κ}

theorem mem_appendTo {k : κ} {v w : ν} : w ∈ (d.appendTo k v).getD a [] ↔ w ∈ d.getD a [] ∨ (k = a ∧ v = w) := by
  unfold appendTo getD
  by_cases ha : a = k
  · subst ha
    simp [eq_comm]
  · simp [ha, Ne.symm ha]

theorem mem_foldl_appendTo (f : α → κ) (g : α → ν) (l : List α) {w : ν} :
    w ∈ (l.foldl (fun d x => d.appendTo (f x) (g x)) d).getD a [] ↔
      w ∈ d.getD a [] ∨ ∃ x ∈ l, f x = a ∧ g x = w := by
  induction l generalizing d with
  | nil => simp
  | cons x l ih =>
    rw [foldl_cons, ih, mem_appendTo, or_assoc]
    simp only [mem_cons, exists_eq_or_imp]

theorem mem_keys_foldl_appendTo (f : α → κ) (g : α → ν) (l : List α) :
    a ∈ (l.foldl (fun d x => d.appendTo (f x) (g x)) d).keys ↔
      a ∈ d.keys ∨ ∃ x ∈ l, f x = a := by
  induction l generalizing d with
  | nil => simp
  | cons x l ih =>
    rw [foldl_cons, ih]
    simp only [appendTo, mem_keys_set, mem_cons, exists_eq_or_imp, eq_comm (a := a)]
    tauto

end Group

end Dict

end Setka.Lib
