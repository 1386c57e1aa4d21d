/-
# Setka.Util.CacheItems — the items of a dictionary or a tree, in a list.

A table that is written more than once under a key, and whose values may stand under several keys, is a list
of items with distinct keys. What the operations do is said of this list, up to its order; the size that a
tree reports is left aside.
-/
import Setka.Util.CacheType

namespace Setka.Util

open Setka.Api Setka.Lib Dict
open List (map_map mem_map)

variable {κ α ρ : Type}

/-! ## §1 Iterating over the items -/

mutual

/-- `iterate_tree_cache_items`. -/
def TreeEntry.itemsFrom (key : List α) : TreeEntry α ρ → List (List α × ρ)
  | .leaf value => [(key, value)]
  | .node children => childItems key children

def childItems (key : List α) : List (α × TreeEntry α ρ) → List (List α × ρ)
  | [] => []
  | (k, entry) :: rest => entry.itemsFrom (key ++ [k]) ++ childItems key rest

end

theorem TreeEntry.Uniform.itemsFrom {n : ℕ} {entry : TreeEntry α ρ} (h : entry.Uniform n)
    (key : List α) : entry.itemsFrom key = (entry.items n).map fun item => (key ++ item.1, item.2) := by
  induction n generalizing entry key with
  | zero =>
    cases entry with
    | leaf v => simp [TreeEntry.itemsFrom, TreeEntry.items]
    | node children => exact absurd h id
  | succ n ih =>
    cases entry with
    | leaf v => exact absurd h id
    | node children =>
      obtain ⟨-, hchildren⟩ := h
      rw [TreeEntry.itemsFrom]
      induction children with
      | nil => simp [childItems, TreeEntry.items]
      | cons c children ihc =>
        rw [childItems, ih (hchildren c List.mem_cons_self),
          ihc fun d hd => hchildren d (List.mem_cons_of_mem c hd)]
        simp [TreeEntry.items, Function.comp_def]

namespace CacheType

/-- `items()`: in a tree the keys are tuples. -/
def items : (t : CacheType κ α) → t.Data ρ → List (MultiKey κ α × ρ)
  | .dict, d => (Dict.items d).map fun item => (.full item.1, item.2)
  | .treeCache _, c =>
    ((TreeEntry.node (TreeCache.root c)).itemsFrom []).map fun item => (.parts item.1, item.2)

variable [DecidableEq κ] [DecidableEq α]

/-- `key == key'` in Python: the key of a tree is its tuple. -/
def SameKey : CacheType κ α → MultiKey κ α → κ → Prop
  | _, .full key, key' => key' = key
  | .dict, .parts _, _ => False
  | .treeCache keys, .parts parts, key' => keys.parts key' = parts

instance (t : CacheType κ α) (key : MultiKey κ α) (key' : κ) : Decidable (t.SameKey key key') :=
  match t, key with
  | .dict, .full key => inferInstanceAs (Decidable (key' = key))
  | .treeCache _, .full key => inferInstanceAs (Decidable (key' = key))
  | .dict, .parts _ => inferInstanceAs (Decidable False)
  | .treeCache keys, .parts parts => inferInstanceAs (Decidable (keys.parts key' = parts))

/-! ## §2 A table as a list of items -/

/-- The tuples of the keys. -/
def tuples (keys : TupleKeys κ α) (l : List (κ × ρ)) : List (List α × ρ) :=
  l.map fun item => (keys.parts item.1, item.2)

variable {keys : TupleKeys κ α} {l : List (κ × ρ)}

omit [DecidableEq κ] [DecidableEq α] in
theorem mem_tuples {item : List α × ρ} : item ∈ tuples keys l ↔ ∃ a ∈ l, (keys.parts a.1, a.2) = item :=
  mem_map

/-- The items of the table are those of the list. -/
def Has : (t : CacheType κ α) → t.Data ρ → List (κ × ρ) → Prop
  | .dict, d, l => (Dict.items d).Perm l
  | .treeCache keys, c, l => (TreeEntry.node (TreeCache.root c)).Uniform (keys.arity + 1) ∧
      (TreeCache.items keys.arity c).Perm (tuples keys l)

omit [DecidableEq κ] [DecidableEq α] in
theorem has_new (t : CacheType κ α) : t.Has (t.new : t.Data ρ) [] := by
  cases t with
  | dict => exact List.Perm.refl _
  | treeCache keys => exact ⟨(TreeCache.wf_new keys.arity).uniform, List.Perm.refl _⟩

variable {t : CacheType κ α}

omit [DecidableEq κ] [DecidableEq α] in
theorem Has.nodup {c : t.Data ρ} (h : t.Has c l) : (l.map Prod.fst).Nodup := by
  cases t with
  | dict => exact (h.map Prod.fst).nodup_iff.mp (Dict.nodup c)
  | treeCache keys =>
    have hkeys := (h.2.map Prod.fst).nodup_iff.mp h.1.nodup_items
    rw [tuples, map_map] at hkeys
    refine List.Nodup.of_map keys.parts ?_
    rwa [map_map]

omit [DecidableEq κ] [DecidableEq α] in
theorem Has.perm {c : t.Data ρ} {l' : List (κ × ρ)} (h : t.Has c l) (hl : l.Perm l') : t.Has c l' := by
  cases t with
  | dict => exact List.Perm.trans h hl
  | treeCache keys => exact ⟨h.1, h.2.trans (hl.map _)⟩

variable {key : κ}

omit [DecidableEq κ] [DecidableEq α] in
theorem Has.mem_tree {c : TreeCache α ρ} (h : (CacheType.treeCache keys).Has (ρ := ρ) c l) {value : ρ} :
    (keys.parts key, value) ∈ TreeCache.items keys.arity c ↔ (key, value) ∈ l := by
  rw [h.2.mem_iff, mem_tuples]
  constructor
  · rintro ⟨⟨key', value'⟩, hmem, heq⟩
    obtain ⟨hparts, rfl⟩ := Prod.mk.inj heq
    rwa [← keys.parts_injective hparts]
  · exact fun hmem => ⟨_, hmem, rfl⟩

/-- **`get`** finds the item of the key. -/
theorem Has.get {c : t.Data ρ} (h : t.Has c l) (key : κ) : t.get c key = .ok ((t.lookup c key).map .leaf) ∧
      ∀ value, t.lookup c key = some value ↔ (key, value) ∈ l := by
  cases t with
  | dict =>
    refine ⟨rfl, fun value => ?_⟩
    rw [← List.Perm.mem_iff h]
    exact get?_eq_some_iff
  | treeCache keys =>
    obtain ⟨o, hget, ho⟩ := TreeCache.getIn_spec h.1 (keys.length_parts key)
    have hget' : TreeCache.get c (keys.parts key) = .ok (o.map .leaf) := hget
    have hlookup : (CacheType.treeCache keys).lookup (ρ := ρ) c key = o := by
      simp only [lookup, hget']
      cases o with
      | none => rfl
      | some value => rfl
    refine ⟨?_, fun value => ?_⟩
    · rw [hlookup]
      exact hget'
    · rw [hlookup, ho, ← h.mem_tree]
      exact Iff.rfl

/-! ## §3 Setting and popping -/

omit [DecidableEq κ] [DecidableEq α] in
theorem perm_of_mem_iff {β : Type} {l l' : List (β × ρ)} (h : (l.map Prod.fst).Nodup)
    (h' : (l'.map Prod.fst).Nodup) (hmem : ∀ item, item ∈ l ↔ item ∈ l') : l.Perm l' :=
  (List.perm_ext_iff_of_nodup h.of_map h'.of_map).mpr hmem

omit [DecidableEq κ] [DecidableEq α] in
theorem nodup_filter (h : (l.map Prod.fst).Nodup) (p : κ × ρ → Bool) : ((l.filter p).map Prod.fst).Nodup :=
  h.sublist (List.filter_sublist.map Prod.fst)

omit [DecidableEq α] in
theorem nodup_cons_filter (h : (l.map Prod.fst).Nodup) (key : κ) (value : ρ) :
    (((key, value) :: l.filter fun item => item.1 ≠ key).map Prod.fst).Nodup := by
  refine List.nodup_cons.mpr ⟨fun hmem => ?_, nodup_filter h _⟩
  obtain ⟨item, hitem, heq⟩ := List.mem_map.mp hmem
  exact of_decide_eq_true (List.mem_filter.mp hitem).2 heq

omit [DecidableEq κ] [DecidableEq α] in
theorem nodup_tuples (h : (l.map Prod.fst).Nodup) : ((tuples keys l).map Prod.fst).Nodup := by
  have hmap := h.map keys.parts_injective
  rw [map_map] at hmap
  rw [tuples, map_map]
  exact hmap

/-- **Setting a key** puts its item in the place of the old one. -/
theorem Has.set {c : t.Data ρ} (h : t.Has c l) (key : κ) (value : ρ) : ∃ c', t.set c key value = .ok c' ∧
      t.Has c' ((key, value) :: l.filter fun item => item.1 ≠ key) := by
  have hnodup := nodup_cons_filter h.nodup key value
  cases t with
  | dict =>
    refine ⟨_, rfl, perm_of_mem_iff (Dict.nodup _) hnodup fun item => ?_⟩
    have hget := get?_set c key item.1 value
    rw [← get?_eq_some_iff (d := Dict.set c key value), hget, List.mem_cons, List.mem_filter,
      ← List.Perm.mem_iff h, ← get?_eq_some_iff (d := c)]
    obtain ⟨key', value'⟩ := item
    by_cases hk : key' = key
    · simp [hk, eq_comm]
    · simp [hk]
  | treeCache keys =>
    obtain ⟨root, hset, huniform, hmem⟩ := TreeCache.setIn_spec h.1 (keys.length_parts key) value
    refine ⟨⟨TreeCache.size c + 1, root⟩, ?_, huniform, ?_⟩
    · simp only [CacheType.set, TreeCache.set, hset]
      rfl
    refine perm_of_mem_iff huniform.nodup_items (nodup_tuples hnodup) ?_
    rintro ⟨parts, value'⟩
    show (parts, value') ∈ (TreeEntry.node root).items _ ↔ _
    rw [hmem]
    show _ ∨ _ ∧ (parts, value') ∈ TreeCache.items keys.arity c ↔ _
    rw [h.2.mem_iff, mem_tuples, mem_tuples]
    constructor
    · rintro (⟨rfl, rfl⟩ | ⟨hne, ⟨key', value''⟩, hitem, heq⟩)
      · exact ⟨(key, value'), List.mem_cons_self, rfl⟩
      · obtain ⟨rfl, rfl⟩ := Prod.mk.inj heq
        refine ⟨(key', value''), List.mem_cons_of_mem _ (List.mem_filter.mpr ⟨hitem, ?_⟩), rfl⟩
        simpa using fun heq : key' = key => hne (by rw [heq])
    rintro ⟨⟨key', value''⟩, hitem, heq⟩
    obtain ⟨rfl, rfl⟩ := Prod.mk.inj heq
    rcases List.mem_cons.mp hitem with heq | hitem
    · obtain ⟨rfl, rfl⟩ := Prod.mk.inj heq
      exact Or.inl ⟨rfl, rfl⟩
    obtain ⟨hitem, hne⟩ := List.mem_filter.mp hitem
    refine Or.inr ⟨fun heq => ?_, ⟨_, hitem, rfl⟩⟩
    exact of_decide_eq_true hne (keys.parts_injective heq)

/-- What a `pop` takes out, and what it leaves. -/
structure Took (t : CacheType κ α) (l : List (κ × ρ)) (key : MultiKey κ α) (popped : TreeEntry α ρ)
    (c' : t.Data ρ) : Prop where
  left : t.Has c' (l.filter fun item => ¬ t.Matches key item.1)
  leaves : popped.leaves.Perm ((l.filter fun item => t.Matches key item.1).map Prod.snd)

/-- What is left in a tree, and taken from it, when the items under a tuple go. -/
theorem Has.pop_tree {c : TreeCache α ρ} (h : (CacheType.treeCache keys).Has (ρ := ρ) c l) {parts : List α}
    (hne : parts ≠ []) (hlength : parts.length ≤ keys.arity + 1) :
    TreeCache.pop c parts = .ok (none, c) ∧ (∀ item ∈ l, ¬ parts <+: keys.parts item.1) ∨
      ∃ popped c', TreeCache.pop c parts = .ok (some popped, c') ∧
        (CacheType.treeCache keys).Took l (.parts parts) popped c' ∧
        (parts.length = keys.arity + 1 → ∃ value, popped = .leaf value) := by
  have hmatches : ∀ key, (CacheType.treeCache keys).Matches (.parts parts) key ↔
      parts <+: keys.parts key := fun key => and_iff_right hne
  rcases TreeCache.popIn_spec h.1 hne hlength with ⟨hnone, hnot⟩ | ⟨popped, root, heq, hpopped⟩
  · refine Or.inl ⟨by rw [TreeCache.pop, hnone]; rfl, fun item hitem hbegins => ?_⟩
    exact hnot _ item.2 (h.mem_tree.mpr hitem) hbegins
  refine Or.inr ⟨popped, ⟨TreeCache.size c - popped.leaves.length, root⟩,
    by rw [TreeCache.pop, heq]; rfl, ⟨⟨hpopped.left, ?_⟩, ?_⟩, fun hfull => ?_⟩
  · refine perm_of_mem_iff hpopped.left.nodup_items (nodup_tuples (nodup_filter h.nodup _)) ?_
    rintro ⟨parts', value⟩
    show (parts', value) ∈ (TreeEntry.node root).items _ ↔ _
    rw [hpopped.mem_left]
    show (parts', value) ∈ TreeCache.items keys.arity c ∧ _ ↔ _
    rw [h.2.mem_iff, mem_tuples, mem_tuples]
    constructor
    · rintro ⟨⟨item, hitem, heq⟩, hnot⟩
      obtain ⟨rfl, rfl⟩ := Prod.mk.inj heq
      exact ⟨item, List.mem_filter.mpr ⟨hitem, by simpa [hmatches] using hnot⟩, rfl⟩
    rintro ⟨item, hitem, heq⟩
    obtain ⟨rfl, rfl⟩ := Prod.mk.inj heq
    obtain ⟨hitem, hnot⟩ := List.mem_filter.mp hitem
    exact ⟨⟨item, hitem, rfl⟩, by simpa [hmatches] using hnot⟩
  · -- the items below the tuple, with the tuple put in front again
    rw [hpopped.uniform.leaves]
    have hperm : ((popped.items (keys.arity + 1 - parts.length)).map fun item => (parts ++ item.1, item.2)).Perm
          (tuples keys (l.filter fun item =>
            (CacheType.treeCache keys).Matches (.parts parts) item.1)) := by
      refine perm_of_mem_iff ?_ (nodup_tuples (nodup_filter h.nodup _)) ?_
      · rw [map_map]
        have hmap := hpopped.uniform.nodup_items.map (f := (parts ++ ·)) fun a b hab => List.append_cancel_left hab
        rwa [map_map] at hmap
      rintro ⟨parts', value⟩
      rw [tuples, mem_map, mem_map]
      constructor
      · rintro ⟨⟨rest, v⟩, hitem, heq⟩
        obtain ⟨rfl, rfl⟩ := Prod.mk.inj heq
        have hin := (hpopped.mem_popped rest v).mp hitem
        obtain ⟨item, hitem', heq⟩ := List.mem_map.mp (h.2.mem_iff.mp hin)
        obtain ⟨hparts, rfl⟩ := Prod.mk.inj heq
        refine ⟨item, List.mem_filter.mpr ⟨hitem', ?_⟩, heq⟩
        rw [decide_eq_true_eq, hmatches, hparts]
        exact List.prefix_append parts rest
      · rintro ⟨item, hitem, heq⟩
        obtain ⟨rfl, rfl⟩ := Prod.mk.inj heq
        obtain ⟨hitem, hmatch⟩ := List.mem_filter.mp hitem
        obtain ⟨rest, hrest⟩ := (hmatches item.1).mp (of_decide_eq_true hmatch)
        refine ⟨(rest, item.2), (hpopped.mem_popped rest item.2).mpr ?_, by rw [hrest]⟩
        rw [hrest]
        exact h.mem_tree.mpr hitem
    have hsnd := hperm.map Prod.snd
    rwa [tuples, map_map, map_map] at hsnd
  · have huniform := hpopped.uniform
    rw [hfull, Nat.sub_self] at huniform
    cases popped with
    | leaf value => exact ⟨value, rfl⟩
    | node children => exact absurd huniform id

variable {key' : κ}

omit [DecidableEq κ] [DecidableEq α] in
/-- The tuple of a key is the beginning of no other one. -/
theorem matches_parts : (CacheType.treeCache keys).Matches (.parts (keys.parts key)) key' ↔ key' = key := by
  have hlength := keys.length_parts key
  constructor
  · rintro ⟨-, hbegins⟩
    exact (keys.parts_injective (hbegins.eq_of_length (hlength.trans (keys.length_parts key').symm))).symm
  · rintro rfl
    exact ⟨List.ne_nil_of_length_eq_add_one hlength, List.prefix_refl _⟩

/-- **A full key** is popped with its value. -/
theorem Has.pop_full {c : t.Data ρ} (h : t.Has c l) (key : κ) :
    t.pop c (.full key) = .ok (none, c) ∧ (∀ value, (key, value) ∉ l) ∨
      ∃ value c', (key, value) ∈ l ∧ t.pop c (.full key) = .ok (some (.leaf value), c') ∧
        t.Has c' (l.filter fun item => item.1 ≠ key) := by
  cases t with
  | dict =>
    cases hget : Dict.get? c key with
    | none =>
      refine Or.inl ⟨by simp only [CacheType.pop, hget], fun value hitem => ?_⟩
      have hsome := get?_eq_some_iff.mpr ((List.Perm.mem_iff h).mpr hitem)
      exact absurd (hget.symm.trans hsome) (by simp)
    | some value =>
      refine Or.inr ⟨value, Dict.erase c key, (List.Perm.mem_iff h).mp (get?_eq_some_iff.mp hget),
        by simp only [CacheType.pop, hget], ?_⟩
      exact List.Perm.filter (fun item => item.1 ≠ key) h
  | treeCache keys =>
    have hlength := keys.length_parts key
    rcases h.pop_tree (List.ne_nil_of_length_eq_add_one hlength) (Nat.le_of_eq hlength) with
      ⟨hnone, hnot⟩ | ⟨popped, c', hpop, htook, hleaf⟩
    · exact Or.inl ⟨hnone, fun value hitem => hnot _ hitem (List.prefix_refl _)⟩
    obtain ⟨value, rfl⟩ := hleaf hlength
    have hleft := htook.left
    simp only [matches_parts] at hleft
    refine Or.inr ⟨value, c', ?_, hpop, by simpa using hleft⟩
    have hin := htook.leaves.mem_iff.mp (List.mem_singleton_self value)
    obtain ⟨item, hitem, rfl⟩ := List.mem_map.mp hin
    obtain ⟨hitem, hmatch⟩ := List.mem_filter.mp hitem
    rw [decide_eq_true_eq, matches_parts] at hmatch
    rw [← hmatch]
    exact hitem

/-- **`pop`** takes out the items of the keys it is about: it may raise only where there are none. -/
theorem Has.pop {c : t.Data ρ} (h : t.Has c l) (key : MultiKey κ α) :
    (t.pop c key = .ok (none, c) ∨ t.Invalid key ∧ ∃ e, t.pop c key = .error e) ∧
        (∀ item ∈ l, ¬ t.Matches key item.1) ∨
      ¬ t.Invalid key ∧ ∃ popped c', t.pop c key = .ok (some popped, c') ∧ t.Took l key popped c' := by
  cases key with
  | full key =>
    rcases h.pop_full key with ⟨hnone, hnot⟩ | ⟨value, c', hitem, hpop, hleft⟩
    · refine Or.inl ⟨Or.inl hnone, fun item hitem hmatch => hnot item.2 ?_⟩
      rw [← matches_full.mp hmatch]
      exact hitem
    have hvalid : ¬ t.Invalid (.full key) := by
      cases t with
      | dict => exact fun hinvalid => hinvalid
      | treeCache keys => exact fun hinvalid => hinvalid
    refine Or.inr ⟨hvalid, .leaf value, c', hpop, by simpa only [matches_full] using hleft, ?_⟩
    have hone : (l.filter fun item => t.Matches (.full key) item.1).Perm [(key, value)] := by
      refine perm_of_mem_iff (nodup_filter h.nodup _) (by simp) fun item => ?_
      rw [List.mem_filter, List.mem_singleton, decide_eq_true_eq, matches_full]
      constructor
      · rintro ⟨hitem', rfl⟩
        have hvalue := ((h.get item.1).2 item.2).mpr hitem'
        exact Prod.ext rfl (Option.some.inj (hvalue.symm.trans (((h.get item.1).2 value).mpr hitem)))
      · rintro rfl
        exact ⟨hitem, rfl⟩
    exact (hone.map Prod.snd).symm
  | parts parts =>
  cases t with
  | dict => exact Or.inl ⟨Or.inl rfl, fun _ _ hmatch => hmatch⟩
  | treeCache keys =>
    by_cases hvalid : parts = [] ∨ keys.arity + 1 < parts.length
    · refine Or.inl ⟨?_, fun item _ hmatch => ?_⟩
      · rcases hvalid with rfl | hlong
        · refine Or.inr ⟨Or.inl rfl, .indexError, ?_⟩
          rfl
        · rcases TreeCache.popIn_of_length_lt h.1 hlong with hnone | ⟨e, he⟩
          · exact Or.inl (by simp only [CacheType.pop, TreeCache.pop, hnone]; rfl)
          · exact Or.inr ⟨Or.inr hlong, e, by simp only [CacheType.pop, TreeCache.pop, he]; rfl⟩
      · have hle := hmatch.2.length_le
        rw [keys.length_parts] at hle
        rcases hvalid with hnil | hlong
        · exact hmatch.1 hnil
        · omega
    · obtain ⟨hne, hle⟩ := not_or.mp hvalid
      rcases h.pop_tree hne (Nat.le_of_not_lt hle) with ⟨hnone, hnot⟩ | ⟨popped, c', hpop, htook, -⟩
      · exact Or.inl ⟨Or.inl hnone, fun item hitem hmatch => hnot item hitem hmatch.2⟩
      · exact Or.inr ⟨hvalid, popped, c', hpop, htook⟩

/-- The key of an item, as `items` yields it. -/
def itemKey : CacheType κ α → κ → MultiKey κ α
  | .dict, key => .full key
  | .treeCache keys, key => .parts (keys.parts key)

omit [DecidableEq κ] [DecidableEq α] in
theorem sameKey_itemKey : t.SameKey (t.itemKey key) key' ↔ key' = key := by
  cases t with
  | dict => exact Iff.rfl
  | treeCache keys => exact keys.parts_injective.eq_iff

omit [DecidableEq κ] [DecidableEq α] in
theorem sameKey_full : t.SameKey (.full key) key' ↔ key' = key := by
  cases t with
  | dict => exact Iff.rfl
  | treeCache keys => exact Iff.rfl

omit [DecidableEq κ] [DecidableEq α] in
theorem Has.items {c : t.Data ρ} (h : t.Has c l) :
    (t.items c).Perm (l.map fun item => (t.itemKey item.1, item.2)) := by
  cases t with
  | dict => exact List.Perm.map _ h
  | treeCache keys =>
    have hitems := h.2.map fun item : List α × ρ => ((.parts item.1 : MultiKey κ α), item.2)
    rw [tuples, map_map] at hitems
    refine List.Perm.trans (List.Perm.of_eq ?_) hitems
    simp only [CacheType.items]
    rw [h.1.itemsFrom]
    simp [TreeCache.items]

end CacheType

end Setka.Util
