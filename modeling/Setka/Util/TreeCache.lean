/-
# Setka.Util.TreeCache — a tree of dictionaries under tuples as keys.

The parts of a key lead from the root to a value, one dictionary a part. A shorter key leads to a subtree,
which can be dropped as a whole. A tree whose values are all equally deep is the list of its items, and
what the operations do is said of these.
-/
import Setka.Api.Errors
import Setka.Lib.Dict
import Mathlib.Data.Int.Notation
import Mathlib.Data.List.Perm.Basic

namespace Setka.Util

open Setka.Api Setka.Lib Dict Function

/-! ## §1 The tree and its operations -/

/-- What is stored under a part of a key: a value, or a `TreeCacheNode`, the dictionary of the next part. -/
inductive TreeEntry (α ν : Type)
  | leaf (value : ν)
  | node (children : List (α × TreeEntry α ν))

mutual

/-- `iterate_tree_cache_entry`. -/
def TreeEntry.leaves {α ν : Type} : TreeEntry α ν → List ν
  | .leaf value => [value]
  | .node children => leavesOf children

def leavesOf {α ν : Type} : List (α × TreeEntry α ν) → List ν
  | [] => []
  | (_, entry) :: rest => entry.leaves ++ leavesOf rest

end

/-- `TreeCache`: its root is a `TreeCacheNode`. -/
structure TreeCache (α ν : Type) where
  size : ℤ
  root : List (α × TreeEntry α ν)

namespace TreeCache

variable {α ν : Type} [DecidableEq α]

/-- `__init__`. -/
def new : TreeCache α ν := ⟨0, []⟩

/-- The way `set` goes down the tree, and what it leaves on it. -/
def setIn : List (α × TreeEntry α ν) → List α → ν → Except Error (List (α × TreeEntry α ν))
  | _, [], _ => .error .indexError
  | children, [k], value => .ok (Dict.setItems k (.leaf value) children)
  | children, k :: k' :: rest, value =>
    match children.lookup k with
    | none => (setIn [] (k' :: rest) value).map fun c => Dict.setItems k (.node c) children
    | some (.node c) =>
      (setIn c (k' :: rest) value).map fun c => Dict.setItems k (.node c) children
    | some (.leaf _) => .error .valueError

/-- `set`. -/
def set (t : TreeCache α ν) (key : List α) (value : ν) : Except Error (TreeCache α ν) :=
  (setIn t.root key value).map fun root => ⟨t.size + 1, root⟩

def getIn : List (α × TreeEntry α ν) → List α → Except Error (Option (TreeEntry α ν))
  | _, [] => .error .indexError
  | children, [k] => .ok (children.lookup k)
  | children, k :: k' :: rest =>
    match children.lookup k with
    | none => .ok none
    | some (.node c) => getIn c (k' :: rest)
    | some (.leaf _) => .error .attributeError

/-- `get`, with `None` for no entry. -/
def get (t : TreeCache α ν) (key : List α) : Except Error (Option (TreeEntry α ν)) :=
  getIn t.root key

/-- The way `pop` goes down the tree, and up again: nodes that have become empty are removed. -/
def popIn : List (α × TreeEntry α ν) → List α → Except Error (Option (TreeEntry α ν × List (α × TreeEntry α ν)))
  | _, [] => .error .indexError
  | children, [k] =>
    match children.lookup k with
    | none => .ok none
    | some popped => .ok (some (popped, children.filter fun c => c.1 ≠ k))
  | children, k :: k' :: rest =>
    match children.lookup k with
    | none => .ok none
    | some (.leaf _) => .error .valueError
    | some (.node c) =>
      (popIn c (k' :: rest)).map fun r => r.map fun r =>
        (r.1, if r.2.isEmpty then children.filter fun c => c.1 ≠ k
          else Dict.setItems k (.node r.2) children)

/-- `pop`. -/
def pop (t : TreeCache α ν) (key : List α) : Except Error (Option (TreeEntry α ν) × TreeCache α ν) :=
  (popIn t.root key).map fun r =>
    match r with
    | none => (none, t)
    | some (popped, root) => (some popped, ⟨t.size - popped.leaves.length, root⟩)

/-- `values`. -/
def values (t : TreeCache α ν) : List ν := leavesOf t.root

end TreeCache

/-! ## §2 The items of a tree -/

variable {α ν : Type}

/-- All values are as many parts deep, and no node has a part twice. -/
def TreeEntry.Uniform : ℕ → TreeEntry α ν → Prop
  | 0, .leaf _ => True
  | n + 1, .node children =>
    (children.map Prod.fst).Nodup ∧ ∀ c ∈ children, Uniform n c.2
  | _, _ => False

/-- The items of such a tree, with what is left of their keys below it. -/
def TreeEntry.items : ℕ → TreeEntry α ν → List (List α × ν)
  | 0, .leaf value => [([], value)]
  | n + 1, .node children =>
    children.flatMap fun c => (items n c.2).map fun item => (c.1 :: item.1, item.2)
  | _, _ => []

variable {n : ℕ} {value : ν}

theorem mem_items_node {children : List (α × TreeEntry α ν)} {key : List α} :
    (key, value) ∈ (TreeEntry.node children).items (n + 1) ↔
      ∃ k rest entry, key = k :: rest ∧ (k, entry) ∈ children ∧ (rest, value) ∈ entry.items n := by
  simp only [TreeEntry.items, List.mem_flatMap, List.mem_map, Prod.mk.injEq, Prod.exists]
  constructor
  · rintro ⟨k, entry, hchild, rest, v, hitem, rfl, rfl⟩
    exact ⟨k, rest, entry, rfl, hchild, hitem⟩
  · rintro ⟨k, rest, entry, rfl, hchild, hitem⟩
    exact ⟨k, entry, hchild, rest, value, hitem, rfl, rfl⟩

theorem mem_items_cons {children : List (α × TreeEntry α ν)} {k : α}
    {rest : List α} : (k :: rest, value) ∈ (TreeEntry.node children).items (n + 1) ↔
      ∃ entry, (k, entry) ∈ children ∧ (rest, value) ∈ entry.items n := by
  rw [mem_items_node]
  constructor
  · rintro ⟨k', rest', entry, heq, hchild, hitem⟩
    obtain ⟨rfl, rfl⟩ := List.cons_eq_cons.mp heq
    exact ⟨entry, hchild, hitem⟩
  · rintro ⟨entry, hchild, hitem⟩
    exact ⟨k, rest, entry, rfl, hchild, hitem⟩

variable {entry : TreeEntry α ν}

theorem length_of_mem_items {key : List α} (h : (key, value) ∈ entry.items n) : key.length = n := by
  induction n generalizing entry key with
  | zero =>
    cases entry with
    | leaf v =>
      obtain ⟨rfl, -⟩ := Prod.mk.inj (List.mem_singleton.mp h)
      rfl
    | node children => cases h
  | succ n ih =>
    cases entry with
    | leaf v => cases h
    | node children =>
      obtain ⟨k, rest, entry, rfl, -, hitem⟩ := mem_items_node.mp h
      rw [List.length_cons, ih hitem]

/-- No key has two items. -/
theorem TreeEntry.Uniform.nodup_items (h : entry.Uniform n) : ((entry.items n).map Prod.fst).Nodup := by
  induction n generalizing entry with
  | zero =>
    cases entry with
    | leaf v => exact List.nodup_singleton _
    | node children => exact absurd h id
  | succ n ih =>
    cases entry with
    | leaf v => exact absurd h id
    | node children =>
      obtain ⟨hkeys, hchildren⟩ := h
      induction children with
      | nil => exact List.nodup_nil
      | cons c children ihc =>
        obtain ⟨hc, hrest⟩ := List.nodup_cons.mp hkeys
        have htail := ihc hrest fun d hd => hchildren d (List.mem_cons_of_mem c hd)
        have hhead := ih (hchildren c List.mem_cons_self)
        have hitems : ((TreeEntry.node (c :: children)).items (n + 1)).map Prod.fst =
            ((c.2.items n).map Prod.fst).map (c.1 :: ·) ++
              ((TreeEntry.node children).items (n + 1)).map Prod.fst := by
          simp [TreeEntry.items, comp_def]
        rw [hitems]
        refine (hhead.map fun a b hab => (List.cons_eq_cons.mp hab).2).append htail ?_
        -- a key starts with the part it was found under
        intro key hleft hright
        obtain ⟨rest, -, rfl⟩ := List.mem_map.mp hleft
        obtain ⟨⟨key', value⟩, hitem, heq⟩ := List.mem_map.mp hright
        obtain rfl : key' = c.1 :: rest := heq
        obtain ⟨entry, hchild, -⟩ := mem_items_cons.mp hitem
        exact hc (List.mem_map.mpr ⟨_, hchild, rfl⟩)

/-- The leaves are the values of the items. -/
theorem TreeEntry.Uniform.leaves (h : entry.Uniform n) : entry.leaves = (entry.items n).map Prod.snd := by
  induction n generalizing entry with
  | zero =>
    cases entry with
    | leaf v => simp [TreeEntry.leaves, TreeEntry.items]
    | node children => exact absurd h id
  | succ n ih =>
    cases entry with
    | leaf v => exact absurd h id
    | node children =>
      obtain ⟨-, hchildren⟩ := h
      rw [TreeEntry.leaves]
      induction children with
      | nil => simp [leavesOf, TreeEntry.items]
      | cons c children ihc =>
        rw [leavesOf, ih (hchildren c List.mem_cons_self), ihc fun d hd => hchildren d (List.mem_cons_of_mem c hd)]
        simp [TreeEntry.items, comp_def]

/-! ### A child is replaced or removed -/

section Children

variable [DecidableEq α]

theorem mem_setItems {κ μ : Type} [DecidableEq κ] {l : List (κ × μ)}
    (h : (l.map Prod.fst).Nodup) {k a : κ} {b c : μ} :
    (a, b) ∈ Dict.setItems k c l ↔ a = k ∧ b = c ∨ a ≠ k ∧ (a, b) ∈ l := by
  rw [← lookup_eq_some_iff (nodup_setItems h), lookup_setItems, ← lookup_eq_some_iff h]
  by_cases ha : a = k
  · simp [ha, eq_comm]
  · simp [ha]

variable {n : ℕ} {children : List (α × TreeEntry α ν)} {k : α} {rest : List α} {value : ν}

/-- The items under a part are those of its child. -/
theorem mem_items_lookup (h : (children.map Prod.fst).Nodup) :
    (k :: rest, value) ∈ (TreeEntry.node children).items (n + 1) ↔
      ∃ entry, children.lookup k = some entry ∧ (rest, value) ∈ entry.items n := by
  simp only [mem_items_cons, lookup_eq_some_iff h]

variable {entry : TreeEntry α ν}

theorem mem_items_setItems (h : (children.map Prod.fst).Nodup) {a : α} :
    (a :: rest, value) ∈ (TreeEntry.node (Dict.setItems k entry children)).items (n + 1) ↔
      a = k ∧ (rest, value) ∈ entry.items n ∨
        a ≠ k ∧ (a :: rest, value) ∈ (TreeEntry.node children).items (n + 1) := by
  simp only [mem_items_cons, mem_setItems h]
  by_cases ha : a = k
  · simp [ha]
  · simp [ha]

theorem mem_items_filter {a : α} : (a :: rest, value) ∈
        (TreeEntry.node (children.filter fun c => c.1 ≠ k)).items (n + 1) ↔
      a ≠ k ∧ (a :: rest, value) ∈ (TreeEntry.node children).items (n + 1) := by
  simp only [mem_items_cons, List.mem_filter, decide_eq_true_eq]
  constructor
  · rintro ⟨entry, ⟨hchild, hne⟩, hitem⟩
    exact ⟨hne, entry, hchild, hitem⟩
  · rintro ⟨hne, entry, hchild, hitem⟩
    exact ⟨entry, ⟨hchild, hne⟩, hitem⟩

theorem uniform_setItems (h : (TreeEntry.node children).Uniform (n + 1)) (hentry : entry.Uniform n) :
    (TreeEntry.node (Dict.setItems k entry children)).Uniform (n + 1) := by
  refine ⟨nodup_setItems h.1, ?_⟩
  rintro ⟨a, b⟩ hmem
  rcases (mem_setItems h.1).mp hmem with ⟨-, rfl⟩ | ⟨-, hmem⟩
  · exact hentry
  · exact h.2 _ hmem

omit [DecidableEq α] in
theorem uniform_filter (h : (TreeEntry.node children).Uniform (n + 1)) (p : α × TreeEntry α ν → Bool) :
    (TreeEntry.node (children.filter p)).Uniform (n + 1) :=
  ⟨h.1.sublist (List.filter_sublist.map Prod.fst), fun c hc => h.2 c (List.mem_filter.mp hc).1⟩

/-- Below the last part of a key there is a node. -/
theorem exists_node (h : (TreeEntry.node children).Uniform (n + 2)) (hlookup : children.lookup k = some entry) :
    ∃ c, entry = .node c ∧ (TreeEntry.node c).Uniform (n + 1) := by
  have hentry := h.2 _ ((lookup_eq_some_iff h.1).mp hlookup)
  cases entry with
  | leaf v => exact absurd hentry id
  | node c => exact ⟨c, rfl, hentry⟩

end Children

/-! ## §3 What the operations do to the items -/

namespace TreeCache

variable [DecidableEq α]

variable {n : ℕ} {children : List (α × TreeEntry α ν)} {key : List α}

theorem getIn_spec (h : (TreeEntry.node children).Uniform (n + 1)) (hkey : key.length = n + 1) :
    ∃ o : Option ν, getIn children key = .ok (o.map .leaf) ∧
      ∀ value, o = some value ↔ (key, value) ∈ (TreeEntry.node children).items (n + 1) := by
  induction key generalizing n children with
  | nil => exact absurd hkey (by simp)
  | cons k rest ih =>
    cases hlookup : children.lookup k with
    | none =>
      refine ⟨none, ?_, ?_⟩
      · cases rest with
        | nil => simp [getIn, hlookup]
        | cons k' rest => simp [getIn, hlookup]
      · intro value
        simp [mem_items_lookup h.1, hlookup]
    | some entry =>
      cases rest with
      | nil =>
        obtain rfl : n = 0 := by simpa using hkey.symm
        have hentry := h.2 _ ((lookup_eq_some_iff h.1).mp hlookup)
        cases entry with
        | node c => exact absurd hentry id
        | leaf v =>
          refine ⟨some v, by simp [getIn, hlookup], ?_⟩
          intro value
          rw [mem_items_lookup h.1, hlookup]
          simp [TreeEntry.items, eq_comm]
      | cons k' rest =>
        obtain ⟨m, rfl⟩ : ∃ m, n = m + 1 := ⟨rest.length, by simpa using hkey.symm⟩
        obtain ⟨c, rfl, hc⟩ := exists_node h hlookup
        obtain ⟨o, hget, ho⟩ := ih hc (by simpa using hkey)
        refine ⟨o, by simpa only [getIn, hlookup] using hget, ?_⟩
        intro value
        rw [ho, mem_items_lookup h.1]
        simp [hlookup]

/-- The item of the key is set, and the others stay. -/
theorem setIn_spec (h : (TreeEntry.node children).Uniform (n + 1)) (hkey : key.length = n + 1)
    (value : ν) : ∃ children', setIn children key value = .ok children' ∧
      (TreeEntry.node children').Uniform (n + 1) ∧
      ∀ key' value', (key', value') ∈ (TreeEntry.node children').items (n + 1) ↔
        key' = key ∧ value' = value ∨
          key' ≠ key ∧ (key', value') ∈ (TreeEntry.node children).items (n + 1) := by
  induction key generalizing n children with
  | nil => exact absurd hkey (by simp)
  | cons k rest ih =>
    cases rest with
    | nil =>
      obtain rfl : n = 0 := by simpa using hkey.symm
      refine ⟨_, rfl, uniform_setItems h trivial, ?_⟩
      rintro (- | ⟨a, tail⟩) value'
      · simp [mem_items_node]
      rw [mem_items_setItems h.1]
      by_cases ha : a = k
      · by_cases htail : tail = []
        · simp [ha, htail, TreeEntry.items]
        · have hlength : (k :: tail, value') ∉ (TreeEntry.node children).items (0 + 1) := by
            intro hmem
            have hlen := length_of_mem_items hmem
            exact htail (List.length_eq_zero_iff.mp (by simpa using hlen))
          rw [ha]
          simp only [hlength, and_false, or_false]
          simp [htail, TreeEntry.items]
      · simp [ha]
    | cons k' rest =>
      obtain ⟨m, rfl⟩ : ∃ m, n = m + 1 := ⟨rest.length, by simpa using hkey.symm⟩
      -- the child that is there, or an empty one
      obtain ⟨c, hc, hset, hitems⟩ : ∃ c, (TreeEntry.node c).Uniform (m + 1) ∧
          setIn children (k :: k' :: rest) value = (setIn c (k' :: rest) value).map
              (fun c => Dict.setItems k (.node c) children) ∧
          ∀ tail v, (k :: tail, v) ∈ (TreeEntry.node children).items (m + 1 + 1) ↔
            (tail, v) ∈ (TreeEntry.node c).items (m + 1) := by
        cases hlookup : children.lookup k with
        | none =>
          refine ⟨[], ⟨List.nodup_nil, by simp⟩, by simp only [setIn, hlookup], ?_⟩
          intro tail v
          rw [mem_items_lookup h.1, hlookup]
          simp [TreeEntry.items]
        | some entry =>
          obtain ⟨c, rfl, hc⟩ := exists_node h hlookup
          refine ⟨c, hc, by simp only [setIn, hlookup], ?_⟩
          intro tail v
          simp [mem_items_lookup h.1, hlookup]
      obtain ⟨c', heq, hc', hmem⟩ := ih hc (by simpa using hkey)
      refine ⟨_, by rw [hset, heq]; rfl, uniform_setItems h hc', ?_⟩
      rintro (- | ⟨a, tail⟩) value'
      · simp [mem_items_node]
      rw [mem_items_setItems h.1, hmem]
      by_cases ha : a = k
      · subst ha
        simp [hitems]
      · simp [ha]

theorem popIn_nil (children : List (α × TreeEntry α ν)) : popIn children [] = .error .indexError := by
  rw [popIn]

/-- A key that is too long finds nothing, or raises. -/
theorem popIn_of_length_lt (h : (TreeEntry.node children).Uniform (n + 1)) (hkey : n + 1 < key.length) :
    popIn children key = .ok none ∨ ∃ e, popIn children key = .error e := by
  induction key generalizing n children with
  | nil => exact Or.inr ⟨_, popIn_nil children⟩
  | cons k rest ih =>
    cases rest with
    | nil => exact absurd hkey (by simp)
    | cons k' rest =>
      cases hlookup : children.lookup k with
      | none => exact Or.inl (by simp only [popIn, hlookup])
      | some entry =>
        cases n with
        | zero =>
          have hentry := h.2 _ ((lookup_eq_some_iff h.1).mp hlookup)
          cases entry with
          | node c => exact absurd hentry id
          | leaf v => exact Or.inr ⟨_, by simp only [popIn, hlookup]; rfl⟩
        | succ m =>
          obtain ⟨c, rfl, hc⟩ := exists_node h hlookup
          rcases ih hc (by simpa using hkey) with hnone | ⟨e, he⟩
          · exact Or.inl (by simp only [popIn, hlookup, hnone]; rfl)
          · exact Or.inr ⟨e, by simp only [popIn, hlookup, he]; rfl⟩

/-- What `pop` takes out: the items under the key, and those only. -/
structure Popped (n : ℕ) (key : List α) (children : List (α × TreeEntry α ν))
    (popped : TreeEntry α ν) (children' : List (α × TreeEntry α ν)) : Prop where
  uniform : popped.Uniform (n + 1 - key.length)
  mem_popped : ∀ rest value, (rest, value) ∈ popped.items (n + 1 - key.length) ↔
    (key ++ rest, value) ∈ (TreeEntry.node children).items (n + 1)
  left : (TreeEntry.node children').Uniform (n + 1)
  mem_left : ∀ key' value, (key', value) ∈ (TreeEntry.node children').items (n + 1) ↔
    (key', value) ∈ (TreeEntry.node children).items (n + 1) ∧ ¬ key <+: key'

theorem popIn_spec (h : (TreeEntry.node children).Uniform (n + 1)) (hne : key ≠ [])
    (hkey : key.length ≤ n + 1) : popIn children key = .ok none ∧
        (∀ key' value, (key', value) ∈ (TreeEntry.node children).items (n + 1) → ¬ key <+: key') ∨
      ∃ popped children', popIn children key = .ok (some (popped, children')) ∧
        Popped n key children popped children' := by
  induction key generalizing n children with
  | nil => exact absurd rfl hne
  | cons k rest ih =>
    cases hlookup : children.lookup k with
    | none =>
      refine Or.inl ⟨?_, ?_⟩
      · cases rest with
        | nil => simp only [popIn, hlookup]
        | cons k' rest => simp only [popIn, hlookup]
      rintro (- | ⟨a, tail⟩) value hmem hbegins
      · simp at hbegins
      obtain ⟨rfl, -⟩ := List.cons_prefix_cons.mp hbegins
      obtain ⟨entry, hentry, -⟩ := (mem_items_lookup h.1).mp hmem
      exact absurd (hlookup.symm.trans hentry) (by simp)
    | some entry =>
      cases rest with
      | nil =>
        refine Or.inr ⟨entry, _, by simp only [popIn, hlookup]; rfl, ?_, ?_, uniform_filter h _, ?_⟩
        · exact h.2 _ ((lookup_eq_some_iff h.1).mp hlookup)
        · intro tail value
          simp [mem_items_lookup h.1, hlookup]
        · rintro (- | ⟨a, tail⟩) value
          · simp [mem_items_node]
          · simp only [mem_items_filter, List.cons_prefix_cons, List.nil_prefix, and_true]
            rw [and_comm, ne_comm]
      | cons k' rest =>
        obtain ⟨m, rfl⟩ : ∃ m, n = m + 1 := by
          cases n with
          | zero => exact absurd hkey (by simp)
          | succ m => exact ⟨m, rfl⟩
        obtain ⟨c, rfl, hc⟩ := exists_node h hlookup
        have hlookupMem : ∀ tail v, (k :: tail, v) ∈ (TreeEntry.node children).items (m + 1 + 1) ↔
              (tail, v) ∈ (TreeEntry.node c).items (m + 1) := by
          intro tail v
          simp [mem_items_lookup h.1, hlookup]
        rcases ih hc (by simp) (by simpa using hkey) with
          ⟨hnone, hnot⟩ | ⟨popped, c', hpop, hpopped⟩
        · refine Or.inl ⟨by simp only [popIn, hlookup, hnone]; rfl, ?_⟩
          rintro (- | ⟨a, tail⟩) value hmem hbegins
          · simp at hbegins
          · obtain ⟨rfl, hbelow⟩ := List.cons_prefix_cons.mp hbegins
            exact hnot tail value ((hlookupMem tail value).mp hmem) hbelow
        -- an empty child is removed, another one put back
        obtain ⟨children', heq, huniform, hmem⟩ : ∃ children',
            popIn children (k :: k' :: rest) = .ok (some (popped, children')) ∧
            (TreeEntry.node children').Uniform (m + 1 + 1) ∧
            ∀ a tail value, (a :: tail, value) ∈ (TreeEntry.node children').items (m + 1 + 1) ↔
                a = k ∧ (tail, value) ∈ (TreeEntry.node c').items (m + 1) ∨
                  a ≠ k ∧ (a :: tail, value) ∈ (TreeEntry.node children).items (m + 1 + 1) := by
          by_cases hempty : c'.isEmpty = true
          · refine ⟨_, by simp only [popIn, hlookup, hpop]; rfl, ?_, ?_⟩
            · rw [if_pos hempty]
              exact uniform_filter h _
            · intro a tail value
              rw [if_pos hempty, mem_items_filter, List.isEmpty_iff.mp hempty]
              simp [TreeEntry.items]
          · refine ⟨_, by simp only [popIn, hlookup, hpop]; rfl, ?_, ?_⟩
            · rw [if_neg hempty]
              exact uniform_setItems h hpopped.left
            · intro a tail value
              rw [if_neg hempty]
              exact mem_items_setItems h.1
        refine Or.inr ⟨popped, children', heq, ?_, ?_, huniform, ?_⟩
        · simpa using hpopped.uniform
        · intro tail value
          have hiff := hpopped.mem_popped tail value
          rw [List.cons_append, hlookupMem]
          simpa using hiff
        · rintro (- | ⟨a, tail⟩) value
          · simp [mem_items_node]
          · rw [hmem, hpopped.mem_left, List.cons_prefix_cons]
            by_cases ha : a = k
            · subst ha
              simp [hlookupMem]
            · simp [ha, Ne.symm ha]

/-! ### The whole cache -/

/-- The items of a cache whose keys have `n + 1` parts. -/
def items (n : ℕ) (t : TreeCache α ν) : List (List α × ν) := (TreeEntry.node t.root).items (n + 1)

/-- The keys have `n + 1` parts, and the size counts the values. -/
structure Wf (n : ℕ) (t : TreeCache α ν) : Prop where
  uniform : (TreeEntry.node t.root).Uniform (n + 1)
  size : t.size = (items n t).length

omit [DecidableEq α] in
theorem wf_new (n : ℕ) : Wf n (new : TreeCache α ν) := by
  refine ⟨⟨List.nodup_nil, by simp [new]⟩, ?_⟩
  simp [new, items, TreeEntry.items]

theorem length_eq_of_mem_iff {κ : Type} {l l' : List (κ × ν)} (h : (l.map Prod.fst).Nodup)
    (h' : (l'.map Prod.fst).Nodup) (hmem : ∀ item, item ∈ l ↔ item ∈ l') : l.length = l'.length :=
  ((List.perm_ext_iff_of_nodup h.of_map h'.of_map).mpr hmem).length_eq

omit [DecidableEq α] in
theorem nodup_of_injective {l : List (List α × ν)} (h : (l.map Prod.fst).Nodup)
    (hinj : ∀ key key' value, (key, value) ∈ l → (key', value) ∈ l → key = key') :
    (l.map Prod.snd).Nodup := by
  refine h.of_map.map_on ?_
  rintro ⟨key, value⟩ hmem ⟨key', value'⟩ hmem' heq
  obtain rfl : value = value' := heq
  rw [hinj key key' value hmem hmem']

variable {t : TreeCache α ν}

theorem get_spec (h : Wf n t) (hkey : key.length = n + 1) : ∃ o : Option ν, t.get key = .ok (o.map .leaf) ∧
      ∀ value, o = some value ↔ (key, value) ∈ items n t :=
  getIn_spec h.uniform hkey

/-- **Setting a key that is not there** adds one item. -/
theorem set_spec (h : Wf n t) (hkey : key.length = n + 1) (hnew : ∀ value, (key, value) ∉ items n t)
    (value : ν) : ∃ t', t.set key value = .ok t' ∧ Wf n t' ∧ t'.size = t.size + 1 ∧
      ∀ key' value', (key', value') ∈ items n t' ↔
        key' = key ∧ value' = value ∨ (key', value') ∈ items n t := by
  obtain ⟨root, heq, huniform, hmem⟩ := setIn_spec h.uniform hkey value
  have hiff : ∀ key' value', (key', value') ∈ (TreeEntry.node root).items (n + 1) ↔
      key' = key ∧ value' = value ∨ (key', value') ∈ items n t := by
    intro key' value'
    rw [hmem]
    by_cases hk : key' = key
    · simp [hk, hnew]
    · simp [hk, items]
  refine ⟨⟨t.size + 1, root⟩, by rw [set, heq]; rfl, ⟨huniform, ?_⟩, rfl, hiff⟩
  have hnodup : (((key, value) :: items n t).map Prod.fst).Nodup := by
    refine List.nodup_cons.mpr ⟨?_, h.uniform.nodup_items⟩
    intro hmem
    obtain ⟨⟨key', value'⟩, hitem, heq⟩ := List.mem_map.mp hmem
    obtain rfl : key' = key := heq
    exact hnew value' hitem
  have hlength := length_eq_of_mem_iff huniform.nodup_items hnodup (by
    rintro ⟨key', value'⟩
    rw [hiff, List.mem_cons, Prod.mk.injEq])
  show t.size + 1 = (((TreeEntry.node root).items (n + 1)).length : ℤ)
  rw [hlength, List.length_cons, h.size]
  omega

/-- A key that does not lead to an item, or to a subtree, pops nothing. -/
theorem pop_of_invalid (h : Wf n t) (hkey : key = [] ∨ n + 1 < key.length) :
    t.pop key = .ok (none, t) ∨ ∃ e, t.pop key = .error e := by
  rcases hkey with rfl | hlong
  · exact Or.inr ⟨_, by rw [pop, popIn_nil]; rfl⟩
  rcases popIn_of_length_lt h.uniform hlong with hnone | ⟨e, he⟩
  · exact Or.inl (by rw [pop, hnone]; rfl)
  · exact Or.inr ⟨e, by rw [pop, he]; rfl⟩

/-- **`pop` takes out the items under a key**, and its result has their values, each once if no two of
them are the same. -/
theorem pop_spec (h : Wf n t) (hne : key ≠ []) (hkey : key.length ≤ n + 1) :
    t.pop key = .ok (none, t) ∧ (∀ key' value, (key', value) ∈ items n t → ¬ key <+: key') ∨
      ∃ popped t', t.pop key = .ok (some popped, t') ∧ Wf n t' ∧
        t'.size = t.size - popped.leaves.length ∧
        (∀ key' value, (key', value) ∈ items n t' ↔
          (key', value) ∈ items n t ∧ ¬ key <+: key') ∧
        (∀ value, value ∈ popped.leaves ↔ ∃ key', key <+: key' ∧ (key', value) ∈ items n t) ∧
        ((∀ key₁ key₂ value, (key₁, value) ∈ items n t → (key₂, value) ∈ items n t →
          key₁ = key₂) → popped.leaves.Nodup) ∧
        (key.length = n + 1 → ∃ value, popped = .leaf value) := by
  rcases popIn_spec h.uniform hne hkey with ⟨hnone, hnot⟩ | ⟨popped, root, heq, hpopped⟩
  · exact Or.inl ⟨by rw [pop, hnone]; rfl, hnot⟩
  have hleaves : popped.leaves = (popped.items (n + 1 - key.length)).map Prod.snd :=
    hpopped.uniform.leaves
  -- with the key put in front again
  have hkeys : (((popped.items (n + 1 - key.length)).map
      fun item => (key ++ item.1, item.2)).map Prod.fst).Nodup := by
    have hmap := hpopped.uniform.nodup_items.map (f := (key ++ ·)) fun a b hab => List.append_cancel_left hab
    simpa [comp_def] using hmap
  have hunder : ∀ key' value, (key', value) ∈ (popped.items (n + 1 - key.length)).map
      (fun item => (key ++ item.1, item.2)) ↔ key <+: key' ∧ (key', value) ∈ items n t := by
    intro key' value
    simp only [List.mem_map, Prod.mk.injEq, Prod.exists]
    constructor
    · rintro ⟨rest, v, hitem, rfl, rfl⟩
      exact ⟨List.prefix_append key rest, (hpopped.mem_popped rest v).mp hitem⟩
    · rintro ⟨⟨rest, rfl⟩, hitem⟩
      exact ⟨rest, value, (hpopped.mem_popped rest value).mpr hitem, rfl, rfl⟩
  have hsum : (items n t).length = popped.leaves.length + ((TreeEntry.node root).items (n + 1)).length := by
    have hnodup : (((popped.items (n + 1 - key.length)).map (fun item => (key ++ item.1, item.2)) ++
          (TreeEntry.node root).items (n + 1)).map Prod.fst).Nodup := by
      rw [List.map_append]
      refine hkeys.append hpopped.left.nodup_items ?_
      intro key' hin hout
      obtain ⟨⟨a, value⟩, hitem, heq⟩ := List.mem_map.mp hin
      obtain rfl : a = key' := heq
      obtain ⟨⟨b, value'⟩, hitem', heq'⟩ := List.mem_map.mp hout
      obtain rfl : b = a := heq'
      exact ((hpopped.mem_left b value').mp hitem').2 ((hunder b value).mp hitem).1
    have hlength := length_eq_of_mem_iff h.uniform.nodup_items hnodup (by
      rintro ⟨key', value⟩
      rw [List.mem_append, hunder, hpopped.mem_left]
      show (key', value) ∈ items n t ↔ _
      by_cases hbegins : key <+: key'
      · simp [hbegins]
      · simp [hbegins, items])
    show ((TreeEntry.node t.root).items (n + 1)).length = _
    rw [hlength, List.length_append, List.length_map, hleaves, List.length_map]
  refine Or.inr ⟨popped, ⟨t.size - popped.leaves.length, root⟩, by rw [pop, heq]; rfl,
    ⟨hpopped.left, ?_⟩, rfl, hpopped.mem_left, ?_, ?_, ?_⟩
  · have hsize := h.size
    show t.size - popped.leaves.length = (((TreeEntry.node root).items (n + 1)).length : ℤ)
    omega
  · intro value
    rw [hleaves, List.mem_map]
    constructor
    · rintro ⟨⟨rest, v⟩, hitem, rfl⟩
      exact ⟨key ++ rest, List.prefix_append key rest, (hpopped.mem_popped rest v).mp hitem⟩
    rintro ⟨key', hbegins, hitem⟩
    obtain ⟨rest, rfl⟩ := hbegins
    exact ⟨(rest, value), (hpopped.mem_popped rest value).mpr hitem, rfl⟩
  · intro hinj
    rw [hleaves]
    refine nodup_of_injective hpopped.uniform.nodup_items ?_
    intro rest rest' value hitem hitem'
    exact List.append_cancel_left (hinj _ _ value ((hpopped.mem_popped rest value).mp hitem)
      ((hpopped.mem_popped rest' value).mp hitem'))
  · intro hfull
    have huniform := hpopped.uniform
    rw [hfull, Nat.sub_self] at huniform
    cases popped with
    | leaf value => exact ⟨value, rfl⟩
    | node children => exact absurd huniform id

omit [DecidableEq α] in
theorem values_eq (h : Wf n t) : t.values = (items n t).map Prod.snd := by
  have hleaves := h.uniform.leaves
  rwa [TreeEntry.leaves] at hleaves

end TreeCache

end Setka.Util
