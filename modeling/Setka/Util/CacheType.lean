/-
# Setka.Util.CacheType — what is behind a cache.

A dictionary, or a `TreeCache` for keys that are tuples of one length. Both answer the same questions, and
what they do is said once: of the value under each key, of how many there are, and of what a `pop` yields,
which from a tree may be all values under a shorter tuple.
-/
import Setka.Util.TreeCache

namespace Setka.Util

open Setka.Api Setka.Lib TreeCache Dict

/-! ## §1 Dictionaries and trees -/

/-- Keys that are tuples of one length. -/
structure TupleKeys (κ α : Type) where
  parts : κ → List α
  arity : ℕ
  length_parts : ∀ key, (parts key).length = arity + 1
  parts_injective : Function.Injective parts

/-- `cache_type`. -/
inductive CacheType (κ α : Type)
  | dict
  | treeCache (keys : TupleKeys κ α)

/-- The key of a `del_multi`: with a `TreeCache` it may be any tuple. -/
inductive MultiKey (κ α : Type)
  | full (key : κ)
  | parts (key : List α)

namespace CacheType

variable {κ α ρ : Type} [DecidableEq κ] [DecidableEq α]

/-- A dictionary or a tree of `ρ`. -/
def Data (ρ : Type) : CacheType κ α → Type
  | .dict => Dict κ ρ
  | .treeCache _ => TreeCache α ρ

def new : (t : CacheType κ α) → t.Data ρ
  | .dict => Dict.empty
  | .treeCache _ => TreeCache.new

/-- `get(key, None)`. -/
def get : (t : CacheType κ α) → t.Data ρ → κ → Except Error (Option (TreeEntry α ρ))
  | .dict, d, key => .ok ((Dict.get? d key).map .leaf)
  | .treeCache keys, c, key => TreeCache.get c (keys.parts key)

/-- `cache[key] = value`. -/
def set : (t : CacheType κ α) → t.Data ρ → κ → ρ → Except Error (t.Data ρ)
  | .dict, d, key, value => .ok (Dict.set d key value)
  | .treeCache keys, c, key, value => TreeCache.set c (keys.parts key) value

/-- `pop(key, None)`. What is in no tree is a leaf of itself. -/
def pop : (t : CacheType κ α) → t.Data ρ → MultiKey κ α → Except Error (Option (TreeEntry α ρ) × t.Data ρ)
  | .dict, d, .full key =>
    match Dict.get? d key with
    | none => .ok (none, d)
    | some value => .ok (some (.leaf value), Dict.erase d key)
  | .dict, d, .parts _ => .ok (none, d)
  | .treeCache keys, c, .full key => TreeCache.pop c (keys.parts key)
  | .treeCache _, c, .parts key => TreeCache.pop c key

def values : (t : CacheType κ α) → t.Data ρ → List ρ
  | .dict, d => Dict.values d
  | .treeCache _, c => TreeCache.values c

def len : (t : CacheType κ α) → t.Data ρ → ℤ
  | .dict, d => (Dict.items d).length
  | .treeCache _, c => TreeCache.size c

end CacheType

namespace CacheType

variable {κ α ρ : Type} [DecidableEq κ] [DecidableEq α]

/-! ## §2 What is under a key -/

/-- The value under a key. -/
def lookup : (t : CacheType κ α) → t.Data ρ → κ → Option ρ
  | .dict, d, key => Dict.get? d key
  | .treeCache keys, c, key =>
    match TreeCache.get c (keys.parts key) with
    | .ok (some (.leaf value)) => some value
    | _ => none

/-- A tree has items for keys only, and its size is right. -/
def Wf : (t : CacheType κ α) → t.Data ρ → Prop
  | .dict, _ => True
  | .treeCache keys, c => TreeCache.Wf keys.arity c ∧
      ∀ parts value, (parts, value) ∈ TreeCache.items keys.arity c → ∃ key, keys.parts key = parts

/-- The keys that a `del_multi` is about: those that its tuple is a beginning of. -/
def Matches : CacheType κ α → MultiKey κ α → κ → Prop
  | _, .full key, key' => key' = key
  | .dict, .parts _, _ => False
  | .treeCache keys, .parts parts, key' => parts ≠ [] ∧ parts <+: keys.parts key'

/-- A tuple that a tree cannot have keys under. -/
def Invalid : CacheType κ α → MultiKey κ α → Prop
  | .treeCache keys, .parts parts => parts = [] ∨ keys.arity + 1 < parts.length
  | _, _ => False

variable {t : CacheType κ α} {key : κ}

omit [DecidableEq κ] [DecidableEq α] in
theorem matches_full {key' : κ} : t.Matches (.full key) key' ↔ key' = key := by
  cases t with
  | dict => exact Iff.rfl
  | treeCache keys => exact Iff.rfl

instance (t : CacheType κ α) (key : MultiKey κ α) (key' : κ) : Decidable (t.Matches key key') :=
  match t, key with
  | .dict, .full key => inferInstanceAs (Decidable (key' = key))
  | .treeCache _, .full key => inferInstanceAs (Decidable (key' = key))
  | .dict, .parts _ => inferInstanceAs (Decidable False)
  | .treeCache keys, .parts parts =>
    inferInstanceAs (Decidable (parts ≠ [] ∧ parts <+: keys.parts key'))

omit [DecidableEq κ] in
theorem get_tree {keys : TupleKeys κ α} {c : TreeCache α ρ} (h : TreeCache.Wf keys.arity c)
    (key : κ) : ∃ o : Option ρ, TreeCache.get c (keys.parts key) = .ok (o.map .leaf) ∧
      ∀ value, o = some value ↔ (keys.parts key, value) ∈ TreeCache.items keys.arity c :=
  get_spec h (keys.length_parts key)

theorem get_eq {c : t.Data ρ} (h : t.Wf c) (key : κ) : t.get c key = .ok ((t.lookup c key).map .leaf) := by
  cases t with
  | dict => rfl
  | treeCache keys =>
    obtain ⟨o, hget, -⟩ := get_tree h.1 key
    show TreeCache.get c (keys.parts key) = _
    simp only [lookup, hget]
    cases o with
    | none => rfl
    | some value => rfl

/-- In a tree, the value of a key is that of its item. -/
theorem lookup_tree {keys : TupleKeys κ α} {c : TreeCache α ρ} (h : TreeCache.Wf keys.arity c)
    {value : ρ} : (CacheType.treeCache keys).lookup (ρ := ρ) c key = some value ↔
      (keys.parts key, value) ∈ TreeCache.items keys.arity c := by
  obtain ⟨o, hget, ho⟩ := get_tree h key
  rw [← ho]
  simp only [lookup, hget]
  cases o with
  | none => rfl
  | some value => rfl

@[simp] theorem lookup_new (t : CacheType κ α) (key : κ) : t.lookup (t.new : t.Data ρ) key = none := by
  cases t with
  | dict => rfl
  | treeCache keys =>
    rw [Option.eq_none_iff_forall_ne_some]
    intro value hvalue
    cases (lookup_tree (TreeCache.wf_new keys.arity)).mp hvalue

omit [DecidableEq κ] [DecidableEq α] in
theorem wf_new (t : CacheType κ α) : t.Wf (t.new : t.Data ρ) := by
  cases t with
  | dict => trivial
  | treeCache keys =>
    refine ⟨TreeCache.wf_new keys.arity, ?_⟩
    intro parts value hmem
    cases hmem

omit [DecidableEq κ] [DecidableEq α] in
theorem len_new (t : CacheType κ α) : t.len (t.new : t.Data ρ) = 0 := by
  cases t with
  | dict => rfl
  | treeCache keys => rfl

/-- **Setting a key that has no value.** -/
theorem set_spec {c : t.Data ρ} (h : t.Wf c) (hnew : t.lookup c key = none) (value : ρ) :
    ∃ c', t.set c key value = .ok c' ∧ t.Wf c' ∧ t.len c' = t.len c + 1 ∧
      ∀ key' value', t.lookup c' key' = some value' ↔
        key' = key ∧ value' = value ∨ t.lookup c key' = some value' := by
  cases t with
  | dict =>
    have hnew : Dict.get? c key = none := hnew
    have hmem : key ∉ Dict.keys c := get?_eq_none_iff.mp hnew
    refine ⟨_, rfl, trivial, ?_, ?_⟩
    · show ((Dict.set c key value).items.length : ℤ) = (Dict.items c).length + 1
      rw [items_set_of_notMem hmem]
      simp
    intro key' value'
    show (Dict.set c key value).get? key' = some value' ↔ _ ∨ Dict.get? c key' = some value'
    have hget := get?_set c key key' value
    rw [hget]
    by_cases hk : key' = key
    · simp [hk, hnew, eq_comm]
    · simp [hk]
  | treeCache keys =>
    have hitems : ∀ v, (keys.parts key, v) ∉ TreeCache.items keys.arity c := by
      intro v hmem
      exact absurd (hnew.symm.trans ((lookup_tree h.1).mpr hmem)) (by simp)
    obtain ⟨c', hset, hwf, hsize, hmem⟩ :=
      TreeCache.set_spec h.1 (keys.length_parts key) hitems value
    refine ⟨c', hset, ⟨hwf, ?_⟩, hsize, ?_⟩
    · intro parts v hv
      rcases (hmem parts v).mp hv with ⟨rfl, -⟩ | hv
      · exact ⟨key, rfl⟩
      · exact h.2 parts v hv
    · intro key' value'
      rw [lookup_tree hwf, lookup_tree h.1, hmem, keys.parts_injective.eq_iff]

/-- What a `pop` that finds something leaves and yields. -/
structure Popped (t : CacheType κ α) (c : t.Data ρ) (key : MultiKey κ α) (popped : TreeEntry α ρ)
    (c' : t.Data ρ) : Prop where
  wf : t.Wf c'
  len : t.len c' = t.len c - popped.leaves.length
  left : ∀ key' value, t.lookup c' key' = some value ↔
    t.lookup c key' = some value ∧ ¬ t.Matches key key'
  leaves : ∀ value, value ∈ popped.leaves ↔ ∃ key', t.Matches key key' ∧ t.lookup c key' = some value
  nodup : (∀ key₁ key₂ value, t.lookup c key₁ = some value → t.lookup c key₂ = some value →
    key₁ = key₂) → popped.leaves.Nodup

/-- **What a `pop` does**: it may raise only where there is nothing to be found. -/
theorem pop_spec {c : t.Data ρ} (h : t.Wf c) (key : MultiKey κ α) :
    (t.pop c key = .ok (none, c) ∨ t.Invalid key ∧ ∃ e, t.pop c key = .error e) ∧
        (∀ key' value, t.lookup c key' = some value → ¬ t.Matches key key') ∨
      ∃ popped c', t.pop c key = .ok (some popped, c') ∧ Popped t c key popped c' := by
  cases t with
  | dict =>
    cases key with
    | parts p => exact Or.inl ⟨Or.inl rfl, fun _ _ _ => id⟩
    | full key =>
      cases hget : Dict.get? c key with
      | none =>
        refine Or.inl ⟨Or.inl (by simp only [pop, hget]), ?_⟩
        rintro key' value hvalue rfl
        exact absurd (hget.symm.trans hvalue) (by simp)
      | some value =>
        refine Or.inr ⟨.leaf value, Dict.erase c key, by simp only [pop, hget], trivial, ?_, ?_, ?_, ?_⟩
        · have hcount := countP_items_erase hget fun _ => true
          simp only [List.countP_true, if_true] at hcount
          show ((Dict.erase c key).items.length : ℤ) = (Dict.items c).length - 1
          omega
        · intro key' value'
          show (Dict.erase c key).get? key' = some value' ↔
            Dict.get? c key' = some value' ∧ ¬ key' = key
          have herase := get?_erase c key key'
          rw [herase]
          by_cases hk : key' = key
          · simp [hk]
          · simp [hk]
        · intro value'
          show value' ∈ [value] ↔ ∃ key', key' = key ∧ Dict.get? c key' = some value'
          simp [hget, eq_comm]
        · intro _
          exact List.nodup_singleton value
  | treeCache keys =>
    -- a key of the cache is a tuple of full length
    obtain ⟨parts, hparts, hinvalid, hmatches⟩ : ∃ parts,
        (CacheType.treeCache keys).pop (ρ := ρ) c key = TreeCache.pop c parts ∧
        (parts = [] ∨ keys.arity + 1 < parts.length → (CacheType.treeCache keys).Invalid key) ∧
        ∀ key', (CacheType.treeCache keys).Matches key key' ↔
          parts ≠ [] ∧ parts <+: keys.parts key' := by
      cases key with
      | parts p => exact ⟨p, rfl, id, fun _ => Iff.rfl⟩
      | full key =>
        have hlen := keys.length_parts key
        refine ⟨keys.parts key, rfl, ?_, ?_⟩
        · rintro (hnil | hlong)
          · exact absurd hnil (List.ne_nil_of_length_eq_add_one hlen)
          · omega
        intro key'
        constructor
        · rintro rfl
          exact ⟨List.ne_nil_of_length_eq_add_one hlen, List.prefix_refl _⟩
        · rintro ⟨-, hbegins⟩
          exact (keys.parts_injective (hbegins.eq_of_length (hlen.trans (keys.length_parts key').symm))).symm
    rw [hparts]
    by_cases hvalid : parts = [] ∨ keys.arity + 1 < parts.length
    · refine Or.inl ⟨(pop_of_invalid h.1 hvalid).imp id (And.intro (hinvalid hvalid)), ?_⟩
      intro key' value _ hmatch
      obtain ⟨hne, hbegins⟩ := (hmatches key').mp hmatch
      have hle := hbegins.length_le
      rw [keys.length_parts] at hle
      rcases hvalid with rfl | hlong
      · exact hne rfl
      · omega
    obtain ⟨hne, hle⟩ := not_or.mp hvalid
    rcases TreeCache.pop_spec h.1 hne (Nat.le_of_not_lt hle) with
      ⟨hnone, hnot⟩ | ⟨popped, c', hpop, hwf, hsize, hleft, hleaves, hnodup, -⟩
    · refine Or.inl ⟨Or.inl hnone, ?_⟩
      intro key' value hvalue hmatch
      exact hnot _ value ((lookup_tree h.1).mp hvalue) ((hmatches key').mp hmatch).2
    refine Or.inr ⟨popped, c', hpop, ⟨hwf, ?_⟩, hsize, ?_, ?_, ?_⟩
    · intro parts' value hmem
      exact h.2 parts' value ((hleft parts' value).mp hmem).1
    · intro key' value
      rw [lookup_tree hwf, lookup_tree h.1, hleft, hmatches]
      simp [hne]
    · intro value
      rw [hleaves]
      constructor
      · rintro ⟨parts', hbegins, hmem⟩
        obtain ⟨key', rfl⟩ := h.2 parts' value hmem
        exact ⟨key', (hmatches key').mpr ⟨hne, hbegins⟩, (lookup_tree h.1).mpr hmem⟩
      · rintro ⟨key', hmatch, hvalue⟩
        exact ⟨_, ((hmatches key').mp hmatch).2, (lookup_tree h.1).mp hvalue⟩
    · intro hinj
      refine hnodup ?_
      intro parts₁ parts₂ value hmem₁ hmem₂
      obtain ⟨key₁, rfl⟩ := h.2 parts₁ value hmem₁
      obtain ⟨key₂, rfl⟩ := h.2 parts₂ value hmem₂
      rw [hinj key₁ key₂ value ((lookup_tree h.1).mpr hmem₁) ((lookup_tree h.1).mpr hmem₂)]

/-- A full key yields its value. -/
theorem pop_full {c : t.Data ρ} (h : t.Wf c) (key : κ) :
    t.pop c (.full key) = .ok (none, c) ∧ t.lookup c key = none ∨
      ∃ value c', t.lookup c key = some value ∧ t.pop c (.full key) = .ok (some (.leaf value), c') ∧
        Popped t c (.full key) (.leaf value) c' := by
  rcases pop_spec h (.full key) with ⟨hpop, hnot⟩ | ⟨popped, c', hpop, hpopped⟩
  · have hnone : t.lookup c key = none := by
      rw [Option.eq_none_iff_forall_ne_some]
      intro value hvalue
      exact hnot key value hvalue (matches_full.mpr rfl)
    refine Or.inl ⟨?_, hnone⟩
    cases t with
    | dict =>
      have hget : Dict.get? c key = none := hnone
      simp only [pop, hget]
    | treeCache keys =>
      have hlen := keys.length_parts key
      rcases TreeCache.pop_spec h.1 (List.ne_nil_of_length_eq_add_one hlen) (Nat.le_of_eq hlen) with
        ⟨heq, -⟩ | ⟨popped, c', heq, -⟩
      · exact heq
      rcases hpop with hnothing | ⟨hinvalid, -⟩
      · exact hnothing
      · exact absurd hinvalid id
  · obtain ⟨value, rfl⟩ : ∃ value, popped = .leaf value := by
      cases t with
      | dict =>
        cases hget : Dict.get? c key with
        | none =>
          simp only [pop, hget] at hpop
          cases hpop
        | some value =>
          simp only [pop, hget] at hpop
          cases hpop
          exact ⟨value, rfl⟩
      | treeCache keys =>
        have hlen := keys.length_parts key
        rcases TreeCache.pop_spec h.1 (List.ne_nil_of_length_eq_add_one hlen) (Nat.le_of_eq hlen) with
          ⟨heq, -⟩ | ⟨popped', c'', heq, -, -, -, -, -, hleaf⟩
        · cases heq.symm.trans hpop
        · cases heq.symm.trans hpop
          exact hleaf hlen
    obtain ⟨key', hmatch, hvalue⟩ := (hpopped.leaves value).mp (by simp [TreeEntry.leaves])
    rw [matches_full.mp hmatch] at hvalue
    exact Or.inr ⟨value, c', hvalue, hpop, hpopped⟩

theorem values_spec {c : t.Data ρ} (h : t.Wf c) :
    (∀ value, value ∈ t.values c ↔ ∃ key, t.lookup c key = some value) ∧
      ((∀ key₁ key₂ value, t.lookup c key₁ = some value → t.lookup c key₂ = some value →
        key₁ = key₂) → (t.values c).Nodup) := by
  cases t with
  | dict =>
    refine ⟨fun value => mem_values_iff, ?_⟩
    intro hinj
    have hnodup := Dict.nodup c
    refine hnodup.of_map.map_on ?_
    rintro ⟨key, value⟩ hmem ⟨key', value'⟩ hmem' heq
    obtain rfl : value = value' := heq
    rw [hinj key key' value (get?_eq_some_iff.mpr hmem) (get?_eq_some_iff.mpr hmem')]
  | treeCache keys =>
    have hvalues : TreeCache.values c = (TreeCache.items keys.arity c).map Prod.snd :=
      values_eq h.1
    refine ⟨?_, ?_⟩
    · intro value
      show value ∈ TreeCache.values c ↔ _
      rw [hvalues, List.mem_map]
      constructor
      · rintro ⟨⟨parts, v⟩, hmem, rfl⟩
        obtain ⟨key, rfl⟩ := h.2 parts v hmem
        exact ⟨key, (lookup_tree h.1).mpr hmem⟩
      · rintro ⟨key, hvalue⟩
        exact ⟨_, (lookup_tree h.1).mp hvalue, rfl⟩
    · intro hinj
      show (TreeCache.values c).Nodup
      rw [hvalues]
      refine nodup_of_injective h.1.uniform.nodup_items ?_
      intro parts₁ parts₂ value hmem₁ hmem₂
      obtain ⟨key₁, rfl⟩ := h.2 parts₁ value hmem₁
      obtain ⟨key₂, rfl⟩ := h.2 parts₂ value hmem₂
      rw [hinj key₁ key₂ value ((lookup_tree h.1).mpr hmem₁) ((lookup_tree h.1).mpr hmem₂)]

end CacheType

end Setka.Util
