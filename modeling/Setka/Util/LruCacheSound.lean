/-
# Setka.Util.LruCacheSound — the cache is a bounded recency list.

The nodes in the order of their last use are the entries of a `RecencyList`. The dictionary, the circular
list, the counter and the extra index each have their own relation to these nodes, and each operation
keeps all of them: but for one. A `set` over another value leaves the key in the extra index where the
value before it was.
-/
import Setka.Lib.RecencyList
import Setka.Lib.Transition
import Setka.Util.LruCache

namespace Setka.Util

open Setka.Api Setka.Lib RecencyList Dict Setka.Lib.Action ListHeap CacheType Function
open List (mem_cons_of_mem map_append map_cons mem_cons_self filter_congr sum_cons filter_append length_cons
  nodup_nil)

variable {κ α ν γ : Type} [DecidableEq κ] [DecidableEq γ]

namespace LruCache

variable {cfg : LruConfig κ α ν γ}

/-! ## §1 What the parts of a cache say of its nodes -/

/-- A node as an entry. -/
def entryOf (n : LruNode κ ν γ) : RecencyEntry κ ν γ := ⟨n.key, n.value, n.callbacks.toFinset⟩

/-- The nodes, by their addresses, as entries. -/
def entriesOf (es : List (ℕ × LruNode κ ν γ)) : List (RecencyEntry κ ν γ) :=
  es.map fun e => entryOf e.2

omit [DecidableEq κ] in
theorem entriesOf_middle (es₁ es₂ : List (ℕ × LruNode κ ν γ)) (address : ℕ) (n : LruNode κ ν γ) :
    entriesOf (es₁ ++ (address, n) :: es₂) = entriesOf es₁ ++ entryOf n :: entriesOf es₂ := by
  simp [entriesOf]

/-- What a value adds to the counter. -/
def counted (cfg : LruConfig κ α ν γ) (value : ν) : ℤ :=
  match cfg.sizeCallback with
  | some size => size value
  | none => 0

/-- What a value adds to the length of the cache. -/
def size (cfg : LruConfig κ α ν γ) (value : ν) : ℤ :=
  match cfg.sizeCallback with
  | some size => size value
  | none => 1

/-! ### Sizes and callbacks -/

theorem addLen_eq (len : ℤ) (value : ν) : addLen cfg len value = len + counted cfg value := by
  unfold addLen counted
  cases cfg.sizeCallback with
  | none => simp
  | some size => rfl

theorem subLen_eq (len : ℤ) (value : ν) : subLen cfg len value = len - counted cfg value := by
  unfold subLen counted
  cases cfg.sizeCallback with
  | none => simp
  | some size => rfl

/-- What `add_callbacks` makes of two lists. -/
def mergeCallbacks (callbacks new : List γ) : List γ :=
  new.foldl (fun l callback => if callback ∈ l then l else l ++ [callback]) callbacks

theorem nodup_mergeCallbacks {callbacks : List γ} (h : callbacks.Nodup) (new : List γ) :
    (mergeCallbacks callbacks new).Nodup := by
  unfold mergeCallbacks
  induction new generalizing callbacks with
  | nil => exact h
  | cons callback new ih =>
    rw [List.foldl_cons]
    split
    · exact ih h
    · next hnot => exact ih (List.nodup_append_comm.mp (List.nodup_cons.mpr ⟨hnot, h⟩))

theorem toFinset_mergeCallbacks (callbacks new : List γ) :
    (mergeCallbacks callbacks new).toFinset = callbacks.toFinset ∪ new.toFinset := by
  unfold mergeCallbacks
  induction new generalizing callbacks with
  | nil => simp
  | cons callback new ih =>
    rw [List.foldl_cons]
    split
    · next hmem =>
        rw [ih, List.toFinset_cons, Finset.union_insert,
          Finset.insert_eq_of_mem (Finset.mem_union_left _ (List.mem_toFinset.mpr hmem))]
    rw [ih]
    ext callback'
    simp

omit [DecidableEq κ] in
/-- The callbacks of a node that gets more of them. -/
theorem tagged_mergeCallbacks (key : κ) (callbacks new : List γ) :
    RecencyList.tagged key (mergeCallbacks callbacks new).toFinset = RecencyList.tagged key callbacks.toFinset +
        RecencyList.tagged key (new.toFinset \ callbacks.toFinset) := by
  rw [toFinset_mergeCallbacks, tagged_union]

/-! ### The extra index -/

variable {indexKey : κ → ν → κ}

theorem mem_addIndex (hcb : cfg.extraIndexCb = some indexKey) (index : Dict κ (Finset κ)) (key : κ) (value : ν)
    (i key' : κ) : key' ∈ (addIndex cfg index key value).getD i ∅ ↔
      key' ∈ index.getD i ∅ ∨ i = indexKey key value ∧ key' = key := by
  simp only [addIndex, hcb, Dict.getD, get?_set]
  by_cases hi : i = indexKey key value
  · simp [hi, or_comm]
  · simp [hi]

theorem mem_discardIndex (hcb : cfg.extraIndexCb = some indexKey) (index : Dict κ (Finset κ)) (key : κ)
    (value : ν) (i key' : κ) : key' ∈ (discardIndex cfg index key value).getD i ∅ ↔
      key' ∈ index.getD i ∅ ∧ ¬ (i = indexKey key value ∧ key' = key) := by
  simp only [discardIndex, hcb]
  cases hget : index.get? (indexKey key value) with
  | none =>
    by_cases hi : i = indexKey key value
    · simp [Dict.getD, hi, hget]
    · simp [hi]
  | some mappedKeys =>
    by_cases hempty : mappedKeys.erase key = ∅
    · simp only [if_pos hempty, Dict.getD, get?_erase]
      by_cases hi : i = indexKey key value
      · have hmem : key' ∈ mappedKeys → key' = key := by
          intro hmem
          by_contra hne
          have hmem' := Finset.mem_erase.mpr ⟨hne, hmem⟩
          rw [hempty] at hmem'
          cases hmem'
        simp only [hi, hget, if_true, Option.getD_none, Finset.notMem_empty, Option.getD_some,
          true_and, false_iff, not_and, not_not]
        exact hmem
      · simp [hi]
    · simp only [if_neg hempty, Dict.getD, get?_set]
      by_cases hi : i = indexKey key value
      · simp [hi, hget, and_comm]
      · simp [hi]

/-! ### Their relations to the nodes -/

/-- The nodes `es`, in the order of their last use, are those of the circular list and the heap, and the
counter has their sizes. -/
structure Core (s : LruCache cfg) (es : List (ℕ × LruNode κ ν γ)) : Prop where
  ring : s.links.Ring listRoot (es.map Prod.fst)
  rootEntry : (s.links listRoot).cacheEntry = none
  fresh : ∀ e ∈ es, e.1 < s.nextAddress
  root : listRoot < s.nextAddress
  nodes : ∀ e ∈ es, s.nodes e.1 = some e.2
  entries : ∀ e ∈ es, (s.links e.1).cacheEntry = some e.1
  keys : (es.map fun e => e.2.key).Nodup
  counter : s.cachedCacheLen = (es.map fun e => counted cfg e.2.value).sum
  callbacks : ∀ e ∈ es, e.2.callbacks.Nodup

/-- The extra index has the keys of the nodes by what the values tell, but for an index key that is being
invalidated. -/
def Indexed (cfg : LruConfig κ α ν γ) (off : Option κ) (index : Dict κ (Finset κ))
    (es : List (ℕ × LruNode κ ν γ)) : Prop :=
  ∀ indexKey, cfg.extraIndexCb = some indexKey → ∀ i key, key ∈ index.getD i ∅ ↔
    some i ≠ off ∧ ∃ e ∈ es, e.2.key = key ∧ indexKey e.2.key e.2.value = i

/-- The callbacks that have run, and those that are on the nodes. -/
def account (s : LruCache cfg) (es : List (ℕ × LruNode κ ν γ)) : Multiset (κ × γ) :=
  (s.ran : Multiset (κ × γ)) + RecencyList.stored (entriesOf es)

/-- All parts but the dictionary. -/
structure Live (off : Option κ) (s : LruCache cfg) (es : List (ℕ × LruNode κ ν γ))
    (registered : Multiset (κ × γ)) : Prop where
  core : s.Core es
  indexed : Indexed cfg off s.extraIndex es
  account : s.account es = registered

/-! ## §2 What the methods of a node do -/

variable {s : LruCache cfg} {address : ℕ} {n : LruNode κ ν γ}

theorem run_node (h : s.nodes address = some n) : (node address).run s = (.ok n, s) := by
  simp only [node, run_reads, h]

variable {links : ListHeap ℕ}

theorem run_onLinks {f : ListHeap ℕ → Except Error (ListHeap ℕ)} (h : f s.links = .ok links) :
    (onLinks f).run s = (.ok (), { s with links := links }) := by
  simp only [onLinks, h]

variable {c : cfg.cacheType.Data ℕ}

theorem run_onCache {β : Type} {f : cfg.cacheType.Data ℕ → Except Error (β × cfg.cacheType.Data ℕ)} {b : β}
    (h : f s.cache = .ok (b, c)) : (onCache f).run s = (.ok b, { s with cache := c }) := by
  simp only [onCache, h]

theorem run_runAndClearCallbacks (h : s.nodes address = some n) : (runAndClearCallbacks address).run s =
      (.ok (), { s with
        nodes := Function.update s.nodes address (some { n with callbacks := [] })
        ran := s.ran ++ n.callbacks.map (Prod.mk n.key) }) := by
  rw [runAndClearCallbacks, run_bind_of_ok (run_node h)]
  rfl

/-- The cache after `delete_node`. -/
def deleted (s : LruCache cfg) (address : ℕ) (n : LruNode κ ν γ) : LruCache cfg :=
  { s with
    links := s.links.removeFromList address
    nodes := Function.update s.nodes address (some { n with callbacks := [] })
    cachedCacheLen := subLen cfg s.cachedCacheLen n.value
    extraIndex := discardIndex cfg s.extraIndex n.key n.value
    ran := s.ran ++ n.callbacks.map (Prod.mk n.key) }

theorem run_deleteNode (h : s.nodes address = some n) :
    (deleteNode address).run s = (.ok (), s.deleted address n) := by
  have hlinks : (onLinks fun links => .ok (links.removeFromList address) : Method cfg Unit).run s =
      (.ok (), { s with links := s.links.removeFromList address }) := run_onLinks rfl
  rw [deleteNode, run_bind_of_ok hlinks]
  simp only [run_bind, node, run_reads, run_modify, runAndClearCallbacks, h,
    setNode, LruCache.deleted]

/-! ### Nodes of a list -/

variable {es₁ es₂ : List (ℕ × LruNode κ ν γ)}

/-- The other nodes have other addresses and keys. -/
theorem Core.others (h : s.Core (es₁ ++ (address, n) :: es₂)) :
    ∀ e ∈ es₁ ++ es₂, e.1 ≠ address ∧ e.2.key ≠ n.key := by
  have haddress := (List.nodup_cons.mp h.ring.nodup).2
  have hkeys := h.keys
  simp only [map_append, map_cons] at haddress hkeys
  have haddress := (List.nodup_cons.mp (List.perm_middle.nodup_iff.mp haddress)).1
  have hkeys := (List.nodup_cons.mp (List.perm_middle.nodup_iff.mp hkeys)).1
  rw [← map_append] at haddress hkeys
  intro e he
  refine ⟨?_, ?_⟩
  · rintro rfl
    exact haddress (List.mem_map_of_mem he)
  · intro heq
    exact hkeys (List.mem_map.mpr ⟨e, he, heq⟩)

omit [DecidableEq κ] [DecidableEq γ] in
theorem perm_middle_map {β : Type} (f : ℕ × LruNode κ ν γ → β) (es₁ es₂ : List (ℕ × LruNode κ ν γ))
    (e : ℕ × LruNode κ ν γ) :
    ((es₁ ++ e :: es₂).map f).Perm (f e :: (es₁ ++ es₂).map f) :=
  List.perm_middle.map f

/-- **A node is dropped** from the circular list, and its size from the counter. -/
theorem Core.deleted (h : s.Core (es₁ ++ (address, n) :: es₂)) : (s.deleted address n).Core (es₁ ++ es₂) := by
  have hothers := h.others
  have hsub : ∀ e ∈ es₁ ++ es₂, e ∈ es₁ ++ (address, n) :: es₂ := by
    intro e he
    exact List.perm_middle.mem_iff.mpr (mem_cons_of_mem _ he)
  have hroot : listRoot ≠ address := by
    rintro rfl
    exact (List.nodup_cons.mp h.ring.nodup).1 (by simp)
  refine ⟨?_, ?_, fun e he => h.fresh e (hsub e he), h.root, ?_, ?_, ?_, ?_, fun e he => h.callbacks e (hsub e he)⟩
  · have hring := h.ring
    rw [map_append, map_cons] at hring
    rw [map_append]
    exact hring.removeFromList
  · show (s.links.removeFromList address listRoot).cacheEntry = none
    rw [cacheEntry_removeFromList _ hroot]
    exact h.rootEntry
  · intro e he
    show Function.update s.nodes address _ e.1 = some e.2
    rw [update_of_ne (hothers e he).1]
    exact h.nodes e (hsub e he)
  · intro e he
    show (s.links.removeFromList address e.1).cacheEntry = some e.1
    rw [cacheEntry_removeFromList _ (hothers e he).1]
    exact h.entries e (hsub e he)
  · have hkeys := (perm_middle_map (fun e => e.2.key) es₁ es₂ (address, n)).nodup_iff.mp h.keys
    exact (List.nodup_cons.mp hkeys).2
  · have hsum := (perm_middle_map (fun e => counted cfg e.2.value) es₁ es₂ (address, n)).sum_eq
    show subLen cfg s.cachedCacheLen n.value = _
    rw [subLen_eq, h.counter, hsum, sum_cons]
    exact add_sub_cancel_left _ _

variable {es es' : List (ℕ × LruNode κ ν γ)}

/-- A node is changed, and stays in its place or goes to the front. -/
theorem Core.update (h : s.Core es) {len : ℤ} {ran : List (κ × γ)} {n' : LruNode κ ν γ}
    (hring : links.Ring listRoot (es'.map Prod.fst))
    (hlinks : ∀ m, (links m).cacheEntry = (s.links m).cacheEntry)
    (hmem : ∀ e ∈ es', e = (address, n') ∨ e ∈ es ∧ e.1 ≠ address) (haddress : address ∈ es.map Prod.fst)
    (hkeys : (es'.map fun e => e.2.key).Nodup) (hlen : len = (es'.map fun e => counted cfg e.2.value).sum)
    (hcallbacks : n'.callbacks.Nodup) : Core { s with
      links := links
      nodes := Function.update s.nodes address (some n')
      cachedCacheLen := len
      ran := ran } es' := by
  obtain ⟨⟨a, old⟩, hold, rfl⟩ := List.mem_map.mp haddress
  refine ⟨hring, (hlinks listRoot).trans h.rootEntry, ?_, h.root, ?_, ?_, hkeys, hlen, ?_⟩
  · intro e he
    rcases hmem e he with rfl | ⟨he, -⟩
    · exact h.fresh (a, old) hold
    · exact h.fresh e he
  · intro e he
    rcases hmem e he with rfl | ⟨he, hne⟩
    · exact update_self _ _ _
    show Function.update s.nodes _ _ e.1 = some e.2
    rw [update_of_ne hne]
    exact h.nodes e he
  · intro e he
    show (links e.1).cacheEntry = some e.1
    rw [hlinks]
    rcases hmem e he with rfl | ⟨he, -⟩
    · exact h.entries (a, old) hold
    · exact h.entries e he
  · intro e he
    rcases hmem e he with rfl | ⟨he, -⟩
    · exact hcallbacks
    · exact h.callbacks e he

/-! ### The index and the callbacks -/

omit [DecidableEq κ] in
theorem coe_map_callbacks (h : n.callbacks.Nodup) :
    ((n.callbacks.map (Prod.mk n.key) : List (κ × γ)) : Multiset (κ × γ)) =
      RecencyList.tagged n.key n.callbacks.toFinset := by
  rw [RecencyList.tagged, List.toFinset_val, h.dedup, Multiset.map_coe]

omit [DecidableEq κ] in
theorem stored_middle (es₁ es₂ : List (ℕ × LruNode κ ν γ)) (e : ℕ × LruNode κ ν γ) :
    RecencyList.stored (entriesOf (es₁ ++ e :: es₂)) = RecencyList.tagged e.2.key e.2.callbacks.toFinset +
        RecencyList.stored (entriesOf (es₁ ++ es₂)) := by
  simp only [entriesOf, map_append, map_cons, stored_append, stored_cons, entryOf]
  exact add_left_comm _ _ _

variable {off : Option κ}

theorem Indexed.deleted {index : Dict κ (Finset κ)} {e : ℕ × LruNode κ ν γ}
    (h : Indexed cfg off index (es₁ ++ e :: es₂)) (hothers : ∀ e' ∈ es₁ ++ es₂, e'.2.key ≠ e.2.key) :
    Indexed cfg off (discardIndex cfg index e.2.key e.2.value) (es₁ ++ es₂) := by
  intro indexKey hcb i key
  rw [mem_discardIndex hcb, h indexKey hcb]
  constructor
  · rintro ⟨⟨hoff, e', he', hkey, hi⟩, hnot⟩
    rcases List.mem_cons.mp (List.perm_middle.mem_iff.mp he') with rfl | he'
    · exact absurd ⟨hi.symm, hkey.symm⟩ hnot
    · exact ⟨hoff, e', he', hkey, hi⟩
  · rintro ⟨hoff, e', he', hkey, hi⟩
    refine ⟨⟨hoff, e', List.perm_middle.mem_iff.mpr (mem_cons_of_mem _ he'), hkey, hi⟩, ?_⟩
    rintro ⟨-, hsame⟩
    exact hothers e' he' (hkey.trans hsame)

variable {registered : Multiset (κ × γ)}

/-- **A deleted node is gone** from everything but the dictionary, and its callbacks have run. -/
theorem Live.deleted (h : Live off s (es₁ ++ (address, n) :: es₂) registered) :
    Live off (s.deleted address n) (es₁ ++ es₂) registered := by
  refine ⟨h.core.deleted, h.indexed.deleted fun e he => (h.core.others e he).2, ?_⟩
  have hcallbacks := coe_map_callbacks (h.core.callbacks (address, n) (by simp))
  show ((s.ran ++ n.callbacks.map (Prod.mk n.key) : List (κ × γ)) : Multiset (κ × γ)) + _ = _
  rw [← h.account, LruCache.account, stored_middle, ← Multiset.coe_add, hcallbacks, add_assoc]

/-- The nodes but one are those with another address. -/
theorem Core.filter_address (h : s.Core (es₁ ++ (address, n) :: es₂)) :
    (es₁ ++ (address, n) :: es₂).filter (fun e => e.1 ≠ address) = es₁ ++ es₂ := by
  rw [filter_append, List.filter_cons_of_neg (by simp), ← filter_append]
  exact List.filter_eq_self.mpr fun e he => by simpa using (h.others e he).1

/-- Two nodes are not at one address, and do not have one key. -/
theorem Core.injective (h : s.Core es) {e e' : ℕ × LruNode κ ν γ} (he : e ∈ es) (he' : e' ∈ es)
    (hsame : e.1 = e'.1 ∨ e.2.key = e'.2.key) : e = e' := by
  obtain ⟨es₁, es₂, rfl⟩ := List.append_of_mem he
  rcases List.mem_cons.mp (List.perm_middle.mem_iff.mp he') with rfl | he'
  · rfl
  obtain ⟨haddress, hkey⟩ := h.others e' he'
  rcases hsame with hsame | hsame
  · exact absurd hsame.symm haddress
  · exact absurd hsame.symm hkey

theorem Core.length_eq_of_mem_iff (h : s.Core es) {p : ℕ × LruNode κ ν γ → Bool} {addresses : List ℕ}
    (hnodup : addresses.Nodup)
    (hmem : ∀ address, address ∈ addresses ↔ ∃ n, (address, n) ∈ es ∧ p (address, n) = true) :
    addresses.length = (es.filter p).length := by
  have hes : ((es.filter p).map Prod.fst).Nodup :=
    (List.nodup_cons.mp h.ring.nodup).2.sublist (List.filter_sublist.map Prod.fst)
  have hperm : addresses.Perm ((es.filter p).map Prod.fst) := by
    refine (List.perm_ext_iff_of_nodup hnodup hes).mpr ?_
    intro address
    rw [hmem]
    simp
  rw [hperm.length_eq, List.length_map]

/-- **A loop that deletes nodes**, one after the other: `f` does to `w` of a cache what `delete_node` does to
the cache. -/
theorem run_forM_deleted {w : LruCache cfg → LruCache cfg} {f : ℕ → Method cfg PUnit}
    (hf : ∀ (t : LruCache cfg) address n, t.nodes address = some n →
      (f address).run (w t) = (.ok (), w (t.deleted address n))) (h : Live off s es registered)
    {addresses : List ℕ} (hnodup : addresses.Nodup) (hmem : ∀ address ∈ addresses, ∃ n, (address, n) ∈ es) :
    ∃ s', (addresses.forM f).run (w s) = (.ok (), w s') ∧
      Live off s' (es.filter fun e => e.1 ∉ addresses) registered ∧
      s'.cache = s.cache ∧ s'.maxSize = s.maxSize := by
  induction addresses generalizing s es with
  | nil => exact ⟨s, rfl, by simpa using h, rfl, rfl⟩
  | cons address addresses ih =>
    obtain ⟨hnot, hnodup⟩ := List.nodup_cons.mp hnodup
    obtain ⟨n, hn⟩ := hmem address mem_cons_self
    have hnode : s.nodes address = some n := h.core.nodes _ hn
    obtain ⟨es₁, es₂, rfl⟩ := List.append_of_mem hn
    have hfilter := h.core.filter_address
    have hothers : ∀ a ∈ addresses, ∃ m, (a, m) ∈ es₁ ++ es₂ := by
      intro a ha
      obtain ⟨m, hm⟩ := hmem a (mem_cons_of_mem address ha)
      rcases List.mem_cons.mp (List.perm_middle.mem_iff.mp hm) with heq | hm
      · obtain ⟨rfl, -⟩ := Prod.mk.inj heq
        exact absurd ha hnot
      · exact ⟨m, hm⟩
    obtain ⟨s', hrun, hlive, hcache, hmax⟩ := ih h.deleted hnodup hothers
    refine ⟨s', ?_, ?_, hcache, hmax⟩
    · rw [run_forM_cons, run_bind_of_ok (hf s address n hnode)]
      exact hrun
    rw [← hfilter, List.filter_filter] at hlive
    convert hlive using 2
    funext e
    by_cases ha : e.1 = address
    · simp [ha]
    · simp [ha]

/-! ## §3 What is removed -/

variable [DecidableEq α]

/-- The dictionary, or the tree, has the addresses of the nodes by key. -/
structure Synced (c : cfg.cacheType.Data ℕ) (es : List (ℕ × LruNode κ ν γ)) : Prop where
  wf : cfg.cacheType.Wf c
  len : cfg.cacheType.len c = es.length
  lookup : ∀ key address, cfg.cacheType.lookup c key = some address ↔
    ∃ n, (address, n) ∈ es ∧ n.key = key

/-- The length that is reported is the sum of the sizes. -/
theorem cacheLen_eq (hcore : s.Core es) (hsynced : Synced s.cache es) :
    s.cacheLen = RecencyList.total (size cfg) (entriesOf es) := by
  have hcounter := hcore.counter
  unfold cacheLen RecencyList.total size entriesOf
  unfold counted at hcounter
  cases hsize : cfg.sizeCallback with
  | none => simp [hsynced.len, comp_def]
  | some size =>
    simp only [hsize] at hcounter
    rw [hcounter, List.map_map]
    rfl

variable {key : κ}

/-- The keys of an address are the same. -/
theorem Synced.injective (hcore : s.Core es) (h : Synced c es) {key' : κ}
    (hkey : cfg.cacheType.lookup c key = some address)
    (hkey' : cfg.cacheType.lookup c key' = some address) : key = key' := by
  obtain ⟨n, hn, rfl⟩ := (h.lookup key address).mp hkey
  obtain ⟨n', hn', rfl⟩ := (h.lookup key' address).mp hkey'
  obtain ⟨-, rfl⟩ := Prod.mk.inj (hcore.injective hn hn' (Or.inl rfl))
  rfl

omit [DecidableEq α] in
/-- The dictionary is another matter. -/
theorem Live.setCache (h : Live off s es registered)
    (c : cfg.cacheType.Data ℕ) : Live off { s with cache := c } es registered :=
  ⟨⟨h.core.ring, h.core.rootEntry, h.core.fresh, h.core.root, h.core.nodes, h.core.entries,
    h.core.keys, h.core.counter, h.core.callbacks⟩, h.indexed, h.account⟩

/-- **What a `pop` takes out of the dictionary** are the nodes under its key, and it leaves the others. -/
theorem Synced.popped (hcore : s.Core es) {c' : cfg.cacheType.Data ℕ} (h : Synced c es) {key : MultiKey κ α}
    {popped : TreeEntry α ℕ} (hpopped : CacheType.Popped cfg.cacheType c key popped c') :
    Synced c' (es.filter fun e => ¬ cfg.cacheType.Matches key e.2.key) ∧ popped.leaves.Nodup ∧
      ∀ address, address ∈ popped.leaves ↔
        ∃ n, (address, n) ∈ es ∧ cfg.cacheType.Matches key n.key := by
  have hnodup := hpopped.nodup fun key₁ key₂ address h₁ h₂ => h.injective hcore h₁ h₂
  have hleaves : ∀ address, address ∈ popped.leaves ↔
      ∃ n, (address, n) ∈ es ∧ cfg.cacheType.Matches key n.key := by
    intro address
    rw [hpopped.leaves]
    constructor
    · rintro ⟨key', hmatch, hlookup⟩
      obtain ⟨n, hn, rfl⟩ := (h.lookup key' address).mp hlookup
      exact ⟨n, hn, hmatch⟩
    · rintro ⟨n, hn, hmatch⟩
      exact ⟨n.key, hmatch, (h.lookup n.key address).mpr ⟨n, hn, rfl⟩⟩
  refine ⟨⟨hpopped.wf, ?_, ?_⟩, hnodup, hleaves⟩
  · have hlength := hcore.length_eq_of_mem_iff (p := fun e => cfg.cacheType.Matches key e.2.key)
      hnodup (by simpa using hleaves)
    have hsum := List.length_eq_length_filter_add (l := es) (fun e => decide (cfg.cacheType.Matches key e.2.key))
    rw [hpopped.len, h.len, hlength]
    simp only [decide_not]
    omega
  intro key' address
  rw [hpopped.left, h.lookup]
  constructor
  · rintro ⟨⟨n, hn, rfl⟩, hnot⟩
    exact ⟨n, List.mem_filter.mpr ⟨hn, by simpa using hnot⟩, rfl⟩
  rintro ⟨n, hn, rfl⟩
  obtain ⟨hn, hnot⟩ := List.mem_filter.mp hn
  exact ⟨⟨n, hn, rfl⟩, by simpa using hnot⟩

/-- The dictionary has no node under a key. -/
theorem Synced.filter_eq_self (h : Synced c es) {key : MultiKey κ α}
    (hnot : ∀ key' address, cfg.cacheType.lookup c key' = some address →
      ¬ cfg.cacheType.Matches key key') : (es.filter fun e => ¬ cfg.cacheType.Matches key e.2.key) = es := by
  refine List.filter_eq_self.mpr ?_
  intro e he
  have hlookup := (h.lookup e.2.key e.1).mpr ⟨e.2, he, rfl⟩
  simpa using hnot e.2.key e.1 hlookup

/-- The state of a cache whose parts all agree with the nodes `es`. -/
structure Whole (s : LruCache cfg) (es : List (ℕ × LruNode κ ν γ)) (registered : Multiset (κ × γ))
    (maxSize : ℤ) : Prop where
  live : Live none s es registered
  synced : Synced s.cache es
  maxSize : s.maxSize = maxSize

variable {maxSize : ℤ}

/-- `del_multi` returns, or raises where there is nothing to be deleted. -/
theorem cacheDelMulti_spec (h : s.Whole es registered maxSize)
    (key : MultiKey κ α) : ∃ r s', (cacheDelMulti key).run s = (r, s') ∧
      s'.Whole (es.filter fun e => ¬ cfg.cacheType.Matches key e.2.key) registered maxSize ∧
      (¬ cfg.cacheType.Invalid key → r = .ok none) := by
  rcases pop_spec h.synced.wf key with ⟨hpop, hnot⟩ | ⟨popped, c', hpop, hpopped⟩
  · rw [h.synced.filter_eq_self hnot]
    rcases hpop with hpop | ⟨hinvalid, e, hpop⟩
    · refine ⟨.ok none, s, ?_, h, fun _ => rfl⟩
      rw [cacheDelMulti, run_bind_of_ok (run_onCache hpop)]
      rfl
    refine ⟨.error e, s, ?_, h, fun hvalid => absurd hinvalid hvalid⟩
    have hrun : (onCache fun c => cfg.cacheType.pop c key : Method cfg _).run s = (.error e, s) := by
      simp only [onCache, hpop]
    rw [cacheDelMulti, run_bind_of_error hrun]
  · obtain ⟨hsynced, hnodup, hleaves⟩ := h.synced.popped h.live.core hpopped
    have hlive := h.live.setCache c'
    obtain ⟨s', hrun, hlive', hcache, hmax⟩ :=
      run_forM_deleted (w := id) (f := deleteNode) (fun t a n hn => run_deleteNode hn) hlive hnodup (by
        intro address hmem
        obtain ⟨n, hn, -⟩ := (hleaves address).mp hmem
        exact ⟨n, hn⟩)
    have hfilter : (es.filter fun e => e.1 ∉ popped.leaves) =
        es.filter fun e => ¬ cfg.cacheType.Matches key e.2.key := by
      refine filter_congr ?_
      intro e he
      have hiff : e.1 ∈ popped.leaves ↔ cfg.cacheType.Matches key e.2.key := by
        rw [hleaves]
        constructor
        · rintro ⟨n, hn, hmatch⟩
          rwa [h.live.core.injective he hn (Or.inl rfl)]
        · intro hmatch
          exact ⟨e.2, he, hmatch⟩
      simp [hiff]
    rw [hfilter] at hlive'
    refine ⟨.ok none, s', ?_, ⟨hlive', ?_, hmax.trans h.maxSize⟩, fun _ => rfl⟩
    · rw [cacheDelMulti, run_bind_of_ok (run_onCache hpop)]
      exact run_bind_of_ok hrun _
    · rw [hcache]
      exact hsynced

/-! ### One key -/

theorem run_lookup (h : Synced s.cache es)
    (key : κ) : (lookup key).run s = (.ok (cfg.cacheType.lookup s.cache key), s) := by
  simp only [lookup, run_reads, get_eq h.wf]
  cases cfg.cacheType.lookup s.cache key with
  | none => rfl
  | some address => rfl

/-- A key has no node, or one. -/
theorem Synced.lookup_cases (h : Synced c es) (key : κ) :
    cfg.cacheType.lookup c key = none ∧ (∀ e ∈ es, e.2.key ≠ key) ∨
      ∃ address n es₁ es₂, cfg.cacheType.lookup c key = some address ∧ n.key = key ∧
        es = es₁ ++ (address, n) :: es₂ := by
  cases hlookup : cfg.cacheType.lookup c key with
  | none =>
    refine Or.inl ⟨rfl, ?_⟩
    intro e he hkey
    exact absurd (hlookup.symm.trans ((h.lookup key e.1).mpr ⟨e.2, he, hkey⟩)) (by simp)
  | some address =>
    obtain ⟨n, hn, hkey⟩ := (h.lookup key address).mp hlookup
    obtain ⟨es₁, es₂, heq⟩ := List.append_of_mem hn
    exact Or.inr ⟨address, n, es₁, es₂, rfl, hkey, heq⟩

omit [DecidableEq γ] [DecidableEq α] in
theorem filter_key_eq_self (hnot : ∀ e ∈ es, e.2.key ≠ key) : (es.filter fun e => e.2.key ≠ key) = es :=
  List.filter_eq_self.mpr fun e he => by simpa using hnot e he

omit [DecidableEq α] in
theorem Core.filter_key (h : s.Core (es₁ ++ (address, n) :: es₂)) :
    (es₁ ++ (address, n) :: es₂).filter (fun e => e.2.key ≠ n.key) = es₁ ++ es₂ := by
  rw [filter_append, List.filter_cons_of_neg (by simp), ← filter_append]
  exact filter_key_eq_self fun e he => (h.others e he).2

/-- **A node is taken out of the dictionary and deleted**, in either order. -/
theorem Live.removed (h : Live off s (es₁ ++ (address, n) :: es₂) registered)
    (hsynced : Synced s.cache (es₁ ++ (address, n) :: es₂)) :
    ∃ c', cfg.cacheType.pop s.cache (.full n.key) = .ok (some (.leaf address), c') ∧
      Synced c' (es₁ ++ es₂) ∧
      Live off { s.deleted address n with cache := c' } (es₁ ++ es₂) registered := by
  have hlookup := (hsynced.lookup n.key address).mpr ⟨n, by simp, rfl⟩
  rcases pop_full hsynced.wf n.key with ⟨-, hnone⟩ | ⟨a, c', ha, hpop, hpopped⟩
  · exact absurd (hnone.symm.trans hlookup) (by simp)
  obtain rfl := Option.some.inj (ha.symm.trans hlookup)
  have hleft := (hsynced.popped h.core hpopped).1
  have hfilter : ((es₁ ++ (a, n) :: es₂).filter fun e =>
      ¬ cfg.cacheType.Matches (.full n.key) e.2.key) = es₁ ++ es₂ := by
    rw [← h.core.filter_key]
    refine filter_congr ?_
    intro e _
    simp [matches_full]
  rw [hfilter] at hleft
  exact ⟨c', hpop, hleft, h.deleted.setCache c'⟩

omit [DecidableEq α] in
/-- What is read of a deleted node. -/
theorem run_node_deleted : (node address).run (s.deleted address n) =
    (.ok { n with callbacks := [] }, s.deleted address n) := run_node (update_self _ _ _)

/-- Its key is taken out of the dictionary. -/
theorem run_pop_deleted (hpop : cfg.cacheType.pop s.cache (.full n.key) = .ok (some (.leaf address), c)) :
    (onCache fun c => cfg.cacheType.pop c (.full n.key) : Method cfg _).run (s.deleted address n) =
      (.ok (some (.leaf address)), { s.deleted address n with cache := c }) := run_onCache hpop

theorem cachePop_spec (h : s.Whole es registered maxSize) (key : κ) : ∃ r s', (cachePop key).run s = (.ok r, s') ∧
      s'.Whole (es.filter fun e => e.2.key ≠ key) registered maxSize := by
  rcases h.synced.lookup_cases key with ⟨hnone, hnot⟩ | ⟨address, n, es₁, es₂, hsome, rfl, rfl⟩
  · rw [filter_key_eq_self hnot]
    refine ⟨none, s, ?_, h⟩
    rw [cachePop, run_bind_of_ok (run_lookup h.synced key), hnone]
    rfl
  obtain ⟨c', hpop, hsynced, hlive⟩ := h.live.removed h.synced
  have hnode : s.nodes address = some n := h.live.core.nodes (address, n) (by simp)
  rw [h.live.core.filter_key]
  refine ⟨some n.value, { s.deleted address n with cache := c' }, ?_, hlive, hsynced, h.maxSize⟩
  rw [cachePop, run_bind_of_ok (run_lookup h.synced n.key), hsome]
  show (deleteNode address >>= _).run s = _
  rw [run_bind_of_ok (run_deleteNode hnode), run_bind_of_ok run_node_deleted,
    run_bind_of_ok (run_pop_deleted hpop)]
  rfl

/-! ### The oldest nodes -/

omit [DecidableEq α] in
/-- There are not more nodes than addresses were given out. -/
theorem Core.length_lt (h : s.Core es) : es.length < s.nextAddress := by
  have hsub : listRoot :: es.map Prod.fst ⊆ List.range s.nextAddress := by
    intro address hmem
    rw [List.mem_range]
    rcases List.mem_cons.mp hmem with rfl | hmem
    · exact h.root
    · obtain ⟨e, he, rfl⟩ := List.mem_map.mp hmem
      exact h.fresh e he
  have hle := (h.ring.nodup.subperm hsub).length_le
  rw [length_cons, List.length_map, List.length_range] at hle
  omega

/-- **The loop of `evict`** drops the oldest nodes until the length is within the bound. It raises only
where all nodes are gone and the bound is negative. -/
theorem evictLoop_spec {turns : ℕ} (h : s.Whole es registered maxSize)
    (hturns : es.length < turns) : ∃ r s' es', (evictLoop turns).run s = (r, s') ∧
      s'.Whole es' registered maxSize ∧
      entriesOf es' = (RecencyList.trim (size cfg) maxSize (entriesOf es).reverse).1.reverse ∧
      (0 ≤ maxSize → r = .ok ()) := by
  induction turns generalizing s es with
  | zero => exact absurd hturns (Nat.not_lt_zero _)
  | succ turns ih =>
    have hlen := cacheLen_eq h.live.core h.synced
    rw [← total_reverse] at hlen
    by_cases hfull : s.maxSize < s.cacheLen
    · have hring := h.live.core.ring.prevNode_root
      rcases List.eq_nil_or_concat es with rfl | ⟨es, ⟨address, n⟩, rfl⟩
      · -- nothing is left, and the root has no entry
        refine ⟨.error .assertionError, s, [], ?_, h, rfl, ?_⟩
        · simp only [evictLoop, run_bind, run_reads, hfull, decide_true, if_true,
            hring, List.map_nil, List.getLast?_nil, Option.getD_none, h.live.core.rootEntry]
        intro hpos
        have hzero : s.cacheLen = 0 := hlen
        have hmax := h.maxSize
        omega
      rw [List.concat_eq_append] at h hturns hlen hring ⊢
      have hnode : s.nodes address = some n := h.live.core.nodes (address, n) (by simp)
      have hentry : (s.links address).cacheEntry = some address :=
        h.live.core.entries (address, n) (by simp)
      obtain ⟨c', hpop, hsynced, hlive⟩ := h.live.removed h.synced
      rw [List.append_nil] at hsynced hlive
      have hwhole : Whole { s.deleted address n with cache := c' } es registered maxSize :=
        ⟨hlive, hsynced, h.maxSize⟩
      obtain ⟨r, s', es', hrun, hwhole', hentries, hok⟩ := ih hwhole (by
        rw [List.length_append, List.length_singleton] at hturns
        omega)
      refine ⟨r, s', es', ?_, hwhole', ?_, hok⟩
      · have hlast : (s.links listRoot).prevNode = some address := by
          simpa using hring
        simp only [evictLoop, run_bind, run_reads, hfull, decide_true, if_true,
          hlast, hentry, run_deleteNode hnode, run_node_deleted, run_pop_deleted hpop]
        exact hrun
      · have hrev : (entriesOf (es ++ [(address, n)])).reverse = entryOf n :: (entriesOf es).reverse := by
          simp [entriesOf]
        rw [hrev] at hlen ⊢
        rw [hentries, RecencyList.trim, if_pos (by rw [← hlen, ← h.maxSize]; exact hfull)]
    · refine ⟨.ok (), s, es, ?_, h, ?_, fun _ => rfl⟩
      · simp only [evictLoop, run_bind, run_reads, hfull, decide_false, Bool.false_eq_true, if_false]
        rfl
      · have hle := not_lt.mp hfull
        rw [hlen, h.maxSize] at hle
        rw [trim_of_le hle, List.reverse_reverse]

theorem evict_spec (h : s.Whole es registered maxSize) :
    ∃ r s' es', evict.run s = (r, s') ∧ s'.Whole es' registered maxSize ∧
      entriesOf es' = (RecencyList.trim (size cfg) maxSize (entriesOf es).reverse).1.reverse ∧
      (0 ≤ maxSize → r = .ok ()) :=
  evictLoop_spec h h.live.core.length_lt

/-! ### All nodes, and those of an index key -/

theorem cacheClear_spec (h : s.Whole es registered maxSize) :
    ∃ s', cacheClear.run s = (.ok none, s') ∧ s'.Whole [] registered maxSize := by
  obtain ⟨hvalues, hnodup⟩ := values_spec h.synced.wf
  have hmem : ∀ address, address ∈ cfg.cacheType.values s.cache ↔ ∃ n, (address, n) ∈ es := by
    intro address
    rw [hvalues]
    constructor
    · rintro ⟨key, hkey⟩
      obtain ⟨n, hn, -⟩ := (h.synced.lookup key address).mp hkey
      exact ⟨n, hn⟩
    · rintro ⟨n, hn⟩
      exact ⟨n.key, (h.synced.lookup n.key address).mpr ⟨n, hn, rfl⟩⟩
  -- the loop leaves the counter and the index alone
  obtain ⟨s', hrun, hlive, hcache, hmax⟩ := run_forM_deleted
    (w := fun t => { t with cachedCacheLen := s.cachedCacheLen, extraIndex := s.extraIndex })
    (f := fun address => do
      runAndClearCallbacks address
      onLinks fun h => .ok (h.removeFromList address))
    (by
      intro t address n hn
      simp only [run_bind, runAndClearCallbacks, node, run_reads, run_modify,
        setNode, onLinks, hn, LruCache.deleted])
    h.live (hnodup fun key₁ key₂ address h₁ h₂ => h.synced.injective h.live.core h₁ h₂)
    (fun address hmem' => (hmem address).mp hmem')
  have hempty : (es.filter fun e => e.1 ∉ cfg.cacheType.values s.cache) = [] := by
    refine List.filter_eq_nil_iff.mpr ?_
    intro e he
    simpa using (hmem e.1).mpr ⟨e.2, he⟩
  rw [hempty] at hlive
  have hcounter : (if cfg.sizeCallback.isSome then 0 else s.cachedCacheLen) = 0 := by
    cases hsize : cfg.sizeCallback with
    | some size => rfl
    | none =>
      have hsum := h.live.core.counter
      simp only [counted, hsize] at hsum
      simpa using hsum
  refine ⟨{ s' with
    cache := cfg.cacheType.new
    cachedCacheLen := if cfg.sizeCallback.isSome then 0 else s.cachedCacheLen
    extraIndex := .empty }, ?_, ⟨⟨hlive.core.ring, hlive.core.rootEntry, by simp, hlive.core.root,
      by simp, by simp, by simp, hcounter, by simp⟩, ?_, hlive.account⟩, ⟨?_, ?_, ?_⟩,
      hmax.trans h.maxSize⟩
  · have hloop : ((cfg.cacheType.values s.cache).forM fun address => do
        runAndClearCallbacks address
        onLinks fun h => .ok (h.removeFromList address)).run s = (.ok (), { s' with
            cachedCacheLen := s.cachedCacheLen
            extraIndex := s.extraIndex }) := hrun
    have hroot := hlive.core.ring.path
    simp only [cacheClear, run_bind, run_reads, hloop, hroot.1, hroot.2, and_self,
      if_true, run_modify]
    rfl
  · intro indexKey _ i key
    simp [Dict.getD]
  · exact wf_new _
  · exact len_new _
  · simp

theorem invalidateKey_spec (h : Live off s es registered) (hsynced : Synced s.cache es)
    (key : κ) : ∃ s', (invalidateKey key).run s = (.ok (), s') ∧
      Live off s' (es.filter fun e => e.2.key ≠ key) registered ∧
      Synced s'.cache (es.filter fun e => e.2.key ≠ key) ∧ s'.maxSize = s.maxSize := by
  rcases hsynced.lookup_cases key with ⟨hnone, hnot⟩ | ⟨address, n, es₁, es₂, -, rfl, rfl⟩
  · rw [filter_key_eq_self hnot]
    rcases pop_full hsynced.wf key with ⟨hpop, -⟩ | ⟨a, c', ha, -, -⟩
    · refine ⟨s, ?_, h, hsynced, rfl⟩
      rw [invalidateKey, run_bind_of_ok (run_onCache hpop)]
      rfl
    · exact absurd (hnone.symm.trans ha) (by simp)
  · obtain ⟨c', hpop, hleft, hlive⟩ := h.removed hsynced
    have hnode : { s with cache := c' }.nodes address = some n :=
      h.core.nodes (address, n) (by simp)
    rw [h.core.filter_key]
    refine ⟨{ s.deleted address n with cache := c' }, ?_, hlive, hleft, rfl⟩
    rw [invalidateKey, run_bind_of_ok (run_onCache hpop)]
    exact run_deleteNode hnode

theorem run_forM_invalidateKey (h : Live off s es registered) (hsynced : Synced s.cache es) (keys : List κ) :
    ∃ s', (keys.forM invalidateKey).run s = (.ok (), s') ∧
      Live off s' (es.filter fun e => e.2.key ∉ keys) registered ∧
      Synced s'.cache (es.filter fun e => e.2.key ∉ keys) ∧ s'.maxSize = s.maxSize := by
  induction keys generalizing s es with
  | nil => exact ⟨s, rfl, by simpa using h, by simpa using hsynced, rfl⟩
  | cons key keys ih =>
    obtain ⟨s₁, hrun₁, hlive₁, hsynced₁, hmax₁⟩ := invalidateKey_spec h hsynced key
    obtain ⟨s', hrun, hlive, hsynced', hmax⟩ := ih hlive₁ hsynced₁
    have hfilter : ((es.filter fun e => e.2.key ≠ key).filter fun e => e.2.key ∉ keys) =
        es.filter fun e => e.2.key ∉ key :: keys := by
      rw [List.filter_filter]
      refine filter_congr ?_
      intro e _
      by_cases hk : e.2.key = key
      · simp [hk]
      · simp [hk]
    rw [hfilter] at hlive hsynced'
    refine ⟨s', ?_, hlive, hsynced', hmax.trans hmax₁⟩
    rw [run_forM_cons, run_bind_of_ok hrun₁]
    exact hrun

/-- **Invalidation by the extra index** removes the nodes whose values tell the index key. -/
theorem cacheInvalidateOnExtraIndex_spec (h : s.Whole es registered maxSize)
    (hcb : cfg.extraIndexCb = some indexKey) (i : κ) :
    ∃ s', (cacheInvalidateOnExtraIndex i).run s = (.ok none, s') ∧
      s'.Whole (es.filter fun e => indexKey e.2.key e.2.value ≠ i) registered maxSize := by
  have hlive : Live (some i) { s with extraIndex := s.extraIndex.erase i } es registered := by
    refine ⟨⟨h.live.core.ring, h.live.core.rootEntry, h.live.core.fresh, h.live.core.root,
      h.live.core.nodes, h.live.core.entries, h.live.core.keys, h.live.core.counter,
      h.live.core.callbacks⟩, ?_, h.live.account⟩
    intro indexKey' hcb' j key
    have hindexed := h.live.indexed indexKey' hcb' j key
    simp only [Dict.getD, get?_erase] at hindexed ⊢
    by_cases hj : j = i
    · simp [hj]
    · simpa [hj] using hindexed
  obtain ⟨s', hrun, hlive', hsynced, hmax⟩ := run_forM_invalidateKey hlive h.synced
    (cfg.keyOrder.list (s.extraIndex.getD i ∅))
  have hfilter : (es.filter fun e => e.2.key ∉ cfg.keyOrder.list (s.extraIndex.getD i ∅)) =
      es.filter fun e => indexKey e.2.key e.2.value ≠ i := by
    refine filter_congr ?_
    intro e he
    have hiff : e.2.key ∈ s.extraIndex.getD i ∅ ↔ indexKey e.2.key e.2.value = i := by
      rw [h.live.indexed indexKey hcb]
      constructor
      · rintro ⟨-, e', he', hkey, hi⟩
        rwa [h.live.core.injective he he' (Or.inr hkey.symm)]
      · intro hi
        exact ⟨by simp, e, he, rfl, hi⟩
    simp [hiff]
  rw [hfilter] at hlive' hsynced
  refine ⟨s', ?_, ⟨hlive'.core, ?_, hlive'.account⟩, hsynced, hmax.trans h.maxSize⟩
  · simp only [cacheInvalidateOnExtraIndex, hcb, run_bind, run_reads, run_modify, hrun]
    rfl
  -- the index key has no keys any more, and no nodes
  intro indexKey' hcb' j key
  obtain rfl := Option.some.inj (hcb.symm.trans hcb')
  rw [hlive'.indexed indexKey hcb j key]
  by_cases hj : j = i
  · subst hj
    simp only [ne_eq, not_true_eq_false, false_and, false_iff, not_and, not_exists]
    rintro - e he -
    exact of_decide_eq_true (List.mem_filter.mp he).2
  · simp [hj]

/-! ## §4 What is used or set -/

omit [DecidableEq α] in
/-- **A node is changed**, and maybe moved: it keeps its key, what its value tells the index, and a list of
callbacks without repetitions. -/
theorem Live.updated {new : Multiset (κ × γ)} (h : Live none s (es₁ ++ (address, n) :: es₂) registered)
    (n' : LruNode κ ν γ) (hperm : es'.Perm ((address, n') :: (es₁ ++ es₂))) (hkey : n'.key = n.key)
    (hindex : ∀ indexKey, cfg.extraIndexCb = some indexKey →
      indexKey n'.key n'.value = indexKey n.key n.value) (hcallbacks : n'.callbacks.Nodup)
    (hring : links.Ring listRoot (es'.map Prod.fst))
    (hlinks : ∀ m, (links m).cacheEntry = (s.links m).cacheEntry) (len : ℤ)
    (hlen : len = s.cachedCacheLen - counted cfg n.value + counted cfg n'.value) (ran : List (κ × γ))
    (hran : (ran : Multiset (κ × γ)) + RecencyList.tagged n'.key n'.callbacks.toFinset =
      s.ran + RecencyList.tagged n.key n.callbacks.toFinset + new) : Live none { s with
      links := links
      nodes := Function.update s.nodes address (some n')
      cachedCacheLen := len
      ran := ran } es' (registered + new) := by
  have hothers := h.core.others
  refine ⟨h.core.update hring hlinks ?_ (by simp) ?_ ?_ hcallbacks, ?_, ?_⟩
  · intro e he
    rcases List.mem_cons.mp (hperm.mem_iff.mp he) with rfl | he
    · exact Or.inl rfl
    · exact Or.inr ⟨List.perm_middle.mem_iff.mpr (mem_cons_of_mem _ he), (hothers e he).1⟩
  · have hkeys := (perm_middle_map (fun e => e.2.key) es₁ es₂ (address, n)).nodup_iff.mp h.core.keys
    rw [(hperm.map _).nodup_iff, map_cons, hkey]
    exact hkeys
  · have hsum := (perm_middle_map (fun e => counted cfg e.2.value) es₁ es₂ (address, n)).sum_eq
    rw [(hperm.map fun e => counted cfg e.2.value).sum_eq, hlen, h.core.counter, hsum,
      map_cons, sum_cons, sum_cons]
    dsimp only
    omega
  · intro indexKey hcb i key
    rw [h.indexed indexKey hcb]
    constructor
    · rintro ⟨hoff, e, he, rfl, rfl⟩
      rcases List.mem_cons.mp (List.perm_middle.mem_iff.mp he) with rfl | he
      · exact ⟨hoff, (address, n'), hperm.mem_iff.mpr mem_cons_self, hkey, hindex indexKey hcb⟩
      · exact ⟨hoff, e, hperm.mem_iff.mpr (mem_cons_of_mem _ he), rfl, rfl⟩
    · rintro ⟨hoff, e, he, rfl, rfl⟩
      rcases List.mem_cons.mp (hperm.mem_iff.mp he) with rfl | he
      · exact ⟨hoff, (address, n), by simp, hkey.symm, (hindex indexKey hcb).symm⟩
      · exact ⟨hoff, e, List.perm_middle.mem_iff.mpr (mem_cons_of_mem _ he), rfl, rfl⟩
  · have hstored : RecencyList.stored (entriesOf es') = RecencyList.tagged n'.key n'.callbacks.toFinset +
          RecencyList.stored (entriesOf (es₁ ++ es₂)) :=
      (stored_perm (hperm.map fun e => entryOf e.2)).trans (stored_middle [] (es₁ ++ es₂) (address, n'))
    have hold := h.account
    rw [LruCache.account, stored_middle] at hold
    show (ran : Multiset (κ × γ)) + RecencyList.stored (entriesOf es') = registered + new
    rw [hstored, ← add_assoc, hran, ← hold]
    abel

/-- The dictionary does not notice. -/
theorem Synced.updated {n' : LruNode κ ν γ} (h : Synced c (es₁ ++ (address, n) :: es₂))
    (hperm : es'.Perm ((address, n') :: (es₁ ++ es₂))) (hkey : n'.key = n.key) : Synced c es' := by
  refine ⟨h.wf, ?_, ?_⟩
  · rw [h.len, hperm.length_eq, List.perm_middle.length_eq, length_cons, length_cons]
  intro key a
  rw [h.lookup]
  constructor
  · rintro ⟨m, hm, rfl⟩
    rcases List.mem_cons.mp (List.perm_middle.mem_iff.mp hm) with heq | hm
    · obtain ⟨rfl, rfl⟩ := Prod.mk.inj heq
      exact ⟨n', hperm.mem_iff.mpr mem_cons_self, hkey⟩
    · exact ⟨m, hperm.mem_iff.mpr (mem_cons_of_mem _ hm), rfl⟩
  · rintro ⟨m, hm, rfl⟩
    rcases List.mem_cons.mp (hperm.mem_iff.mp hm) with heq | hm
    · obtain ⟨rfl, rfl⟩ := Prod.mk.inj heq
      exact ⟨n, by simp, hkey.symm⟩
    · exact ⟨m, List.perm_middle.mem_iff.mpr (mem_cons_of_mem _ hm), rfl⟩

/-! ### The cache as a list -/

/-- The cache is the list `m`. -/
def Sim (s : LruCache cfg) (m : RecencyList κ ν γ) : Prop :=
  ∃ es, s.Whole es m.registered m.maxSize ∧ m.entries = entriesOf es

omit [DecidableEq α] in
theorem Core.keys_entriesOf (h : s.Core es) : ((entriesOf es).map RecencyEntry.key).Nodup := by
  rw [entriesOf, List.map_map]
  exact h.keys

variable {m : RecencyList κ ν γ}

omit [DecidableEq α] in
theorem find?_eq_none (h : m.entries = entriesOf es) (hnot : ∀ e ∈ es, e.2.key ≠ key) : m.find? key = none := by
  rw [RecencyList.find?, h]
  refine List.find?_eq_none.mpr ?_
  intro entry hentry
  obtain ⟨e, he, rfl⟩ := List.mem_map.mp hentry
  rw [decide_eq_true_eq]
  exact hnot e he

omit [DecidableEq α] in
/-- The entry of a node, and the other entries. -/
theorem find?_split (hcore : s.Core (es₁ ++ (address, n) :: es₂))
    (h : m.entries = entriesOf (es₁ ++ (address, n) :: es₂)) : m.find? n.key = some (entryOf n) ∧
      RecencyList.without n.key m.entries = entriesOf (es₁ ++ es₂) := by
  have hkeys := hcore.keys_entriesOf
  have hothers : entriesOf (es₁ ++ es₂) = entriesOf es₁ ++ entriesOf es₂ := by
    simp [entriesOf]
  rw [entriesOf_middle] at h hkeys
  rw [RecencyList.find?, h, hothers]
  exact split_eqs hkeys

/-- Nodes are removed, and so are their entries. -/
theorem Whole.removed (hentries : m.entries = entriesOf es) {p : ℕ × LruNode κ ν γ → Bool}
    {q : RecencyEntry κ ν γ → Bool} (hpq : ∀ e, p e = true ↔ ¬ q (entryOf e.2) = true)
    (h : s.Whole (es.filter p) m.registered m.maxSize) : s.Sim (m.remove q) := by
  have hfilter : es.filter p = es.filter fun e => !q (entryOf e.2) := by
    refine filter_congr ?_
    intro e _
    rw [Bool.eq_iff_iff, hpq, Bool.not_eq_true, Bool.not_eq_true']
  refine ⟨es.filter p, h, ?_⟩
  show m.entries.filter _ = _
  rw [hentries, entriesOf, entriesOf, List.filter_map, hfilter]
  rfl

theorem evict_sim (h : s.Sim m) : ∃ r s', evict.run s = (r, s') ∧ s'.Sim (m.evict (size cfg)) ∧
      (0 ≤ m.maxSize → r = .ok ()) := by
  obtain ⟨es, hwhole, hentries⟩ := h
  obtain ⟨r, s', es', hrun, hwhole', hentries', hok⟩ := evict_spec hwhole
  refine ⟨r, s', hrun, ⟨es', hwhole', ?_⟩, hok⟩
  rw [hentries', ← hentries]
  rfl

/-- **`get`** is to use an entry, or to watch it, and returns its value. -/
theorem cacheGet_sim (h : s.Sim m) (key : κ) (callbacks : List γ) (updateLastAccess : Bool) :
    ∃ s', (cacheGet key callbacks updateLastAccess).run s = (.ok (m.get? key), s') ∧
      s'.Sim (if updateLastAccess then m.touch key callbacks.toFinset
        else m.watch key callbacks.toFinset) := by
  obtain ⟨es, hwhole, hentries⟩ := h
  rcases hwhole.synced.lookup_cases key with
    ⟨hnone, hnot⟩ | ⟨address, n, es₁, es₂, hsome, rfl, rfl⟩
  · have hfind := find?_eq_none hentries hnot
    refine ⟨s, ?_, ?_⟩
    · rw [cacheGet, run_bind_of_ok (run_lookup hwhole.synced key), hnone]
      simp [RecencyList.get?, hfind]
    cases updateLastAccess with
    | true =>
      rw [if_pos rfl, RecencyList.touch, hfind]
      exact ⟨es, hwhole, hentries⟩
    | false =>
      have hsame := watch_of_find?_eq_none hfind callbacks.toFinset
      rw [if_neg Bool.false_ne_true, hsame]
      exact ⟨es, hwhole, hentries⟩
  · obtain ⟨hfind, hwithout⟩ := find?_split hwhole.live.core hentries
    have hnode : s.nodes address = some n := hwhole.live.core.nodes (address, n) (by simp)
    have hnodup := hwhole.live.core.callbacks (address, n) (by simp)
    have hring := hwhole.live.core.ring
    rw [map_append, map_cons] at hring
    have hget : m.get? n.key = some n.value := by
      rw [RecencyList.get?, hfind]
      rfl
    have hmerged := nodup_mergeCallbacks hnodup callbacks
    have hran := tagged_mergeCallbacks n.key n.callbacks callbacks
    cases updateLastAccess with
    | true =>
      obtain ⟨links, hmove, hring', hlinks⟩ := hring.moveAfter
      rw [← map_append] at hring'
      have hrun : (cacheGet n.key callbacks true).run s = (.ok (m.get? n.key), { s with
          links := links
          nodes := Function.update s.nodes address
            (some { n with callbacks := mergeCallbacks n.callbacks callbacks }) }) := by
        have hlinks' : (onLinks fun h => h.moveAfter address listRoot : Method cfg Unit).run s =
            (.ok (), { s with links := links }) := run_onLinks hmove
        rw [cacheGet, run_bind_of_ok (run_lookup hwhole.synced n.key), hsome]
        simp only [if_true, run_bind, hlinks', addCallbacks, node, run_reads,
          hnode, setNode, run_modify, update_self, run_pure, hget]
        rfl
      have hlive := hwhole.live.updated
        { n with callbacks := mergeCallbacks n.callbacks callbacks } (List.Perm.refl _) rfl
        (fun _ _ => rfl) hmerged hring' hlinks s.cachedCacheLen (by simp) s.ran
        (by rw [hran, add_assoc])
      rw [if_pos rfl, RecencyList.touch, hfind]
      refine ⟨_, hrun, _, ⟨hlive, hwhole.synced.updated (List.Perm.refl _) rfl, hwhole.maxSize⟩, ?_⟩
      simp [entriesOf, entryOf, hwithout, toFinset_mergeCallbacks]
    | false =>
      have hrun : (cacheGet n.key callbacks false).run s = (.ok (m.get? n.key), { s with
          nodes := Function.update s.nodes address
            (some { n with callbacks := mergeCallbacks n.callbacks callbacks }) }) := by
        rw [cacheGet, run_bind_of_ok (run_lookup hwhole.synced n.key), hsome]
        simp only [Bool.false_eq_true, if_false, run_bind, addCallbacks, node,
          run_reads, hnode, setNode, run_modify, update_self,
          run_pure, hget]
        rfl
      have hperm : (es₁ ++ (address, { n with
          callbacks := mergeCallbacks n.callbacks callbacks }) :: es₂).Perm
            ((address, { n with callbacks := mergeCallbacks n.callbacks callbacks }) ::
              (es₁ ++ es₂)) := List.perm_middle
      have hlive := hwhole.live.updated { n with callbacks := mergeCallbacks n.callbacks callbacks } hperm rfl
        (fun _ _ => rfl) hmerged (by simpa using hring) (fun _ => rfl) s.cachedCacheLen (by simp)
        s.ran (by rw [hran, add_assoc])
      have hkeys := hwhole.live.core.keys_entriesOf
      rw [entriesOf_middle] at hkeys
      refine ⟨_, hrun, _, ⟨?_, hwhole.synced.updated hperm rfl, hwhole.maxSize⟩, ?_⟩
      · show Live none _ _ (m.registered + _)
        rw [hfind]
        exact hlive
      show m.entries.map _ = _
      rw [hentries, entriesOf_middle, entriesOf_middle]
      exact (watched_split hkeys callbacks.toFinset).trans
        (by simp [entryOf, toFinset_mergeCallbacks])

/-- **A node is added** in front, for a key that has none. -/
theorem addNode_spec (h : s.Whole es registered maxSize) (hnone : cfg.cacheType.lookup s.cache key = none)
    (hnot : ∀ e ∈ es, e.2.key ≠ key) (value : ν)
    (callbacks : List γ) : ∃ s' address n, (addNode key value callbacks).run s = (.ok (), s') ∧
      s'.Whole ((address, n) :: es) (registered + RecencyList.tagged key callbacks.toFinset)
        maxSize ∧ entryOf n = ⟨key, value, callbacks.toFinset⟩ := by
  have hcore := h.live.core
  have hfresh : ∀ e ∈ es, e.1 ≠ s.nextAddress := fun e he => Nat.ne_of_lt (hcore.fresh e he)
  have hroot : listRoot ≠ s.nextAddress := Nat.ne_of_lt hcore.root
  have hnew : s.nextAddress ∉ listRoot :: es.map Prod.fst := by
    intro hmem
    rcases List.mem_cons.mp hmem with heq | hmem
    · exact hroot heq.symm
    · obtain ⟨e, he, heq⟩ := List.mem_map.mp hmem
      exact hfresh e he heq
  obtain ⟨links, hinsert, hring, hlinks⟩ := hcore.ring.insertAfter hnew s.nextAddress
  obtain ⟨c', hset, hwf, hlen, hlookup⟩ :=
    set_spec h.synced.wf hnone s.nextAddress
  have hmerged := nodup_mergeCallbacks nodup_nil callbacks
  have htoFinset : (mergeCallbacks [] callbacks).toFinset = callbacks.toFinset := by
    simp [toFinset_mergeCallbacks]
  refine ⟨{ s with
    cache := c'
    links := links
    nodes := Function.update s.nodes s.nextAddress (some ⟨key, value, mergeCallbacks [] callbacks⟩)
    nextAddress := s.nextAddress + 1
    cachedCacheLen := addLen cfg s.cachedCacheLen value
    extraIndex := addIndex cfg s.extraIndex key value }, s.nextAddress,
    ⟨key, value, mergeCallbacks [] callbacks⟩, ?_,
    ⟨⟨⟨hring, ?_, ?_, Nat.lt_succ_of_lt hcore.root, ?_, ?_, ?_, ?_, ?_⟩, ?_, ?_⟩,
      ⟨hwf, ?_, ?_⟩, h.maxSize⟩, by rw [entryOf, htoFinset]⟩
  · simp only [addNode, newNode, run_bind, run_reads, run_modify, setNode,
      onLinks, hinsert, addCallbacks, node, update_self, run_pure, onCache, hset,
      update_idem]
    rfl
  · show (links listRoot).cacheEntry = none
    rw [hlinks, if_neg hroot]
    exact hcore.rootEntry
  · intro e he
    rcases List.mem_cons.mp he with rfl | he
    · exact Nat.lt_succ_self _
    · exact Nat.lt_succ_of_lt (hcore.fresh e he)
  · intro e he
    rcases List.mem_cons.mp he with rfl | he
    · exact update_self _ _ _
    show Function.update s.nodes _ _ e.1 = some e.2
    rw [update_of_ne (hfresh e he)]
    exact hcore.nodes e he
  · intro e he
    show (links e.1).cacheEntry = some e.1
    rw [hlinks]
    rcases List.mem_cons.mp he with rfl | he
    · exact if_pos rfl
    · rw [if_neg (hfresh e he)]
      exact hcore.entries e he
  · refine List.nodup_cons.mpr ⟨?_, hcore.keys⟩
    intro hmem
    obtain ⟨e, he, heq⟩ := List.mem_map.mp hmem
    exact hnot e he heq
  · show addLen cfg s.cachedCacheLen value = _
    rw [addLen_eq, hcore.counter, map_cons, sum_cons]
    exact add_comm _ _
  · intro e he
    rcases List.mem_cons.mp he with rfl | he
    · exact hmerged
    · exact hcore.callbacks e he
  · intro indexKey hcb i key'
    show key' ∈ (addIndex cfg s.extraIndex key value).getD i ∅ ↔ _
    rw [mem_addIndex hcb, h.live.indexed indexKey hcb]
    constructor
    · rintro (⟨hoff, e, he, hkey, hi⟩ | ⟨rfl, rfl⟩)
      · exact ⟨hoff, e, mem_cons_of_mem _ he, hkey, hi⟩
      · exact ⟨by simp, _, mem_cons_self, rfl, rfl⟩
    rintro ⟨hoff, e, he, hkey, hi⟩
    rcases List.mem_cons.mp he with rfl | he
    · exact Or.inr ⟨hi.symm, hkey.symm⟩
    · exact Or.inl ⟨hoff, e, he, hkey, hi⟩
  · have hold := h.live.account
    rw [LruCache.account] at hold
    show (s.ran : Multiset (κ × γ)) + RecencyList.stored (_ :: entriesOf es) = _
    rw [stored_cons, ← hold]
    show _ + (RecencyList.tagged key (mergeCallbacks [] callbacks).toFinset + _) = _
    rw [htoFinset]
    abel
  · rw [hlen, h.synced.len, length_cons]
    omega
  · intro key' address
    rw [hlookup, h.synced.lookup]
    constructor
    · rintro (⟨rfl, rfl⟩ | ⟨n, hn, rfl⟩)
      · exact ⟨_, mem_cons_self, rfl⟩
      · exact ⟨n, mem_cons_of_mem _ hn, rfl⟩
    rintro ⟨n, hn, rfl⟩
    rcases List.mem_cons.mp hn with heq | hn
    · obtain ⟨rfl, rfl⟩ := Prod.mk.inj heq
      exact Or.inl ⟨rfl, rfl⟩
    · exact Or.inr ⟨n, hn, rfl⟩

/-! ### Values are set -/

/-- The value that is cached for a key. -/
def cached (s : LruCache cfg) (key : κ) : Option ν :=
  (cfg.cacheType.lookup s.cache key).bind fun address => (s.nodes address).map LruNode.value

variable [DecidableEq ν]

/-- The list before the oldest entries of it go. -/
def overwritten (m : RecencyList κ ν γ) (key : κ) (value : ν) (callbacks : Finset γ) : RecencyList κ ν γ :=
  { m with
    entries := ⟨key, value, m.kept key value ∪ callbacks⟩ :: RecencyList.without key m.entries
    nodup := RecencyList.nodup_cons_without m.nodup ⟨key, value, m.kept key value ∪ callbacks⟩
    registered := m.registered + RecencyList.tagged key (callbacks \ m.kept key value)
    ran := m.ran + m.replaced key value }

/-- A new node and its entry. -/
theorem addNode_sim (hwhole : s.Whole es m.registered m.maxSize) (hentries : m.entries = entriesOf es)
    (hnone : cfg.cacheType.lookup s.cache key = none) (hnot : ∀ e ∈ es, e.2.key ≠ key) (value : ν)
    (callbacks : List γ) : ∃ s', (addNode key value callbacks).run s = (.ok (), s') ∧
      s'.Sim (overwritten m key value callbacks.toFinset) := by
  have hfind := find?_eq_none hentries hnot
  have hkept : m.kept key value = ∅ := by simp [RecencyList.kept, hfind]
  obtain ⟨s', address, n, hadd, hwhole', hentry⟩ := addNode_spec hwhole hnone hnot value callbacks
  refine ⟨s', hadd, (address, n) :: es, ?_, ?_⟩
  · show s'.Whole _ (m.registered + RecencyList.tagged key (_ \ m.kept key value)) m.maxSize
    rw [hkept, Finset.sdiff_empty]
    exact hwhole'
  · show _ :: RecencyList.without key m.entries = entryOf n :: entriesOf es
    rw [hkept, Finset.empty_union, hentry, without_of_find?_eq_none hfind, hentries]

omit [DecidableEq ν] in
/-- What ends with `evict` returns its value, or raises. -/
theorem evict_returns {β : Type} (h : s.Sim m) (b : β) : ∃ r s', (evict >>= fun _ => pure b).run s = (r, s') ∧
    s'.Sim (m.evict (size cfg)) ∧ (0 ≤ m.maxSize → r = .ok b) := by
  obtain ⟨r, s', hevict, hsim, hok⟩ := evict_sim h
  refine ⟨r.map fun _ => b, s', ?_, hsim, fun hpos => by rw [hok hpos]; rfl⟩
  rw [run_bind, hevict]
  cases r with
  | ok u => rfl
  | error e => rfl

/-- **`set`** is to put a value, if a value that it replaces tells the extra index the same. -/
theorem cacheSet_sim (h : s.Sim m) (key : κ) (value : ν) (callbacks : List γ)
    (hindex : ∀ indexKey, cfg.extraIndexCb = some indexKey →
      ∀ old, s.cached key = some old → indexKey key old = indexKey key value) :
    ∃ r s', (cacheSet key value callbacks).run s = (r, s') ∧
      s'.Sim (m.put (size cfg) key value callbacks.toFinset) ∧
      (0 ≤ m.maxSize → r = .ok none) := by
  obtain ⟨es, hwhole, hentries⟩ := h
  rcases hwhole.synced.lookup_cases key with
    ⟨hnone, hnot⟩ | ⟨address, n, es₁, es₂, hsome, rfl, rfl⟩
  · obtain ⟨s₁, hadd, hsim⟩ :=
      addNode_sim hwhole hentries hnone hnot value (cfg.callbackOrder.list callbacks.toFinset)
    rw [cfg.callbackOrder.toFinset_list] at hsim
    obtain ⟨r, s', hevict, hsim', hok⟩ := evict_returns hsim none
    refine ⟨r, s', ?_, hsim', hok⟩
    rw [cacheSet, run_bind_of_ok (run_lookup hwhole.synced key), hnone]
    exact (run_bind_of_ok hadd _).trans hevict
  · obtain ⟨hfind, hwithout⟩ := find?_split hwhole.live.core hentries
    have hnode : s.nodes address = some n := hwhole.live.core.nodes (address, n) (by simp)
    have hnodup : n.callbacks.Nodup := hwhole.live.core.callbacks (address, n) (by simp)
    have hold : s.cached n.key = some n.value := by simp [cached, hsome, hnode]
    have hring := hwhole.live.core.ring
    rw [map_append, map_cons] at hring
    obtain ⟨links, hmove, hring', hlinks⟩ := hring.moveAfter
    rw [← map_append] at hring'
    -- the callbacks that stay, and those that run
    obtain ⟨base, ran, hbase, hkept, hran, hclear⟩ : ∃ (base : List γ) (ran : List (κ × γ)),
        base.Nodup ∧ m.kept n.key value = base.toFinset ∧
        (ran : Multiset (κ × γ)) + RecencyList.tagged n.key base.toFinset =
          s.ran + RecencyList.tagged n.key n.callbacks.toFinset ∧
        (if value ≠ n.value then runAndClearCallbacks address else pure () : Method cfg Unit).run s =
          (.ok (), { s with
            nodes := Function.update s.nodes address (some { n with callbacks := base })
            ran := ran }) := by
      by_cases hvalue : value = n.value
      · refine ⟨n.callbacks, s.ran, hnodup, by simp [RecencyList.kept, hfind, entryOf, hvalue], rfl, ?_⟩
        have hsame : Function.update s.nodes address (some { n with callbacks := n.callbacks }) = s.nodes := by
          rw [← hnode, update_eq_self]
        rw [if_neg (not_not.mpr hvalue), hsame]
        rfl
      · refine ⟨[], s.ran ++ n.callbacks.map (Prod.mk n.key), nodup_nil,
          by simp [RecencyList.kept, hfind, entryOf, hvalue], ?_, ?_⟩
        · rw [← Multiset.coe_add, coe_map_callbacks hnodup]
          exact add_zero _
        · rw [if_pos hvalue]
          exact run_runAndClearCallbacks hnode
    have hnew : (ran : Multiset (κ × γ)) + RecencyList.tagged n.key (mergeCallbacks base callbacks).toFinset =
          s.ran + RecencyList.tagged n.key n.callbacks.toFinset +
            RecencyList.tagged n.key (callbacks.toFinset \ base.toFinset) := by
      rw [tagged_mergeCallbacks, ← add_assoc, hran]
    have hlive := hwhole.live.updated ⟨n.key, value, mergeCallbacks base callbacks⟩
      (List.Perm.refl _) rfl (fun indexKey hcb => (hindex indexKey hcb n.value hold).symm)
      (nodup_mergeCallbacks hbase callbacks) hring' hlinks
      (addLen cfg (subLen cfg s.cachedCacheLen n.value) value) (by rw [addLen_eq, subLen_eq])
      ran hnew
    have hsim : Sim { s with
        links := links
        nodes := Function.update s.nodes address (some ⟨n.key, value, mergeCallbacks base callbacks⟩)
        cachedCacheLen := addLen cfg (subLen cfg s.cachedCacheLen n.value) value
        ran := ran } (overwritten m n.key value callbacks.toFinset) := by
      refine ⟨(address, ⟨n.key, value, mergeCallbacks base callbacks⟩) :: (es₁ ++ es₂),
        ⟨?_, hwhole.synced.updated (List.Perm.refl _) rfl, hwhole.maxSize⟩, ?_⟩
      · show Live none _ _ (m.registered + RecencyList.tagged n.key (_ \ m.kept n.key value))
        rw [hkept]
        exact hlive
      · show _ :: RecencyList.without n.key m.entries = entryOf _ :: entriesOf _
        rw [hkept, hwithout, entryOf, toFinset_mergeCallbacks]
    obtain ⟨r, s', hevict, hsim', hok⟩ := evict_returns hsim none
    refine ⟨r, s', ?_, hsim', hok⟩
    rw [cacheSet, run_bind_of_ok (run_lookup hwhole.synced n.key), hsome]
    simp only [run_bind, node, run_reads, hnode, hclear, run_modify,
      addCallbacks, setNode, update_self, onLinks, hmove, update_idem]
    exact hevict

/-- **`setdefault`** is to put a value where there is none. -/
theorem cacheSetDefault_sim (h : s.Sim m) (key : κ)
    (value : ν) : ∃ r s', (cacheSetDefault key value).run s = (r, s') ∧
      s'.Sim (m.putDefault (size cfg) key value) ∧ (0 ≤ m.maxSize → ∃ v, r = .ok v) := by
  obtain ⟨es, hwhole, hentries⟩ := h
  rcases hwhole.synced.lookup_cases key with
    ⟨hnone, hnot⟩ | ⟨address, n, es₁, es₂, hsome, rfl, rfl⟩
  · obtain ⟨s₁, hadd, hsim⟩ := addNode_sim hwhole hentries hnone hnot value []
    obtain ⟨r, s', hevict, hsim', hok⟩ := evict_returns hsim (some value)
    refine ⟨r, s', ?_, ?_, fun hpos => ⟨_, hok hpos⟩⟩
    · rw [cacheSetDefault, run_bind_of_ok (run_lookup hwhole.synced key), hnone]
      exact (run_bind_of_ok hadd _).trans hevict
    · rw [RecencyList.putDefault, find?_eq_none hentries hnot]
      exact hsim'
  · obtain ⟨hfind, -⟩ := find?_split hwhole.live.core hentries
    have hnode : s.nodes address = some n := hwhole.live.core.nodes (address, n) (by simp)
    refine ⟨.ok (some n.value), s, ?_, ?_, fun _ => ⟨_, rfl⟩⟩
    · rw [cacheSetDefault, run_bind_of_ok (run_lookup hwhole.synced n.key), hsome]
      show (node address >>= _).run s = _
      rw [run_bind_of_ok (run_node hnode)]
      rfl
    · rw [RecencyList.putDefault, hfind]
      exact ⟨_, hwhole, hentries⟩

omit [DecidableEq ν] in
/-- **A resize** changes the bound. -/
theorem setCacheFactor_sim (h : s.Sim m) (newSize : ℤ) : ∃ r s', (setCacheFactor newSize).run s = (r, s') ∧
      s'.Sim (if cfg.applyCacheFactorFromConfig then m.resize (size cfg) newSize else m) ∧
      (0 ≤ newSize → r = .ok none) := by
  cases happly : cfg.applyCacheFactorFromConfig with
  | false =>
    refine ⟨.ok none, s, ?_, by simpa using h, fun _ => rfl⟩
    rw [setCacheFactor, happly]
    rfl
  | true =>
    obtain ⟨es, hwhole, hentries⟩ := h
    rw [if_pos rfl, RecencyList.resize, ← hwhole.maxSize]
    by_cases hsame : newSize = s.maxSize
    · refine ⟨.ok none, s, ?_, ?_, fun _ => rfl⟩
      · rw [setCacheFactor, happly, if_pos rfl]
        simp [run_bind, hsame]
      · rw [if_pos hsame]
        exact ⟨es, hwhole, hentries⟩
    have hsim : Sim { s with maxSize := newSize } { m with maxSize := newSize } := by
      have hcore := hwhole.live.core
      exact ⟨es, ⟨⟨⟨hcore.ring, hcore.rootEntry, hcore.fresh, hcore.root, hcore.nodes,
        hcore.entries, hcore.keys, hcore.counter, hcore.callbacks⟩, hwhole.live.indexed,
        hwhole.live.account⟩, hwhole.synced, rfl⟩, hentries⟩
    obtain ⟨r, s', hevict, hsim', hok⟩ := evict_returns hsim none
    rw [if_neg hsame]
    refine ⟨r, s', ?_, hsim', hok⟩
    rw [setCacheFactor, happly, if_pos rfl]
    simp only [run_bind, run_reads, ne_eq, hsame, not_false_eq_true, if_true, run_modify]
    exact hevict

/-! ## §5 Runs -/

/-- What an operation is to the list. -/
def listStep (cfg : LruConfig κ α ν γ) (m : RecencyList κ ν γ) : LruOp κ α ν γ → RecencyList κ ν γ
  | .get key callbacks updateLastAccess =>
    if updateLastAccess then m.touch key callbacks.toFinset else m.watch key callbacks.toFinset
  | .set key value callbacks => m.put (size cfg) key value callbacks.toFinset
  | .setdefault key value => m.putDefault (size cfg) key value
  | .pop key => m.remove fun e => e.key = key
  | .delMulti key => m.remove fun e => cfg.cacheType.Matches key e.key
  | .clear => m.remove fun _ => true
  | .invalidateOnExtraIndex indexKey =>
    match cfg.extraIndexCb with
    | none => m
    | some f => m.remove fun e => f e.key e.value = indexKey
  | .resize newSize => if cfg.applyCacheFactorFromConfig then m.resize (size cfg) newSize else m

/-- A run of the list, from an empty one. -/
def listRun (cfg : LruConfig κ α ν γ) (maxSize : ℤ) (ops : List (LruOp κ α ν γ)) : RecencyList κ ν γ :=
  ops.foldl (listStep cfg) ⟨[], List.nodup_nil, maxSize, 0, 0⟩

/-- No `set` replaces a cached value by one that tells the extra index something else. -/
def Allowed (s : LruCache cfg) (op : LruOp κ α ν γ) : Prop :=
  ∀ key value callbacks, op = .set key value callbacks → ∀ indexKey, cfg.extraIndexCb = some indexKey →
    ∀ old, s.cached key = some old → indexKey key old = indexKey key value

omit [DecidableEq ν] in
theorem allowed_set {value : ν} {callbacks : List γ} :
    s.Allowed (.set key value callbacks : LruOp κ α ν γ) ↔ ∀ indexKey ∈ cfg.extraIndexCb,
      ∀ old ∈ s.cached key, indexKey key old = indexKey key value := by
  constructor
  · intro h
    exact h key value callbacks rfl
  intro h key' value' callbacks' heq
  cases heq
  exact h

instance (s : LruCache cfg) : (op : LruOp κ α ν γ) → Decidable (s.Allowed op)
  | .set key value _ =>
    decidable_of_iff (∀ indexKey ∈ cfg.extraIndexCb, ∀ old ∈ s.cached key,
      indexKey key old = indexKey key value) allowed_set.symm
  | .get .. => isTrue nofun
  | .setdefault .. => isTrue nofun
  | .pop _ => isTrue nofun
  | .delMulti _ => isTrue nofun
  | .clear => isTrue nofun
  | .invalidateOnExtraIndex _ => isTrue nofun
  | .resize _ => isTrue nofun

/-- The operations that may raise: with a negative bound, with an index key where there is no index, or
with a tuple that no key can start with. -/
def MayRaise (cfg : LruConfig κ α ν γ) (maxSize : ℤ) : LruOp κ α ν γ → Prop
  | .set .. => maxSize < 0
  | .setdefault .. => maxSize < 0
  | .resize newSize => newSize < 0
  | .invalidateOnExtraIndex _ => cfg.extraIndexCb = none
  | .delMulti key => cfg.cacheType.Invalid key
  | _ => False

/-- **One operation** on a cache is the operation on the list. -/
theorem call_sim (h : s.Sim m) {op : LruOp κ α ν γ}
    (hallowed : s.Allowed op) : ∃ r s', (call op).run s = (r, s') ∧ s'.Sim (listStep cfg m op) ∧
      (¬ MayRaise cfg m.maxSize op → ∃ v, r = .ok v) := by
  cases op with
  | get key callbacks updateLastAccess =>
    obtain ⟨s', hrun, hsim⟩ := cacheGet_sim h key callbacks updateLastAccess
    exact ⟨_, s', hrun, hsim, fun _ => ⟨_, rfl⟩⟩
  | set key value callbacks =>
    obtain ⟨r, s', hrun, hsim, hok⟩ := cacheSet_sim h key value callbacks
      fun indexKey hcb => hallowed key value callbacks rfl indexKey hcb
    exact ⟨r, s', hrun, hsim, fun hpos => ⟨none, hok (not_lt.mp hpos)⟩⟩
  | setdefault key value =>
    obtain ⟨r, s', hrun, hsim, hok⟩ := cacheSetDefault_sim h key value
    exact ⟨r, s', hrun, hsim, fun hpos => hok (not_lt.mp hpos)⟩
  | pop key =>
    obtain ⟨es, hwhole, hentries⟩ := h
    obtain ⟨r, s', hrun, hwhole'⟩ := cachePop_spec hwhole key
    refine ⟨_, s', hrun, hwhole'.removed hentries ?_, fun _ => ⟨r, rfl⟩⟩
    intro e
    rw [decide_eq_true_eq, decide_eq_true_eq]
    rfl
  | delMulti key =>
    obtain ⟨es, hwhole, hentries⟩ := h
    obtain ⟨r, s', hrun, hwhole', hok⟩ := cacheDelMulti_spec hwhole key
    refine ⟨r, s', hrun, hwhole'.removed hentries ?_, fun hvalid => ⟨none, hok hvalid⟩⟩
    intro e
    rw [decide_eq_true_eq, decide_eq_true_eq]
    rfl
  | clear =>
    obtain ⟨es, hwhole, hentries⟩ := h
    obtain ⟨s', hrun, hwhole'⟩ := cacheClear_spec hwhole
    have hnil : (es.filter fun _ => false) = [] := List.filter_eq_nil_iff.mpr (by simp)
    rw [← hnil] at hwhole'
    exact ⟨_, s', hrun, hwhole'.removed hentries fun _ => by simp, fun _ => ⟨none, rfl⟩⟩
  | invalidateOnExtraIndex indexKey =>
    cases hcb : cfg.extraIndexCb with
    | none =>
      refine ⟨.error .assertionError, s, ?_, by simpa [listStep, hcb] using h, fun hnot => absurd hcb hnot⟩
      simp [call, cacheInvalidateOnExtraIndex, hcb]
    | some f =>
      obtain ⟨es, hwhole, hentries⟩ := h
      obtain ⟨s', hrun, hwhole'⟩ := cacheInvalidateOnExtraIndex_spec hwhole hcb indexKey
      refine ⟨_, s', hrun, ?_, fun _ => ⟨none, rfl⟩⟩
      rw [listStep, hcb]
      refine hwhole'.removed hentries ?_
      intro e
      rw [decide_eq_true_eq, decide_eq_true_eq]
      rfl
  | resize newSize =>
    obtain ⟨r, s', hrun, hsim, hok⟩ := setCacheFactor_sim h newSize
    exact ⟨r, s', hrun, hsim, fun hpos => ⟨none, hok (not_lt.mp hpos)⟩⟩

omit [DecidableEq ν] in
theorem sim_new (cfg : LruConfig κ α ν γ) (maxSize : ℤ) :
    (new cfg maxSize).Sim ⟨[], nodup_nil, maxSize, 0, 0⟩ := by
  refine ⟨[], ⟨⟨⟨ring_createRootNode (fun _ => ⟨rfl, rfl⟩) listRoot, rfl, by simp,
    Nat.lt_succ_self _, by simp, by simp, by simp, rfl, by simp⟩, ?_, rfl⟩,
    ⟨wf_new _, len_new _, ?_⟩, rfl⟩, rfl⟩
  · intro indexKey _ i key
    simp [new, Dict.getD]
  · intro key address
    simp [new]

/-- A run of which every step is allowed. -/
theorem run_sim {ops : List (LruOp κ α ν γ)}
    (h : AllSteps (fun before op => (run cfg maxSize before).Allowed op) ops) :
    (run cfg maxSize ops).Sim (listRun cfg maxSize ops) := by
  induction ops using List.reverseRecOn with
  | nil => exact sim_new cfg maxSize
  | append_singleton ops op ih =>
    obtain ⟨hops, hop⟩ := allSteps_concat.mp h
    obtain ⟨r, s', hrun, hsim, -⟩ := call_sim (ih hops) hop
    rw [run, listRun, List.foldl_append, List.foldl_append]
    show Sim ((call op).run (run cfg maxSize ops)).2 (listStep cfg (listRun cfg maxSize ops) op)
    rw [hrun]
    exact hsim

theorem balanced_listRun (cfg : LruConfig κ α ν γ) (maxSize : ℤ) (ops : List (LruOp κ α ν γ)) :
    (listRun cfg maxSize ops).Balanced := by
  induction ops using List.reverseRecOn with
  | nil => exact (zero_add _).symm
  | append_singleton ops op ih =>
    rw [listRun, List.foldl_append]
    show (listStep cfg (listRun cfg maxSize ops) op).Balanced
    cases op with
    | get key callbacks updateLastAccess =>
      cases updateLastAccess with
      | true => exact ih.touch key callbacks.toFinset
      | false => exact ih.watch key callbacks.toFinset
    | set key value callbacks => exact ih.put (size cfg) key value callbacks.toFinset
    | setdefault key value => exact ih.putDefault (size cfg) key value
    | pop key => exact ih.remove _
    | delMulti key => exact ih.remove _
    | clear => exact ih.remove _
    | invalidateOnExtraIndex indexKey =>
      cases hcb : cfg.extraIndexCb with
      | none => simpa only [listStep, hcb] using ih
      | some f =>
        rw [listStep, hcb]
        exact ih.remove _
    | resize newSize =>
      rw [listStep]
      split
      · exact ih.resize (size cfg) newSize
      · exact ih

/-- What can be seen of a cache is what the list says: the nodes around the circular list, the value of
each key, the reported length, and the callbacks that have run. -/
structure Refines (s : LruCache cfg) (m : RecencyList κ ν γ) : Prop where
  order : ∃ es : List (ℕ × LruNode κ ν γ), s.links.Ring listRoot (es.map Prod.fst) ∧
    (∀ e ∈ es, s.nodes e.1 = some e.2) ∧ m.entries = entriesOf es
  cached : ∀ key, s.cached key = m.get? key
  len : s.cacheLen = RecencyList.total (size cfg) m.entries
  ran : (s.ran : Multiset (κ × γ)) = m.ran

omit [DecidableEq ν] in
theorem Sim.refines (h : s.Sim m) (hm : m.Balanced) : s.Refines m := by
  obtain ⟨es, hwhole, hentries⟩ := h
  have hcore := hwhole.live.core
  refine ⟨⟨es, hcore.ring, hcore.nodes, hentries⟩, ?_, ?_, ?_⟩
  · intro key
    rcases hwhole.synced.lookup_cases key with
      ⟨hnone, hnot⟩ | ⟨address, n, es₁, es₂, hsome, rfl, rfl⟩
    · simp [cached, RecencyList.get?, hnone, find?_eq_none hentries hnot]
    · have hnode : s.nodes address = some n := hcore.nodes (address, n) (by simp)
      simp [cached, RecencyList.get?, hsome, hnode, (find?_split hcore hentries).1, entryOf]
  · rw [cacheLen_eq hcore hwhole.synced, hentries]
  · have haccount := hwhole.live.account
    rw [account, hm, ← hentries] at haccount
    exact add_right_cancel haccount

/-- **The cache is a bounded recency list**, in every run in which no `set` replaces a value by one that
tells the extra index something else: what can be seen of it is what the list says, each callback that was
registered has run once or is registered still, and operations that may not raise do not. -/
theorem lruCache_refines (cfg : LruConfig κ α ν γ) (maxSize : ℤ) (ops : List (LruOp κ α ν γ))
    (h : AllSteps (fun before op => (run cfg maxSize before).Allowed op) ops) :
    (run cfg maxSize ops).Refines (listRun cfg maxSize ops) ∧
      (listRun cfg maxSize ops).Balanced ∧
      ∀ op, (run cfg maxSize ops).Allowed op → ¬ MayRaise cfg (listRun cfg maxSize ops).maxSize op →
        ∃ v, ((call op).run (run cfg maxSize ops)).1 = .ok v := by
  have hbalanced := balanced_listRun cfg maxSize ops
  refine ⟨(run_sim h).refines hbalanced, hbalanced, ?_⟩
  intro op hop hnot
  obtain ⟨r, s', hrun, -, hok⟩ := call_sim (run_sim h) hop
  rw [hrun]
  exact hok hnot

/-- A cache of numbers by numbers, whose extra index has the tens of a value. -/
def exampleConfig (cacheType : CacheType ℕ ℕ) : LruConfig ℕ ℕ ℕ ℕ where
  cacheType
  sizeCallback := some fun value => value
  extraIndexCb := some fun _ value => value / 10
  applyCacheFactorFromConfig := true
  keyOrder := .sorted ℕ
  callbackOrder := .sorted ℕ

/-- The digits of a number as a tuple. -/
def digits : TupleKeys ℕ ℕ where
  parts n := [n / 10, n % 10]
  arity := 1
  length_parts _ := rfl
  parts_injective := by
    intro n m heq
    simp only [List.cons.injEq, and_true] at heq
    omega

/-- A value is replaced by one with the same tens, a subtree is deleted, and an entry is evicted. -/
theorem lruCache_refines_example : ∃ s : LruCache (exampleConfig (.treeCache digits)),
    s.cached 21 = some 13 ∧ s.cached 12 = none ∧ s.cacheLen = 13 := by
  let ops : List (LruOp ℕ ℕ ℕ ℕ) :=
    [.set 11 10 [1], .set 12 15 [2], .set 11 12 [3], .delMulti (.parts [1]), .set 12 20 [4], .set 21 13 []]
  have hallowed : AllSteps (fun before op =>
      (run (exampleConfig (.treeCache digits)) 30 before).Allowed op) ops := by
    simp only [ops, allSteps_cons]
    refine ⟨?_, ?_, ?_, ?_, ?_, ?_, allSteps_nil _⟩ <;> decide +kernel
  have hrefines := (lruCache_refines (exampleConfig (.treeCache digits)) 30 ops hallowed).1
  refine ⟨_, (hrefines.cached 21).trans ?_, (hrefines.cached 12).trans ?_, hrefines.len.trans ?_⟩
  · decide +kernel
  · decide +kernel
  · decide +kernel

/-- **A value that is replaced** by one with another index key is not found under it. -/
theorem overwritten_stays_indexed : ¬ (run (exampleConfig .dict) 100
        [.set 1 10 [], .set 1 20 [], .invalidateOnExtraIndex 2]).Refines
      (listRun (exampleConfig .dict) 100 [.set 1 10 [], .set 1 20 [], .invalidateOnExtraIndex 2]) := by
  intro h
  have hcode : (run (exampleConfig .dict) 100
      [.set 1 10 [], .set 1 20 [], .invalidateOnExtraIndex 2]).cached 1 = some 20 := by
    decide +kernel
  have hlist : (listRun (exampleConfig .dict) 100
      [.set 1 10 [], .set 1 20 [], .invalidateOnExtraIndex 2]).get? 1 = none := by
    decide +kernel
  have hcached := h.cached 1
  rw [hcode, hlist] at hcached
  cases hcached

end LruCache

end Setka.Util
