/-
# Setka.Util.DeferredCacheSound — when a deferred cache is coherent.

The lookups under way are a list of keys and entries, and the values are a bounded recency list. Apart from
each other, they answer both ways of reading alike; every callback that was registered stands on one of their
entries, or was called. Four steps lose this: a `set` or a bulk input on a key that has a value already, and
those that drop a pending entry without its callbacks.
-/
import Setka.Util.DeferredCache
import Setka.Util.LruCacheSound

namespace Setka.Util

open Setka.Api Setka.Lib CacheType LruCache Setka.Lib.Action RecencyList Function
open List (mem_singleton mem_append mem_cons_self mem_cons_of_mem)
open Option (elim_some map_some)
open Multiset (coe_add)

variable {κ α ν γ : Type} [DecidableEq κ] [DecidableEq α] [DecidableEq γ]

/-! ## §1 Callbacks of an entry -/

namespace CacheEntry

variable {t : CacheType κ α}

theorem get_full_multiple (callbacks : Dict κ (Finset γ)) (globalCallbacks : Finset γ) (key : κ) :
    (multiple callbacks globalCallbacks).getInvalidationCallbacks t (.full key) =
      callbacks.getD key ∅ ∪ globalCallbacks := by
  have hfind : ∀ l : List (κ × Finset γ), (l.find? fun item => t.SameKey (.full key) item.1).elim ∅ Prod.snd =
      (l.lookup key).getD ∅ := by
    intro l
    induction l with
    | nil => rfl
    | cons item l ih =>
      rw [List.find?_cons, List.lookup_cons]
      by_cases hk : item.1 = key
      · have hsame : t.SameKey (.full key) item.1 := sameKey_full.mpr hk
        have hbeq : (key == item.1) = true := by simp [hk]
        simp [hsame, hbeq]
      have hsame : ¬ t.SameKey (.full key) item.1 := fun h => hk (sameKey_full.mp h)
      have hbeq : (key == item.1) = false := by simpa using Ne.symm hk
      simpa [hsame, hbeq] using ih
  show _ ∪ _ = _
  rw [hfind]
  rfl

/-- A registration is for its key. -/
theorem getInvalidationCallbacks_add (entry : CacheEntry κ γ) (key : κ) (callback : γ) :
    (entry.addInvalidationCallback key callback).getInvalidationCallbacks t (.full key) =
      insert callback (entry.getInvalidationCallbacks t (.full key)) := by
  cases entry with
  | single callbacks => rfl
  | multiple callbacks globalCallbacks =>
    rw [addInvalidationCallback, get_full_multiple, get_full_multiple, Dict.getD, Dict.get?_set, if_pos rfl,
      Option.getD_some, Finset.insert_union]

/-- On a bulk entry, it leaves other keys as they are. -/
theorem getInvalidationCallbacks_add_of_ne {callbacks : Dict κ (Finset γ)} {globalCallbacks : Finset γ}
    {key key' : κ} (hne : key' ≠ key) (callback : γ) :
    ((multiple callbacks globalCallbacks).addInvalidationCallback key callback).getInvalidationCallbacks t
      (.full key') = (multiple callbacks globalCallbacks).getInvalidationCallbacks t (.full key') := by
  rw [addInvalidationCallback, get_full_multiple, get_full_multiple, Dict.getD, Dict.get?_set, if_neg hne]
  rfl

/-- The key that `items` yields is the key. -/
theorem getInvalidationCallbacks_itemKey (entry : CacheEntry κ γ) (key : κ) :
    entry.getInvalidationCallbacks t (t.itemKey key) = entry.getInvalidationCallbacks t (.full key) := by
  cases entry with
  | single callbacks => rfl
  | multiple callbacks globalCallbacks =>
    simp only [getInvalidationCallbacks, sameKey_itemKey, sameKey_full]

end CacheEntry

/-! ## §2 The tables as lists -/

namespace DeferredCache

variable {c : DeferredConfig κ α ν γ}

/-- The callbacks that stand under the key of an item. -/
def standing (c : DeferredConfig κ α ν γ) (entries : ℕ → Option (CacheEntry κ γ)) (item : κ × ℕ) : Multiset γ :=
  (entries item.2).elim 0 fun entry => (entry.getInvalidationCallbacks c.cacheType (.full item.1)).val

/-- Those of all items. -/
def allStanding (c : DeferredConfig κ α ν γ) (entries : ℕ → Option (CacheEntry κ γ)) (l : List (κ × ℕ)) :
    Multiset γ :=
  (l.map (standing c entries)).sum

/-- The lookups under way are `l`, the values are `m`, no key has both, and every callback that was registered
was called, or stands on a lookup, or went to the values. -/
structure Models (s : DeferredCache c) (l : List (κ × ℕ)) (m : RecencyList κ ν γ) : Prop where
  sim : s.cache.Sim m
  balanced : m.Balanced
  maxSize : 0 ≤ m.maxSize
  has : c.cacheType.Has s.pending l
  entries : ∀ item ∈ l, ∃ entry, s.entries item.2 = some entry
  fresh : ∀ address, s.nextEntry ≤ address → s.entries address = none
  lone : ∀ item ∈ l, ∀ item' ∈ l, item.2 = item'.2 → ∀ callbacks,
    s.entries item.2 = some (.single callbacks) → item.1 = item'.1
  apart : ∀ item ∈ l, m.get? item.1 = none
  account : (s.registered : Multiset γ) =
    (s.ran : Multiset γ) + allStanding c s.entries l + m.registered.map Prod.snd

variable {entries : ℕ → Option (CacheEntry κ γ)} {l : List (κ × ℕ)}

theorem allStanding_perm {l' : List (κ × ℕ)} (h : l.Perm l') : allStanding c entries l = allStanding c entries l' :=
  (h.map _).sum_eq

theorem allStanding_cons (entries : ℕ → Option (CacheEntry κ γ)) (item : κ × ℕ) (l : List (κ × ℕ)) :
    allStanding c entries (item :: l) = standing c entries item + allStanding c entries l := by
  rfl

theorem allStanding_congr {entries' : ℕ → Option (CacheEntry κ γ)}
    (h : ∀ item ∈ l, standing c entries item = standing c entries' item) :
    allStanding c entries l = allStanding c entries' l := by
  rw [allStanding, allStanding, List.map_congr_left h]

theorem allStanding_filter (entries : ℕ → Option (CacheEntry κ γ)) (p : κ × ℕ → Bool) (l : List (κ × ℕ)) :
    allStanding c entries l =
      allStanding c entries (l.filter p) + allStanding c entries (l.filter fun item => !p item) := by
  rw [← allStanding_perm (List.filter_append_perm p l), allStanding, List.map_append, List.sum_append]
  rfl

variable {key : κ} {address : ℕ}

/-- The item of a key, and the others. -/
theorem perm_cons_filter (h : (l.map Prod.fst).Nodup)
    (hmem : (key, address) ∈ l) : l.Perm ((key, address) :: l.filter fun item => item.1 ≠ key) := by
  refine perm_of_mem_iff h (nodup_cons_filter h key address) ?_
  rintro ⟨key', address'⟩
  rw [List.mem_cons, List.mem_filter]
  constructor
  · intro hitem
    by_cases hk : key' = key
    · subst hk
      rw [List.inj_on_of_nodup_map h hitem hmem rfl]
      exact Or.inl rfl
    · exact Or.inr ⟨hitem, by simpa using hk⟩
  · rintro (heq | ⟨hitem, -⟩)
    · rw [heq]
      exact hmem
    · exact hitem

variable {s : DeferredCache c} {m : RecencyList κ ν γ}

theorem Models.perm {l' : List (κ × ℕ)} (h : s.Models l m) (hl : l.Perm l') : s.Models l' m :=
  { h with
    has := h.has.perm hl
    entries := fun item hitem => h.entries item (hl.mem_iff.mpr hitem)
    lone := fun item hitem item' hitem' =>
      h.lone item (hl.mem_iff.mpr hitem) item' (hl.mem_iff.mpr hitem')
    apart := fun item hitem => h.apart item (hl.mem_iff.mpr hitem)
    account := by rw [h.account, allStanding_perm hl] }

theorem models_new (c : DeferredConfig κ α ν γ) (maxEntries : ℕ) :
    (new c maxEntries).Models [] ⟨[], List.nodup_nil, maxEntries, 0, 0⟩ where
  sim := sim_new c.lru maxEntries
  balanced := (zero_add _).symm
  maxSize := Int.natCast_nonneg maxEntries
  has := has_new c.cacheType
  entries := by simp
  fresh := fun _ _ => rfl
  lone := by simp
  apart := by simp
  account := by simp [new, allStanding]

/-! ## §3 Reading -/

omit [DecidableEq α] in
theorem run_entryAt {entry : CacheEntry κ γ}
    (h : s.entries address = some entry) : (entryAt address).run s = (.ok entry, s) := by
  simp only [entryAt, run_reads, h]

/-- The lookup of a key. -/
theorem Models.run_getPending (h : s.Models l m) (key : κ) :
    (getPending key).run s = (.ok (c.cacheType.lookup s.pending key), s) := by
  rw [getPending, run_reads, (h.has.get key).1]
  cases c.cacheType.lookup s.pending key with
  | none => rfl
  | some address => rfl

theorem Models.mem_iff (h : s.Models l m) : c.cacheType.lookup s.pending key = some address ↔ (key, address) ∈ l :=
  (h.has.get key).2 address

theorem coe_newOn (callback : Option γ) (callbacks : List γ) :
    (newOn callback callbacks : Multiset γ) = (callback.toList.toFinset \ callbacks.toFinset).val := by
  cases callback with
  | none => simp [newOn]
  | some callback =>
    by_cases hin : callback ∈ callbacks
    · have hempty : ({callback} : Finset γ) \ callbacks.toFinset = ∅ :=
        Finset.sdiff_eq_empty_iff_subset.mpr (by simpa using hin)
      simp [newOn, hin, hempty]
    have hall : ({callback} : Finset γ) \ callbacks.toFinset = {callback} :=
      Finset.sdiff_eq_self_of_disjoint (by simpa using hin)
    simp [newOn, hin, hall]

/-- A callback that is registered stands there, once. -/
theorem val_insert (callback : γ) (callbacks : Finset γ) :
    (insert callback callbacks).val = (({callback} : Finset γ) \ callbacks).val + callbacks.val := by
  by_cases hin : callback ∈ callbacks
  · have hempty : ({callback} : Finset γ) \ callbacks = ∅ :=
      Finset.sdiff_eq_empty_iff_subset.mpr (by simpa using hin)
    rw [Finset.insert_eq_of_mem hin, hempty, Finset.empty_val, zero_add]
  have hall : ({callback} : Finset γ) \ callbacks = {callback} :=
    Finset.sdiff_eq_self_of_disjoint (by simpa using hin)
  rw [hall, Finset.insert_val_of_notMem hin]
  rfl

/-- **A callback is registered** on the lookup of a key. -/
theorem Models.addInvalidationCallback (h : s.Models l m) (hmem : (key, address) ∈ l) (callback : Option γ) :
    ∃ s', (addInvalidationCallback address key callback).run s = (.ok (), s') ∧ s'.Models l m ∧
      s'.pending = s.pending ∧ s'.cache = s.cache := by
  cases callback with
  | none => exact ⟨s, rfl, h, rfl, rfl⟩
  | some callback =>
    obtain ⟨entry, hentry⟩ := h.entries _ hmem
    let old := entry.getInvalidationCallbacks c.cacheType (.full key)
    refine ⟨{ s with
      entries := update s.entries address (some (entry.addInvalidationCallback key callback))
      registered := s.registered ++ newOn (some callback) (c.callbackOrder.list old) }, ?_, ?_, rfl, rfl⟩
    · rw [DeferredCache.addInvalidationCallback, run_bind_of_ok (run_entryAt hentry)]
      rfl
    have hother : ∀ item ∈ l, item.1 ≠ key → standing c (update s.entries address
          (some (entry.addInvalidationCallback key callback))) item = standing c s.entries item := by
      intro item hitem hne
      by_cases haddress : item.2 = address
      · -- an entry under two keys is a bulk entry
        simp only [standing, haddress, update_self, hentry, elim_some]
        cases entry with
        | single callbacks =>
          exact absurd (h.lone item hitem _ hmem haddress callbacks (by rw [haddress, hentry])) hne
        | multiple callbacks globalCallbacks =>
          rw [CacheEntry.getInvalidationCallbacks_add_of_ne hne]
      · rw [standing, standing, update_of_ne haddress]
    refine { h with entries := ?_, fresh := ?_, lone := ?_, account := ?_ }
    · intro item hitem
      by_cases haddress : item.2 = address
      · exact ⟨_, by rw [haddress]; exact update_self ..⟩
      · obtain ⟨entry', hentry'⟩ := h.entries item hitem
        exact ⟨entry', by rw [← hentry']; exact update_of_ne haddress ..⟩
    · intro address' hle
      show update s.entries address _ address' = none
      rw [update_of_ne, h.fresh address' hle]
      rintro rfl
      rw [h.fresh address' hle] at hentry
      cases hentry
    · intro item hitem item' hitem' heq callbacks hsingle
      by_cases haddress : item.2 = address
      · change update s.entries address _ item.2 = _ at hsingle
        rw [haddress, update_self] at hsingle
        cases entry with
        | single callbacks' =>
          exact h.lone item hitem item' hitem' heq callbacks' (by rw [haddress, hentry])
        | multiple callbacks' globalCallbacks => cases hsingle
      · refine h.lone item hitem item' hitem' heq callbacks ?_
        rw [← hsingle]
        exact (update_of_ne haddress ..).symm
    · have hperm := perm_cons_filter h.has.nodup hmem
      have hrest := allStanding_congr (c := c) (l := l.filter fun item => item.1 ≠ key)
        fun item hitem => hother item (List.mem_filter.mp hitem).1 (by simpa using (List.mem_filter.mp hitem).2)
      have haccount := h.account
      rw [allStanding_perm hperm, allStanding_cons] at haccount
      show (_ : Multiset γ) = _
      rw [← coe_add, coe_newOn, haccount, allStanding_perm hperm, allStanding_cons, hrest]
      simp only [standing, update_self, hentry, elim_some,
        CacheEntry.getInvalidationCallbacks_add, c.callbackOrder.toFinset_list, Option.toList_some,
        List.toFinset_cons, List.toFinset_nil, insert_empty_eq, old, val_insert]
      abel

/-- The node of a key is the entry of the recency list. -/
theorem Models.cachedNode (h : s.Models l m) (key : κ) : (s.cachedNode key).map LruCache.entryOf = m.find? key := by
  obtain ⟨es, hwhole, hentries⟩ := h.sim
  rcases hwhole.synced.lookup_cases key with
    ⟨hnone, hnot⟩ | ⟨address, n, es₁, es₂, hsome, rfl, rfl⟩
  · have hlookup : c.cacheType.lookup s.cache.cache key = none := hnone
    rw [find?_eq_none hentries hnot, DeferredCache.cachedNode, hlookup]
    rfl
  have hlookup : c.cacheType.lookup s.cache.cache n.key = some address := hsome
  rw [(find?_split hwhole.live.core hentries).1, DeferredCache.cachedNode, hlookup]
  show (s.cache.nodes address).map LruCache.entryOf = _
  rw [hwhole.live.core.nodes (address, n) (by simp)]
  rfl

omit [DecidableEq α] in
theorem run_onCache {β : Type} {f : LruCache.Method c.lru β} {r : Except Error β} {cache : LruCache c.lru}
    (h : f.run s.cache = (r, cache)) : (onCache f).run s = (r, { s with cache := cache }) := by
  simp only [onCache, h]

omit [DecidableEq κ] [DecidableEq γ] in
theorem map_snd_tagged (key : κ) (callbacks : Finset γ) :
    (RecencyList.tagged key callbacks).map Prod.snd = callbacks.val := by
  rw [RecencyList.tagged, Multiset.map_map]
  exact Multiset.map_id _

/-- **The values are read**, and a callback is registered on the one that is found. -/
theorem Models.getCached (h : s.Models l m) (key : κ) (callback : Option γ) :
    ∃ s', (getCached key callback).run s = (.ok (m.get? key), s') ∧
      s'.Models l (m.touch key callback.toList.toFinset) ∧ s'.pending = s.pending := by
  obtain ⟨cache, hrun, hsim⟩ := cacheGet_sim h.sim key callback.toList true
  rw [if_pos rfl] at hsim
  refine ⟨{ s with
    cache := cache
    registered := s.registered ++ (s.cachedNode key).elim [] fun n => newOn callback n.callbacks }, ?_, ?_, rfl⟩
  · rw [DeferredCache.getCached, run_bind, run_modify]
    exact run_onCache hrun
  refine { h with
    sim := hsim, balanced := h.balanced.touch _ _, maxSize := ?_, apart := fun item hitem => ?_, account := ?_ }
  · have hmax := h.maxSize
    unfold RecencyList.touch
    split <;> exact hmax
  · rw [get?_touch]
    exact h.apart item hitem
  · show (_ : Multiset γ) = _
    rw [← coe_add, h.account]
    have hnode := h.cachedNode key
    cases hcached : s.cachedNode key with
    | none =>
      rw [hcached] at hnode
      simp [RecencyList.touch, ← hnode]
    | some n =>
      rw [hcached] at hnode
      have hfind : m.find? key = some (LruCache.entryOf n) := hnode.symm
      simp only [elim_some, coe_newOn, RecencyList.touch, hfind, Multiset.map_add, map_snd_tagged]
      show _ + (_ \ n.callbacks.toFinset).val = _ + (_ + (_ \ n.callbacks.toFinset).val)
      abel

/-- What `get` finds. -/
def found (s : DeferredCache c) (key : κ) : Option (Found ν) :=
  match c.cacheType.lookup s.pending key with
  | some address => some (.pending address)
  | none => (s.cache.cached key).map .value

/-- What `get_bulk` finds. -/
def foundBulk (s : DeferredCache c) (key : κ) : Option (Found ν) :=
  match s.cache.cached key with
  | some value => some (.value value)
  | none => (c.cacheType.lookup s.pending key).map .pending

theorem Models.cached (h : s.Models l m) (key : κ) : s.cache.cached key = m.get? key :=
  (h.sim.refines h.balanced).cached key

/-- Both ways of reading find the same. -/
theorem Models.agree (h : s.Models l m) (key : κ) : s.found key = s.foundBulk key := by
  cases hlookup : c.cacheType.lookup s.pending key with
  | none =>
    rw [found, foundBulk, hlookup]
    cases s.cache.cached key with
    | none => rfl
    | some value => rfl
  | some address =>
    have hnone := h.apart _ (h.mem_iff.mp hlookup)
    rw [found, foundBulk, hlookup, h.cached, hnone]
    rfl

/-- **`get`** returns what is found, or raises `KeyError`. -/
theorem Models.get (h : s.Models l m) (key : κ) (callback : Option γ) :
    ∃ s' m', (get key callback).run s = ((s.found key).elim (.error .keyError) .ok, s') ∧ s'.Models l m' ∧
      s'.pending = s.pending ∧ ∀ key', m'.get? key' = m.get? key' := by
  rw [DeferredCache.get, run_bind_of_ok (h.run_getPending key)]
  cases hlookup : c.cacheType.lookup s.pending key with
  | some address =>
    obtain ⟨s', hrun, hmodels, hpending, -⟩ := h.addInvalidationCallback (h.mem_iff.mp hlookup) callback
    refine ⟨s', m, ?_, hmodels, hpending, fun _ => rfl⟩
    rw [run_bind_of_ok hrun, found, hlookup]
    rfl
  | none =>
    obtain ⟨s', hrun, hmodels, hpending⟩ := h.getCached key callback
    refine ⟨s', _, ?_, hmodels, hpending, fun key' => get?_touch ..⟩
    rw [run_bind_of_ok hrun, found, hlookup, h.cached]
    cases m.get? key with
    | none => rfl
    | some value => rfl

/-- A bulk result tells of each of the keys what `get` would find. -/
structure Bulk.Tells (r : Bulk κ ν) (keys : List κ) (found : κ → Option (Found ν)) : Prop where
  cached : ∀ key value, r.cached.get? key = some value ↔ key ∈ keys ∧ found key = some (.value value)
  pending : ∀ key address, (key, address) ∈ r.pending ↔ key ∈ keys ∧ found key = some (.pending address)
  missing : ∀ key, key ∈ r.missing ↔ key ∈ keys ∧ found key = none

variable {keys : List κ}

/-- One key more. -/
theorem Bulk.Tells.concat {r : Bulk κ ν} {found : κ → Option (Found ν)} (h : r.Tells keys found)
    (key : κ) : Bulk.Tells (match found key with
      | some (.value value) => { r with cached := r.cached.set key value }
      | some (.pending address) => { r with pending := r.pending ++ [(key, address)] }
      | none => { r with missing := r.missing ++ [key] }) (keys ++ [key]) found := by
  have hkeys : ∀ {key' : κ} {f : Option (Found ν)}, found key ≠ f →
      (key' ∈ keys ++ [key] ∧ found key' = f ↔ key' ∈ keys ∧ found key' = f) := by
    intro key' f hne
    rw [mem_append, mem_singleton]
    constructor
    · rintro ⟨hin | rfl, hf⟩
      · exact ⟨hin, hf⟩
      · exact absurd hf hne
    · exact fun ⟨hin, hf⟩ => ⟨Or.inl hin, hf⟩
  rcases hfound : found key with - | address | value
  · refine ⟨fun key' value' => ?_, fun key' address' => ?_, fun key' => ?_⟩
    · rw [hkeys (by simp [hfound])]
      exact h.cached key' value'
    · rw [hkeys (by simp [hfound])]
      exact h.pending key' address'
    · show key' ∈ r.missing ++ [key] ↔ _
      rw [mem_append, mem_singleton, h.missing, mem_append, mem_singleton, or_and_right]
      refine or_congr_right ⟨?_, And.left⟩
      rintro rfl
      exact ⟨rfl, hfound⟩
  · refine ⟨fun key' value' => ?_, fun key' address' => ?_, fun key' => ?_⟩
    · rw [hkeys (by simp [hfound])]
      exact h.cached key' value'
    · show (key', address') ∈ r.pending ++ [(key, address)] ↔ _
      rw [mem_append, mem_singleton, h.pending, mem_append, mem_singleton, or_and_right,
        Prod.mk.injEq]
      refine or_congr_right ⟨?_, ?_⟩
      · rintro ⟨rfl, rfl⟩
        exact ⟨rfl, hfound⟩
      rintro ⟨rfl, hf⟩
      rw [hfound] at hf
      cases hf
      exact ⟨rfl, rfl⟩
    · rw [hkeys (by simp [hfound])]
      exact h.missing key'
  · refine ⟨fun key' value' => ?_, fun key' address' => ?_, fun key' => ?_⟩
    · show (r.cached.set key value).get? key' = some value' ↔ _
      rw [Dict.get?_set]
      by_cases hk : key' = key
      · subst hk
        simp [hfound]
      · rw [if_neg hk, h.cached]
        simp [hk]
    · rw [hkeys (by simp [hfound])]
      exact h.pending key' address'
    · rw [hkeys (by simp [hfound])]
      exact h.missing key'

/-- One turn of `get_bulk`. -/
theorem Models.getBulkKey (h : s.Models l m) (callback : Option γ) (r : Bulk κ ν) (key : κ) :
    ∃ s' m', (getBulkKey callback r key).run s = (.ok (match s.foundBulk key with
      | some (.value value) => { r with cached := r.cached.set key value }
      | some (.pending address) => { r with pending := r.pending ++ [(key, address)] }
      | none => { r with missing := r.missing ++ [key] }), s') ∧ s'.Models l m' ∧
      s'.pending = s.pending ∧ ∀ key', m'.get? key' = m.get? key' := by
  obtain ⟨s₁, hrun₁, hmodels₁, hpending₁⟩ := h.getCached key callback
  rw [DeferredCache.getBulkKey, run_bind_of_ok hrun₁, foundBulk, h.cached]
  cases hvalue : m.get? key with
  | some value => exact ⟨s₁, _, rfl, hmodels₁, hpending₁, fun key' => get?_touch ..⟩
  | none =>
    rw [run_bind_of_ok (hmodels₁.run_getPending key), hpending₁]
    cases hlookup : c.cacheType.lookup s.pending key with
    | none => exact ⟨s₁, _, rfl, hmodels₁, hpending₁, fun key' => get?_touch ..⟩
    | some address =>
      obtain ⟨s₂, hrun₂, hmodels₂, hpending₂, -⟩ :=
        hmodels₁.addInvalidationCallback (h.mem_iff.mp hlookup) callback
      refine ⟨s₂, _, ?_, hmodels₂, hpending₂.trans hpending₁, fun key' => get?_touch ..⟩
      rw [run_bind_of_ok hrun₂]
      rfl

/-- **`get_bulk`** tells of each key what is found. -/
theorem Models.getBulk (h : s.Models l m) (keys : List κ) (callback : Option γ) :
    ∃ r s' m', (getBulk keys callback).run s = (.ok r, s') ∧ r.Tells keys s.foundBulk ∧ s'.Models l m' ∧
      s'.pending = s.pending ∧ ∀ key', m'.get? key' = m.get? key' := by
  have hloop : ∀ (rest : List κ) (done : List κ) (r : Bulk κ ν) (s₁ : DeferredCache c)
      (m₁ : RecencyList κ ν γ), s₁.Models l m₁ → s₁.pending = s.pending →
      (∀ key', m₁.get? key' = m.get? key') → r.Tells done s.foundBulk →
      ∃ r' s' m', (rest.foldlM (DeferredCache.getBulkKey callback) r).run s₁ = (.ok r', s') ∧
        r'.Tells (done ++ rest) s.foundBulk ∧ s'.Models l m' ∧ s'.pending = s.pending ∧
        ∀ key', m'.get? key' = m.get? key' := by
    intro rest
    induction rest with
    | nil =>
      intro done r s₁ m₁ hmodels hpending hvalues htells
      exact ⟨r, s₁, m₁, rfl, by rwa [List.append_nil], hmodels, hpending, hvalues⟩
    | cons key rest ih =>
      intro done r s₁ m₁ hmodels hpending hvalues htells
      obtain ⟨s₂, m₂, hrun, hmodels₂, hpending₂, hvalues₂⟩ := hmodels.getBulkKey callback r key
      have hsame : s₁.foundBulk key = s.foundBulk key := by
        rw [foundBulk, foundBulk, hmodels.cached, h.cached, hvalues, hpending]
      rw [hsame] at hrun
      rw [List.foldlM_cons, run_bind_of_ok hrun]
      have hnext := ih (done ++ [key]) _ s₂ m₂ hmodels₂ (hpending₂.trans hpending)
        (fun key' => (hvalues₂ key').trans (hvalues key')) (htells.concat key)
      rwa [List.append_assoc] at hnext
  have hnone : ∀ key, (∅ : Dict κ ν).get? key = none := fun _ => rfl
  exact hloop keys [] ⟨∅, [], []⟩ s m h rfl (fun _ => rfl) ⟨by simp [hnone], by simp, by simp⟩

/-! ## §4 Lookups begin and end -/

theorem filter_ne_of_notMem (h : ∀ address, (key, address) ∉ l) : (l.filter fun item => item.1 ≠ key) = l := by
  refine List.filter_eq_self.mpr fun item hitem => ?_
  rw [decide_eq_true_eq]
  rintro rfl
  exact h item.2 hitem

variable {pending : c.cacheType.Data ℕ}

theorem run_popPending {key : MultiKey κ α} {popped : Option (TreeEntry α ℕ)}
    (h : c.cacheType.pop s.pending key = .ok (popped, pending)) :
    (popPending key).run s = (.ok popped, { s with pending := pending }) := by
  simp only [popPending, h]

/-- The lookup of a key is popped. -/
theorem Models.pop (h : s.Models l m) (key : κ) : ∃ pending, c.cacheType.pop s.pending (.full key) =
        .ok ((c.cacheType.lookup s.pending key).map .leaf, pending) ∧
      c.cacheType.Has pending (l.filter fun item => item.1 ≠ key) := by
  rcases h.has.pop_full key with ⟨hpop, hnot⟩ | ⟨address, pending, hmem, hpop, hleft⟩
  · have hnone : c.cacheType.lookup s.pending key = none :=
      Option.eq_none_iff_forall_ne_some.mpr fun address hsome => hnot address (h.mem_iff.mp hsome)
    refine ⟨s.pending, ?_, by rw [filter_ne_of_notMem hnot]; exact h.has⟩
    rw [hpop, hnone, Option.map_none]
  · exact ⟨pending, by rw [hpop, h.mem_iff.mpr hmem, map_some], hleft⟩

theorem run_setPending (h : c.cacheType.Has s.pending l) (key : κ)
    (address : ℕ) : ∃ pending, (setPending key address).run s = (.ok (), { s with pending := pending }) ∧
      c.cacheType.Has pending ((key, address) :: l.filter fun item => item.1 ≠ key) := by
  obtain ⟨pending, hset, hhas⟩ := h.set key address
  refine ⟨pending, ?_, hhas⟩
  simp only [setPending, hset]

/-- Lookups are dropped, and the callbacks on them were called. -/
theorem Models.drop (h : s.Models l m) (keep : κ × ℕ → Bool)
    (hpending : c.cacheType.Has pending (l.filter keep)) (called : List γ)
    (hcalled : (called : Multiset γ) = allStanding c s.entries (l.filter fun item => !keep item)) :
    ({ s with pending := pending, ran := s.ran ++ called } : DeferredCache c).Models (l.filter keep) m where
  sim := h.sim
  balanced := h.balanced
  maxSize := h.maxSize
  has := hpending
  entries := fun item hitem => h.entries item (List.mem_filter.mp hitem).1
  fresh := h.fresh
  lone := fun item hitem item' hitem' => h.lone item (List.mem_filter.mp hitem).1 item' (List.mem_filter.mp hitem').1
  apart := fun item hitem => h.apart item (List.mem_filter.mp hitem).1
  account := by
    show (s.registered : Multiset γ) = ((s.ran ++ called : List γ) : Multiset γ) + _ + _
    rw [h.account, ← coe_add, hcalled, allStanding_filter s.entries keep l]
    abel

/-- No callback stands under the key. -/
def Silent (c : DeferredConfig κ α ν γ) (entries : ℕ → Option (CacheEntry κ γ)) (l : List (κ × ℕ))
    (key : κ) : Prop :=
  ∀ address, (key, address) ∈ l → standing c entries (key, address) = 0

theorem allStanding_of_silent (h : Silent c entries l key) :
    allStanding c entries (l.filter fun item => !decide (item.1 ≠ key)) = 0 := by
  refine List.sum_eq_zero fun callbacks hin => ?_
  obtain ⟨⟨key', address⟩, hitem, rfl⟩ := List.mem_map.mp hin
  have hitem := List.mem_filter.mp hitem
  obtain rfl : key' = key := by simpa using hitem.2
  exact h address hitem.1

/-- A lookup of a key that has nothing else. -/
theorem Models.addSingle (h : s.Models l m) (hvalue : m.get? key = none) (callback : Option γ)
    (hpending : c.cacheType.Has pending ((key, s.nextEntry) :: l)) : ({ s with
      pending := pending
      entries := update s.entries s.nextEntry (some (.single callback.toList.toFinset))
      nextEntry := s.nextEntry + 1
      registered := s.registered ++ callback.toList } : DeferredCache c).Models ((key, s.nextEntry) :: l) m := by
  have hold : ∀ item ∈ l, item.2 ≠ s.nextEntry := by
    intro item hitem heq
    obtain ⟨entry, hentry⟩ := h.entries item hitem
    rw [heq, h.fresh _ le_rfl] at hentry
    cases hentry
  have hsame : ∀ item ∈ l, update s.entries s.nextEntry
      (some (.single callback.toList.toFinset)) item.2 = s.entries item.2 :=
    fun item hitem => update_of_ne (hold item hitem) ..
  refine { h with has := hpending, entries := ?_, fresh := ?_, lone := ?_, apart := ?_, account := ?_ }
  · intro item hitem
    rcases List.mem_cons.mp hitem with rfl | hitem
    · exact ⟨_, update_self ..⟩
    · obtain ⟨entry, hentry⟩ := h.entries item hitem
      exact ⟨entry, (hsame item hitem).trans hentry⟩
  · intro address hle
    have hle : s.nextEntry + 1 ≤ address := hle
    show update s.entries _ _ _ = _
    rw [update_of_ne (by omega)]
    exact h.fresh address (by omega)
  · intro item hitem item' hitem' heq callbacks hsingle
    rcases List.mem_cons.mp hitem with rfl | hitem
    · rcases List.mem_cons.mp hitem' with rfl | hitem'
      · rfl
      · exact absurd heq.symm (hold item' hitem')
    rcases List.mem_cons.mp hitem' with rfl | hitem'
    · exact absurd heq (hold item hitem)
    · exact h.lone item hitem item' hitem' heq callbacks ((hsame item hitem).symm.trans hsingle)
  · intro item hitem
    rcases List.mem_cons.mp hitem with rfl | hitem
    · exact hvalue
    · exact h.apart item hitem
  · have hrest := allStanding_congr (c := c) (l := l) fun item hitem =>
      show standing c (update s.entries s.nextEntry
        (some (.single callback.toList.toFinset))) item = standing c s.entries item by
        rw [standing, standing, hsame item hitem]
    have hnew : standing c (update s.entries s.nextEntry (some (.single callback.toList.toFinset)))
        (key, s.nextEntry) = (callback.toList : Multiset γ) := by
      rw [standing, update_self]
      cases callback with
      | none => rfl
      | some callback => rfl
    show ((s.registered ++ callback.toList : List γ) : Multiset γ) = _
    rw [← coe_add, h.account, allStanding_cons, hnew, hrest]
    abel

omit [DecidableEq α] in
theorem run_newEntry (s : DeferredCache c) (entry : CacheEntry κ γ) :
    (newEntry entry).run s = (.ok s.nextEntry, { s with
      entries := update s.entries s.nextEntry (some entry)
      nextEntry := s.nextEntry + 1 }) := rfl

/-- A callback on the entry that has just been made. -/
theorem run_addToNew (hentry : s.entries address = some (.single ∅)) (key : κ) (callback : Option γ) :
    (DeferredCache.addInvalidationCallback address key callback).run s = (.ok (), { s with
      entries := update s.entries address (some (.single callback.toList.toFinset))
      registered := s.registered ++ callback.toList }) := by
  cases callback with
  | none =>
    have hsame : update s.entries address (some (.single ∅)) = s.entries :=
      Function.update_eq_self_iff.mpr hentry.symm
    simp [DeferredCache.addInvalidationCallback, hsame]
  | some callback =>
    rw [DeferredCache.addInvalidationCallback, run_bind_of_ok (run_entryAt hentry)]
    have hnone : c.callbackOrder.list (∅ : Finset γ) = [] := c.callbackOrder.list_eq_nil_iff.mpr rfl
    simp [CacheEntry.getInvalidationCallbacks, CacheEntry.addInvalidationCallback, hnone, newOn]

/-- **`set`** begins a lookup, where it drops neither a value nor callbacks. -/
theorem Models.set (h : s.Models l m) (hvalue : m.get? key = none) (hsilent : Silent c s.entries l key)
    (callback : Option γ) :
    ∃ s', (set key callback).run s = (.ok s.nextEntry, s') ∧ s'.nextEntry = s.nextEntry + 1 ∧
      s'.Models ((key, s.nextEntry) :: l.filter fun item => item.1 ≠ key) m := by
  obtain ⟨pending₁, hpop, hleft⟩ := h.pop key
  have hdropped := h.drop (fun item => item.1 ≠ key) hleft [] (allStanding_of_silent hsilent).symm
  have hnotin : ∀ item ∈ l.filter fun item => item.1 ≠ key, item.1 ≠ key := fun item hitem => by
    simpa using (List.mem_filter.mp hitem).2
  have hfilter : ((l.filter fun item => item.1 ≠ key).filter fun item => item.1 ≠ key) =
      l.filter fun item => item.1 ≠ key := List.filter_eq_self.mpr fun item hitem => by
    simpa using hnotin item hitem
  obtain ⟨pending₂, hset, hhas⟩ := run_setPending (s := { s with
    pending := pending₁
    entries := update s.entries s.nextEntry (some (.single callback.toList.toFinset))
    nextEntry := s.nextEntry + 1
    registered := s.registered ++ callback.toList }) hleft key s.nextEntry
  rw [hfilter] at hhas
  have hadded := hdropped.addSingle hvalue callback hhas
  refine ⟨_, ?_, ?_, hadded⟩
  · rw [DeferredCache.set, run_bind_of_ok (run_popPending hpop)]
    rw [run_bind_of_ok (run_newEntry _ _),
      run_bind_of_ok (run_addToNew (update_self ..) key callback)]
    simp only [update_idem]
    rw [run_bind_of_ok hset]
    simp
  · rfl

/-- An entry is made. -/
theorem Models.newEntry (h : s.Models l m) (entry : CacheEntry κ γ) : ({ s with
      entries := update s.entries s.nextEntry (some entry)
      nextEntry := s.nextEntry + 1 } : DeferredCache c).Models l m := by
  have hsame : ∀ item ∈ l, update s.entries s.nextEntry (some entry) item.2 = s.entries item.2 := by
    intro item hitem
    refine update_of_ne (fun heq => ?_) ..
    obtain ⟨entry', hentry⟩ := h.entries item hitem
    rw [heq, h.fresh _ le_rfl] at hentry
    cases hentry
  refine { h with entries := ?_, fresh := ?_, lone := ?_, account := ?_ }
  · intro item hitem
    obtain ⟨entry', hentry⟩ := h.entries item hitem
    exact ⟨entry', (hsame item hitem).trans hentry⟩
  · intro address hle
    have hle : s.nextEntry + 1 ≤ address := hle
    show update s.entries _ _ _ = _
    rw [update_of_ne (by omega)]
    exact h.fresh address (by omega)
  · intro item hitem item' hitem' heq callbacks hsingle
    exact h.lone item hitem item' hitem' heq callbacks ((hsame item hitem).symm.trans hsingle)
  · rw [h.account]
    refine congrArg (_ + · + _) (allStanding_congr fun item hitem => ?_)
    show standing c s.entries item = standing c (update s.entries _ _) item
    rw [standing, standing, hsame item hitem]

/-- A bulk entry that no key has used yet. -/
def Untouched (s : DeferredCache c) (address : ℕ) (callback : Option γ) : Prop :=
  s.entries address = some (.multiple ∅ callback.toList.toFinset)

theorem standing_untouched {callback : Option γ} (h : s.Untouched address callback) (key : κ) :
    standing c s.entries (key, address) = (callback.toList : Multiset γ) := by
  have hnone : (∅ : Dict κ (Finset γ)).getD key ∅ = ∅ := rfl
  rw [standing, h, elim_some, CacheEntry.get_full_multiple, hnone, Finset.empty_union]
  cases callback with
  | none => rfl
  | some callback => rfl

/-- **One key of a bulk input**, where it drops neither a value nor callbacks. -/
theorem Models.setBulkKey (h : s.Models l m) {callback : Option γ} (huntouched : s.Untouched address callback)
    (hvalue : m.get? key = none) (hsilent : (key, address) ∈ l ∨ Silent c s.entries l key) :
    ∃ s', (setBulkKey address callback key).run s = (.ok (), s') ∧ s'.entries = s.entries ∧
      s'.nextEntry = s.nextEntry ∧ s'.Models ((key, address) :: l.filter fun item => item.1 ≠ key) m := by
  by_cases hmem : (key, address) ∈ l
  · -- a key twice: nothing changes
    have hperm := perm_cons_filter h.has.nodup hmem
    have hfilter : (((key, address) :: l.filter fun item => item.1 ≠ key).filter
        fun item => item.1 ≠ key) = l.filter fun item => item.1 ≠ key := by simp
    obtain ⟨pending, hset, hhas⟩ := run_setPending (s := { s with registered := s.registered ++ [] })
      (h.perm hperm).has key address
    rw [hfilter] at hhas
    refine ⟨{ s with pending := pending, registered := s.registered ++ [] }, ?_, rfl, rfl,
      { h.perm hperm with has := hhas, account := ?_ }⟩
    · rw [DeferredCache.setBulkKey, run_bind, run_modify, if_pos (h.mem_iff.mpr hmem)]
      exact hset
    show ((s.registered ++ [] : List γ) : Multiset γ) = _
    rw [List.append_nil]
    exact (h.perm hperm).account
  · have hnot : c.cacheType.lookup s.pending key ≠ some address := fun hsome => hmem (h.mem_iff.mp hsome)
    obtain ⟨pending, hset, hhas⟩ := run_setPending (s := { s with registered := s.registered ++ callback.toList })
      h.has key address
    refine ⟨{ s with pending := pending, registered := s.registered ++ callback.toList }, ?_, rfl, rfl,
      { h with has := hhas, entries := ?_, lone := ?_, apart := ?_, account := ?_ }⟩
    · rw [DeferredCache.setBulkKey, run_bind, run_modify, if_neg hnot]
      exact hset
    · intro item hitem
      rcases List.mem_cons.mp hitem with rfl | hitem
      · exact ⟨_, huntouched⟩
      · exact h.entries item (List.mem_filter.mp hitem).1
    · intro item hitem item' hitem' heq callbacks hsingle
      -- the new item is of a bulk entry
      have hold : ∀ i ∈ (key, address) :: l.filter fun item => item.1 ≠ key, i.2 = item.2 → i ∈ l := by
        intro i hi heq'
        rcases List.mem_cons.mp hi with rfl | hi
        · change s.entries item.2 = _ at hsingle
          rw [← heq', huntouched] at hsingle
          cases hsingle
        · exact (List.mem_filter.mp hi).1
      exact h.lone item (hold item hitem rfl) item' (hold item' hitem' heq.symm) heq callbacks hsingle
    · intro item hitem
      rcases List.mem_cons.mp hitem with rfl | hitem
      · exact hvalue
      · exact h.apart item (List.mem_filter.mp hitem).1
    · show ((s.registered ++ callback.toList : List γ) : Multiset γ) = _ + allStanding c s.entries _ + _
      have hzero := allStanding_of_silent (hsilent.resolve_left hmem)
      rw [← coe_add, h.account, allStanding_cons, standing_untouched huntouched,
        allStanding_filter s.entries (fun item => item.1 ≠ key) l, hzero]
      abel

/-- The keys whose lookups are replaced by a bulk entry. -/
def bulkItems (address : ℕ) (keys : List κ) (l : List (κ × ℕ)) : List (κ × ℕ) :=
  keys.foldl (fun l key => (key, address) :: l.filter fun item => item.1 ≠ key) l

theorem mem_bulkItems {address' : ℕ} : (key, address') ∈ bulkItems address keys l ↔
      key ∈ keys ∧ address' = address ∨ key ∉ keys ∧ (key, address') ∈ l := by
  induction keys generalizing l with
  | nil => simp [bulkItems]
  | cons k keys ih =>
    show (key, address') ∈ bulkItems address keys _ ↔ _
    rw [ih]
    by_cases hk : key = k
    · subst hk
      by_cases hin : key ∈ keys
      · simp [hin]
      · simp [hin]
    · simp [hk]

/-- **`start_bulk_input`** begins one lookup for the keys, where it drops neither values nor callbacks. -/
theorem Models.startBulkInput (h : s.Models l m) (hvalue : ∀ key ∈ keys, m.get? key = none)
    (hsilent : ∀ key ∈ keys, Silent c s.entries l key) (callback : Option γ) :
    ∃ s', (startBulkInput keys callback).run s = (.ok s.nextEntry, s') ∧ s'.nextEntry = s.nextEntry + 1 ∧
      s'.Models (bulkItems s.nextEntry keys l) m := by
  have hloop : ∀ (rest : List κ) (s₁ : DeferredCache c) (l₁ : List (κ × ℕ)), s₁.Models l₁ m →
      s₁.Untouched s.nextEntry callback → (∀ key ∈ rest, m.get? key = none) →
      (∀ key ∈ rest, (key, s.nextEntry) ∈ l₁ ∨ Silent c s₁.entries l₁ key) →
      ∃ s', (rest.forM (DeferredCache.setBulkKey s.nextEntry callback)).run s₁ = (.ok (), s') ∧
        s'.nextEntry = s₁.nextEntry ∧ s'.Models (bulkItems s.nextEntry rest l₁) m := by
    intro rest
    induction rest with
    | nil => exact fun s₁ l₁ hmodels _ _ _ => ⟨s₁, rfl, rfl, hmodels⟩
    | cons key rest ih =>
      intro s₁ l₁ hmodels huntouched hvalue hsilent
      obtain ⟨s₂, hrun, hentries, hnext, hmodels₂⟩ := hmodels.setBulkKey huntouched
        (hvalue key mem_cons_self) (hsilent key mem_cons_self)
      obtain ⟨s₃, hrun₃, hnext₃, hmodels₃⟩ := ih s₂ _ hmodels₂ (by rw [Untouched, hentries]; exact huntouched)
        (fun k hk => hvalue k (mem_cons_of_mem key hk)) fun k hk => by
          by_cases heq : k = key
          · exact Or.inl (by rw [heq]; exact mem_cons_self)
          refine (hsilent k (mem_cons_of_mem key hk)).imp (fun hin => ?_) fun hsil a ha => ?_
          · exact mem_cons_of_mem _ (List.mem_filter.mpr ⟨hin, by simpa using heq⟩)
          rw [hentries]
          rcases List.mem_cons.mp ha with heq' | ha
          · exact absurd (Prod.mk.inj heq').1 heq
          · exact hsil a (List.mem_filter.mp ha).1
      refine ⟨s₃, ?_, hnext₃.trans hnext, hmodels₃⟩
      rw [run_forM_cons, run_bind_of_ok hrun]
      exact hrun₃
  have hnew := h.newEntry (.multiple ∅ callback.toList.toFinset)
  obtain ⟨s', hrun, hnext, hmodels⟩ := hloop keys _ l hnew (update_self ..) hvalue fun key hkey =>
    Or.inr fun address hmem => by
      have hold : address ≠ s.nextEntry := by
        rintro rfl
        obtain ⟨entry, hentry⟩ := h.entries _ hmem
        rw [h.fresh _ le_rfl] at hentry
        cases hentry
      show standing c (update s.entries s.nextEntry _) (key, address) = 0
      rw [standing, update_of_ne hold]
      exact hsilent key hkey address hmem
  refine ⟨s', ?_, hnext, hmodels⟩
  rw [DeferredCache.startBulkInput, run_bind_of_ok (run_newEntry _ _), run_bind_of_ok hrun]
  rfl

omit [DecidableEq α] in
theorem coe_list (callbacks : Finset γ) : (c.callbackOrder.list callbacks : Multiset γ) = callbacks.val := by
  have hval : (c.callbackOrder.list callbacks).toFinset.val = callbacks.val := by
    rw [c.callbackOrder.toFinset_list]
  rw [← hval, List.toFinset_val, (c.callbackOrder.nodup_list callbacks).dedup]

theorem allStanding_of_mem (h : (l.map Prod.fst).Nodup) (hmem : (key, address) ∈ l) :
    allStanding c entries (l.filter fun item => !decide (item.1 ≠ key)) = standing c entries (key, address) := by
  have hone : (l.filter fun item => !decide (item.1 ≠ key)).Perm [(key, address)] := by
    refine perm_of_mem_iff (nodup_filter h _) (by simp) ?_
    rintro ⟨key', address'⟩
    rw [List.mem_filter, mem_singleton]
    constructor
    · rintro ⟨hitem, hkey⟩
      exact List.inj_on_of_nodup_map h hitem hmem (by simpa using hkey)
    intro heq
    cases heq
    exact ⟨hmem, by simp⟩
  rw [allStanding_perm hone, allStanding_cons]
  exact add_zero _

/-- A lookup that is not the one of the key any more is put back. -/
theorem Models.putBack (h : s.Models l m) (hmem : (key, address) ∈ l)
    (hpending : c.cacheType.Has pending (l.filter fun item => item.1 ≠ key)) :
    ∃ s', (setPending key address).run { s with pending := pending } = (.ok (), s') ∧ s'.Models l m := by
  obtain ⟨pending', hset, hhas⟩ := run_setPending (s := { s with pending := pending }) hpending key address
  rw [List.filter_eq_self.mpr (fun item hitem => (List.mem_filter.mp hitem).2)] at hhas
  exact ⟨_, hset, { h with has := hhas.perm (perm_cons_filter h.has.nodup hmem).symm }⟩

theorem models_pending (h : s.Models l m) (hpending : c.cacheType.Has pending l) :
    ({ s with pending := pending } : DeferredCache c).Models l m := { h with has := hpending }

/-- **A lookup has failed**: it goes, and its callbacks are called. -/
theorem Models.errorCallback (h : s.Models l m) (address : ℕ) (key : κ) :
    ∃ s', (errorCallback address key).run s = (.ok (), s') ∧
      ((key, address) ∈ l ∧ s'.Models (l.filter fun item => item.1 ≠ key) m ∨
        (key, address) ∉ l ∧ s'.Models l m) := by
  obtain ⟨pending, hpop, hleft⟩ := h.pop key
  rw [DeferredCache.errorCallback, run_bind_of_ok (run_popPending hpop)]
  cases hlookup : c.cacheType.lookup s.pending key with
  | none =>
    have hnot : ∀ address', (key, address') ∉ l := fun address' hmem => by
      rw [← h.mem_iff, hlookup] at hmem
      cases hmem
    rw [filter_ne_of_notMem hnot] at hleft
    exact ⟨_, rfl, Or.inr ⟨hnot address, models_pending h hleft⟩⟩
  | some current =>
    have hmem := h.mem_iff.mp hlookup
    by_cases hcurrent : current = address
    · subst hcurrent
      obtain ⟨entry, hentry⟩ := h.entries _ hmem
      let callbacks := entry.getInvalidationCallbacks c.cacheType (.full key)
      have hdropped := h.drop (fun item => item.1 ≠ key) hleft (c.callbackOrder.list callbacks) (by
        rw [allStanding_of_mem h.has.nodup hmem, standing, hentry]
        exact coe_list callbacks)
      refine ⟨_, ?_, Or.inl ⟨hmem, hdropped⟩⟩
      simp only [map_some, if_pos]
      rw [run_bind_of_ok (run_entryAt (s := { s with pending := pending }) hentry)]
      rfl
    · have hother : (key, address) ∉ l := fun hmem' =>
        hcurrent (Prod.mk.inj (List.inj_on_of_nodup_map h.has.nodup hmem hmem' rfl)).2
      obtain ⟨s', hrun, hmodels⟩ := h.putBack hmem hleft
      simp only [map_some, if_neg hcurrent]
      exact ⟨s', hrun, Or.inr ⟨hother, hmodels⟩⟩

section Ends

variable [DecidableEq ν]

variable {s : DeferredCache c} {l : List (κ × ℕ)} {m : RecencyList κ ν γ} {key : κ}

/-- **A value is put** in the place of the lookups of its key. -/
theorem Models.put (h : s.Models l m) {value : ν} {callbacks : Finset γ} {pending : c.cacheType.Data ℕ}
    (hpending : c.cacheType.Has pending (l.filter fun item => item.1 ≠ key)) {cache : LruCache c.lru}
    (hsim : cache.Sim (m.put (LruCache.size c.lru) key value callbacks)) (registered : List γ)
    (hregistered : (registered : Multiset γ) +
      allStanding c s.entries (l.filter fun item => !decide (item.1 ≠ key)) =
        (callbacks \ m.kept key value).val) : ({ s with
      cache := cache
      pending := pending
      registered := s.registered ++ registered } : DeferredCache c).Models
        (l.filter fun item => item.1 ≠ key) (m.put (LruCache.size c.lru) key value callbacks) where
  sim := hsim
  balanced := h.balanced.put _ _ _ _
  maxSize := h.maxSize
  has := hpending
  entries := fun item hitem => h.entries item (List.mem_filter.mp hitem).1
  fresh := h.fresh
  lone := fun item hitem item' hitem' => h.lone item (List.mem_filter.mp hitem).1 item' (List.mem_filter.mp hitem').1
  apart := fun item hitem => by
    obtain ⟨hmem, hne⟩ := List.mem_filter.mp hitem
    refine Option.eq_none_iff_forall_ne_some.mpr fun value' hsome => ?_
    rcases get?_put_some hsome with ⟨heq, -⟩ | ⟨-, hold⟩
    · exact of_decide_eq_true hne heq
    · rw [h.apart item hmem] at hold
      cases hold
  account := by
    show ((s.registered ++ registered : List γ) : Multiset γ) =
      _ + _ + (m.registered + RecencyList.tagged key (callbacks \ m.kept key value)).map Prod.snd
    rw [← coe_add, h.account, Multiset.map_add, map_snd_tagged, ← hregistered,
      allStanding_filter s.entries (fun item => item.1 ≠ key) l]
    abel

omit [DecidableEq γ] in
theorem kept_of_none (h : m.get? key = none) (value : ν) : m.kept key value = ∅ := by
  have hfind : m.find? key = none := Option.map_eq_none_iff.mp h
  simp only [RecencyList.kept, hfind]

/-- No extra index is kept. -/
theorem cacheSet_sim {cache : LruCache c.lru} (h : cache.Sim m) (hmax : 0 ≤ m.maxSize) (key : κ) (value : ν)
    (callbacks : List γ) : ∃ cache' : LruCache c.lru,
      (LruCache.cacheSet key value callbacks).run cache = (.ok none, cache') ∧
      cache'.Sim (m.put (LruCache.size c.lru) key value callbacks.toFinset) := by
  obtain ⟨r, cache', hrun, hsim, hok⟩ := LruCache.cacheSet_sim h key value callbacks fun _ hindex => by
    cases hindex
  rw [hok hmax] at hrun
  exact ⟨cache', hrun, hsim⟩

/-- **A lookup has completed**: its value takes its place, if it is the lookup of the key still. -/
theorem Models.completedCallback (h : s.Models l m) (value : ν) (address : ℕ) (key : κ) :
    ∃ s', (completedCallback value address key).run s = (.ok (), s') ∧
      ((key, address) ∈ l ∧ (∃ callbacks, s'.Models (l.filter fun item => item.1 ≠ key)
        (m.put (LruCache.size c.lru) key value callbacks)) ∨ (key, address) ∉ l ∧ s'.Models l m) := by
  obtain ⟨pending, hpop, hleft⟩ := h.pop key
  rw [DeferredCache.completedCallback, run_bind_of_ok (run_popPending hpop)]
  cases hlookup : c.cacheType.lookup s.pending key with
  | none =>
    have hnot : ∀ address', (key, address') ∉ l := fun address' hmem => by
      rw [← h.mem_iff, hlookup] at hmem
      cases hmem
    rw [filter_ne_of_notMem hnot] at hleft
    exact ⟨_, rfl, Or.inr ⟨hnot address, models_pending h hleft⟩⟩
  | some current =>
    have hmem := h.mem_iff.mp hlookup
    by_cases hcurrent : current = address
    · subst hcurrent
      obtain ⟨entry, hentry⟩ := h.entries _ hmem
      let callbacks := entry.getInvalidationCallbacks c.cacheType (.full key)
      obtain ⟨cache, hset, hsim⟩ := cacheSet_sim h.sim h.maxSize key value (c.callbackOrder.list callbacks)
      rw [c.callbackOrder.toFinset_list] at hsim
      have hput := h.put hleft hsim [] (by
        rw [allStanding_of_mem h.has.nodup hmem, kept_of_none (h.apart _ hmem), Finset.sdiff_empty, standing,
          hentry]
        exact zero_add _)
      refine ⟨{ s with cache := cache, pending := pending, registered := s.registered ++ [] }, ?_,
        Or.inl ⟨hmem, callbacks, hput⟩⟩
      simp only [map_some, if_pos]
      rw [run_bind_of_ok (run_entryAt (s := { s with pending := pending }) hentry),
        run_bind_of_ok (run_onCache (s := { s with pending := pending }) hset)]
      simp
    · have hother : (key, address) ∉ l := fun hmem' =>
        hcurrent (Prod.mk.inj (List.inj_on_of_nodup_map h.has.nodup hmem hmem' rfl)).2
      obtain ⟨s', hrun, hmodels⟩ := h.putBack hmem hleft
      simp only [map_some, if_neg hcurrent]
      exact ⟨s', hrun, Or.inr ⟨hother, hmodels⟩⟩

/-- **`prefill`** puts a value, where it drops no callbacks. -/
theorem Models.prefill (h : s.Models l m) (hsilent : Silent c s.entries l key) (value : ν)
    (callback : Option γ) : ∃ s', (prefill key value callback).run s = (.ok (), s') ∧
      s'.Models (l.filter fun item => item.1 ≠ key)
        (m.put (LruCache.size c.lru) key value callback.toList.toFinset) := by
  obtain ⟨cache, hset, hsim⟩ := cacheSet_sim h.sim h.maxSize key value callback.toList
  obtain ⟨pending, hpop, hleft⟩ := h.pop key
  let callbacks := (s.cachedNode key).elim [] fun n => if value = n.value then n.callbacks else []
  have hkept : callbacks.toFinset = m.kept key value := by
    have hnode := h.cachedNode key
    cases hcached : s.cachedNode key with
    | none =>
      simp [callbacks, hcached, RecencyList.kept, ← hnode]
    | some n =>
      simp only [callbacks, hcached, RecencyList.kept, ← hnode, map_some, elim_some]
      show (if value = n.value then n.callbacks else []).toFinset =
        if value = n.value then n.callbacks.toFinset else ∅
      split <;> rfl
  have hput := h.put hleft hsim (newOn callback callbacks) (by
    rw [allStanding_of_silent hsilent, coe_newOn, hkept, add_zero])
  refine ⟨_, ?_, hput⟩
  rw [DeferredCache.prefill, run_bind, run_modify]
  dsimp only
  rw [run_bind_of_ok (run_onCache (s := { s with
    registered := s.registered ++ newOn callback callbacks }) hset)]
  have hpop' := run_popPending (s := { s with
    cache := cache
    registered := s.registered ++ newOn callback callbacks }) hpop
  exact run_bind_of_ok hpop' ..

end Ends

/-! ## §5 Keys are invalidated -/

/-- The callbacks of entries that are invalidated under some keys. -/
def calls (c : DeferredConfig κ α ν γ) (entries : ℕ → Option (CacheEntry κ γ)) (items : List (MultiKey κ α × ℕ)) :
    List γ :=
  items.flatMap fun item => (entries item.2).elim [] fun entry =>
    c.callbackOrder.list (entry.getInvalidationCallbacks c.cacheType item.1)

theorem run_callEntries (items : List (MultiKey κ α × ℕ))
    (h : ∀ item ∈ items, ∃ entry, s.entries item.2 = some entry) :
    (items.forM fun item => callEntry item.1 item.2).run s =
      (.ok (), { s with ran := s.ran ++ calls c s.entries items }) := by
  induction items generalizing s with
  | nil =>
    show (_, s) = _
    simp [calls]
  | cons item items ih =>
    obtain ⟨entry, hentry⟩ := h item mem_cons_self
    let called := c.callbackOrder.list (entry.getInvalidationCallbacks c.cacheType item.1)
    have hone : (callEntry item.1 item.2).run s = (.ok (), { s with ran := s.ran ++ called }) := by
      rw [callEntry, run_bind_of_ok (run_entryAt hentry)]
      rfl
    rw [run_forM_cons, run_bind_of_ok hone,
      ih (s := { s with ran := s.ran ++ called }) fun item' hitem' => h item' (mem_cons_of_mem item hitem')]
    simp [calls, hentry, called]

theorem forM_mk (key : MultiKey κ α) (addresses : List ℕ) :
    ((addresses.map (Prod.mk key)).forM fun item => callEntry item.1 item.2 : Method c PUnit) =
      addresses.forM (callEntry key) := by
  induction addresses with
  | nil => rfl
  | cons address addresses ih => exact congrArg (callEntry key address >>= ·) (funext fun _ => ih)

/-- What is called is what stands under the keys, if the entries tell it by the key they are popped with. -/
theorem coe_calls {items : List (MultiKey κ α × ℕ)} (f : κ → MultiKey κ α)
    (hitems : items.Perm (l.map fun item => (f item.1, item.2)))
    (hsame : ∀ item ∈ l, ∀ entry, entries item.2 = some entry →
      entry.getInvalidationCallbacks c.cacheType (f item.1) =
        entry.getInvalidationCallbacks c.cacheType (.full item.1)) :
    (calls c entries items : Multiset γ) = allStanding c entries l := by
  rw [calls, Multiset.coe_eq_coe.mpr (hitems.flatMap_right _), List.flatMap_map]
  clear hitems
  induction l with
  | nil => rfl
  | cons item l ih =>
    rw [List.flatMap_cons, ← coe_add, allStanding_cons,
      ih fun item' hitem' => hsame item' (mem_cons_of_mem item hitem')]
    refine congrArg (· + _) ?_
    rw [standing]
    cases hentry : entries item.2 with
    | none => simp
    | some entry =>
      simp only [elim_some, hsame item mem_cons_self entry hentry]
      exact coe_list _

/-- The values lose keys. -/
theorem Models.remove (h : s.Models l m) (p : RecencyEntry κ ν γ → Bool) {cache : LruCache c.lru}
    (hsim : cache.Sim (m.remove p)) : ({ s with cache := cache } : DeferredCache c).Models l (m.remove p) where
  sim := hsim
  balanced := h.balanced.remove p
  maxSize := h.maxSize
  has := h.has
  entries := h.entries
  fresh := h.fresh
  lone := h.lone
  apart := fun item hitem => Option.eq_none_iff_forall_ne_some.mpr fun value hsome => by
    have hold := (get?_remove_some hsome).1
    rw [h.apart item hitem] at hold
    cases hold
  account := h.account

/-- Every entry under a key has, for the key that is invalidated, the callbacks that it has for its own. -/
def Heard (c : DeferredConfig κ α ν γ) (entries : ℕ → Option (CacheEntry κ γ)) (l : List (κ × ℕ))
    (key : MultiKey κ α) : Prop :=
  ∀ item ∈ l, c.cacheType.Matches key item.1 → ∀ entry, entries item.2 = some entry →
    entry.getInvalidationCallbacks c.cacheType key = entry.getInvalidationCallbacks c.cacheType (.full item.1)

/-- **`invalidate`** takes lookups and values away, where callbacks are heard. -/
theorem Models.invalidate (h : s.Models l m) {key : MultiKey κ α} (hheard : Heard c s.entries l key) :
    ∃ r s', (invalidate key).run s = (r, s') ∧
      s'.Models (l.filter fun item => ¬ c.cacheType.Matches key item.1)
        (m.remove fun e => c.cacheType.Matches key e.key) := by
  obtain ⟨es, hwhole, hentries⟩ := h.sim
  obtain ⟨r, cache, hrun, hwhole', hok⟩ := cacheDelMulti_spec hwhole key
  have hsim := hwhole'.removed (q := fun e => c.cacheType.Matches key e.key) hentries fun e => by
    rw [decide_eq_true_eq, decide_eq_true_eq]
    rfl
  have hremoved := h.remove _ hsim
  have hdel := run_onCache (s := s) hrun
  rcases h.has.pop key with ⟨hpop, hnot⟩ | ⟨hvalid, popped, pending, hpop, htook⟩
  · -- no lookup is invalidated
    have hfilter : (l.filter fun item => ¬ c.cacheType.Matches key item.1) = l :=
      List.filter_eq_self.mpr fun item hitem => by simpa using hnot item hitem
    rw [hfilter]
    cases r with
    | error e => exact ⟨_, _, run_bind_of_error hdel _, hremoved⟩
    | ok v =>
      rw [DeferredCache.invalidate, run_bind_of_ok hdel]
      rcases hpop with hpop | ⟨-, e, hpop⟩
      · rw [run_bind_of_ok (run_popPending (s := { s with cache := cache }) hpop)]
        exact ⟨_, _, rfl, hremoved⟩
      refine ⟨.error e, { s with cache := cache }, ?_, hremoved⟩
      refine run_bind_of_error ?_ ..
      simp only [popPending, hpop]
  · have hleaves : (popped.leaves.map (Prod.mk key)).Perm
        ((l.filter fun item => c.cacheType.Matches key item.1).map fun item => (key, item.2)) := by
      have hmap := htook.leaves.map (Prod.mk key)
      rwa [List.map_map] at hmap
    have hfilter : (l.filter fun item => !decide ¬ c.cacheType.Matches key item.1) =
        l.filter fun item => c.cacheType.Matches key item.1 :=
      List.filter_congr fun item _ => by simp
    have hdropped := hremoved.drop (fun item => ¬ c.cacheType.Matches key item.1) htook.left
      (calls c s.entries (popped.leaves.map (Prod.mk key))) (by
        rw [hfilter]
        refine coe_calls (fun _ => key) hleaves fun item hitem entry hentry => ?_
        obtain ⟨hmem, hmatch⟩ := List.mem_filter.mp hitem
        exact hheard item hmem (of_decide_eq_true hmatch) entry hentry)
    rw [hok hvalid] at hdel
    refine ⟨.ok (), _, ?_, hdropped⟩
    rw [DeferredCache.invalidate, run_bind_of_ok hdel,
      run_bind_of_ok (run_popPending (s := { s with cache := cache }) hpop)]
    have hcalls := run_callEntries (s := { s with cache := cache, pending := pending })
      (popped.leaves.map (Prod.mk key)) fun item hitem => by
        obtain ⟨address, haddress, rfl⟩ := List.mem_map.mp hitem
        obtain ⟨item', hitem', heq⟩ := List.mem_map.mp (htook.leaves.mem_iff.mp haddress)
        obtain ⟨entry, hentry⟩ := h.entries item' (List.mem_filter.mp hitem').1
        exact ⟨entry, by rw [← heq]; exact hentry⟩
    rw [forM_mk] at hcalls
    exact hcalls

/-- **`invalidate_all`** takes all lookups and values away. -/
theorem Models.invalidateAll
    (h : s.Models l m) : ∃ s', (invalidateAll).run s = (.ok (), s') ∧ s'.Models [] (m.remove fun _ => true) := by
  obtain ⟨es, hwhole, hentries⟩ := h.sim
  obtain ⟨cache, hrun, hwhole'⟩ := cacheClear_spec hwhole
  have hnil : (es.filter fun _ => false) = [] := List.filter_eq_nil_iff.mpr (by simp)
  rw [← hnil] at hwhole'
  have hsim := hwhole'.removed (q := fun _ => true) hentries fun e => by simp
  have hremoved := h.remove _ hsim
  have hnone : (l.filter fun _ => false) = [] := List.filter_eq_nil_iff.mpr (by simp)
  have hdropped := hremoved.drop (fun _ => false) (show c.cacheType.Has c.cacheType.new _ by
      rw [hnone]
      exact has_new _)
    (calls c s.entries (c.cacheType.items s.pending)) (by
      rw [List.filter_eq_self.mpr (by simp)]
      exact coe_calls c.cacheType.itemKey h.has.items fun item _ entry _ =>
        entry.getInvalidationCallbacks_itemKey item.1)
  rw [hnone] at hdropped
  refine ⟨_, ?_, hdropped⟩
  rw [DeferredCache.invalidateAll, run_bind_of_ok (run_onCache (s := s) hrun), run_bind,
    run_reads]
  have hcalls := run_callEntries (s := { s with cache := cache }) (c.cacheType.items s.pending) fun item hitem => by
      obtain ⟨item', hitem', heq⟩ := List.mem_map.mp (h.has.items.mem_iff.mp hitem)
      obtain ⟨entry, hentry⟩ := h.entries item' hitem'
      exact ⟨entry, by rw [← heq]; exact hentry⟩
  exact run_bind_of_ok hcalls ..

end DeferredCache

end Setka.Util
