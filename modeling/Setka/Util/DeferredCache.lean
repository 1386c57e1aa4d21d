/-
# Setka.Util.DeferredCache — a cache of values that are still being looked up.

Lookups that have not ended stand in one table, by key, and completed values in an `LruCache`; both are
dictionaries, or both are trees. `get` reads the lookups first and `get_bulk` the values first. A bulk lookup
is one entry under many keys. Callbacks are registered on the entry that was found, and follow it from one
table to the other. Metrics and the check of the thread are left out.
-/
import Setka.Util.CacheItems
import Setka.Util.LruCache

namespace Setka.Util

open Setka.Api Setka.Lib

/-! ## §1 Entries -/

/-- `CacheEntrySingle` and `CacheMultipleEntries`, without their deferreds. -/
inductive CacheEntry (κ γ : Type)
  | single (callbacks : Finset γ)
  | multiple (callbacks : Dict κ (Finset γ)) (globalCallbacks : Finset γ)

namespace CacheEntry

variable {κ α γ : Type} [DecidableEq κ] [DecidableEq α] [DecidableEq γ]

def addInvalidationCallback (key : κ) (callback : γ) : CacheEntry κ γ → CacheEntry κ γ
  | single callbacks => single (insert callback callbacks)
  | multiple callbacks globalCallbacks =>
    multiple (callbacks.set key (insert callback (callbacks.getD key ∅))) globalCallbacks

/-- `get_invalidation_callbacks`; in a tree the key may be a tuple, which is no key when it is too short. -/
def getInvalidationCallbacks (t : CacheType κ α) (key : MultiKey κ α) : CacheEntry κ γ → Finset γ
  | single callbacks => callbacks
  | multiple callbacks globalCallbacks =>
    ((callbacks.items.find? fun item => t.SameKey key item.1).elim ∅ Prod.snd) ∪ globalCallbacks

end CacheEntry

/-! ## §2 The cache -/

/-- The arguments of `__init__` that stay, and the orders in which sets are iterated. -/
structure DeferredConfig (κ α ν γ : Type) [DecidableEq κ] [DecidableEq γ] where
  cacheType : CacheType κ α
  sizeCallback : Option (ν → ℤ)
  applyCacheFactorFromConfig : Bool
  keyOrder : IterOrder κ
  callbackOrder : IterOrder γ

variable {κ α ν γ : Type} [DecidableEq κ] [DecidableEq α] [DecidableEq ν] [DecidableEq γ]

/-- The `LruCache` that `__init__` makes. -/
def DeferredConfig.lru (c : DeferredConfig κ α ν γ) : LruConfig κ α ν γ where
  cacheType := c.cacheType
  sizeCallback := c.sizeCallback
  extraIndexCb := none
  applyCacheFactorFromConfig := c.applyCacheFactorFromConfig
  keyOrder := c.keyOrder
  callbackOrder := c.callbackOrder

/-- `DeferredCache`. Entries have addresses. `ran` lists the callbacks that were called for entries that had
not completed, and `registered` all registrations; it is not in the source. -/
structure DeferredCache (c : DeferredConfig κ α ν γ) where
  cache : LruCache c.lru
  pending : c.cacheType.Data ℕ
  entries : ℕ → Option (CacheEntry κ γ)
  nextEntry : ℕ
  ran : List γ
  registered : List γ

/-- What a `get` finds: a lookup that is under way, or a value. -/
inductive Found (ν : Type)
  | pending (address : ℕ)
  | value (value : ν)
deriving DecidableEq

namespace DeferredCache

variable {c : DeferredConfig κ α ν γ}

def new (c : DeferredConfig κ α ν γ) (maxEntries : ℕ) : DeferredCache c where
  cache := .new c.lru maxEntries
  pending := c.cacheType.new
  entries _ := none
  nextEntry := 0
  ran := []
  registered := []

abbrev Method (c : DeferredConfig κ α ν γ) (β : Type) := Action (DeferredCache c) Error β

/-- A method of `self.cache`. -/
def onCache {β : Type} (m : LruCache.Method c.lru β) : Method c β where
  run s := ((m.run s.cache).1, { s with cache := (m.run s.cache).2 })

def popPending (key : MultiKey κ α) : Method c (Option (TreeEntry α ℕ)) where
  run s :=
    match c.cacheType.pop s.pending key with
    | .ok r => (.ok r.1, { s with pending := r.2 })
    | .error e => (.error e, s)

def setPending (key : κ) (address : ℕ) : Method c Unit where
  run s :=
    match c.cacheType.set s.pending key address with
    | .ok pending => (.ok (), { s with pending := pending })
    | .error e => (.error e, s)

/-- `self._pending_deferred_cache.get(key)`; a node of a tree has none of the attributes of an entry. -/
def getPending (key : κ) : Method c (Option ℕ) :=
  .reads fun s =>
    match c.cacheType.get s.pending key with
    | .ok none => .ok none
    | .ok (some (.leaf address)) => .ok (some address)
    | .ok (some (.node _)) => .error .attributeError
    | .error e => .error e

def entryAt (address : ℕ) : Method c (CacheEntry κ γ) :=
  .reads fun s =>
    match s.entries address with
    | some entry => .ok entry
    | none => .error .attributeError

def newEntry (entry : CacheEntry κ γ) : Method c ℕ := do
  let address ← .reads fun s => .ok s.nextEntry
  .modify fun s =>
    { s with
      entries := Function.update s.entries address (some entry)
      nextEntry := address + 1 }
  pure address

/-- A registration is new if the callback is not there already. -/
def newOn (callback : Option γ) (callbacks : List γ) : List γ :=
  callback.toList.filter fun callback => callback ∉ callbacks

def addInvalidationCallback (address : ℕ) (key : κ) (callback : Option γ) : Method c Unit :=
  match callback with
  | none => pure ()
  | some callback => do
      let entry ← entryAt address
      let old := entry.getInvalidationCallbacks c.cacheType (.full key)
      .modify fun s =>
        { s with
          entries := Function.update s.entries address (some (entry.addInvalidationCallback key callback))
          registered := s.registered ++ newOn (some callback) (c.callbackOrder.list old) }

/-- Each of the callbacks is called. -/
def callAll (callbacks : Finset γ) : Method c Unit :=
  .modify fun s => { s with ran := s.ran ++ c.callbackOrder.list callbacks }

/-- The node of a key in `self.cache`. -/
def cachedNode (s : DeferredCache c) (key : κ) : Option (LruNode κ ν γ) :=
  (c.cacheType.lookup s.cache.cache key).bind s.cache.nodes

/-- `self.cache.get(key, callbacks=callbacks)`. -/
def getCached (key : κ) (callback : Option γ) : Method c (Option ν) := do
  .modify fun s =>
    { s with
      registered := s.registered ++ (s.cachedNode key).elim [] fun n => newOn callback n.callbacks }
  onCache (LruCache.cacheGet key callback.toList true)

/-! ## §3 Reading -/

/-- `get`. -/
def get (key : κ) (callback : Option γ) : Method c (Found ν) := do
  match ← getPending key with
  | some address => do
      addInvalidationCallback address key callback
      pure (.pending address)
  | none =>
    match ← getCached key callback with
    | some value => pure (.value value)
    | none => .raise .keyError

/-- What `get_bulk` returns: values, keys whose lookups are awaited together, and keys that are missing. -/
structure Bulk (κ ν : Type) where
  cached : Dict κ ν
  pending : List (κ × ℕ)
  missing : List κ

/-- One turn of the loop of `get_bulk`. -/
def getBulkKey (callback : Option γ) (found : Bulk κ ν) (key : κ) : Method c (Bulk κ ν) := do
  match ← getCached key callback with
  | some value => pure { found with cached := found.cached.set key value }
  | none =>
    match ← getPending key with
    | some address => do
        addInvalidationCallback address key callback
        pure { found with pending := found.pending ++ [(key, address)] }
    | none => pure { found with missing := found.missing ++ [key] }

/-- `get_bulk`. -/
def getBulk (keys : List κ) (callback : Option γ) : Method c (Bulk κ ν) :=
  keys.foldlM (getBulkKey callback) ⟨∅, [], []⟩

/-! ## §4 Writing -/

/-- `set`, up to the callbacks that it puts on the deferred. -/
def set (key : κ) (callback : Option γ) : Method c ℕ := do
  let _ ← popPending (.full key)
  let address ← newEntry (.single ∅)
  addInvalidationCallback address key callback
  setPending key address
  pure address

/-- The new bulk entry takes the place under a key. -/
def setBulkKey (address : ℕ) (callback : Option γ) (key : κ) : Method c Unit := do
  .modify fun s =>
    { s with
      registered := s.registered ++
        if c.cacheType.lookup s.pending key = some address then [] else callback.toList }
  setPending key address

/-- `start_bulk_input`. -/
def startBulkInput (keys : List κ) (callback : Option γ) : Method c ℕ := do
  let address ← newEntry (.multiple ∅ callback.toList.toFinset)
  keys.forM (setBulkKey address callback)
  pure address

/-- `_completed_callback`. -/
def completedCallback (value : ν) (address : ℕ) (key : κ) : Method c Unit := do
  let current ← popPending (.full key)
  match current with
  | some (.leaf currentEntry) =>
    if currentEntry = address then do
      let entry ← entryAt address
      let callbacks := entry.getInvalidationCallbacks c.cacheType (.full key)
      let _ ← onCache (LruCache.cacheSet key value (c.callbackOrder.list callbacks))
    else setPending key currentEntry
  | _ => pure ()

/-- `_error_callback`. -/
def errorCallback (address : ℕ) (key : κ) : Method c Unit := do
  let current ← popPending (.full key)
  match current with
  | some (.leaf currentEntry) =>
    if currentEntry = address then do
      let entry ← entryAt address
      callAll (entry.getInvalidationCallbacks c.cacheType (.full key))
    else setPending key currentEntry
  | _ => pure ()

/-- `complete_bulk`. -/
def completeBulk (address : ℕ) (result : Dict κ ν) : Method c Unit :=
  result.items.forM fun item => completedCallback item.2 address item.1

/-- `error_bulk`. -/
def errorBulk (address : ℕ) (keys : List κ) : Method c Unit := keys.forM (errorCallback address)

/-- `prefill`. -/
def prefill (key : κ) (value : ν) (callback : Option γ) : Method c Unit := do
  .modify fun s =>
    { s with
      registered := s.registered ++
        newOn callback ((s.cachedNode key).elim [] fun n => if value = n.value then n.callbacks else []) }
  let _ ← onCache (LruCache.cacheSet key value callback.toList)
  let _ ← popPending (.full key)

/-- The callbacks of a popped entry. -/
def callEntry (key : MultiKey κ α) (address : ℕ) : Method c Unit := do
  let entry ← entryAt address
  callAll (entry.getInvalidationCallbacks c.cacheType key)

/-- `invalidate`. -/
def invalidate (key : MultiKey κ α) : Method c Unit := do
  let _ ← onCache (LruCache.cacheDelMulti key)
  match ← popPending key with
  | none => pure ()
  | some popped => popped.leaves.forM (callEntry key)

/-- `invalidate_all`. -/
def invalidateAll : Method c Unit := do
  let _ ← onCache LruCache.cacheClear
  let items ← .reads fun s => .ok (c.cacheType.items s.pending)
  items.forM fun item => callEntry item.1 item.2
  .modify fun s => { s with pending := c.cacheType.new }

end DeferredCache

end Setka.Util
