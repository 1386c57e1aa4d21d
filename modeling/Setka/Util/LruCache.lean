/-
# Setka.Util.LruCache — the least-recently-used cache.

A dictionary or a tree has the nodes by key, a circular list has them by their last use, a counter has the
sum of their sizes, and a second index has their keys by something else that the values tell. Every
operation works on its share of these, under one lock, and runs the callbacks of the nodes that it drops.
The metrics, and the global list that old entries are expired from, are left out.
-/
import Setka.Lib.Action
import Setka.Lib.IterOrder
import Setka.Util.CacheType
import Setka.Util.LinkedList

namespace Setka.Util

open Setka.Api Setka.Lib

/-! ## §1 The cache -/

/-- The arguments of `__init__` that stay, and the orders in which sets are iterated. -/
structure LruConfig (κ α ν γ : Type) [DecidableEq κ] [DecidableEq γ] where
  cacheType : CacheType κ α
  sizeCallback : Option (ν → ℤ)
  extraIndexCb : Option (κ → ν → κ)
  applyCacheFactorFromConfig : Bool
  keyOrder : IterOrder κ
  callbackOrder : IterOrder γ

/-- `_Node`; no callbacks are the empty list. -/
structure LruNode (κ ν γ : Type) where
  key : κ
  value : ν
  callbacks : List γ

variable {κ α ν γ : Type} [DecidableEq κ] [DecidableEq α] [DecidableEq ν] [DecidableEq γ]

/-- `LruCache`. A node and its `_list_node` have one address; `ran` lists the callbacks that were run,
each with the key of its node. -/
structure LruCache (cfg : LruConfig κ α ν γ) where
  cache : cfg.cacheType.Data ℕ
  links : ListHeap ℕ
  nodes : ℕ → Option (LruNode κ ν γ)
  nextAddress : ℕ
  cachedCacheLen : ℤ
  extraIndex : Dict κ (Finset κ)
  maxSize : ℤ
  ran : List (κ × γ)

namespace LruCache

variable {cfg : LruConfig κ α ν γ}

/-- The address of `list_root`. -/
def listRoot : ℕ := 0

/-- `__init__`, with the maximal size that it comes to. -/
def new (cfg : LruConfig κ α ν γ) (maxSize : ℤ) : LruCache cfg where
  cache := cfg.cacheType.new
  links := ListHeap.createRootNode (fun _ => ⟨none, none, none⟩) listRoot
  nodes _ := none
  nextAddress := listRoot + 1
  cachedCacheLen := 0
  extraIndex := .empty
  maxSize
  ran := []

/-- `cache_len`. -/
def cacheLen (s : LruCache cfg) : ℤ :=
  match cfg.sizeCallback with
  | some _ => s.cachedCacheLen
  | none => cfg.cacheType.len s.cache

/-- What a method of the cache does. -/
abbrev Method (cfg : LruConfig κ α ν γ) (β : Type) := Action (LruCache cfg) Error β

def onLinks (f : ListHeap ℕ → Except Error (ListHeap ℕ)) : Method cfg Unit where
  run s :=
    match f s.links with
    | .ok links => (.ok (), { s with links := links })
    | .error e => (.error e, s)

def onCache {β : Type} (f : cfg.cacheType.Data ℕ → Except Error (β × cfg.cacheType.Data ℕ)) : Method cfg β where
  run s :=
    match f s.cache with
    | .ok r => (.ok r.1, { s with cache := r.2 })
    | .error e => (.error e, s)

/-- The node at an address. -/
def node (address : ℕ) : Method cfg (LruNode κ ν γ) :=
  .reads fun s =>
    match s.nodes address with
    | some n => .ok n
    | none => .error .attributeError

def setNode (address : ℕ) (n : LruNode κ ν γ) : Method cfg Unit :=
  .modify fun s => { s with nodes := Function.update s.nodes address (some n) }

/-- The node of a key: `cache.get(key, None)`. What is no node has none of the attributes of one. -/
def lookup (key : κ) : Method cfg (Option ℕ) :=
  .reads fun s =>
    match cfg.cacheType.get s.cache key with
    | .ok none => .ok none
    | .ok (some (.leaf address)) => .ok (some address)
    | .ok (some (.node _)) => .error .attributeError
    | .error e => .error e

/-! ## §2 Nodes -/

/-- `add_callbacks`. -/
def addCallbacks (address : ℕ) (callbacks : List γ) : Method cfg Unit := do
  let n ← node address
  setNode address { n with
      callbacks := callbacks.foldl (fun l callback =>
        if callback ∈ l then l else l ++ [callback]) n.callbacks }

/-- `run_and_clear_callbacks`. -/
def runAndClearCallbacks (address : ℕ) : Method cfg Unit := do
  let n ← node address
  .modify fun s => { s with ran := s.ran ++ n.callbacks.map (Prod.mk n.key) }
  setNode address { n with callbacks := [] }

/-- `_Node(…)`. -/
def newNode (key : κ) (value : ν) (callbacks : List γ) : Method cfg ℕ := do
  let address ← .reads fun s => .ok s.nextAddress
  .modify fun s => { s with nextAddress := address + 1 }
  setNode address ⟨key, value, []⟩
  onLinks fun h => h.insertAfter address address listRoot
  addCallbacks address callbacks
  pure address

/-- `cached_cache_len[0] += size_callback(value)`, if there is one. -/
def addLen (cfg : LruConfig κ α ν γ) (len : ℤ) (value : ν) : ℤ :=
  match cfg.sizeCallback with
  | some size => len + size value
  | none => len

/-- `cached_cache_len[0] -= size_callback(value)`, if there is one. -/
def subLen (cfg : LruConfig κ α ν γ) (len : ℤ) (value : ν) : ℤ :=
  match cfg.sizeCallback with
  | some size => len - size value
  | none => len

/-- The extra index with a key more. -/
def addIndex (cfg : LruConfig κ α ν γ) (index : Dict κ (Finset κ)) (key : κ) (value : ν) : Dict κ (Finset κ) :=
  match cfg.extraIndexCb with
  | none => index
  | some indexKey =>
    index.set (indexKey key value) (insert key (index.getD (indexKey key value) ∅))

/-- The extra index with a key less. -/
def discardIndex (cfg : LruConfig κ α ν γ) (index : Dict κ (Finset κ)) (key : κ) (value : ν) : Dict κ (Finset κ) :=
  match cfg.extraIndexCb with
  | none => index
  | some indexKey =>
    match index.get? (indexKey key value) with
    | none => index
    | some mappedKeys =>
      if mappedKeys.erase key = ∅ then index.erase (indexKey key value)
      else index.set (indexKey key value) (mappedKeys.erase key)

/-- `add_node`. -/
def addNode (key : κ) (value : ν) (callbacks : List γ) : Method cfg Unit := do
  let address ← newNode key value callbacks
  onCache fun c => (cfg.cacheType.set c key address).map fun c => ((), c)
  .modify fun s => { s with cachedCacheLen := addLen cfg s.cachedCacheLen value }
  .modify fun s => { s with extraIndex := addIndex cfg s.extraIndex key value }

/-- `delete_node`. -/
def deleteNode (address : ℕ) : Method cfg Unit := do
  onLinks fun h => .ok (h.removeFromList address)
  let n ← node address
  .modify fun s => { s with cachedCacheLen := subLen cfg s.cachedCacheLen n.value }
  runAndClearCallbacks address
  .modify fun s => { s with extraIndex := discardIndex cfg s.extraIndex n.key n.value }

/-- The loop of `evict`, for at most so many turns. -/
def evictLoop : ℕ → Method cfg Unit
  | 0 => pure ()
  | turns + 1 => do
      let full ← .reads fun s => .ok (decide (s.maxSize < s.cacheLen))
      if full then do
        let todelete ← .reads fun s =>
          match (s.links listRoot).prevNode with
          | some todelete => .ok todelete
          | none => .error .assertionError
        let address ← .reads fun s =>
          match (s.links todelete).cacheEntry with
          | some address => .ok address
          | none => .error .assertionError
        deleteNode address
        let n ← node address
        let _ ← onCache fun c => cfg.cacheType.pop c (.full n.key)
        evictLoop turns
      else pure ()

/-- `evict`: it comes to an end after one turn for each node at most. -/
def evict : Method cfg Unit := do
  let turns ← .reads fun s => .ok s.nextAddress
  evictLoop turns

/-! ## §3 The operations -/

/-- `cache_get`. -/
def cacheGet (key : κ) (callbacks : List γ) (updateLastAccess : Bool) : Method cfg (Option ν) := do
  match ← lookup key with
  | none => pure none
  | some address => do
      if updateLastAccess then onLinks fun h => h.moveAfter address listRoot else pure ()
      addCallbacks address callbacks
      let n ← node address
      pure (some n.value)

/-- `cache_set`. -/
def cacheSet (key : κ) (value : ν) (callbacks : List γ) : Method cfg (Option ν) := do
  match ← lookup key with
  | some address => do
      let n ← node address
      (if value ≠ n.value then runAndClearCallbacks address else pure ())
      .modify fun s =>
        { s with cachedCacheLen := addLen cfg (subLen cfg s.cachedCacheLen n.value) value }
      addCallbacks address callbacks
      onLinks fun h => h.moveAfter address listRoot
      let n ← node address
      setNode address { n with value := value }
  | none => addNode key value (cfg.callbackOrder.list callbacks.toFinset)
  evict
  pure none

/-- `cache_set_default`. -/
def cacheSetDefault (key : κ) (value : ν) : Method cfg (Option ν) := do
  match ← lookup key with
  | some address => do
      let n ← node address
      pure (some n.value)
  | none => do
      addNode key value []
      evict
      pure (some value)

/-- `cache_pop`. -/
def cachePop (key : κ) : Method cfg (Option ν) := do
  match ← lookup key with
  | none => pure none
  | some address => do
      deleteNode address
      let n ← node address
      let _ ← onCache fun c => cfg.cacheType.pop c (.full n.key)
      pure (some n.value)

/-- `cache_del_multi`. -/
def cacheDelMulti (key : MultiKey κ α) : Method cfg (Option ν) := do
  match ← onCache fun c => cfg.cacheType.pop c key with
  | none => pure none
  | some popped => do
      popped.leaves.forM deleteNode
      pure none

/-- `cache_clear`. -/
def cacheClear : Method cfg (Option ν) := do
  let addresses ← .reads fun s => .ok (cfg.cacheType.values s.cache)
  addresses.forM fun address => do
    runAndClearCallbacks address
    onLinks fun h => .ok (h.removeFromList address)
  .reads fun s =>
    if (s.links listRoot).nextNode = some listRoot ∧ (s.links listRoot).prevNode = some listRoot
    then .ok () else .error .assertionError
  .modify fun s =>
    { s with
      cache := cfg.cacheType.new
      cachedCacheLen := if cfg.sizeCallback.isSome then 0 else s.cachedCacheLen
      extraIndex := .empty }
  pure none

/-- One turn of the loop of `cache_invalidate_on_extra_index`. -/
def invalidateKey (key : κ) : Method cfg Unit := do
  match ← onCache fun c => cfg.cacheType.pop c (.full key) with
  | none => pure ()
  | some (.leaf address) => deleteNode address
  | some (.node children) => if children.isEmpty then pure () else .raise .attributeError

/-- `cache_invalidate_on_extra_index`. -/
def cacheInvalidateOnExtraIndex (indexKey : κ) : Method cfg (Option ν) :=
  match cfg.extraIndexCb with
  | none => .raise .assertionError
  | some _ => do
      let keys ← .reads fun s => .ok (s.extraIndex.getD indexKey ∅)
      .modify fun s => { s with extraIndex := s.extraIndex.erase indexKey }
      (cfg.keyOrder.list keys).forM invalidateKey
      pure none

/-- `set_cache_factor`, with the size that the factor comes to. -/
def setCacheFactor (newSize : ℤ) : Method cfg (Option ν) :=
  if cfg.applyCacheFactorFromConfig then do
    let maxSize ← .reads fun s => .ok s.maxSize
    if newSize ≠ maxSize then do
      .modify fun s => { s with maxSize := newSize }
      evict
      pure none
    else pure none
  else pure none

end LruCache

/-- The operations of a cache. -/
inductive LruOp (κ α ν γ : Type)
  | get (key : κ) (callbacks : List γ) (updateLastAccess : Bool)
  | set (key : κ) (value : ν) (callbacks : List γ)
  | setdefault (key : κ) (value : ν)
  | pop (key : κ)
  | delMulti (key : MultiKey κ α)
  | clear
  | invalidateOnExtraIndex (indexKey : κ)
  | resize (newSize : ℤ)

namespace LruCache

variable {cfg : LruConfig κ α ν γ}

/-- An operation, with the value it returns. -/
def call : LruOp κ α ν γ → Method cfg (Option ν)
  | .get key callbacks updateLastAccess => cacheGet key callbacks updateLastAccess
  | .set key value callbacks => cacheSet key value callbacks
  | .setdefault key value => cacheSetDefault key value
  | .pop key => cachePop key
  | .delMulti key => cacheDelMulti key
  | .clear => cacheClear
  | .invalidateOnExtraIndex indexKey => cacheInvalidateOnExtraIndex indexKey
  | .resize newSize => setCacheFactor newSize

/-- The state after an operation, whether it returned or raised. -/
def step (s : LruCache cfg) (op : LruOp κ α ν γ) : LruCache cfg := ((call op).run s).2

/-- A run from a new cache. -/
def run (cfg : LruConfig κ α ν γ) (maxSize : ℤ) (ops : List (LruOp κ α ν γ)) : LruCache cfg :=
  ops.foldl step (new cfg maxSize)

end LruCache

end Setka.Util
