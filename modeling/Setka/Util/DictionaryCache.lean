/-
# Setka.Util.DictionaryCache — a cache of dictionaries, whole or in part.

The items of a dictionary and the whole dictionary are entries side by side of one cache, and each may be
evicted at any moment. What keeps them right is a number that every invalidation raises: who reads the
table notes it first, and what was read is dropped when it has changed since. All calls come from one
thread, so each is one step; readers and writers do their parts in steps of their own.
-/
import Setka.Api.Errors
import Setka.Lib.Dict
import Setka.Lib.Transition
import Mathlib.Data.Finset.Insert
import Mathlib.Data.Finset.Erase

namespace Setka.Util

open Setka.Api Setka.Lib Dict

/-! ## §1 The cache -/

/-- The second part of a key of the cache: a dict key, or `_FullCacheKey.KEY`. -/
inductive CacheKey (δ : Type)
  | dictKey (key : δ)
  | full
deriving DecidableEq

/-- A `_PerKeyValue`, with no value for the sentinel, or a full dict. -/
inductive CacheValue (δ ν : Type)
  | perKey (value : Option ν)
  | full (value : Dict δ ν)

/-- `DictionaryEntry`. -/
structure DictionaryEntry (δ ν : Type) where
  full : Bool
  knownAbsent : Finset δ
  value : Dict δ ν

/-- `DictionaryCache`. Its `LruCache` is a dictionary here, entries of which may go at any time: what an
eviction in the middle of a loop leaves, one after the loop leaves too. -/
structure DictionaryCache (κ δ ν : Type) where
  sequence : ℕ
  cache : Dict (κ × CacheKey δ) (CacheValue δ ν)

namespace DictionaryCache

variable {κ δ ν : Type} [DecidableEq κ] [DecidableEq δ]

/-- `__init__`. -/
def new : DictionaryCache κ δ ν := ⟨0, .empty⟩

/-- `_get_full_dict`. -/
def getFullDict (c : DictionaryCache κ δ ν) (key : κ) : Except Error (DictionaryEntry δ ν) :=
  match c.cache.get? (key, .full) with
  | none => .ok ⟨false, ∅, .empty⟩
  | some (.full entry) => .ok ⟨true, ∅, entry⟩
  | some (.perKey _) => .error .assertionError

/-- The first loop of `get`: the values found, the keys known to be absent, and the missing ones. -/
def collect (c : DictionaryCache κ δ ν) (key : κ) :
    List δ → Dict δ ν → Finset δ → List δ → Except Error (Dict δ ν × Finset δ × List δ)
  | [], values, knownAbsent, missing => .ok (values, knownAbsent, missing)
  | dictKey :: rest, values, knownAbsent, missing =>
    match c.cache.get? (key, .dictKey dictKey) with
    | none => c.collect key rest values knownAbsent (missing ++ [dictKey])
    | some (.perKey none) => c.collect key rest values (insert dictKey knownAbsent) missing
    | some (.perKey (some value)) =>
      c.collect key rest (values.set dictKey value) knownAbsent missing
    | some (.full _) => .error .assertionError

/-- One turn of the second loop of `get`: a missing key is taken from the full dict. -/
def fill (key : κ) (entry : Dict δ ν) (state : Dict (κ × CacheKey δ) (CacheValue δ ν) × Dict δ ν)
    (dictKey : δ) : Dict (κ × CacheKey δ) (CacheValue δ ν) × Dict δ ν :=
  (state.1.set (key, .dictKey dictKey) (.perKey (entry.get? dictKey)), match entry.get? dictKey with
    | none => state.2
    | some value => state.2.set dictKey value)

/-- `get`. -/
def get (c : DictionaryCache κ δ ν) (key : κ) (dictKeys : Option (List δ)) :
    Except Error (DictionaryEntry δ ν × DictionaryCache κ δ ν) :=
  match dictKeys with
  | none =>
    match c.getFullDict key with
    | .error e => .error e
    | .ok entry => .ok (entry, c)
  | some dictKeys =>
    match c.collect key dictKeys .empty ∅ [] with
    | .error e => .error e
    | .ok (values, knownAbsent, missing) =>
      if missing.isEmpty then .ok (⟨false, knownAbsent, values⟩, c)
      else
        match c.cache.get? (key, .full) with
        | none => .ok (⟨false, knownAbsent, values⟩, c)
        | some (.perKey _) => .error .assertionError
        | some (.full entry) =>
          let filled := missing.foldl (fill key entry) (c.cache, values)
          .ok (⟨true, ∅, filled.2⟩, { c with cache := filled.1 })

/-- `invalidate`: `del_multi((key,))` drops all entries of the key. -/
def invalidate (c : DictionaryCache κ δ ν) (key : κ) : DictionaryCache κ δ ν where
  sequence := c.sequence + 1
  cache := c.cache.filter fun k _ => k.1 ≠ key

/-- `invalidate_all`. -/
def invalidateAll (c : DictionaryCache κ δ ν) : DictionaryCache κ δ ν where
  sequence := c.sequence + 1
  cache := .empty

/-- `_update_subset`. -/
def updateSubset (cache : Dict (κ × CacheKey δ) (CacheValue δ ν)) (key : κ) (value : Dict δ ν)
    (fetchedKeys : List δ) : Dict (κ × CacheKey δ) (CacheValue δ ν) :=
  let cache := value.items.foldl (fun cache item => cache.set (key, .dictKey item.1) (.perKey (some item.2))) cache
  (fetchedKeys.filter fun dictKey => dictKey ∉ value.keys).foldl
    (fun cache dictKey => cache.set (key, .dictKey dictKey) (.perKey none)) cache

/-- `update`. -/
def update (c : DictionaryCache κ δ ν) (sequence : ℕ) (key : κ) (value : Dict δ ν)
    (fetchedKeys : Option (List δ)) : DictionaryCache κ δ ν :=
  if c.sequence = sequence then
    match fetchedKeys with
    | none => { c with cache := c.cache.set (key, .full) (.full value) }
    | some fetchedKeys => { c with cache := updateSubset c.cache key value fetchedKeys }
  else c

/-- Entries are evicted: all that are not kept. -/
def evict (c : DictionaryCache κ δ ν) (keep : κ × CacheKey δ → Bool) : DictionaryCache κ δ ν :=
  { c with cache := c.cache.filter fun k _ => keep k }

end DictionaryCache

/-! ## §2 Readers and writers -/

/-- A reader: it has noted the sequence number, and then read the table for a key, the whole dictionary or
some dict keys of it. -/
inductive CacheReader (κ δ ν : Type)
  | noted (sequence : ℕ)
  | fetched (sequence : ℕ) (key : κ) (value : Dict δ ν) (fetchedKeys : Option (List δ))

/-- The table, the keys that were written and not invalidated since, the cache and the readers. -/
structure CachedTable (κ δ ν : Type) where
  table : κ → Dict δ ν
  stale : Finset κ
  cache : DictionaryCache κ δ ν
  readers : Dict ℕ (CacheReader κ δ ν)

namespace CachedTable

variable {κ δ ν : Type} [DecidableEq κ] [DecidableEq δ]

/-- What a reader finds in the table. -/
def fetch (table : Dict δ ν) : Option (List δ) → Dict δ ν
  | none => table
  | some fetchedKeys => table.filter fun dictKey _ => dictKey ∈ fetchedKeys

inductive Action (κ δ ν : Type)
  | write (key : κ) (value : Dict δ ν)
  | invalidate (key : κ)
  | invalidateAll
  | note (reader : ℕ)
  | read (reader : ℕ) (key : κ) (fetchedKeys : Option (List δ))
  | update (reader : ℕ)
  | get (key : κ) (dictKeys : Option (List δ))
  | evict (keep : κ × CacheKey δ → Bool)

/-- One step. There is none where a reader is not at that point, or where the cache raises. -/
def step (s : CachedTable κ δ ν) : Action κ δ ν → Option (CachedTable κ δ ν)
  | .write key value =>
    some { s with
      table := Function.update s.table key value
      stale := insert key s.stale }
  | .invalidate key =>
    some { s with
      stale := s.stale.erase key
      cache := s.cache.invalidate key }
  | .invalidateAll =>
    some { s with
      stale := ∅
      cache := s.cache.invalidateAll }
  | .note reader => some { s with readers := s.readers.set reader (.noted s.cache.sequence) }
  | .read reader key fetchedKeys =>
    match s.readers.get? reader with
    | some (.noted sequence) =>
      some { s with
        readers := s.readers.set reader (.fetched sequence key (fetch (s.table key) fetchedKeys) fetchedKeys) }
    | _ => none
  | .update reader =>
    match s.readers.get? reader with
    | some (.fetched sequence key value fetchedKeys) =>
      some { s with cache := s.cache.update sequence key value fetchedKeys }
    | _ => none
  | .get key dictKeys =>
    match s.cache.get key dictKeys with
    | .ok (_, cache) => some { s with cache := cache }
    | .error _ => none
  | .evict keep => some { s with cache := s.cache.evict keep }

/-- A table with an empty cache, nothing written since. -/
def Fresh (s : CachedTable κ δ ν) : Prop :=
  s.stale = ∅ ∧ s.cache = .new ∧ s.readers = .empty

/-- The states that readers, writers and evictions lead to. -/
def Reached : CachedTable κ δ ν → Prop :=
  Reachable Fresh fun s s' => ∃ a, s.step a = some s'

/-! ## §3 The invariant -/

/-- An entry has the type that its key asks for. -/
def Typed : CacheKey δ → CacheValue δ ν → Prop
  | .dictKey _, .perKey _ => True
  | .full, .full _ => True
  | _, _ => False

/-- An entry says of a dictionary what is so. -/
def Tells (table : Dict δ ν) : CacheKey δ → CacheValue δ ν → Prop
  | .dictKey dictKey, .perKey value => value = table.get? dictKey
  | .full, .full value => ∀ dictKey, value.get? dictKey = table.get? dictKey
  | _, _ => False

/-- What holds of every entry of the cache. -/
structure EntryOk (s : CachedTable κ δ ν) (key : κ × CacheKey δ) (value : CacheValue δ ν) : Prop where
  typed : Typed key.2 value
  tells : key.1 ∉ s.stale → Tells (s.table key.1) key.2 value

/-- What a reader has read is so, if it may still put it into the cache. -/
def ReaderOk (s : CachedTable κ δ ν) : CacheReader κ δ ν → Prop
  | .noted sequence => sequence ≤ s.cache.sequence
  | .fetched sequence key value fetchedKeys => sequence ≤ s.cache.sequence ∧
      (sequence = s.cache.sequence → key ∉ s.stale → value = fetch (s.table key) fetchedKeys)

structure Inv (s : CachedTable κ δ ν) : Prop where
  entries : ∀ key value, s.cache.cache.get? key = some value → s.EntryOk key value
  readers : ∀ reader r, s.readers.get? reader = some r → s.ReaderOk r

/-! ### Entries that are added -/

/-- All entries of a cache are as they should be. -/
def EntriesOk (s : CachedTable κ δ ν) (cache : Dict (κ × CacheKey δ) (CacheValue δ ν)) : Prop :=
  ∀ key value, cache.get? key = some value → s.EntryOk key value

variable {s : CachedTable κ δ ν} {cache : Dict (κ × CacheKey δ) (CacheValue δ ν)}

theorem EntriesOk.set (h : s.EntriesOk cache) {key : κ × CacheKey δ} {value : CacheValue δ ν}
    (hok : s.EntryOk key value) : s.EntriesOk (cache.set key value) := by
  intro k v hv
  rcases of_get?_set hv with ⟨heq, rfl⟩ | ⟨-, hv⟩
  · exact heq ▸ hok
  · exact h k v hv

/-- A loop that sets entries, all of which are as they should be. -/
theorem EntriesOk.foldl {α : Type} {f : α → κ × CacheKey δ} {g : α → CacheValue δ ν} {l : List α}
    (hok : ∀ a ∈ l, s.EntryOk (f a) (g a)) (h : s.EntriesOk cache) :
    s.EntriesOk (l.foldl (fun cache a => cache.set (f a) (g a)) cache) := by
  induction l generalizing cache with
  | nil => exact h
  | cons a l ih =>
    exact ih (fun b hb => hok b (List.mem_cons_of_mem a hb)) (h.set (hok a List.mem_cons_self))

theorem EntriesOk.filter (h : s.EntriesOk cache) (keep : κ × CacheKey δ → CacheValue δ ν → Bool) :
    s.EntriesOk (cache.filter keep) :=
  fun key value hv => h key value (get?_filter.mp hv).1

theorem get?_fetch (table : Dict δ ν) (fetchedKeys : List δ) (dictKey : δ) :
    (fetch table (some fetchedKeys)).get? dictKey = if dictKey ∈ fetchedKeys then table.get? dictKey else none := by
  ext v
  rw [fetch, get?_filter, decide_eq_true_eq]
  by_cases hmem : dictKey ∈ fetchedKeys
  · simp [hmem]
  · simp [hmem]

/-- The dict keys that a `get` asks for. -/
def Requested : Option (List δ) → δ → Prop
  | none, _ => True
  | some dictKeys, dictKey => dictKey ∈ dictKeys

/-- What a reader brings is so, and is all that it asked for. -/
def Brings (table : Dict δ ν) (fetchedKeys : Option (List δ)) (value : Dict δ ν) : Prop :=
  ∀ dictKey, (∀ v, value.get? dictKey = some v → table.get? dictKey = some v) ∧
    (Requested fetchedKeys dictKey → value.get? dictKey = table.get? dictKey)

theorem brings_fetch (table : Dict δ ν) (fetchedKeys : Option (List δ)) :
    Brings table fetchedKeys (fetch table fetchedKeys) := by
  intro dictKey
  cases fetchedKeys with
  | none => exact ⟨fun _ hv => hv, fun _ => rfl⟩
  | some fetchedKeys =>
    rw [get?_fetch]
    refine ⟨fun v hv => ?_, fun hrequested => if_pos hrequested⟩
    split at hv
    · exact hv
    · cases hv

variable {key : κ}

/-- **An update by a reader that is not late** tells what is so of a key that is not stale. -/
theorem entriesOk_update (h : s.EntriesOk s.cache.cache) {sequence : ℕ} {value : Dict δ ν}
    {fetchedKeys : Option (List δ)}
    (hvalue : sequence = s.cache.sequence → key ∉ s.stale → Brings (s.table key) fetchedKeys value) :
    s.EntriesOk (s.cache.update sequence key value fetchedKeys).cache := by
  unfold DictionaryCache.update
  split
  · next hsequence =>
      cases fetchedKeys with
      | none =>
        refine h.set ⟨trivial, ?_⟩
        intro hstale dictKey
        exact (hvalue hsequence.symm hstale dictKey).2 trivial
      | some fetchedKeys =>
        refine EntriesOk.foldl ?_ (EntriesOk.foldl ?_ h)
        · intro dictKey hmem
          refine ⟨trivial, ?_⟩
          intro hstale
          obtain ⟨hfetched, hnot⟩ := List.mem_filter.mp hmem
          have hnone := get?_eq_none_iff.mpr (of_decide_eq_true hnot)
          rw [(hvalue hsequence.symm hstale dictKey).2 hfetched] at hnone
          exact hnone.symm
        · intro item hitem
          refine ⟨trivial, ?_⟩
          intro hstale
          exact ((hvalue hsequence.symm hstale item.1).1 item.2 (get?_eq_some_iff.mpr hitem)).symm
  · exact h

/-! ### Entries that are read -/

/-- The entry of a dict key, if there is one. -/
def perKey (c : DictionaryCache κ δ ν) (key : κ) (dictKey : δ) : Option (Option ν) :=
  match c.cache.get? (key, .dictKey dictKey) with
  | some (.perKey value) => some value
  | _ => none

/-- What the first loop of `get` makes of a cache with typed entries. -/
structure Collected (c : DictionaryCache κ δ ν) (key : κ) (dictKeys : List δ)
    (values : Dict δ ν) (knownAbsent : Finset δ) (missing : List δ)
    (values' : Dict δ ν) (knownAbsent' : Finset δ) (missing' : List δ) : Prop where
  values : ∀ dictKey, values'.get? dictKey =
    (if dictKey ∈ dictKeys then (perKey c key dictKey).join else none).or (values.get? dictKey)
  knownAbsent : ∀ dictKey, dictKey ∈ knownAbsent' ↔ dictKey ∈ knownAbsent ∨
    dictKey ∈ dictKeys ∧ perKey c key dictKey = some none
  missing : ∀ dictKey, dictKey ∈ missing' ↔ dictKey ∈ missing ∨
    dictKey ∈ dictKeys ∧ perKey c key dictKey = none

theorem Collected.cons {c : DictionaryCache κ δ ν} {key : κ} {a : δ} {rest : List δ}
    {values values₁ values' : Dict δ ν} {absent absent₁ absent' : Finset δ}
    {missing missing₁ missing' : List δ}
    (h : Collected c key rest values₁ absent₁ missing₁ values' absent' missing')
    (hvalues : ∀ dictKey, values₁.get? dictKey =
      (if dictKey = a then (perKey c key dictKey).join else none).or (values.get? dictKey))
    (habsent : ∀ dictKey, dictKey ∈ absent₁ ↔ dictKey ∈ absent ∨
      dictKey = a ∧ perKey c key dictKey = some none)
    (hmissing : ∀ dictKey, dictKey ∈ missing₁ ↔ dictKey ∈ missing ∨
      dictKey = a ∧ perKey c key dictKey = none) :
    Collected c key (a :: rest) values absent missing values' absent' missing' := by
  refine ⟨?_, ?_, ?_⟩
  · intro dictKey
    rw [h.values, hvalues]
    by_cases ha : dictKey = a
    · subst ha
      by_cases hrest : dictKey ∈ rest
      · cases (perKey c key dictKey).join <;> simp [hrest]
      · simp [hrest]
    · simp [ha]
  · intro dictKey
    rw [h.knownAbsent, habsent, List.mem_cons]
    tauto
  · intro dictKey
    rw [h.missing, hmissing, List.mem_cons]
    tauto

theorem collect_ok {c : DictionaryCache κ δ ν} (htyped : ∀ k v, c.cache.get? k = some v → Typed k.2 v)
    (dictKeys : List δ) (values : Dict δ ν) (knownAbsent : Finset δ) (missing : List δ) :
    ∃ values' knownAbsent' missing',
      c.collect key dictKeys values knownAbsent missing = .ok (values', knownAbsent', missing') ∧
      Collected c key dictKeys values knownAbsent missing values' knownAbsent' missing' := by
  induction dictKeys generalizing values knownAbsent missing with
  | nil => exact ⟨values, knownAbsent, missing, rfl, by simp, by simp, by simp⟩
  | cons a rest ih =>
    cases ha : c.cache.get? (key, .dictKey a) with
    | none =>
      have hper : perKey c key a = none := by simp [perKey, ha]
      obtain ⟨values', absent', missing', heq, h⟩ := ih values knownAbsent (missing ++ [a])
      refine ⟨values', absent', missing', by simpa only [DictionaryCache.collect, ha] using heq,
        h.cons ?_ ?_ ?_⟩ <;>
        (intro dictKey; by_cases hk : dictKey = a <;> simp [hk, hper])
    | some entry =>
      cases entry with
      | full value => exact absurd (htyped _ _ ha) id
      | perKey value =>
        have hper : perKey c key a = some value := by simp [perKey, ha]
        cases value with
        | none =>
          obtain ⟨values', absent', missing', heq, h⟩ :=
            ih values (insert a knownAbsent) missing
          refine ⟨values', absent', missing',
            by simpa only [DictionaryCache.collect, ha] using heq, h.cons ?_ ?_ ?_⟩ <;>
            (intro dictKey; by_cases hk : dictKey = a <;> simp [hk, hper])
        | some v =>
          obtain ⟨values', absent', missing', heq, h⟩ :=
            ih (values.set a v) knownAbsent missing
          refine ⟨values', absent', missing',
            by simpa only [DictionaryCache.collect, ha] using heq, h.cons ?_ ?_ ?_⟩ <;>
            (intro dictKey; by_cases hk : dictKey = a <;> simp [hk, hper])

/-- The second loop of `get`: every missing key has what the full dict has for it. -/
theorem get?_foldl_fill (key : κ) (entry : Dict δ ν) (missing : List δ)
    (state : Dict (κ × CacheKey δ) (CacheValue δ ν) × Dict δ ν) (dictKey : δ) :
    (missing.foldl (DictionaryCache.fill key entry) state).2.get? dictKey =
      (if dictKey ∈ missing then entry.get? dictKey else none).or (state.2.get? dictKey) := by
  induction missing generalizing state with
  | nil => simp
  | cons a missing ih =>
    have hfill : (DictionaryCache.fill key entry state a).2.get? dictKey =
        (if dictKey = a then entry.get? dictKey else none).or (state.2.get? dictKey) := by
      cases ha : entry.get? a with
      | none =>
        by_cases hk : dictKey = a
        · simp [DictionaryCache.fill, ha, hk]
        · simp [DictionaryCache.fill, ha, hk]
      | some value =>
        by_cases hk : dictKey = a
        · simp [DictionaryCache.fill, ha, hk]
        · simp [DictionaryCache.fill, ha, hk]
    rw [List.foldl_cons, ih, hfill]
    by_cases hk : dictKey = a
    · subst hk
      by_cases hmem : dictKey ∈ missing
      · cases entry.get? dictKey <;> simp [hmem]
      · simp [hmem]
    · simp [hk]

theorem entriesOk_foldl_fill {entry : Dict δ ν}
    (hentry : key ∉ s.stale → ∀ dictKey, entry.get? dictKey = (s.table key).get? dictKey) (missing : List δ)
    {state : Dict (κ × CacheKey δ) (CacheValue δ ν) × Dict δ ν} (h : s.EntriesOk state.1) :
    s.EntriesOk (missing.foldl (DictionaryCache.fill key entry) state).1 := by
  induction missing generalizing state with
  | nil => exact h
  | cons a missing ih =>
    refine ih (h.set ⟨trivial, ?_⟩)
    intro hstale
    exact hentry hstale a

/-- What a returned entry may say of a dictionary: of each dict key asked for nothing, or what is so, and
all of it when it is marked full. -/
structure Correct (table : Dict δ ν) (dictKeys : Option (List δ)) (e : DictionaryEntry δ ν) : Prop where
  value : ∀ dictKey value, e.value.get? dictKey = some value →
    Requested dictKeys dictKey ∧ table.get? dictKey = some value
  knownAbsent : ∀ dictKey ∈ e.knownAbsent, Requested dictKeys dictKey ∧ table.get? dictKey = none
  full : e.full = true → ∀ dictKey, Requested dictKeys dictKey → e.value.get? dictKey = table.get? dictKey

/-- What an entry for a dict key says of a key that is not stale. -/
theorem EntriesOk.perKey (h : s.EntriesOk s.cache.cache) (hstale : key ∉ s.stale) {dictKey : δ} {value : Option ν}
    (hvalue : perKey s.cache key dictKey = some value) : value = (s.table key).get? dictKey := by
  unfold CachedTable.perKey at hvalue
  split at hvalue
  · next v hv =>
      cases hvalue
      exact (h _ _ hv).tells hstale
  · cases hvalue

/-- What was collected for a key that is not stale is so. -/
theorem Collected.value (h : s.EntriesOk s.cache.cache) (hstale : key ∉ s.stale) {dictKeys : List δ}
    {values : Dict δ ν} {knownAbsent : Finset δ} {missing : List δ}
    (hc : Collected s.cache key dictKeys .empty ∅ [] values knownAbsent missing) {dictKey : δ} {value : ν}
    (hvalue : values.get? dictKey = some value) :
    dictKey ∈ dictKeys ∧ (s.table key).get? dictKey = some value := by
  rw [hc.values, get?_empty, Option.or_none] at hvalue
  split at hvalue
  · next hmem =>
      have hv := Option.join_eq_some_iff.mp hvalue
      exact ⟨hmem, (h.perKey hstale hv).symm⟩
  · cases hvalue

/-- What was collected, with the missing keys from the full dict, is all that was asked for. -/
theorem Collected.filled (h : s.EntriesOk s.cache.cache) (hstale : key ∉ s.stale) {dictKeys : List δ}
    {values entry : Dict δ ν} {knownAbsent : Finset δ} {missing : List δ}
    (hc : Collected s.cache key dictKeys .empty ∅ [] values knownAbsent missing)
    (hentry : ∀ dictKey, entry.get? dictKey = (s.table key).get? dictKey) :
    Correct (s.table key) (some dictKeys) ⟨true, ∅,
      (missing.foldl (DictionaryCache.fill key entry) (s.cache.cache, values)).2⟩ := by
  have hmissing : ∀ dictKey ∈ missing, dictKey ∈ dictKeys := by
    intro dictKey hmem
    rcases (hc.missing dictKey).mp hmem with hfalse | ⟨hrequested, -⟩
    · cases hfalse
    · exact hrequested
  refine ⟨?_, ?_, ?_⟩
  · intro dictKey value hvalue
    simp only [get?_foldl_fill, hentry] at hvalue
    by_cases hmem : dictKey ∈ missing
    · rw [if_pos hmem] at hvalue
      cases htable : (s.table key).get? dictKey with
      | none =>
        rw [htable, Option.none_or] at hvalue
        exact absurd (hc.value h hstale hvalue).2 (by simp [htable])
      | some v =>
        rw [htable, Option.some_or] at hvalue
        exact ⟨hmissing dictKey hmem, hvalue⟩
    · rw [if_neg hmem, Option.none_or] at hvalue
      exact hc.value h hstale hvalue
  · intro dictKey hmem
    cases hmem
  · intro _ dictKey hrequested
    show (missing.foldl (DictionaryCache.fill key entry) (s.cache.cache, values)).2.get? dictKey = _
    rw [get?_foldl_fill, hentry]
    by_cases hmem : dictKey ∈ missing
    · -- the full dict has the answer, and nothing was collected that it has not
      rw [if_pos hmem]
      cases htable : (s.table key).get? dictKey with
      | some v => rw [Option.some_or]
      | none =>
        cases hvalue : values.get? dictKey with
        | none => rfl
        | some v => exact absurd (hc.value h hstale hvalue).2 (by simp [htable])
    · -- an entry of its own: a value, or known to be absent
      have hrequested : dictKey ∈ dictKeys := hrequested
      rw [if_neg hmem, Option.none_or, hc.values, get?_empty, Option.or_none, if_pos hrequested]
      cases hper : CachedTable.perKey s.cache key dictKey with
      | none => exact absurd ((hc.missing dictKey).mpr (Or.inr ⟨hrequested, hper⟩)) hmem
      | some value => exact h.perKey hstale hper

/-- **`get` raises nothing, keeps the cache in order, and is right about a key that is not stale.** -/
theorem EntriesOk.get (h : s.EntriesOk s.cache.cache) (key : κ) (dictKeys : Option (List δ)) :
    ∃ e c, s.cache.get key dictKeys = .ok (e, c) ∧ s.EntriesOk c.cache ∧
      c.sequence = s.cache.sequence ∧
      (key ∉ s.stale → Correct (s.table key) dictKeys e) := by
  cases dictKeys with
  | none =>
    cases hfull : s.cache.cache.get? (key, .full) with
    | none =>
      refine ⟨⟨false, ∅, .empty⟩, s.cache, ?_, h, rfl, fun _ => ⟨?_, ?_, ?_⟩⟩
      · simp only [DictionaryCache.get, DictionaryCache.getFullDict, hfull]
      · intro dictKey value hvalue
        cases hvalue
      · intro dictKey hmem
        cases hmem
      · intro hfalse
        cases hfalse
    | some entry =>
      cases entry with
      | perKey value => exact absurd (h _ _ hfull).typed id
      | full value =>
        refine ⟨⟨true, ∅, value⟩, s.cache, ?_, h, rfl, fun hstale => ?_⟩
        · simp only [DictionaryCache.get, DictionaryCache.getFullDict, hfull]
        have htells := (h _ _ hfull).tells hstale
        refine ⟨?_, ?_, ?_⟩
        · intro dictKey v hv
          exact ⟨trivial, (htells dictKey).symm.trans hv⟩
        · intro dictKey hmem
          cases hmem
        · intro _ dictKey _
          exact htells dictKey
  | some dictKeys =>
    have htyped : ∀ k v, s.cache.cache.get? k = some v → Typed k.2 v :=
      fun k v hv => (h k v hv).typed
    obtain ⟨values, knownAbsent, missing, hcollect, hc⟩ : ∃ values knownAbsent missing,
        s.cache.collect key dictKeys .empty ∅ [] = .ok (values, knownAbsent, missing) ∧
          Collected s.cache key dictKeys .empty ∅ [] values knownAbsent missing :=
      collect_ok htyped dictKeys .empty ∅ []
    -- without the full dict: what was collected
    have hpartial : key ∉ s.stale → Correct (s.table key) (some dictKeys) ⟨false, knownAbsent, values⟩ := by
      intro hstale
      refine ⟨?_, ?_, ?_⟩
      · intro dictKey value hvalue
        exact hc.value h hstale hvalue
      · intro dictKey hmem
        rcases (hc.knownAbsent dictKey).mp hmem with hfalse | ⟨hrequested, hnone⟩
        · cases hfalse
        · exact ⟨hrequested, (h.perKey hstale hnone).symm⟩
      · intro hfalse
        cases hfalse
    by_cases hmissing : missing.isEmpty = true
    · refine ⟨_, s.cache, ?_, h, rfl, hpartial⟩
      simp only [DictionaryCache.get, hcollect, if_pos hmissing]
    cases hfull : s.cache.cache.get? (key, .full) with
    | none =>
      refine ⟨_, s.cache, ?_, h, rfl, hpartial⟩
      simp only [DictionaryCache.get, hcollect, if_neg hmissing, hfull]
    | some entry =>
      cases entry with
      | perKey value => exact absurd (h _ _ hfull).typed id
      | full entry =>
        have hcache : s.EntriesOk (missing.foldl (DictionaryCache.fill key entry) (s.cache.cache, values)).1 :=
          entriesOk_foldl_fill (h _ _ hfull).tells missing h
        refine ⟨⟨true, ∅, (missing.foldl (DictionaryCache.fill key entry)
          (s.cache.cache, values)).2⟩, ⟨s.cache.sequence, _⟩, ?_, hcache, rfl,
          fun hstale => hc.filled h hstale ((h _ _ hfull).tells hstale)⟩
        simp only [DictionaryCache.get, hcollect, if_neg hmissing, hfull]

/-! ## §4 Runs -/

variable {s' : CachedTable κ δ ν}

omit [DecidableEq κ] in
/-- An entry says the same where the table of its key is the same and no longer stale. -/
theorem EntryOk.congr {key : κ × CacheKey δ} {value : CacheValue δ ν} (h : s.EntryOk key value)
    (htable : key.1 ∉ s'.stale → s'.table key.1 = s.table key.1)
    (hstale : key.1 ∉ s'.stale → key.1 ∉ s.stale) : s'.EntryOk key value := by
  refine ⟨h.typed, ?_⟩
  intro hnot
  rw [htable hnot]
  exact h.tells (hstale hnot)

variable {r : CacheReader κ δ ν}

omit [DecidableEq κ] in
/-- Whoever has read before an invalidation is late. -/
theorem ReaderOk.late (h : s.ReaderOk r)
    (hsequence : s'.cache.sequence = s.cache.sequence + 1) : s'.ReaderOk r := by
  cases r with
  | noted sequence =>
    have hle : sequence ≤ s.cache.sequence := h
    show sequence ≤ s'.cache.sequence
    omega
  | fetched sequence key value fetchedKeys =>
    have hle : sequence ≤ s.cache.sequence := h.1
    refine ⟨by omega, ?_⟩
    intro heq
    omega

omit [DecidableEq κ] in
theorem ReaderOk.congr (h : s.ReaderOk r) (hsequence : s'.cache.sequence = s.cache.sequence)
    (htable : ∀ key, key ∉ s'.stale → s'.table key = s.table key)
    (hstale : ∀ key, key ∉ s'.stale → key ∉ s.stale) : s'.ReaderOk r := by
  cases r with
  | noted sequence =>
    show sequence ≤ s'.cache.sequence
    rw [hsequence]
    exact h
  | fetched sequence key value fetchedKeys =>
    show sequence ≤ s'.cache.sequence ∧ (sequence = s'.cache.sequence → _)
    rw [hsequence]
    refine ⟨h.1, ?_⟩
    intro heq hnot
    rw [htable key hnot]
    exact h.2 heq (hstale key hnot)

theorem Inv.write (h : s.Inv) (key : κ) (value : Dict δ ν) : Inv { s with
      table := Function.update s.table key value
      stale := insert key s.stale } := by
  have hstale : ∀ k, k ∉ insert key s.stale → k ∉ s.stale :=
    fun k hnot hmem => hnot (Finset.mem_insert_of_mem hmem)
  have htable : ∀ k, k ∉ insert key s.stale → Function.update s.table key value k = s.table k := by
    intro k hnot
    have hne : k ≠ key := fun heq => hnot (heq ▸ Finset.mem_insert_self key s.stale)
    exact Function.update_of_ne hne value s.table
  refine ⟨?_, ?_⟩
  · intro k v hv
    exact (h.entries k v hv).congr (htable k.1) (hstale k.1)
  · intro reader r hr
    exact (h.readers reader r hr).congr rfl htable hstale

theorem Inv.invalidate (h : s.Inv) (key : κ) : Inv { s with
      stale := s.stale.erase key
      cache := s.cache.invalidate key } := by
  refine ⟨?_, ?_⟩
  · intro k v hv
    obtain ⟨hget, hkeep⟩ := get?_filter.mp hv
    have hne : k.1 ≠ key := of_decide_eq_true hkeep
    refine (h.entries k v hget).congr (fun _ => rfl) ?_
    intro hnot hmem
    exact hnot (Finset.mem_erase.mpr ⟨hne, hmem⟩)
  · intro reader r hr
    exact (h.readers reader r hr).late rfl

theorem Inv.invalidateAll (h : s.Inv) : Inv { s with
      stale := ∅
      cache := s.cache.invalidateAll } := by
  refine ⟨?_, ?_⟩
  · intro k v hv
    cases hv
  · intro reader r hr
    exact (h.readers reader r hr).late rfl

/-- A reader goes on, by what holds of it. -/
theorem Inv.setReader (h : s.Inv) (reader : ℕ)
    (hok : s.ReaderOk r) : Inv { s with readers := s.readers.set reader r } := by
  refine ⟨?_, ?_⟩
  · intro k v hv
    exact (h.entries k v hv).congr (fun _ => rfl) id
  intro reader' r' hr'
  have hok' : s.ReaderOk r' := by
    rcases of_get?_set hr' with ⟨-, rfl⟩ | ⟨-, hr'⟩
    · exact hok
    · exact h.readers reader' r' hr'
  exact hok'.congr rfl (fun _ _ => rfl) (fun _ => id)

/-- The cache has other entries, all as they should be. -/
theorem Inv.setCache (h : s.Inv) {cache : DictionaryCache κ δ ν} (hcache : s.EntriesOk cache.cache)
    (hsequence : cache.sequence = s.cache.sequence) : Inv { s with cache := cache } := by
  refine ⟨?_, ?_⟩
  · intro k v hv
    exact (hcache k v hv).congr (fun _ => rfl) id
  · intro reader r hr
    exact (h.readers reader r hr).congr hsequence (fun _ _ => rfl) (fun _ => id)

theorem update_sequence (c : DictionaryCache κ δ ν) (sequence : ℕ) (key : κ) (value : Dict δ ν)
    (fetchedKeys : Option (List δ)) :
    (c.update sequence key value fetchedKeys).sequence = c.sequence := by
  unfold DictionaryCache.update
  split
  · cases fetchedKeys with
    | none => rfl
    | some fetchedKeys => rfl
  · rfl

/-- **Every step keeps the invariant.** -/
theorem Inv.step (h : s.Inv) {a : Action κ δ ν} (hstep : s.step a = some s') : s'.Inv := by
  cases a with
  | write key value =>
    cases hstep
    exact h.write key value
  | invalidate key =>
    cases hstep
    exact h.invalidate key
  | invalidateAll =>
    cases hstep
    exact h.invalidateAll
  | note reader =>
    cases hstep
    exact h.setReader reader (Nat.le_refl s.cache.sequence)
  | read reader key fetchedKeys =>
    simp only [CachedTable.step] at hstep
    split at hstep
    · next sequence hr =>
        cases hstep
        exact h.setReader reader ⟨h.readers reader _ hr, fun _ _ => rfl⟩
    · cases hstep
  | update reader =>
    simp only [CachedTable.step] at hstep
    split at hstep
    · next sequence key value fetchedKeys hr =>
        cases hstep
        have hok := h.readers reader _ hr
        refine h.setCache (entriesOk_update h.entries fun hsequence hstale => ?_)
          (update_sequence s.cache sequence key value fetchedKeys)
        rw [hok.2 hsequence hstale]
        exact brings_fetch _ _
    · cases hstep
  | get key dictKeys =>
    obtain ⟨e, c, hget, hentries, hsequence, -⟩ := EntriesOk.get h.entries key dictKeys
    simp only [CachedTable.step, hget] at hstep
    cases hstep
    exact h.setCache hentries hsequence
  | evict keep =>
    cases hstep
    exact h.setCache (EntriesOk.filter h.entries fun k _ => keep k) rfl

theorem Reached.inv (h : Reached s) : s.Inv := by
  refine h.invariant ?_ ?_
  · rintro s ⟨-, hcache, hreaders⟩
    refine ⟨?_, ?_⟩
    · intro k v hv
      rw [hcache] at hv
      cases hv
    intro reader r hr
    rw [hreaders] at hr
    cases hr
  · rintro s s' - hinv ⟨a, hstep⟩
    exact hinv.step hstep

/-- **The cache is coherent with its table**: in whatever order readers, writers and evictions do their
steps, a `get` of a key that was not written since its last invalidation returns what is so of each dict
key asked for, or nothing, and calls the entry full only if all of it is there. -/
theorem dictionaryCache_coherent {s : CachedTable κ δ ν} (h : Reached s) {key : κ}
    (hstale : key ∉ s.stale) (dictKeys : Option (List δ)) :
    ∃ e c, s.cache.get key dictKeys = .ok (e, c) ∧ Correct (s.table key) dictKeys e := by
  obtain ⟨e, c, hget, -, -, hcorrect⟩ := EntriesOk.get h.inv.entries key dictKeys
  exact ⟨e, c, hget, hcorrect hstale⟩

/-- Two readers read around a write; what the first has read is dropped, and the second's full dict is
there when a subset is asked for after an eviction. -/
theorem dictionaryCache_coherent_example : ∃ s : CachedTable String String ℕ, Reached s ∧
      ∃ e c, s.cache.get "@a:x" (some ["city", "age"]) = .ok (e, c) ∧
        Correct (s.table "@a:x") (some ["city", "age"]) e := by
  let start : CachedTable String String ℕ := ⟨fun _ => .empty, ∅, .new, .empty⟩
  let actions : List (Action String String ℕ) :=
    [.note 0, .read 0 "@a:x" none, .write "@a:x" (Dict.empty.set "age" 7), .note 1,
      .invalidate "@a:x", .update 0, .note 1, .read 1 "@a:x" none, .update 1,
      .get "@a:x" (some ["age"]), .evict fun k => k.2 = .full]
  obtain ⟨s, hs⟩ : ∃ s, actions.foldlM step start = some s :=
    Option.isSome_iff_exists.mp (by decide +kernel)
  have hstale : (actions.foldlM step start).map CachedTable.stale = some ∅ := by decide +kernel
  rw [hs] at hstale
  have hempty : s.stale = ∅ := Option.some.inj hstale
  have hreached : Reached s := Reachable.of_foldlM (fun _ a _ h => ⟨a, h⟩) (.start ⟨rfl, rfl, rfl⟩) hs
  exact ⟨s, hreached, dictionaryCache_coherent hreached (by simp [hempty]) _⟩

end CachedTable

end Setka.Util
