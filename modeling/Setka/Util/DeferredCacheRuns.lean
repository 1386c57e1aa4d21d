/-
# Setka.Util.DeferredCacheRuns — runs of a deferred cache.

Beside the cache stands what a reader would remember: when each lookup began, of which lookup the value under
a key is, when a key was last set, and when it was last invalidated. A run in which no step meets one of the
four slips finds the newest value, none from before an invalidation, and loses no callback.
-/
import Setka.Util.DeferredCacheSound

namespace Setka.Util

open Setka.Api Setka.Lib RecencyList Function

variable {κ α ν γ : Type} [DecidableEq κ] [DecidableEq α] [DecidableEq ν] [DecidableEq γ]

namespace DeferredCache

variable {c : DeferredConfig κ α ν γ}

/-! ## §1 Bulk lookups end -/

variable {s : DeferredCache c} {l : List (κ × ℕ)} {m : RecencyList κ ν γ}

/-- **A bulk lookup has completed**, for the keys of its result: a value that is found afterwards is of the
result, if the lookup is that of the key still, or was found before. -/
theorem Models.completeAll (h : s.Models l m) (address : ℕ) (result : List (κ × ν)) : ∃ s' l' m',
      (result.forM fun item => DeferredCache.completedCallback item.2 address item.1).run s = (.ok (), s') ∧
        s'.Models l' m' ∧ l' ⊆ l ∧ ∀ key value, m'.get? key = some value →
          (key, value) ∈ result ∧ (key, address) ∈ l ∨ m.get? key = some value := by
  induction result generalizing s l m with
  | nil => exact ⟨s, l, m, rfl, h, List.Subset.refl l, fun _ _ hvalue => Or.inr hvalue⟩
  | cons item result ih =>
    obtain ⟨s₁, hrun₁, hstep⟩ := h.completedCallback item.2 address item.1
    rw [Action.run_forM_cons, Action.run_bind_of_ok hrun₁]
    rcases hstep with ⟨hmem, callbacks, hmodels₁⟩ | ⟨-, hmodels₁⟩
    · obtain ⟨s', l', m', hrun, hmodels, hsub, hvalues⟩ := ih hmodels₁
      refine ⟨s', l', m', hrun, hmodels, List.Subset.trans hsub List.filter_sublist.subset, fun key value hvalue => ?_⟩
      rcases hvalues key value hvalue with ⟨hin, hmem'⟩ | hold
      · exact Or.inl ⟨List.mem_cons_of_mem item hin, (List.mem_filter.mp hmem').1⟩
      rcases get?_put_some hold with ⟨rfl, rfl⟩ | ⟨-, hold⟩
      · exact Or.inl ⟨List.mem_cons_self, hmem⟩
      · exact Or.inr hold
    · obtain ⟨s', l', m', hrun, hmodels, hsub, hvalues⟩ := ih hmodels₁
      refine ⟨s', l', m', hrun, hmodels, hsub, fun key value hvalue => ?_⟩
      exact (hvalues key value hvalue).imp (And.imp_left (List.mem_cons_of_mem item)) id

omit [DecidableEq ν] in
/-- **A bulk lookup has failed**, for some keys. -/
theorem Models.errorBulk (h : s.Models l m) (address : ℕ) (keys : List κ) :
    ∃ s' l', (errorBulk address keys).run s = (.ok (), s') ∧ s'.Models l' m ∧ l' ⊆ l := by
  induction keys generalizing s l with
  | nil => exact ⟨s, l, rfl, h, List.Subset.refl l⟩
  | cons key keys ih =>
    obtain ⟨s₁, hrun₁, hstep⟩ := h.errorCallback address key
    rw [DeferredCache.errorBulk, Action.run_forM_cons, Action.run_bind_of_ok hrun₁]
    rcases hstep with ⟨-, hmodels₁⟩ | ⟨-, hmodels₁⟩
    · obtain ⟨s', l', hrun, hmodels, hsub⟩ := ih hmodels₁
      exact ⟨s', l', hrun, hmodels, List.Subset.trans hsub List.filter_sublist.subset⟩
    · exact ih hmodels₁

/-! ## §2 The slips -/

/-- The callbacks of an entry for a key. -/
def callbacksOf (s : DeferredCache c) (address : ℕ) (key : MultiKey κ α) : Finset γ :=
  (s.entries address).elim ∅ fun entry => entry.getInvalidationCallbacks c.cacheType key

/-- No callback stands on the lookup of a key. -/
def NoCallbacks (s : DeferredCache c) (key : κ) : Prop :=
  ∀ address ∈ c.cacheType.lookup s.pending key, s.callbacksOf address (.full key) = ∅

instance (s : DeferredCache c) (key : κ) : Decidable (s.NoCallbacks key) :=
  inferInstanceAs (Decidable (∀ address ∈ c.cacheType.lookup s.pending key, s.callbacksOf address (.full key) = ∅))

/-- The calls of a cache, and the ends of its lookups. -/
inductive Op (κ α ν γ : Type)
  | get (key : κ) (callback : Option γ)
  | getBulk (keys : List κ) (callback : Option γ)
  | set (key : κ) (callback : Option γ)
  | startBulkInput (keys : List κ) (callback : Option γ)
  | complete (address : ℕ) (key : κ) (value : ν)
  | fail (address : ℕ) (key : κ)
  | completeBulk (address : ℕ) (result : Dict κ ν)
  | errorBulk (address : ℕ) (keys : List κ)
  | prefill (key : κ) (value : ν) (callback : Option γ)
  | invalidate (key : MultiKey κ α)
  | invalidateAll

/-- **Where a step is without a slip.** A key that is set has no value, and no callbacks on a lookup; a bulk
input is as if each of its keys was set; a prefill drops no callbacks; and each lookup that is invalidated has
for the key in the call the callbacks that it has for its own key. -/
def Meets (s : DeferredCache c) : Op κ α ν γ → Prop
  | .set key _ => s.cache.cached key = none ∧ s.NoCallbacks key
  | .startBulkInput keys _ => ∀ key ∈ keys, s.cache.cached key = none ∧ s.NoCallbacks key
  | .prefill key _ _ => s.NoCallbacks key
  | .invalidate key => ∀ key', c.cacheType.Matches key key' →
      ∀ address ∈ c.cacheType.lookup s.pending key', s.callbacksOf address key = s.callbacksOf address (.full key')
  | _ => True

instance [Fintype κ] (s : DeferredCache c) : (op : Op κ α ν γ) → Decidable (s.Meets op)
  | .set key _ => inferInstanceAs (Decidable (s.cache.cached key = none ∧ s.NoCallbacks key))
  | .startBulkInput keys _ =>
    inferInstanceAs (Decidable (∀ key ∈ keys, s.cache.cached key = none ∧ s.NoCallbacks key))
  | .prefill key _ _ => inferInstanceAs (Decidable (s.NoCallbacks key))
  | .invalidate key => inferInstanceAs (Decidable (∀ key', c.cacheType.Matches key key' →
      ∀ address ∈ c.cacheType.lookup s.pending key',
        s.callbacksOf address key = s.callbacksOf address (.full key')))
  | .get .. => isTrue trivial
  | .getBulk .. => isTrue trivial
  | .complete .. => isTrue trivial
  | .fail .. => isTrue trivial
  | .completeBulk .. => isTrue trivial
  | .errorBulk .. => isTrue trivial
  | .invalidateAll => isTrue trivial

omit [DecidableEq ν] in
theorem Models.silent (h : s.Models l m) {key : κ} (hnone : s.NoCallbacks key) : Silent c s.entries l key := by
  intro address hmem
  have hempty := hnone address (Option.mem_def.mpr (h.mem_iff.mpr hmem))
  rw [callbacksOf] at hempty
  rw [standing]
  cases hentry : s.entries address with
  | none => rfl
  | some entry =>
    rw [hentry] at hempty
    exact Finset.val_eq_zero.mpr hempty

omit [DecidableEq ν] in
theorem Models.heard (h : s.Models l m) {key : MultiKey κ α}
    (hmeets : s.Meets (.invalidate key)) : Heard c s.entries l key := by
  intro item hitem hmatch entry hentry
  have hsame := hmeets item.1 hmatch item.2 (Option.mem_def.mpr (h.mem_iff.mpr hitem))
  rw [callbacksOf, callbacksOf, hentry] at hsame
  exact hsame

/-! ## §3 Runs -/

/-- The cache, and what is remembered: when lookups began, the value of a key with the time its lookup began,
when keys were last set, and when they were last invalidated. -/
structure World (c : DeferredConfig κ α ν γ) where
  cache : DeferredCache c
  now : ℕ
  started : ℕ → ℕ
  origin : κ → Option (ℕ × ν)
  newest : κ → ℕ
  invalidated : κ → ℕ

namespace World

def start (c : DeferredConfig κ α ν γ) (maxEntries : ℕ) : World c where
  cache := .new c maxEntries
  now := 0
  started _ := 0
  origin _ := none
  newest _ := 0
  invalidated _ := 0

/-- The values that a lookup brings are for the keys that it is the lookup of. -/
def completed (w : World c) (address : ℕ) (result : κ → Option ν) (key : κ) : Option (ℕ × ν) :=
  if c.cacheType.lookup w.cache.pending key = some address then
    (result key).elim (w.origin key) fun value => some (w.started address, value)
  else w.origin key

/-- A call is made, or a lookup ends. -/
def step (w : World c) : Op κ α ν γ → World c
  | .get key callback =>
    { w with cache := ((DeferredCache.get key callback).run w.cache).2, now := w.now + 1 }
  | .getBulk keys callback =>
    { w with cache := ((DeferredCache.getBulk keys callback).run w.cache).2, now := w.now + 1 }
  | .set key callback =>
    { w with
      cache := ((DeferredCache.set key callback).run w.cache).2
      now := w.now + 1
      started := Function.update w.started w.cache.nextEntry w.now
      newest := Function.update w.newest key w.now }
  | .startBulkInput keys callback =>
    { w with
      cache := ((DeferredCache.startBulkInput keys callback).run w.cache).2
      now := w.now + 1
      started := Function.update w.started w.cache.nextEntry w.now
      newest := fun key => if key ∈ keys then w.now else w.newest key }
  | .complete address key value =>
    { w with
      cache := ((completedCallback value address key).run w.cache).2
      now := w.now + 1
      origin := w.completed address fun key' => if key' = key then some value else none }
  | .fail address key =>
    { w with cache := ((errorCallback address key).run w.cache).2, now := w.now + 1 }
  | .completeBulk address result =>
    { w with
      cache := ((DeferredCache.completeBulk address result).run w.cache).2
      now := w.now + 1
      origin := w.completed address result.get? }
  | .errorBulk address keys =>
    { w with cache := ((DeferredCache.errorBulk address keys).run w.cache).2, now := w.now + 1 }
  | .prefill key value callback =>
    { w with
      cache := ((DeferredCache.prefill key value callback).run w.cache).2
      now := w.now + 1
      origin := Function.update w.origin key (some (w.now, value))
      newest := Function.update w.newest key w.now }
  | .invalidate key =>
    { w with
      cache := ((DeferredCache.invalidate key).run w.cache).2
      now := w.now + 1
      invalidated := fun key' => if c.cacheType.Matches key key' then w.now else w.invalidated key' }
  | .invalidateAll =>
    { w with
      cache := (DeferredCache.invalidateAll.run w.cache).2
      now := w.now + 1
      invalidated := fun _ => w.now }

def run (c : DeferredConfig κ α ν γ) (maxEntries : ℕ) (ops : List (Op κ α ν γ)) : World c :=
  ops.foldl step (start c maxEntries)

/-- What is found under a key is of a lookup that began at a time. A value that is put has its own time. -/
def Began (w : World c) (key : κ) (time : ℕ) : Found ν → Prop
  | .pending address => w.started address = time
  | .value value => w.origin key = some (time, value)

/-- The callbacks that were registered were called, once for each time, or stand on the lookups under way or
the values. -/
structure Accounted (s : DeferredCache c) (l : List (κ × ℕ)) (es : List (ℕ × LruNode κ ν γ)) : Prop where
  nodup : (l.map Prod.fst).Nodup
  lookups : ∀ key address, c.cacheType.lookup s.pending key = some address ↔ (key, address) ∈ l
  ring : s.cache.links.Ring LruCache.listRoot (es.map Prod.fst)
  nodes : ∀ e ∈ es, s.cache.nodes e.1 = some e.2
  balance : (s.registered : Multiset γ) = (s.ran : Multiset γ) + (s.cache.ran.map Prod.snd : List γ) +
    allStanding c s.entries l + (RecencyList.stored (LruCache.entriesOf es)).map Prod.snd

/-- **Coherence.** Both ways of reading tell what is found; what is found is of the newest lookup, which began
after the last invalidation; and callbacks are called once, when what they stand on goes. -/
structure Coherent (w : World c) : Prop where
  get : ∀ key callback,
    ((DeferredCache.get key callback).run w.cache).1 = (w.cache.found key).elim (.error .keyError) .ok
  getBulk : ∀ keys callback,
    ∃ r, ((DeferredCache.getBulk keys callback).run w.cache).1 = .ok r ∧ r.Tells keys w.cache.found
  newest : ∀ key found, w.cache.found key = some found → w.Began key (w.newest key) found
  fresh : ∀ key found, w.cache.found key = some found → w.invalidated key ≤ w.newest key
  callbacks : ∃ l es, Accounted w.cache l es

/-! ## §4 What steps keep -/

/-- Lookups and values are of the last time that their key was set, after the last invalidation. -/
structure Dated (w : World c) (l : List (κ × ℕ)) (m : RecencyList κ ν γ) : Prop where
  lookups : ∀ key address, (key, address) ∈ l → w.started address = w.newest key ∧ w.invalidated key ≤ w.newest key
  values : ∀ key value, m.get? key = some value →
    w.origin key = some (w.newest key, value) ∧ w.invalidated key ≤ w.newest key
  past : ∀ key, w.invalidated key ≤ w.now

/-- The invariant of runs. -/
def Sound (w : World c) : Prop := ∃ l m, w.cache.Models l m ∧ w.Dated l m

omit [DecidableEq ν] in
theorem sound_start (c : DeferredConfig κ α ν γ) (maxEntries : ℕ) : (start c maxEntries).Sound := by
  refine ⟨[], _, models_new c maxEntries, by simp, fun key value hvalue => ?_, fun _ => le_rfl⟩
  cases hvalue

variable {w : World c} {l l' : List (κ × ℕ)} {m m' : RecencyList κ ν γ}

omit [DecidableEq α] [DecidableEq ν] in
/-- Nothing new is found. -/
theorem Dated.keep (h : w.Dated l m) (hl : l' ⊆ l)
    (hm : ∀ key value, m'.get? key = some value → m.get? key = some value)
    (cache : DeferredCache c) : ({ w with cache := cache, now := w.now + 1 } : World c).Dated l' m' where
  lookups key address hmem := h.lookups key address (hl hmem)
  values key value hvalue := h.values key value (hm key value hvalue)
  past key := Nat.le_succ_of_le (h.past key)

omit [DecidableEq α] [DecidableEq ν] in
/-- A lookup of a key that has begun now is the newest. -/
theorem Dated.begin (h : w.Dated l m) {address : ℕ} {keys : List κ} (hfresh : ∀ item ∈ l, item.2 ≠ address)
    (hl : ∀ key address', (key, address') ∈ l' → key ∈ keys ∧ address' = address ∨ key ∉ keys ∧ (key, address') ∈ l)
    (hvalue : ∀ key ∈ keys, m.get? key = none) (cache : DeferredCache c) : ({ w with
      cache := cache
      now := w.now + 1
      started := update w.started address w.now
      newest := fun key => if key ∈ keys then w.now else w.newest key } : World c).Dated l' m where
  lookups key address' hmem := by
    rcases hl key address' hmem with ⟨hin, rfl⟩ | ⟨hnot, hmem⟩
    · simp only [update_self, if_pos hin]
      exact ⟨trivial, h.past key⟩
    · simp only [update_of_ne (hfresh _ hmem), if_neg hnot]
      exact h.lookups key address' hmem
  values key value hsome := by
    have hnot : key ∉ keys := fun hin => by
      rw [hvalue key hin] at hsome
      cases hsome
    simp only [if_neg hnot]
    exact h.values key value hsome
  past key := Nat.le_succ_of_le (h.past key)

omit [DecidableEq ν] in
/-- A value that a lookup has brought is of that lookup. -/
theorem Dated.complete {w : World c} {l l' : List (κ × ℕ)} {m m' : RecencyList κ ν γ}
    (hmodels : w.cache.Models l m) (h : w.Dated l m) {address : ℕ} {result : κ → Option ν} (hl : l' ⊆ l)
    (hm : ∀ key value, m'.get? key = some value →
      result key = some value ∧ (key, address) ∈ l ∨ m.get? key = some value) (cache : DeferredCache c) :
    ({ w with cache := cache, now := w.now + 1, origin := w.completed address result } : World c).Dated l' m' where
  lookups key address' hmem := h.lookups key address' (hl hmem)
  values key value hvalue := by
    rcases hm key value hvalue with ⟨hresult, hmem⟩ | hold
    · obtain ⟨hstarted, hle⟩ := h.lookups key address hmem
      refine ⟨?_, hle⟩
      simp only [completed, if_pos (hmodels.mem_iff.mpr hmem), hresult, hstarted, Option.elim_some]
    -- a key that has a value has no lookup
    have hnot : c.cacheType.lookup w.cache.pending key ≠ some address := fun hlookup => by
      rw [hmodels.apart _ (hmodels.mem_iff.mp hlookup)] at hold
      cases hold
    simp only [completed, if_neg hnot]
    exact h.values key value hold
  past key := Nat.le_succ_of_le (h.past key)

omit [DecidableEq α] [DecidableEq ν] in
/-- A value that is put is the newest. -/
theorem Dated.prefill (h : w.Dated l m) {key : κ} {value : ν} (hm : ∀ key' value', m'.get? key' = some value' →
      key' = key ∧ value' = value ∨ key' ≠ key ∧ m.get? key' = some value') (cache : DeferredCache c) :
    ({ w with
      cache := cache
      now := w.now + 1
      origin := update w.origin key (some (w.now, value))
      newest := update w.newest key w.now } : World c).Dated (l.filter fun item => item.1 ≠ key) m' where
  lookups key' address hmem := by
    obtain ⟨hmem, hne⟩ := List.mem_filter.mp hmem
    simp only [update_of_ne (of_decide_eq_true hne)]
    exact h.lookups key' address hmem
  values key' value' hvalue := by
    rcases hm key' value' hvalue with ⟨rfl, rfl⟩ | ⟨hne, hold⟩
    · simp only [update_self]
      exact ⟨trivial, h.past key'⟩
    · simp only [update_of_ne hne]
      exact h.values key' value' hold
  past key' := Nat.le_succ_of_le (h.past key')

omit [DecidableEq α] [DecidableEq ν] in
/-- What is left was not invalidated. -/
theorem Dated.invalidate (h : w.Dated l m) (p : κ → Prop) [DecidablePred p]
    (hl : ∀ key address, (key, address) ∈ l' → ¬ p key ∧ (key, address) ∈ l)
    (hm : ∀ key value, m'.get? key = some value → ¬ p key ∧ m.get? key = some value)
    (cache : DeferredCache c) : ({ w with
      cache := cache
      now := w.now + 1
      invalidated := fun key => if p key then w.now else w.invalidated key } : World c).Dated l' m' where
  lookups key address hmem := by
    obtain ⟨hnot, hmem⟩ := hl key address hmem
    simp only [if_neg hnot]
    exact h.lookups key address hmem
  values key value hvalue := by
    obtain ⟨hnot, hvalue⟩ := hm key value hvalue
    simp only [if_neg hnot]
    exact h.values key value hvalue
  past key := by
    show (if p key then w.now else w.invalidated key) ≤ w.now + 1
    have hpast := h.past key
    split <;> omega

/-- **A step without a slip** keeps the invariant. -/
theorem Sound.step (h : w.Sound) {op : Op κ α ν γ} (hmeets : w.cache.Meets op) : (w.step op).Sound := by
  obtain ⟨l, m, hmodels, hdated⟩ := h
  have hold : ∀ item ∈ l, item.2 ≠ w.cache.nextEntry := by
    intro item hitem heq
    obtain ⟨entry, hentry⟩ := hmodels.entries item hitem
    rw [heq, hmodels.fresh _ le_rfl] at hentry
    cases hentry
  cases op with
  | get key callback =>
    obtain ⟨s', m', hrun, hmodels', -, hvalues⟩ := hmodels.get key callback
    rw [World.step, hrun]
    exact ⟨l, m', hmodels', hdated.keep (List.Subset.refl l) (fun key' value h => by rwa [← hvalues]) s'⟩
  | getBulk keys callback =>
    obtain ⟨r, s', m', hrun, -, hmodels', -, hvalues⟩ := hmodels.getBulk keys callback
    rw [World.step, hrun]
    exact ⟨l, m', hmodels', hdated.keep (List.Subset.refl l) (fun key' value h => by rwa [← hvalues]) s'⟩
  | set key callback =>
    have hvalue : m.get? key = none := (hmodels.cached key).symm.trans hmeets.1
    obtain ⟨s', hrun, -, hmodels'⟩ := hmodels.set hvalue (hmodels.silent hmeets.2) callback
    have hnewest : update w.newest key w.now =
        fun key' => if key' ∈ [key] then w.now else w.newest key' := by
      funext key'
      simp only [update_apply, List.mem_singleton]
    rw [World.step, hrun, hnewest]
    refine ⟨_, m, hmodels', hdated.begin hold (fun key' address' hmem => ?_) (fun key' hin => ?_) s'⟩
    · rw [List.mem_singleton]
      rcases List.mem_cons.mp hmem with heq | hmem
      · cases heq
        exact Or.inl ⟨rfl, rfl⟩
      · obtain ⟨hmem, hne⟩ := List.mem_filter.mp hmem
        exact Or.inr ⟨of_decide_eq_true hne, hmem⟩
    · rw [List.mem_singleton.mp hin]
      exact hvalue
  | startBulkInput keys callback =>
    have hvalue : ∀ key ∈ keys, m.get? key = none := fun key hin =>
      (hmodels.cached key).symm.trans (hmeets key hin).1
    obtain ⟨s', hrun, -, hmodels'⟩ := hmodels.startBulkInput hvalue
      (fun key hin => hmodels.silent (hmeets key hin).2) callback
    rw [World.step, hrun]
    exact ⟨_, m, hmodels', hdated.begin hold (fun key address hmem => mem_bulkItems.mp hmem) hvalue s'⟩
  | complete address key value =>
    obtain ⟨s', hrun, hstep⟩ := hmodels.completedCallback value address key
    rw [World.step, hrun]
    rcases hstep with ⟨hmem, callbacks, hmodels'⟩ | ⟨-, hmodels'⟩
    · refine ⟨_, _, hmodels', hdated.complete hmodels List.filter_sublist.subset (fun key' value' hsome => ?_) s'⟩
      rcases get?_put_some hsome with ⟨rfl, rfl⟩ | ⟨-, hvalue⟩
      · exact Or.inl ⟨if_pos rfl, hmem⟩
      · exact Or.inr hvalue
    · exact ⟨l, m, hmodels', hdated.complete hmodels (List.Subset.refl l) (fun _ _ => Or.inr) s'⟩
  | fail address key =>
    obtain ⟨s', hrun, hstep⟩ := hmodels.errorCallback address key
    rw [World.step, hrun]
    rcases hstep with ⟨-, hmodels'⟩ | ⟨-, hmodels'⟩
    · exact ⟨_, m, hmodels', hdated.keep List.filter_sublist.subset (fun _ _ => id) s'⟩
    · exact ⟨l, m, hmodels', hdated.keep (List.Subset.refl l) (fun _ _ => id) s'⟩
  | completeBulk address result =>
    obtain ⟨s', l', m', hrun, hmodels', hsub, hvalues⟩ := hmodels.completeAll address result.items
    rw [World.step, DeferredCache.completeBulk, hrun]
    refine ⟨l', m', hmodels', hdated.complete hmodels hsub (fun key value hvalue => ?_) s'⟩
    exact (hvalues key value hvalue).imp (And.imp_left Dict.get?_eq_some_iff.mpr) id
  | errorBulk address keys =>
    obtain ⟨s', l', hrun, hmodels', hsub⟩ := hmodels.errorBulk address keys
    rw [World.step, hrun]
    exact ⟨l', m, hmodels', hdated.keep hsub (fun _ _ => id) s'⟩
  | prefill key value callback =>
    obtain ⟨s', hrun, hmodels'⟩ := hmodels.prefill (hmodels.silent hmeets) value callback
    rw [World.step, hrun]
    exact ⟨_, _, hmodels', hdated.prefill (fun key' value' hsome => get?_put_some hsome) s'⟩
  | invalidate key =>
    obtain ⟨r, s', hrun, hmodels'⟩ := hmodels.invalidate (hmodels.heard hmeets)
    rw [World.step, hrun]
    refine ⟨_, _, hmodels', hdated.invalidate (c.cacheType.Matches key) (fun key' address hmem => ?_)
      (fun key' value hsome => ?_) s'⟩
    · obtain ⟨hmem, hnot⟩ := List.mem_filter.mp hmem
      exact ⟨of_decide_eq_true hnot, hmem⟩
    · obtain ⟨hvalue, e, -, rfl, hnot⟩ := get?_remove_some hsome
      exact ⟨of_decide_eq_false hnot, hvalue⟩
  | invalidateAll =>
    obtain ⟨s', hrun, hmodels'⟩ := hmodels.invalidateAll
    rw [World.step, hrun]
    have hnone : ∀ key value, (m.remove fun _ => true).get? key = some value →
        ¬ True ∧ m.get? key = some value := fun key value hsome => by
      obtain ⟨-, e, -, -, hnot⟩ := get?_remove_some hsome
      cases hnot
    have hnil : ∀ (key : κ) (address : ℕ), (key, address) ∈ [] → ¬ True ∧ (key, address) ∈ l :=
      fun _ _ hmem => absurd hmem List.not_mem_nil
    have hdated' := hdated.invalidate (fun _ => True) hnil hnone s'
    exact ⟨_, _, hmodels', hdated'⟩

/-! ## §5 Coherence -/

omit [DecidableEq ν] in
theorem Sound.coherent (h : w.Sound) : w.Coherent := by
  obtain ⟨l, m, hmodels, hdated⟩ := h
  have hfound : ∀ key found, w.cache.found key = some found →
      w.Began key (w.newest key) found ∧ w.invalidated key ≤ w.newest key := by
    intro key found hfound
    rw [DeferredCache.found] at hfound
    cases hlookup : c.cacheType.lookup w.cache.pending key with
    | some address =>
      simp only [hlookup, Option.some.injEq] at hfound
      subst hfound
      exact hdated.lookups key address (hmodels.mem_iff.mp hlookup)
    | none =>
      simp only [hlookup, Option.map_eq_some_iff] at hfound
      obtain ⟨value, hvalue, rfl⟩ := hfound
      rw [hmodels.cached] at hvalue
      exact hdated.values key value hvalue
  refine ⟨fun key callback => ?_, fun keys callback => ?_, fun key found h => (hfound key found h).1,
    fun key found h => (hfound key found h).2, ?_⟩
  · obtain ⟨s', m', hrun, -⟩ := hmodels.get key callback
    rw [hrun]
  · obtain ⟨r, s', m', hrun, htells, -⟩ := hmodels.getBulk keys callback
    refine ⟨r, by rw [hrun], ?_⟩
    rwa [funext hmodels.agree]
  · have hrefines := hmodels.sim.refines hmodels.balanced
    obtain ⟨es, hring, hnodes, hentries⟩ := hrefines.order
    refine ⟨l, es, hmodels.has.nodup, fun key address => hmodels.mem_iff, hring, hnodes, ?_⟩
    rw [hmodels.account, hmodels.balanced, hentries, ← hrefines.ran, Multiset.map_add, Multiset.map_coe]
    abel

/-- **The cache is coherent** in every run in which no step meets a slip. -/
theorem deferredCache_coherent (c : DeferredConfig κ α ν γ) (maxEntries : ℕ) (ops : List (Op κ α ν γ))
    (h : AllSteps (fun before op => (run c maxEntries before).cache.Meets op) ops) :
    (run c maxEntries ops).Coherent := by
  refine Sound.coherent ?_
  induction ops using List.reverseRecOn with
  | nil => exact sound_start c maxEntries
  | append_singleton ops op ih =>
    obtain ⟨hops, hop⟩ := allSteps_concat.mp h
    rw [run, List.foldl_append]
    exact (ih hops).step hop

end World

/-- The two digits of a small number. -/
def twoDigits : TupleKeys (Fin 4) ℕ where
  parts key := [key / 2, key % 2]
  arity := 1
  length_parts _ := rfl
  parts_injective := by decide

/-- A cache of numbers by small numbers. -/
def exampleConfig (cacheType : CacheType (Fin 4) ℕ) : DeferredConfig (Fin 4) ℕ ℕ ℕ where
  cacheType
  sizeCallback := none
  applyCacheFactorFromConfig := true
  keyOrder := .sorted (Fin 4)
  callbackOrder := .sorted ℕ

/-- A lookup is invalidated under a tuple before it completes, a bulk lookup completes, and a lookup that had
a callback fails. -/
def exampleOps : List (Op (Fin 4) ℕ ℕ ℕ) :=
  [.set 1 (some 10), .get 1 (some 11), .invalidate (.parts [0]), .complete 0 1 5, .startBulkInput [0, 2] (some 12),
    .getBulk [0, 1, 2] (some 13), .completeBulk 1 ⟨[(0, 7), (2, 8)], by decide⟩, .set 3 (some 14), .fail 2 3]

theorem deferredCache_coherent_example :
    (World.run (exampleConfig (.treeCache twoDigits)) 100 exampleOps).Coherent := by
  refine World.deferredCache_coherent (exampleConfig (.treeCache twoDigits)) 100 exampleOps ?_
  simp only [exampleOps, allSteps_cons]
  refine ⟨?_, ?_, ?_, ?_, ?_, ?_, ?_, ?_, ?_, allSteps_nil _⟩ <;> decide +kernel

/-- **A value stays** when its key is set: `get` finds the lookup, and `get_bulk` the value. -/
theorem set_keeps_value : ¬ (World.run (exampleConfig .dict) 100 [.prefill 1 5 none, .set 1 none]).Coherent := by
  intro h
  obtain ⟨r, hrun, htells⟩ := h.getBulk [1] none
  have hvalue : ((getBulk [1] none).run
      (World.run (exampleConfig .dict) 100 [.prefill 1 5 none, .set 1 none]).cache).1.map
        (fun r => r.cached.get? 1) = .ok (some 5) := by decide +kernel
  have hpending : (World.run (exampleConfig .dict) 100 [.prefill 1 5 none, .set 1 none]).cache.found 1 =
      some (.pending 0) := by decide +kernel
  rw [hrun] at hvalue
  have hfound := ((htells.cached 1 5).mp (Except.ok.inj hvalue)).2
  rw [hpending] at hfound
  cases hfound

end DeferredCache

end Setka.Util
