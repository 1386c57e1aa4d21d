/-
# Setka.Util.LruCacheIndex — invalidation by the second index.

The second index is kept when an entry comes and when it goes, not when its value is replaced. As long as the values of
a key tell the same index key, invalidation removes what tells its index key, all of it and nothing else.
-/
import Setka.Util.LruCacheSound

namespace Setka.Util

open Setka.Lib

variable {κ α ν γ : Type} [DecidableEq κ] [DecidableEq α] [DecidableEq ν] [DecidableEq γ]

namespace LruCache

variable {cfg : LruConfig κ α ν γ}

omit [DecidableEq ν] in
theorem cached_of_refines {s : LruCache cfg} {m : RecencyList κ ν γ} (h : s.Refines m) {key : κ} {value : ν} :
    s.cached key = some value ↔ ∃ e ∈ m.entries, e.key = key ∧ e.value = value := by
  rw [h.cached, RecencyList.get?_eq_some_iff]

/-- What invalidation leaves of a cache that is a list. -/
theorem Sim.invalidateOnExtraIndex {s : LruCache cfg} {m : RecencyList κ ν γ} (h : s.Sim m) (hm : m.Balanced)
    {indexKey : κ → ν → κ} (hcb : cfg.extraIndexCb = some indexKey) (i key : κ) (value : ν) :
    (s.step (.invalidateOnExtraIndex i)).cached key = some value ↔
      s.cached key = some value ∧ indexKey key value ≠ i := by
  have hallowed : s.Allowed (.invalidateOnExtraIndex i : LruOp κ α ν γ) := nofun
  obtain ⟨r, s', hrun, hsim, -⟩ := call_sim h hallowed
  have hstep : s.step (.invalidateOnExtraIndex i) = s' := congrArg Prod.snd hrun
  have hlist : listStep cfg m (.invalidateOnExtraIndex i : LruOp κ α ν γ) =
      m.remove fun e => indexKey e.key e.value = i := by
    rw [listStep, hcb]
  rw [hlist] at hsim
  rw [hstep, cached_of_refines (hsim.refines (hm.remove _)), cached_of_refines (h.refines hm)]
  constructor
  · rintro ⟨e, he, rfl, rfl⟩
    obtain ⟨he, hother⟩ := List.mem_filter.mp he
    exact ⟨⟨e, he, rfl, rfl⟩, by simpa using hother⟩
  · rintro ⟨⟨e, he, rfl, rfl⟩, hother⟩
    exact ⟨e, List.mem_filter.mpr ⟨he, by simpa using hother⟩, rfl, rfl⟩

/-- **Invalidation** leaves no entry of its index key and takes no other, in every state that is reached without
replacing a value by one that tells another index key. -/
theorem invalidateOnExtraIndex_complete (cfg : LruConfig κ α ν γ) (maxSize : ℤ) {indexKey : κ → ν → κ}
    (hcb : cfg.extraIndexCb = some indexKey) {ops : List (LruOp κ α ν γ)}
    (h : AllSteps (fun before op => (run cfg maxSize before).Allowed op) ops) (i : κ) :
    (∀ key value, (run cfg maxSize (ops ++ [.invalidateOnExtraIndex i])).cached key = some value →
      indexKey key value ≠ i) ∧
    ∀ key value, (run cfg maxSize ops).cached key = some value → indexKey key value ≠ i →
      (run cfg maxSize (ops ++ [.invalidateOnExtraIndex i])).cached key = some value := by
  have hrun : run cfg maxSize (ops ++ [.invalidateOnExtraIndex i]) =
      (run cfg maxSize ops).step (.invalidateOnExtraIndex i) := by
    rw [run, List.foldl_append]
    rfl
  have hiff := (run_sim h).invalidateOnExtraIndex (balanced_listRun cfg maxSize ops) hcb i
  rw [hrun]
  constructor
  · intro key value hcached
    exact ((hiff key value).mp hcached).2
  · intro key value hcached hother
    exact (hiff key value).mpr ⟨hcached, hother⟩

/-- A value is replaced by one with the same tens, and another entry with these is added. -/
theorem invalidateOnExtraIndex_example : (run (exampleConfig .dict) 100
      ([.set 1 20 [], .set 1 25 [], .set 2 30 [], .set 3 21 []] ++ [.invalidateOnExtraIndex 2])).cached 2 =
    some 30 := by
  refine (invalidateOnExtraIndex_complete (exampleConfig .dict) 100 rfl ?_ 2).2 2 30 ?_ ?_
  · simp only [allSteps_cons]
    refine ⟨?_, ?_, ?_, ?_, allSteps_nil _⟩ <;> decide +kernel
  · decide +kernel
  · decide

/-- An entry whose value was replaced is not found under the index key of the new value. -/
theorem replaced_not_invalidated :
    ¬ ∀ (cfg : LruConfig ℕ ℕ ℕ ℕ) (maxSize : ℤ) (indexKey : ℕ → ℕ → ℕ), cfg.extraIndexCb = some indexKey →
      ∀ (ops : List (LruOp ℕ ℕ ℕ ℕ)) (i : ℕ),
        (∀ key value, (run cfg maxSize (ops ++ [.invalidateOnExtraIndex i])).cached key = some value →
          indexKey key value ≠ i) ∧
        ∀ key value, (run cfg maxSize ops).cached key = some value → indexKey key value ≠ i →
          (run cfg maxSize (ops ++ [.invalidateOnExtraIndex i])).cached key = some value := by
  intro h
  have hleft : (run (exampleConfig .dict) 100 ([.set 1 10 [], .set 1 20 []] ++ [.invalidateOnExtraIndex 2])).cached 1 =
      some 20 := by
    decide +kernel
  exact (h (exampleConfig .dict) 100 _ rfl [.set 1 10 [], .set 1 20 []] 2).1 1 20 hleft rfl

end LruCache

end Setka.Util
