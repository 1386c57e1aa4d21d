/-
# Setka.State.StateGroups — the state after some events, resolved from their state groups.

The state after an event is kept as the number of a state group. The state after several events is the
resolution of their groups; what is cached of it is a group, a group and a delta, or the state itself.
-/
import Setka.Events.EventBase
import Setka.Lib.IterOrder

namespace Setka.State.StateGroups

open Setka.Events Setka.Lib Dict

/-! ## §1 The state groups -/

/-- The state groups, which never change, and `resolve_events_with_store` on the states of several.
A state holds each event under its own type and state key. -/
structure StateGroupStore where
  state : ℕ → StateMap String
  resolveEventsWithStore : Finset ℕ → StateMap String
  order : IterOrder ℕ
  keyOf : String → String × String
  state_keyOf : ∀ stateGroup key id, (state stateGroup).get? key = some id → keyOf id = key
  resolve_keyOf : ∀ stateGroups key id, (resolveEventsWithStore stateGroups).get? key = some id → keyOf id = key

/-- `_StateCacheEntry`: one of the shapes that its constructor accepts. -/
inductive StateCacheEntry
  | ofStateGroup (stateGroup : ℕ)
  | ofDelta (prevGroup : ℕ) (deltaIds : StateMap String)
  | ofState (state : StateMap String)

def StateCacheEntry.stateGroup : StateCacheEntry → Option ℕ
  | .ofStateGroup stateGroup => some stateGroup
  | .ofDelta _ _ => none
  | .ofState _ => none

namespace StateGroupStore

variable (store : StateGroupStore)

/-- The state after events of these groups: there is nothing to resolve unless there are several. -/
def resolution (stateGroups : Finset ℕ) : StateMap String :=
  match store.order.list stateGroups with
  | [] => .empty
  | [stateGroup] => store.state stateGroup
  | _ => store.resolveEventsWithStore stateGroups

theorem resolution_singleton (stateGroup : ℕ) : store.resolution {stateGroup} = store.state stateGroup := by
  have hlist : store.order.list {stateGroup} = [stateGroup] := by
    apply List.perm_singleton.mp
    rw [List.perm_ext_iff_of_nodup (store.order.nodup_list _) (List.nodup_singleton _)]
    intro sg
    rw [IterOrder.mem_list, Finset.mem_singleton, List.mem_singleton]
  rw [resolution, hlist]

theorem resolution_of_several {stateGroups : Finset ℕ} (hne : stateGroups ≠ ∅)
    (h : ∀ stateGroup, store.order.list stateGroups ≠ [stateGroup]) :
    store.resolution stateGroups = store.resolveEventsWithStore stateGroups := by
  unfold resolution
  split
  · rename_i hnil
    exact absurd (store.order.list_eq_nil_iff.mp hnil) hne
  · rename_i stateGroup hone
    exact absurd hone (h stateGroup)
  · rfl

/-! ## §2 The entries of the state cache -/

/-- `_StateCacheEntry.get_state`. -/
def getState : StateCacheEntry → StateMap String
  | .ofStateGroup stateGroup => store.state stateGroup
  | .ofDelta prevGroup deltaIds => (store.state prevGroup).update deltaIds
  | .ofState state => state

theorem getState_of_stateGroup {entry : StateCacheEntry} {stateGroup : ℕ}
    (h : entry.stateGroup = some stateGroup) : store.getState entry = store.state stateGroup := by
  cases entry with
  | ofStateGroup sg =>
    obtain rfl := Option.some.inj h
    rfl
  | ofDelta prevGroup deltaIds => exact absurd h (by simp [StateCacheEntry.stateGroup])
  | ofState state => exact absurd h (by simp [StateCacheEntry.stateGroup])

/-- The state has the events of the new state. -/
def sameEvents (newState state : StateMap String) : Bool :=
  newState.values.toFinset.card = state.items.length ∧
    newState.values.toFinset = state.values.toFinset

/-- What the new state adds to or replaces in an old one. -/
def deltaFrom (newState oldState : StateMap String) : StateMap String :=
  newState.filter fun key id => oldState.get? key ≠ some id

/-- One turn of the search for the closest match. Deltas that remove keys are not supported. -/
def closestMatch (newState : StateMap String) (best : Option (ℕ × StateMap String)) (oldGroup : ℕ) :
    Option (ℕ × StateMap String) :=
  let oldState := store.state oldGroup
  if oldState.keys.any fun key => key ∉ newState.keys then best
  else
    let deltaIds := deltaFrom newState oldState
    match best with
    | none => some (oldGroup, deltaIds)
    | some (prevGroup, best) =>
      if best.items = [] ∨ deltaIds.items.length < best.items.length then some (oldGroup, deltaIds)
      else some (prevGroup, best)

/-- `_make_state_cache_entry`. -/
def makeStateCacheEntry (newState : StateMap String) (stateGroups : Finset ℕ) : StateCacheEntry :=
  match (store.order.list stateGroups).find? fun sg => sameEvents newState (store.state sg) with
  | some stateGroup => .ofStateGroup stateGroup
  | none =>
    match (store.order.list stateGroups).foldl (store.closestMatch newState) none with
    | some (prevGroup, deltaIds) => .ofDelta prevGroup deltaIds
    | none => .ofState newState

/-- `resolve_state_groups`, which is not called for a single group. -/
def resolveStateGroups (stateGroups : Finset ℕ) : StateCacheEntry :=
  store.makeStateCacheEntry (store.resolveEventsWithStore stateGroups) stateGroups

/-! ## §3 An entry stands for the state it was made from -/

variable {newState : StateMap String}

/-- Two states with the same events are the same, as an event has only one key. -/
theorem agrees_of_sameEvents {state : StateMap String}
    (hnew : ∀ key id, newState.get? key = some id → store.keyOf id = key)
    (hstate : ∀ key id, state.get? key = some id → store.keyOf id = key)
    (h : sameEvents newState state = true) : state.Agrees newState := by
  obtain ⟨-, hvalues⟩ := of_decide_eq_true h
  have hiff : ∀ id, (∃ key, newState.get? key = some id) ↔ ∃ key, state.get? key = some id := by
    intro id
    rw [← mem_values_iff, ← mem_values_iff, ← List.mem_toFinset, hvalues, List.mem_toFinset]
  intro key
  apply Option.ext
  intro id
  constructor
  · intro hid
    obtain ⟨key', hkey'⟩ := (hiff id).mpr ⟨key, hid⟩
    rwa [← hstate key id hid, hnew key' id hkey']
  intro hid
  obtain ⟨key', hkey'⟩ := (hiff id).mp ⟨key, hid⟩
  rwa [← hnew key id hid, hstate key' id hkey']

/-- A delta that removes no key leads from the old state to the new one. -/
theorem agrees_deltaFrom {oldState : StateMap String} (h : ∀ key ∈ oldState.keys, key ∈ newState.keys) :
    (oldState.update (deltaFrom newState oldState)).Agrees newState := by
  intro key
  rw [get?_update]
  cases hnew : newState.get? key with
  | none =>
    have hdelta : (deltaFrom newState oldState).get? key = none := by
      rw [Option.eq_none_iff_forall_ne_some]
      intro id hid
      rw [deltaFrom, get?_filter, hnew] at hid
      exact absurd hid.1 (by simp)
    have hold : oldState.get? key = none := by
      rw [get?_eq_none_iff]
      exact fun hkey => (get?_eq_none_iff.mp hnew) (h key hkey)
    rw [hdelta, hold, Option.none_or]
  | some id =>
    by_cases hold : oldState.get? key = some id
    · cases hdelta : (deltaFrom newState oldState).get? key with
      | none => rw [hold, Option.none_or]
      | some id' =>
        rw [deltaFrom, get?_filter, hnew] at hdelta
        rw [Option.some_or, hdelta.1]
    · have hdelta : (deltaFrom newState oldState).get? key = some id := by
        rw [deltaFrom, get?_filter]
        exact ⟨hnew, by simpa using hold⟩
      rw [hdelta, Option.some_or]

/-- The closest match is a delta from its group that removes no key. -/
theorem closestMatch_spec (stateGroups : List ℕ) {prevGroup : ℕ} {deltaIds : StateMap String}
    (h : stateGroups.foldl (store.closestMatch newState) none = some (prevGroup, deltaIds)) :
    deltaIds = deltaFrom newState (store.state prevGroup) ∧
      ∀ key ∈ (store.state prevGroup).keys, key ∈ newState.keys := by
  induction stateGroups using List.reverseRecOn generalizing prevGroup deltaIds with
  | nil => exact absurd h (by simp)
  | append_singleton stateGroups oldGroup ih =>
    rw [List.foldl_append, List.foldl_cons, List.foldl_nil, closestMatch] at h
    by_cases hremoves : ((store.state oldGroup).keys.any fun key => decide (key ∉ newState.keys)) = true
    · rw [if_pos hremoves] at h
      exact ih h
    rw [if_neg hremoves] at h
    have hkeys : ∀ key ∈ (store.state oldGroup).keys, key ∈ newState.keys := by
      simpa using hremoves
    cases hbest : stateGroups.foldl (store.closestMatch newState) none with
    | none =>
      rw [hbest] at h
      obtain ⟨rfl, rfl⟩ := Prod.mk.injEq .. ▸ Option.some.inj h
      exact ⟨rfl, hkeys⟩
    | some best =>
      rw [hbest] at h
      dsimp only at h
      split at h
      · obtain ⟨rfl, rfl⟩ := Prod.mk.injEq .. ▸ Option.some.inj h
        exact ⟨rfl, hkeys⟩
      · obtain ⟨rfl, rfl⟩ := Prod.mk.injEq .. ▸ Option.some.inj h
        exact ih hbest

/-- **A cache entry stands for the resolved state.** -/
theorem getState_resolveStateGroups (stateGroups : Finset ℕ) :
    (store.getState (store.resolveStateGroups stateGroups)).Agrees (store.resolveEventsWithStore stateGroups) := by
  unfold resolveStateGroups makeStateCacheEntry
  split
  · rename_i stateGroup hfind
    have hsame := List.find?_some hfind
    exact store.agrees_of_sameEvents (store.resolve_keyOf stateGroups) (store.state_keyOf stateGroup) hsame
  split
  · rename_i prevGroup deltaIds hclosest
    obtain ⟨rfl, hkeys⟩ := store.closestMatch_spec _ hclosest
    exact agrees_deltaFrom hkeys
  · exact fun _ => rfl

end StateGroupStore

end Setka.State.StateGroups
