/-
# Setka.State.AuthDifference — the auth chain difference with events in flight.

`_get_auth_chain_difference` of `state/v2.py`. The store knows the persisted events only, so the
events in flight are taken out of what it is asked, handled in memory, and put back into its answer.
`Split` says what the two halves of the graph have to do with each other.
-/
import Setka.Api.Errors
import Setka.Events.EventBase
import Setka.Lib.IterOrder
import Setka.Lib.Run

namespace Setka.State

open Setka.Api Setka.Events Setka.Lib

/-- `StateDifference`. -/
structure StateDifference where
  authDifference : Finset String
  conflictedSubgraph : Option (Finset String)

/-- The part of `StateResolutionStore` that extracts graph information. -/
structure ChainDifferenceStore where
  getAuthChainDifference : String → List (Finset String) → Option (Finset String) → Finset String → StateDifference

/-! ## §1 The chains of the events in flight -/

/-- The state of the traversal from one event: its chain so far, the forward links of all traversals
so far, and the stack `to_search`, top first. -/
structure ChainSearch where
  chain : Finset String
  eventToNextEvent : Dict String (Finset String)
  toSearch : List EventBase

/-- One auth event id of `nextEvent`. -/
def ChainSearch.visit (unpersistedEvents : Dict String EventBase) (nextEvent : EventBase)
    (s : ChainSearch) (authId : String) : ChainSearch where
  chain := insert authId s.chain
  eventToNextEvent :=
    s.eventToNextEvent.set authId (insert nextEvent.eventId (s.eventToNextEvent.getD authId ∅))
  toSearch :=
    match unpersistedEvents.get? authId with
    | some authEvent => authEvent :: s.toSearch
    | none => s.toSearch

/-- One turn of `while to_search`. -/
def ChainSearch.turn (unpersistedEvents : Dict String EventBase) (s : ChainSearch) :
    Run Error (Option ChainSearch) :=
  match s.toSearch with
  | [] => pure none
  | nextEvent :: toSearch =>
    pure (some (nextEvent.authEventIds.foldl (ChainSearch.visit unpersistedEvents nextEvent) { s with toSearch }))

/-- `events_to_auth_chain` and `event_to_next_event`. -/
structure Chains where
  eventsToAuthChain : Dict String (Finset String)
  eventToNextEvent : Dict String (Finset String)

/-- The chain of one event in flight. -/
def Chains.add (unpersistedEvents : Dict String EventBase) (c : Chains) (event : EventBase) : Run Error Chains := do
  let s ← Run.loop (ChainSearch.turn unpersistedEvents) ⟨{event.eventId}, c.eventToNextEvent, [event]⟩
  pure ⟨c.eventsToAuthChain.set event.eventId s.chain, s.eventToNextEvent⟩

def Chains.build (unpersistedEvents : Dict String EventBase) : Run Error Chains :=
  unpersistedEvents.values.foldlM (Chains.add unpersistedEvents) ⟨∅, ∅⟩

/-! ## §2 What the store is asked -/

/-- The members of a chain that are not, or that are, in flight. -/
def persistedPart (unpersistedEvents : Dict String EventBase) (chain : Finset String) : Finset String :=
  chain.filter fun e => unpersistedEvents.get? e = none

def unpersistedPart (unpersistedEvents : Dict String EventBase) (chain : Finset String) : Finset String :=
  chain.filter fun e => unpersistedEvents.get? e ≠ none

/-- One event id of a state set: it joins `set_ids`, or its chain is shared out. -/
def splitEvent (unpersistedEvents : Dict String EventBase)
    (eventsToAuthChain : Dict String (Finset String)) (ids : Finset String × Finset String)
    (eventId : String) : Finset String × Finset String :=
  match eventsToAuthChain.get? eventId with
  | some eventChain =>
    (ids.1 ∪ persistedPart unpersistedEvents eventChain, ids.2 ∪ unpersistedPart unpersistedEvents eventChain)
  | none => (insert eventId ids.1, ids.2)

/-- `set_ids` and `unpersisted_ids` of one state set. -/
def splitStateSet (unpersistedEvents : Dict String EventBase)
    (eventsToAuthChain : Dict String (Finset String)) (stateSet : StateMap String) :
    Finset String × Finset String :=
  stateSet.values.foldl (splitEvent unpersistedEvents eventsToAuthChain) (∅, ∅)

/-- The union less the intersection of a list of sets, which must not be empty. -/
def unionMinusIntersection : List (Finset String) → Run Error (Finset String)
  | [] => Run.raise .indexError
  | s :: rest => pure (rest.foldl (· ∪ ·) s \ rest.foldl (· ∩ ·) s)

/-- What is passed to the store, and the unpersisted part of the difference. -/
structure Question where
  stateSetsIds : List (Finset String)
  unpersistedDifference : Finset String
  unpersistedConflictedEvents : Finset String
  additionalBackwardsReachable : Finset String

def question (unpersistedEvents : Dict String EventBase)
    (eventsToAuthChain : Dict String (Finset String)) (stateSets : List (StateMap String))
    (conflictedState : Finset String) : Run Error Question :=
  if unpersistedEvents.items = [] then
    pure ⟨stateSets.map fun stateSet => stateSet.values.toFinset, ∅, ∅, ∅⟩
  else do
    let split := stateSets.map (splitStateSet unpersistedEvents eventsToAuthChain)
    let unpersistedConflictedEvents :=
      conflictedState.filter fun e => eventsToAuthChain.get? e ≠ none
    let difference ← unionMinusIntersection (split.map Prod.snd)
    pure
      { stateSetsIds := split.map Prod.fst
        unpersistedDifference := difference
        unpersistedConflictedEvents
        additionalBackwardsReachable := unpersistedConflictedEvents.biUnion fun e =>
          persistedPart unpersistedEvents (eventsToAuthChain.getD e ∅) }

/-! ## §3 The conflicted subgraph in memory -/

/-- One turn of `while search_queue`, on the queue and `forwards_conflicted_set`. -/
def forwardTurn (order : IterOrder String) (eventToNextEvent : Dict String (Finset String))
    (s : Finset String × Finset String) : Run Error (Option (Finset String × Finset String)) :=
  match order.list s.1 with
  | [] => pure none
  | frontierEvent :: _ =>
    pure (some (s.1.erase frontierEvent ∪ eventToNextEvent.getD frontierEvent ∅, insert frontierEvent s.2))

/-- The subgraph the store returned, extended to the events in flight. -/
def extendSubgraph (order : IterOrder String) (chains : Chains) (q : Question)
    (conflictedState subgraph : Finset String) : Run Error (Finset String) := do
  let subgraph := subgraph ∪ conflictedState
  let subgraphFrontier := subgraph ∩ q.additionalBackwardsReachable
  let (_, forwardsConflictedSet) ← Run.loop (forwardTurn order chains.eventToNextEvent)
    (subgraphFrontier ∪ q.unpersistedConflictedEvents, ∅)
  let backwardsConflictedSet := q.unpersistedConflictedEvents.biUnion fun e =>
    chains.eventsToAuthChain.getD e ∅
  pure (subgraph ∪ backwardsConflictedSet ∩ forwardsConflictedSet)

/-! ## §4 The difference -/

/-- `_get_auth_chain_difference` up to its last step: the auth difference and the conflicted subgraph
before they are merged. -/
def stateDifference (order : IterOrder String) (store : ChainDifferenceStore) (roomId : String)
    (stateSets : List (StateMap String)) (unpersistedEvents : Dict String EventBase)
    (conflictedState : Option (Finset String)) : Run Error StateDifference := do
  let chains ← Chains.build unpersistedEvents
  let q ← question unpersistedEvents chains.eventsToAuthChain stateSets (conflictedState.getD ∅)
  let persistedConflicted := conflictedState.map (· \ q.unpersistedConflictedEvents)
  let difference := store.getAuthChainDifference roomId q.stateSetsIds persistedConflicted
    q.additionalBackwardsReachable
  let authDifference := difference.authDifference ∪ q.unpersistedDifference
  match conflictedState, difference.conflictedSubgraph with
  | some _, some subgraph =>
    if unpersistedEvents.items = [] then
      pure ⟨authDifference, some subgraph⟩
    else do
      let subgraph ← extendSubgraph order chains q (persistedConflicted.getD ∅) subgraph
      pure ⟨authDifference, some subgraph⟩
  | _, subgraph => pure ⟨authDifference, subgraph⟩

/-- `_get_auth_chain_difference`. -/
def getAuthChainDifference (order : IterOrder String) (store : ChainDifferenceStore)
    (roomId : String) (stateSets : List (StateMap String))
    (unpersistedEvents : Dict String EventBase) (conflictedState : Option (Finset String)) :
    Run Error (Finset String) := do
  let difference ← stateDifference order store roomId stateSets unpersistedEvents conflictedState
  match difference.conflictedSubgraph with
  | some subgraph =>
    if subgraph = ∅ then
      pure difference.authDifference
    else
      pure (difference.authDifference ∪ subgraph)
  | none => pure difference.authDifference

end Setka.State
