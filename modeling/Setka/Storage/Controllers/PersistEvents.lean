/-
# Setka.Storage.Controllers.PersistEvents — what a batch of events makes of the current state.

With the new forward extremities comes a delta of the current state. It is worked out from the state
groups of the old and of the new extremities, and skipped where a batch looks as if it could not change
the state.
-/
import Setka.Lib.Transition
import Setka.State.StateGroups
import Setka.Storage.ForwardExtremities

namespace Setka.Storage.Controllers.PersistEvents

open Setka.Events Setka.Lib Setka.State.StateGroups
open Setka.Storage.ForwardExtremities (Event Tables calculateNewExtremities)

/-! ## §1 Events with contexts, and the store -/

/-- `EventContext`. `stateGroup` is `_state_group`: the state after the event. -/
structure EventContext where
  stateGroup : Option ℕ
  stateGroupBeforeEvent : Option ℕ
  stateGroupDeltas : Dict (ℕ × ℕ) (StateMap String)

/-- `EventPersistencePair`. Whether the context is rejected is kept with the event. -/
structure EventPersistencePair where
  event : Event
  isState : Bool
  context : EventContext

/-- `EventContext.state_group`. -/
def EventPersistencePair.stateGroup (pair : EventPersistencePair) : Except String (Option ℕ) :=
  if pair.event.rejected then .error "Attempt to access state_group of rejected event"
  else .ok pair.context.stateGroup

/-- `DeltaState`. -/
structure DeltaState where
  toDelete : List (String × String)
  toInsert : StateMap String
  noLongerInRoom : Bool

/-- The current state with a delta, as `_update_current_state_txn` stores it for a room that the server
is in. -/
def DeltaState.applyTo (delta : DeltaState) (currentState : StateMap String) : StateMap String :=
  ((delta.toDelete ++ delta.toInsert.keys).foldl Dict.erase currentState).update delta.toInsert

/-- What is stored of a room. -/
structure RoomStore where
  tables : Tables
  latestEventIds : Finset String
  eventToStateGroups : Dict String ℕ
  currentState : StateMap String

def RoomStore.new : RoomStore := ⟨⟨[], [], []⟩, ∅, .empty, .empty⟩

/-- The state group that is stored for an event: a rejected one has the state of its predecessor. -/
def EventPersistencePair.storedGroup (pair : EventPersistencePair) : Option ℕ :=
  if pair.event.outlier then none
  else if pair.event.rejected then pair.context.stateGroupBeforeEvent
  else pair.context.stateGroup

/-- `_store_event_state_mappings_txn`, for one event. -/
def storeStateMapping (eventToStateGroups : Dict String ℕ) (pair : EventPersistencePair) : Dict String ℕ :=
  match pair.storedGroup with
  | some stateGroup => eventToStateGroups.set pair.event.eventId stateGroup
  | none => eventToStateGroups

/-- The events of a batch, stored. -/
def RoomStore.storeEvents (room : RoomStore) (batch : List EventPersistencePair) : RoomStore :=
  { room with
    tables := room.tables.persistEvents (batch.map EventPersistencePair.event)
    eventToStateGroups := batch.foldl storeStateMapping room.eventToStateGroups }

/-- `EventsPersistenceStorageController`: the state groups, the order in which sets of ids are gone
through, whether the server is still joined to a room, and whether events that are about to be dropped
from the extremities are old enough for it. -/
structure Controller where
  stateGroups : StateGroupStore
  order : IterOrder String
  isServerStillJoined : RoomStore → List EventPersistencePair → DeltaState → Bool
  mayDrop : RoomStore → List EventPersistencePair → Finset String → Bool

/-! ## §2 The new state -/

/-- The first loop of `_get_new_state_after_events`. -/
def collectDeltas (stateGroupDeltas : Dict (ℕ × ℕ) (StateMap String)) (pair : EventPersistencePair) :
    Except String (Dict (ℕ × ℕ) (StateMap String)) := do
  match ← pair.stateGroup with
  | some _ => pure (stateGroupDeltas.update pair.context.stateGroupDeltas)
  | none =>
    if pair.event.outlier then pure stateGroupDeltas
    else throw ("Context for new event " ++ pair.event.eventId ++ " has no state group")

/-- `_get_state_group_for_events`, for one event. -/
def RoomStore.getStateGroupForEvent (room : RoomStore) (eventId : String) : Except String ℕ :=
  match room.eventToStateGroups.get? eventId with
  | some stateGroup => .ok stateGroup
  | none => .error ("No state group for unknown or outlier event " ++ eventId)

/-- The state group of a new extremity: from the batch, or else from the database. -/
def RoomStore.getStateGroup (room : RoomStore) (batch : List EventPersistencePair)
    (eventId : String) : Except String ℕ :=
  match batch.findSome? fun pair =>
      if eventId = pair.event.eventId then pair.context.stateGroup else none with
  | some stateGroup => .ok stateGroup
  | none => room.getStateGroupForEvent eventId

namespace Controller

variable (c : Controller)

/-- `_prune_extremities`: all the extremities with another state group are dropped, or none. -/
def pruneExtremities (room : RoomStore) (batch : List EventPersistencePair)
    (newLatestEventIds : Finset String) (resolvedStateGroup : ℕ) : Finset String :=
  let newNewExtrems := newLatestEventIds.filter fun eventId =>
    (room.getStateGroup batch eventId).toOption = some resolvedStateGroup
  let droppedExtrems := newLatestEventIds \ newNewExtrems
  if batch.any fun pair => pair.event.eventId ∈ droppedExtrems then newLatestEventIds
  else if c.mayDrop room batch droppedExtrems then newNewExtrems
  else newLatestEventIds

/-- The delta between the only old state group and the only new one, where a context has it. -/
def knownDelta (stateGroupDeltas : Dict (ℕ × ℕ) (StateMap String))
    (oldStateGroups newStateGroups : Finset ℕ) : Option (StateMap String) :=
  match c.stateGroups.order.list newStateGroups, c.stateGroups.order.list oldStateGroups with
  | [newStateGroup], [oldStateGroup] => stateGroupDeltas.get? (oldStateGroup, newStateGroup)
  | _, _ => none

/-- `_get_new_state_after_events`, once the state groups are known: the full state, the delta, and the
extremities. -/
def newState (room : RoomStore) (batch : List EventPersistencePair)
    (newLatestEventIds : Finset String) (stateGroupDeltas : Dict (ℕ × ℕ) (StateMap String))
    (oldStateGroups newStateGroups : Finset ℕ) :
    Option (StateMap String) × Option (StateMap String) × Finset String :=
  if oldStateGroups = newStateGroups then (none, none, newLatestEventIds)
  else
    match c.knownDelta stateGroupDeltas oldStateGroups newStateGroups with
    | some deltaIds => (none, some deltaIds, newLatestEventIds)
    | none =>
      match c.stateGroups.order.list newStateGroups with
      | [newStateGroup] => (some (c.stateGroups.state newStateGroup), none, newLatestEventIds)
      | _ =>
        let res := c.stateGroups.resolveStateGroups newStateGroups
        let extremities :=
          match res.stateGroup with
          | some stateGroup =>
            if stateGroup ≠ 0 ∧ stateGroup ∈ newStateGroups then
              c.pruneExtremities room batch newLatestEventIds stateGroup
            else newLatestEventIds
          | none => newLatestEventIds
        (some (c.stateGroups.getState res), none, extremities)

/-- `_get_new_state_after_events`. -/
def getNewStateAfterEvents (room : RoomStore) (batch : List EventPersistencePair)
    (oldLatestEventIds newLatestEventIds : Finset String) :
    Except String (Option (StateMap String) × Option (StateMap String) × Finset String) := do
  let stateGroupDeltas ← batch.foldlM collectDeltas .empty
  let oldStateGroups ← (c.order.list oldLatestEventIds).mapM room.getStateGroupForEvent
  let newStateGroups ← (c.order.list newLatestEventIds).mapM (room.getStateGroup batch)
  pure (c.newState room batch newLatestEventIds stateGroupDeltas oldStateGroups.toFinset newStateGroups.toFinset)

/-! ## §3 The delta of a batch -/

/-- `_calculate_state_delta`. -/
def calculateStateDelta (existingState currentState : StateMap String) : DeltaState where
  toDelete := existingState.keys.filter fun key => key ∉ currentState.keys
  toInsert := currentState.filter fun key eventId => existingState.get? key ≠ some eventId
  noLongerInRoom := false

/-- The delta, from what is known of the new state. -/
def stateDelta (room : RoomStore) : Option (StateMap String) → Option (StateMap String) → Option DeltaState
  | _, some deltaIds => some ⟨[], deltaIds, false⟩
  | some currentState, none => some (calculateStateDelta room.currentState currentState)
  | none, none => none

/-- The events have one prev event each, and none is a state event. -/
def allSinglePrevNotState (batch : List EventPersistencePair) : Bool :=
  batch.all fun pair => pair.event.prevEventIds.length = 1 ∧ pair.isState = false

/-- The last part of `_calculate_new_forward_extremities_and_state_delta`. -/
def fullDelta (room : RoomStore) (batch : List EventPersistencePair) (newLatestEventIds : Finset String) :
    Except String (Option (Finset String) × Option DeltaState) := do
  let (currentState, deltaIds, newLatestEventIds) ←
    c.getNewStateAfterEvents room batch room.latestEventIds newLatestEventIds
  if newLatestEventIds = ∅ then throw "No forward extremities left!"
  else
    pure (some newLatestEventIds, (stateDelta room currentState deltaIds).map fun delta =>
      { delta with noLongerInRoom := !c.isServerStillJoined room batch delta })

/-- `_calculate_new_forward_extremities_and_state_delta`. -/
def calculateNewForwardExtremitiesAndStateDelta (room : RoomStore) (batch : List EventPersistencePair) :
    Except String (Option (Finset String) × Option DeltaState) :=
  let newLatestEventIds := calculateNewExtremities c.order room.tables
    (batch.map EventPersistencePair.event) room.latestEventIds
  if newLatestEventIds = room.latestEventIds then .ok (none, none)
  else if newLatestEventIds = ∅ then .error "No forward extremities left!"
  else if room.latestEventIds.card = 1 ∧ newLatestEventIds.card = 1 ∧ allSinglePrevNotState batch then
    .ok (some newLatestEventIds, none)
  else c.fullDelta room batch newLatestEventIds

/-- One chunk of `_persist_event_batch`: nothing is stored where an exception is raised. -/
def persist (room : RoomStore) (batch : List EventPersistencePair) : RoomStore :=
  match c.calculateNewForwardExtremitiesAndStateDelta room batch with
  | .error _ => room
  | .ok (newForwardExtremities, stateDelta) =>
    { room.storeEvents batch with
      latestEventIds := newForwardExtremities.getD room.latestEventIds
      currentState :=
        match stateDelta with
        | none => room.currentState
        | some delta => if delta.noLongerInRoom then .empty else delta.applyTo room.currentState }

/-- `_PersistEventsTask`, for one room. -/
structure PersistEventsTask where
  eventsAndContexts : List EventPersistencePair
  backfilled : Bool

def run (room : RoomStore) (task : PersistEventsTask) : RoomStore :=
  if task.backfilled then room.storeEvents task.eventsAndContexts
  else c.persist room task.eventsAndContexts

/-- The room after some tasks. -/
def after (tasks : List PersistEventsTask) : RoomStore := tasks.foldl c.run .new

end Controller

end Setka.Storage.Controllers.PersistEvents
