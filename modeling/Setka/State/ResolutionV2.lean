/-
# Setka.State.ResolutionV2 — state resolution, version 2.

`resolve_events_with_store` of `state/v2.py` with what it calls. The event map is a cache in front of the store: looking
an event up may extend it, and so it is the state that the lookups run on. The searches along auth events have no bound
of their own, since the store is not known to be free of cycles.
-/
import Setka.EventAuth.Rules
import Setka.Lib.RunEnds
import Setka.State.AuthDifference
import Setka.State.TopologicalSort

namespace Setka.State

open Setka.Api Setka.Events Setka.EventAuth Setka.Lib

/-- `event_map`. -/
abbrev EventMap := Dict String EventObject

/-- `StateResolutionStore`. `getEvents` is `get_events` with rejected events allowed: it omits the events that are not
known. -/
structure StateResolutionStore extends ChainDifferenceStore where
  event : String → Option EventObject
  getEvents : List String → EventMap
  get?_getEvents : ∀ eventIds eventId,
    (getEvents eventIds).get? eventId = if eventId ∈ eventIds then event eventId else none

/-- The orders in which sets are iterated: the keys of the state sets, the frontier in the auth chain difference, the
events that are asked for, the full conflicted set, the auth types of each event, and what the graph is made of. -/
structure ResolutionOrders where
  keys : IterOrder (String × String)
  frontier : IterOrder String
  requested : IterOrder String
  fullConflictedSet : IterOrder String
  authTypes : String → IterOrder (String × String)
  sort : SortOrders String

/-- What one call of `resolve_events_with_store` works with. -/
structure Resolver where
  out : Outside
  store : StateResolutionStore
  roomId : String
  roomVersion : RoomVersion
  orders : ResolutionOrders

/-! ## §1 Conflicted and unconflicted state -/

/-- What `_seperate` returns. -/
structure Separated where
  unconflictedState : StateMap String
  conflictedState : StateMap (Finset String)

/-- The event id of a key, when the state sets have the same one. All of them are equal then, and the first is the one
that is popped. -/
def agreedId (stateSets : List (StateMap String)) (key : String × String) : Option String :=
  let eventIds := stateSets.map fun stateSet => stateSet.get? key
  if eventIds.toFinset.card = 1 then eventIds.head?.join else none

/-- One turn of the loop of `_seperate`. The key is one of a state set, so that what is popped is not `None`. -/
def Separated.add (stateSets : List (StateMap String)) (s : Separated) (key : String × String) : Separated :=
  match agreedId stateSets key with
  | some eventId => { s with unconflictedState := s.unconflictedState.set key eventId }
  | none =>
    let eventIds := (stateSets.map fun stateSet => stateSet.get? key).toFinset
    { s with conflictedState := s.conflictedState.set key eventIds.eraseNone }

/-- `_seperate`. -/
def seperate (order : IterOrder (String × String)) (stateSets : List (StateMap String)) : Separated :=
  (order.list (stateSets.flatMap Dict.keys).toFinset).foldl (Separated.add stateSets) ⟨.empty, .empty⟩

/-- The event ids in the conflicted state. -/
def conflictedIds (conflictedState : StateMap (Finset String)) : Finset String :=
  conflictedState.values.foldr (· ∪ ·) ∅

/-! ## §2 Looking events up -/

/-- `_get_event` with `allow_none`. -/
def getEvent? (r : Resolver) (eventId : String) : Action EventMap Error (Option EventObject) := do
  Action.modify fun eventMap =>
    if eventMap.get? eventId = none then eventMap.update (r.store.getEvents [eventId]) else eventMap
  match ← Action.reads fun eventMap => .ok (eventMap.get? eventId) with
  | none => pure none
  | some o => if o.event.roomId ≠ r.roomId then Action.raise .exception else pure (some o)

/-- `_get_event`. -/
def getEvent (r : Resolver) (eventId : String) : Action EventMap Error EventObject := do
  match ← getEvent? r eventId with
  | none => Action.raise .exception
  | some o => pure o

/-- `event_map[event_id]`. -/
def mapped (eventId : String) : Action EventMap Error EventObject :=
  Action.reads fun eventMap =>
    match eventMap.get? eventId with
    | some o => .ok o
    | none => .error .keyError

/-- `(event.type, event.state_key)`. -/
def eventKey (event : EventBase) : Except Error (String × String) := do
  let stateKey ← stateKeyOf event
  pure (event.type, stateKey)

/-- The first of some auth events that has the key. -/
def firstAuthEvent (r : Resolver) (key : String × String) :
    List String → Action EventMap Error (Option (String × EventObject))
  | [] => pure none
  | aid :: rest => do
      match ← getEvent? r aid with
      | none => firstAuthEvent r key rest
      | some aev => do
          let aevKey ← Action.lift (eventKey aev.event)
          if aevKey = key then pure (some (aid, aev)) else firstAuthEvent r key rest

/-! ## §3 Power levels -/

/-- `_is_power_event`. -/
def isPowerEvent (event : EventBase) : Except Error Bool := do
  let key ← eventKey event
  if key = powerLevelsKey ∨ key = ("m.room.join_rules", "") ∨ key = createKey then pure true
  else if event.type = "m.room.member" then do
    let membership ← membershipOf event
    pure (decide ((isStr membership "leave" ∨ isStr membership "ban") ∧ event.sender ≠ key.2))
  else pure false

/-- `pl` and `create`, after one more auth event. -/
def noteAuthEvent (r : Resolver) (noted : Option EventObject × Option EventObject) (aid : String) :
    Action EventMap Error (Option EventObject × Option EventObject) := do
  match ← getEvent? r aid with
  | none => pure noted
  | some aev => do
      let key ← Action.lift (eventKey aev.event)
      pure (if key = powerLevelsKey then some aev else noted.1, if key = createKey then some aev else noted.2)

/-- Whether the sender has the power level of a creator. -/
def hasCreatorPower (create : Option EventObject) (sender : String) : Except Error Bool :=
  match create with
  | some create =>
    if create.event.roomVersion.msc4289CreatorPowerEnabled then isCreator create.event sender else .ok false
  | none => .ok false

/-- The power level where the auth events have no power levels: that of the room's creator is 100. -/
def levelOfCreator (r : Resolver) (event : EventBase) : Action EventMap Error ℤ := do
  match ← firstAuthEvent r createKey event.authEventIds with
  | none => pure 0
  | some (_, aev) =>
    let isSender :=
      if event.roomVersion.implicitRoomCreator then decide (aev.event.sender = event.sender)
      else
        match Json.member? aev.event.content "creator" with
        | some creator => isStr creator event.sender
        | none => false
    pure (if isSender then 100 else 0)

/-- `_get_power_level_for_sender`. -/
def getPowerLevelForSender (r : Resolver) (eventId : String) : Action EventMap Error ℤ := do
  let o ← getEvent r eventId
  let event := o.event
  let (pl, create) ← event.authEventIds.foldlM (noteAuthEvent r) (none, none)
  if event.type ≠ "m.room.create" ∧ create.isNone then Action.raise .assertionError
  else do
    let creator ← Action.lift (hasCreatorPower create event.sender)
    if creator then pure creatorPowerLevel
    else
      match pl with
      | some pl => Action.lift (namedPowerLevel event.sender pl.event)
      | none => levelOfCreator r event

/-! ## §4 The power events -/

/-- What `_add_event_and_auth_chain_to_graph` works on: the graph, the stack, top first, and the event map. -/
structure GraphSearch where
  graph : Dict String (Finset String)
  state : List String
  eventMap : EventMap

/-- One auth event id of the event `eid`. -/
def GraphSearch.visit (fullConflictedSet : Finset String) (eid : String) (s : GraphSearch) (aid : String) :
    GraphSearch :=
  if aid ∈ fullConflictedSet then
    { s with
      state := if s.graph.get? aid = none then aid :: s.state else s.state
      graph := s.graph.set eid (insert aid (s.graph.getD eid ∅)) }
  else s

/-- One turn of `while state`. -/
def GraphSearch.turn (r : Resolver) (fullConflictedSet : Finset String) (s : GraphSearch) :
    Run Error (Option GraphSearch) :=
  match s.state with
  | [] => pure none
  | eid :: state => do
      let (o, eventMap) ← Run.ofAction (getEvent r eid) s.eventMap
      pure (some (o.event.authEventIds.foldl (GraphSearch.visit fullConflictedSet eid)
        ⟨s.graph.setDefault eid ∅, state, eventMap⟩))

/-- `_add_event_and_auth_chain_to_graph`. -/
def addEventAndAuthChainToGraph (r : Resolver) (fullConflictedSet : Finset String)
    (s : Dict String (Finset String) × EventMap) (eventId : String) :
    Run Error (Dict String (Finset String) × EventMap) := do
  let s ← Run.loop (GraphSearch.turn r fullConflictedSet) ⟨s.1, [eventId], s.2⟩
  pure (s.graph, s.eventMap)

/-- One member of the full conflicted set. `power_events` is a generator: whether the event is one of them is found out
when it is its turn. -/
def addIfPowerEvent (r : Resolver) (fullConflictedSet : Finset String) (s : Dict String (Finset String) × EventMap)
    (eventId : String) : Run Error (Dict String (Finset String) × EventMap) := do
  let (isPower, eventMap) ← Run.ofAction (do
    let o ← mapped eventId
    Action.lift (isPowerEvent o.event)) s.2
  if isPower then addEventAndAuthChainToGraph r fullConflictedSet (s.1, eventMap) eventId
  else pure (s.1, eventMap)

/-- The power level of one node of the graph. -/
def addPowerLevel (r : Resolver) (eventToPl : Dict String ℤ) (eventId : String) :
    Action EventMap Error (Dict String ℤ) := do
  let pl ← getPowerLevelForSender r eventId
  pure (eventToPl.set eventId pl)

/-- `_get_power_order`. Both maps have all nodes of the graph. -/
def getPowerOrder (eventMap : EventMap) (eventToPl : Dict String ℤ) (eventId : String) : ℤ ×ₗ ℤ ×ₗ String :=
  let originServerTs := ((eventMap.get? eventId).map fun o => o.event.originServerTs).getD 0
  toLex (-eventToPl.getD eventId 0, toLex (originServerTs, eventId))

/-- `_reverse_topological_power_sort` of the power events in the full conflicted set. -/
def reverseTopologicalPowerSort (r : Resolver) (fullConflictedSet : Finset String) (eventMap : EventMap) :
    Run Error (List String × EventMap) := do
  let (graph, eventMap) ← (r.orders.fullConflictedSet.list fullConflictedSet).foldlM
    (addIfPowerEvent r fullConflictedSet) (Dict.empty, eventMap)
  let (eventToPl, eventMap) ← Run.ofAction (graph.keys.foldlM (addPowerLevel r) Dict.empty) eventMap
  let sortedEvents ← lexicographicalTopologicalSort r.orders.sort graph (getPowerOrder eventMap eventToPl)
  pure (sortedEvents, eventMap)

/-! ## §5 The auth checks -/

/-- The exceptions that are an `AuthError`: they carry the error code of that class, or one of its subclass. -/
def isAuthError : Error → Bool
  | .synapseError _ _ errcode => errcode = "M_FORBIDDEN" || PyStr.startsWith "ORG.MATRIX.MSC3848." errcode
  | _ => false

/-- One of the event's own auth events: it counts when it is known and was not rejected. -/
def addOwnAuthEvent (r : Resolver) (authEvents : StateMap EventBase) (aid : String) :
    Action EventMap Error (StateMap EventBase) := do
  match ← getEvent? r aid with
  | none => pure authEvents
  | some ev =>
    if ev.event.rejected then pure authEvents
    else do
      let key ← Action.lift (eventKey ev.event)
      pure (authEvents.set key ev.event)

/-- One auth type of the event: what the state resolved so far has there. -/
def addResolvedEvent (r : Resolver) (resolvedState : StateMap String) (authEvents : StateMap EventBase)
    (key : String × String) : Action EventMap Error (StateMap EventBase) :=
  match resolvedState.get? key with
  | none => pure authEvents
  | some evId => do
      let ev ← getEvent r evId
      if ev.event.rejected then pure authEvents
      else do
        let ev ← mapped evId
        pure (authEvents.set key ev.event)

/-- An auth type that can be a key of the resolved state. -/
def authTypeKey : String × Json → Option (String × String)
  | (type, .str stateKey) => some (type, stateKey)
  | _ => none

/-- `auth_events`, which the event is checked against. -/
def authEventsFor (r : Resolver) (resolvedState : StateMap String) (eventId : String) (o : EventObject) :
    Action EventMap Error (StateMap EventBase) := do
  let authEvents ← o.event.authEventIds.foldlM (addOwnAuthEvent r) Dict.empty
  let authTypes ← Action.lift (authTypesForEvent r.roomVersion o)
  ((r.orders.authTypes eventId).list (authTypes.filterMap authTypeKey).toFinset).foldlM
    (addResolvedEvent r resolvedState) authEvents

/-- One turn of the loop of `_iterative_auth_checks`. -/
def applyEvent (r : Resolver) (resolvedState : StateMap String) (eventId : String) :
    Action EventMap Error (StateMap String) := do
  let o ← mapped eventId
  let authEvents ← authEventsFor r resolvedState eventId o
  if o.event.rejected then pure resolvedState
  else
    match checkStateDependentAuthRules r.out o authEvents.values with
    | .ok () => do
        let key ← Action.lift (eventKey o.event)
        pure (resolvedState.set key eventId)
    | .error e => if isAuthError e then pure resolvedState else Action.raise e

/-- `_iterative_auth_checks`. -/
def iterativeAuthChecks (r : Resolver) (eventIds : List String) (baseState : StateMap String) :
    Action EventMap Error (StateMap String) :=
  eventIds.foldlM (applyEvent r) baseState

/-! ## §6 The mainline -/

/-- The mainline so far, the power levels event that comes next, and the event map. -/
structure MainlineSearch where
  mainline : List String
  pl : Option String
  eventMap : EventMap

/-- One turn of `while pl`. -/
def MainlineSearch.turn (r : Resolver) (s : MainlineSearch) : Run Error (Option MainlineSearch) :=
  match s.pl with
  | none => pure none
  | some pl =>
    if pl = "" then pure none
    else do
      let (next, eventMap) ← Run.ofAction (do
        let plEv ← getEvent r pl
        firstAuthEvent r powerLevelsKey plEv.event.authEventIds) s.eventMap
      pure (some ⟨s.mainline ++ [pl], next.map Prod.fst, eventMap⟩)

/-- `mainline_map`. -/
def mainlineMap (mainline : List String) : Dict String ℕ :=
  (mainline.reverse.zipIdx 1).foldl (fun d item => d.set item.1 item.2) Dict.empty

/-- `tmp_event`, the depth once it is found, and the event map. -/
structure DepthSearch where
  tmpEvent : Option EventObject
  depth : Option ℕ
  eventMap : EventMap

/-- One turn of `while tmp_event`. -/
def DepthSearch.turn (r : Resolver) (mainlineMap : Dict String ℕ) (s : DepthSearch) : Run Error (Option DepthSearch) :=
  match s.tmpEvent with
  | none => pure none
  | some tmpEvent =>
    match mainlineMap.get? tmpEvent.event.eventId with
    | some depth => pure (some ⟨none, some depth, s.eventMap⟩)
    | none => do
        let (next, eventMap) ← Run.ofAction (firstAuthEvent r powerLevelsKey tmpEvent.event.authEventIds) s.eventMap
        pure (some ⟨next.map Prod.snd, none, eventMap⟩)

/-- `_get_mainline_depth_for_event`. -/
def getMainlineDepthForEvent (r : Resolver) (o : EventObject) (mainlineMap : Dict String ℕ) (eventMap : EventMap) :
    Run Error (ℕ × EventMap) := do
  let s ← Run.loop (DepthSearch.turn { r with roomId := o.event.roomId } mainlineMap) ⟨some o, none, eventMap⟩
  pure (s.depth.getD 0, s.eventMap)

/-- The entry of one event in `order_map`. -/
def addMainlineOrder (r : Resolver) (mainlineMap : Dict String ℕ) (s : Dict String (ℕ ×ₗ ℤ ×ₗ String) × EventMap)
    (evId : String) : Run Error (Dict String (ℕ ×ₗ ℤ ×ₗ String) × EventMap) := do
  let o ← Run.ofOption .keyError (s.2.get? evId)
  let (depth, eventMap) ← getMainlineDepthForEvent r o mainlineMap s.2
  pure (s.1.set evId (toLex (depth, toLex (o.event.originServerTs, evId))), eventMap)

/-- `_mainline_sort`. Every event that is sorted is in `order_map`. -/
def mainlineSort (r : Resolver) (eventIds : List String) (resolvedPowerEventId : Option String) (eventMap : EventMap) :
    Run Error (List String × EventMap) :=
  if eventIds = [] then pure ([], eventMap)
  else do
    let s ← Run.loop (MainlineSearch.turn r) ⟨[], resolvedPowerEventId, eventMap⟩
    let (orderMap, eventMap) ←
      eventIds.foldlM (addMainlineOrder r (mainlineMap s.mainline)) (Dict.empty, s.eventMap)
    let order := fun evId => orderMap.getD evId (toLex (0, toLex (0, evId)))
    pure (eventIds.insertionSort (fun a b => order a ≤ order b), eventMap)

/-! ## §7 The resolution -/

/-- `auth_diff`. -/
def authDiff (r : Resolver) (stateSets : List (StateMap String)) (eventMap : EventMap) : Run Error (Finset String) :=
  let conflictedState := (seperate r.orders.keys stateSets).conflictedState
  let conflictedSet := if r.roomVersion.stateRes = .v2_1 then some (conflictedIds conflictedState) else none
  getAuthChainDifference r.orders.frontier r.store.toChainDifferenceStore r.roomId stateSets
    (eventMap.mapValues EventObject.event) conflictedSet

/-- `full_conflicted_set`, before the events that are not known are taken out of it. -/
def fullConflictedSet (r : Resolver) (stateSets : List (StateMap String)) (eventMap : EventMap) :
    Run Error (Finset String) := do
  let authDiff ← authDiff r stateSets eventMap
  pure (conflictedIds (seperate r.orders.keys stateSets).conflictedState ∪ authDiff)

/-- The event map with the events of the full conflicted set, all of which must be in the room. -/
def loadEvents (r : Resolver) (fullConflictedSet : Finset String) (eventMap : EventMap) : Run Error EventMap :=
  let events := r.store.getEvents
    ((r.orders.requested.list fullConflictedSet).filter fun eventId => eventMap.get? eventId = none)
  let eventMap := eventMap.update events
  if eventMap.values.all fun o => o.event.roomId = r.roomId then pure eventMap else Run.raise .exception

/-- The state that the auth checks start from. -/
def baseState (r : Resolver) (unconflictedState : StateMap String) : StateMap String :=
  if r.roomVersion.stateRes = .v2_1 then Dict.empty else unconflictedState

/-- `resolve_events_with_store`, with the event map as it leaves it. -/
def resolveEventsWithStore (r : Resolver) (stateSets : List (StateMap String)) (eventMap : Option EventMap) :
    Run Error (StateMap String × EventMap) := do
  let eventMap := eventMap.getD Dict.empty
  let separated := seperate r.orders.keys stateSets
  if separated.conflictedState.items = [] then pure (separated.unconflictedState, eventMap)
  else do
    let full ← fullConflictedSet r stateSets eventMap
    let eventMap ← loadEvents r full eventMap
    let known := full.filter fun eventId => eventMap.get? eventId ≠ none
    let (sortedPowerEvents, eventMap) ← reverseTopologicalPowerSort r known eventMap
    let (resolvedState, eventMap) ← Run.ofAction
      (iterativeAuthChecks r sortedPowerEvents (baseState r separated.unconflictedState)) eventMap
    let leftoverEvents := (r.orders.fullConflictedSet.list known).filter fun evId => evId ∉ sortedPowerEvents
    let (leftoverEvents, eventMap) ← mainlineSort r leftoverEvents (resolvedState.get? powerLevelsKey) eventMap
    let (resolvedState, eventMap) ← Run.ofAction (iterativeAuthChecks r leftoverEvents resolvedState) eventMap
    pure (resolvedState.update separated.unconflictedState, eventMap)

end Setka.State
