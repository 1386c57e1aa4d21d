/-
# Setka.Visibility — which events a client may see.

Two checks answer the same question. `filter_and_transform_events_for_client` filters many events for one
user and reads the state after each event; `filter_event_for_clients_with_state` filters many users for
one event and reads the state before it, with the event put on top. Below both stands `MaySee`, which says
in terms of the state after the event who may see it; each check is proved to compute it, up to the checks
that only apply to what is sent to a client.

Whether an event is returned as it is or as its pruned copy is a flag here; what pruning takes away is not
modelled.
-/
import Setka.Api.Errors
import Setka.Lib.Action
import Setka.Types.StateFilter

namespace Setka.Visibility

open Setka.Api Setka.Events Setka.Lib Setka.Types Dict
open Option (not_mem_none elim_some some_ne_none)

/-! ## §1 Events and what the server knows -/

/-- `HistoryVisibility`. -/
inductive HistoryVisibility
  | worldReadable
  | shared
  | invited
  | joined
  deriving DecidableEq

/-- `Membership`. -/
inductive Membership
  | join
  | invite
  | knock
  | leave
  | ban
  deriving DecidableEq

open HistoryVisibility Setka.Visibility.Membership

/-- `VISIBILITY_PRIORITY`. -/
def visibilityPriority : List HistoryVisibility := [worldReadable, shared, invited, joined]

/-- `MEMBERSHIP_PRIORITY`. -/
def membershipPriority : List Membership := [join, invite, knock, leave, ban]

/-- A value of `VISIBILITY_PRIORITY`, as content holds it. -/
def HistoryVisibility.ofJson? : Json → Option HistoryVisibility
  | .str "world_readable" => some worldReadable
  | .str "shared" => some shared
  | .str "invited" => some invited
  | .str "joined" => some joined
  | _ => none

/-- A value of `MEMBERSHIP_PRIORITY`, as content holds it. -/
def Membership.ofJson? : Json → Option Membership
  | .str "join" => some join
  | .str "invite" => some invite
  | .str "knock" => some knock
  | .str "leave" => some leave
  | .str "ban" => some ban
  | _ => none

/-- An event with its internal metadata and the content it replaced (`unsigned["prev_content"]`). A
membership event that was not rejected has passed the auth rules, which read its state key and its
membership. -/
structure LoadedEvent extends EventBase where
  prevContent : List (String × Json)
  softFailed : Bool
  outlier : Bool
  policyServerSpammy : Bool
  authed : rejected = false → type = "m.room.member" → stateKey ≠ none ∧ Json.member? content "membership" ≠ none

namespace LoadedEvent

/-- `is_state`. -/
def isState (e : LoadedEvent) : Bool := e.stateKey.isSome

/-- `event.state_key`. -/
def getStateKey (e : LoadedEvent) : Except Error String :=
  match e.stateKey with
  | some key => .ok key
  | none => .error .attributeError

/-- `membership`. -/
def membership (e : LoadedEvent) : Except Error Json :=
  match Json.member? e.content "membership" with
  | some v => .ok v
  | none => .error .keyError

/-- `event.type == EventTypes.Member and event.state_key == user_id`. -/
def isOwnMembership (e : LoadedEvent) (userId : String) : Except Error Bool :=
  if e.type = "m.room.member" then do
    let stateKey ← e.getStateKey
    pure (stateKey = userId)
  else pure false

/-- `event.type == EventTypes.CallInvite and not event.is_state()`. -/
def isCallInvite (e : LoadedEvent) : Bool := e.type == "m.call.invite" && !e.isState

end LoadedEvent

/-- `AdminClientConfig`. -/
structure AdminClientConfig where
  returnSoftFailedEvents : Bool
  returnPolicyServerSpammyEvents : Bool

/-- `RetentionPolicy`. -/
structure RetentionPolicy where
  minLifetime : Option Int
  maxLifetime : Option Int

/-- What the two filters read from the store: the events, the state before each of them, and the tables
about users and rooms. `ignoredUsersTable` has a row for each user and each sender the user ignores. -/
structure Storage where
  nowMs : Int
  events : Dict String LoadedEvent
  prevStateIds : String → StateMap String
  serverAdmin : String → Bool
  adminClientConfig : String → AdminClientConfig
  ignoredUsersTable : List (String × String)
  erased : String → Bool
  retentionPolicy : String → RetentionPolicy
  /-- The state maps a type and a state key to an event that has them. -/
  keyed : ∀ id key stateId e, (prevStateIds id).get? key = some stateId → events.get? stateId = some e →
    e.type = key.1 ∧ e.stateKey = some key.2

namespace Storage

/-- `get_events`, which leaves out rejected events. -/
def getEvent (s : Storage) (id : String) : Option LoadedEvent :=
  (s.events.get? id).filter fun e => !e.rejected

/-- The events of a state map that the store has. -/
def loadState (s : Storage) (stateIds : StateMap String) : StateMap LoadedEvent :=
  stateIds.filterMapValues s.getEvent

/-- The state of the state group of an event: a state event that was not rejected is part of it. -/
def stateIdsAfter (s : Storage) (id : String) : StateMap String :=
  match s.events.get? id with
  | some e =>
    match e.stateKey with
    | some stateKey =>
      if e.rejected then s.prevStateIds id else (s.prevStateIds id).set (e.type, stateKey) id
    | none => s.prevStateIds id
  | none => s.prevStateIds id

/-- `get_state_for_events`. -/
def getStateForEvents (s : Storage) (ids : List String) (stateFilter : StateFilter) :
    Dict String (StateMap LoadedEvent) :=
  Dict.ofKeys ids fun id => s.loadState (stateFilter.filterState (s.stateIdsAfter id))

/-- `ignored_users`. -/
def ignoredUsers (s : Storage) (userId : String) : List String :=
  (s.ignoredUsersTable.filter fun row => row.1 == userId).map Prod.snd

/-- `ignored_by`. -/
def ignoredBy (s : Storage) (sender : String) : List String :=
  (s.ignoredUsersTable.filter fun row => row.2 == sender).map Prod.fst

end Storage

/-! ## §2 The checks on one event -/

/-- `_CheckFilter`. -/
inductive CheckFilter
  | maybeAllowed
  | denied
  deriving DecidableEq

/-- `_CheckVisibility`. -/
inductive CheckVisibility
  | allowed
  | maybeDenied
  deriving DecidableEq

/-- `_CheckMembershipReturn`. -/
structure CheckMembershipReturn where
  allowed : Bool
  joined : Bool

/-- `_check_filter_send_to_client`. -/
def checkFilterSendToClient (e : LoadedEvent) (nowMs : Int) (retentionPolicy : RetentionPolicy)
    (senderIgnored : Bool) : CheckFilter :=
  if e.type = "org.matrix.dummy_event" then .denied
  else if !e.isState && senderIgnored then .denied
  else if e.type = "m.room.aliases" then .denied
  else if e.isState then .maybeAllowed
  else
    match retentionPolicy.maxLifetime with
    | some maxLifetime => if e.originServerTs < nowMs - maxLifetime then .denied else .maybeAllowed
    | none => .maybeAllowed

/-- `get_effective_room_visibility_from_state`. -/
def getEffectiveRoomVisibilityFromState (state : StateMap LoadedEvent) : HistoryVisibility :=
  match state.get? ("m.room.history_visibility", "") with
  | some e => ((Json.member? e.content "history_visibility").bind HistoryVisibility.ofJson?).getD shared
  | none => shared

/-- The less restrictive one of a visibility and the one before it. -/
def HistoryVisibility.laxer (visibility prevVisibility : HistoryVisibility) : HistoryVisibility :=
  if visibilityPriority.idxOf prevVisibility < visibilityPriority.idxOf visibility then prevVisibility
  else visibility

/-- The effective visibility for an event: for a history visibility event the laxer one of the old and
the new. -/
def boundaryVisibility (e : LoadedEvent) (visibility : HistoryVisibility) : HistoryVisibility :=
  if e.type = "m.room.history_visibility" then
    visibility.laxer
      (((Json.member? e.prevContent "history_visibility").bind HistoryVisibility.ofJson?).getD shared)
  else visibility

/-- `_check_history_visibility`. -/
def checkHistoryVisibility (e : LoadedEvent) (visibility : HistoryVisibility) (isPeeking : Bool) :
    CheckVisibility :=
  let visibility := boundaryVisibility e visibility
  if visibility = shared ∧ isPeeking = false then .allowed
  else if visibility = worldReadable then .allowed
  else .maybeDenied

/-- The end of `_check_membership`, which depends on the membership found and on the visibility. -/
def membershipResult (membership : Option Membership) (visibility : HistoryVisibility) (isPeeking : Bool) :
    CheckMembershipReturn :=
  if membership = some join then ⟨true, true⟩
  else
    match visibility with
    | joined => ⟨false, false⟩
    | invited => ⟨membership = some invite, false⟩
    | shared => if isPeeking then ⟨false, false⟩ else ⟨true, false⟩
    | worldReadable => ⟨true, false⟩

/-- The branch of `_check_membership` for the user's own membership event: the most joined one of the old
and the new membership counts, and a leave is always seen by who was in the room or invited. -/
def ownMembershipResult (e : LoadedEvent) (visibility : HistoryVisibility) (isPeeking : Bool) :
    CheckMembershipReturn :=
  let membership := ((Json.member? e.content "membership").bind Membership.ofJson?).getD leave
  let prevMembership := ((Json.member? e.prevContent "membership").bind Membership.ofJson?).getD leave
  if membership = leave ∧ (prevMembership = join ∨ prevMembership = invite) then ⟨true, false⟩
  else
    let newPriority := membershipPriority.idxOf membership
    let oldPriority := membershipPriority.idxOf prevMembership
    membershipResult (some (if oldPriority < newPriority then prevMembership else membership)) visibility isPeeking

/-- `_check_membership`. -/
def checkMembership (userId : String) (e : LoadedEvent) (visibility : HistoryVisibility)
    (state : StateMap LoadedEvent) (isPeeking : Bool) : Except Error CheckMembershipReturn := do
  if ← e.isOwnMembership userId then pure (ownMembershipResult e visibility isPeeking)
  else
    match state.get? ("m.room.member", userId) with
    | some membershipEvent =>
      let membership ← membershipEvent.membership
      pure (membershipResult (Membership.ofJson? membership) visibility isPeeking)
    | none => pure (membershipResult none visibility isPeeking)

/-! ## §3 Many events for one user -/

/-- What `_check_client_allowed_to_see_event` lets through: the event, or its pruned copy. -/
structure FilteredEvent where
  event : LoadedEvent
  pruned : Bool

/-- A filtered event with the user's membership in its `unsigned` data. -/
structure ClientEvent extends FilteredEvent where
  membership : Json

/-- `_check_client_allowed_to_see_event`. -/
def checkClientAllowedToSeeEvent (userId : String) (e : LoadedEvent) (nowMs : Int)
    (filterSendToClient isPeeking : Bool) (alwaysIncludeIds : List String) (senderIgnored : Bool)
    (retentionPolicy : RetentionPolicy) (state : Option (StateMap LoadedEvent)) (senderErased : Bool) :
    Except Error (Option FilteredEvent) := do
  if filterSendToClient && checkFilterSendToClient e nowMs retentionPolicy senderIgnored = .denied then
    pure none
  else if e.eventId ∈ alwaysIncludeIds then pure (some ⟨e, false⟩)
  else if e.outlier then
    -- out-of-band memberships are shown to the user they are about
    if ← e.isOwnMembership userId then pure (some ⟨e, false⟩) else pure none
  else
    match state with
    | none => .error .exception
    | some state =>
      let visibility := getEffectiveRoomVisibilityFromState state
      if !senderErased && checkHistoryVisibility e visibility isPeeking = .allowed then
        pure (some ⟨e, false⟩)
      else
        let membershipResult ← checkMembership userId e visibility state isPeeking
        if !membershipResult.allowed then pure none
        else pure (some ⟨e, senderErased && !membershipResult.joined⟩)

/-- The membership that `allowed` annotates an event with. -/
def userMembership (userId : String) (e : LoadedEvent) (state : Option (StateMap LoadedEvent)) :
    Except Error Json := do
  if ← e.isOwnMembership userId then e.membership
  else
    match state with
    | some state =>
      match state.get? ("m.room.member", userId) with
      | some userMembershipEvent => userMembershipEvent.membership
      | none => pure (.str "leave")
    | none => .error .exception

/-- A call invite is not shown where the join rules let anybody in. -/
def inPublicRoom (state : Option (StateMap LoadedEvent)) : Except Error Bool :=
  match state with
  | none => .error .assertionError
  | some state =>
    match state.get? ("m.room.join_rules", "") with
    | some roomJoinRules =>
      match Json.member? roomJoinRules.content "join_rule" with
      | some (.str joinRule) => pure (joinRule == "public")
      | _ => pure false
    | none => pure false

/-- `allowed`. The retention policies are those bound in the surrounding function, if any. -/
def allowed (s : Storage) (userId : String) (isPeeking : Bool) (alwaysIncludeIds : List String)
    (filterSendToClient : Bool) (eventIdToState : Dict String (StateMap LoadedEvent))
    (ignoreList : List String) (erasedSenders : Dict String Bool)
    (retentionPolicies : Option (Dict String RetentionPolicy)) (e : LoadedEvent) :
    Except Error (Option ClientEvent) := do
  let stateAfterEvent := eventIdToState.get? e.eventId
  let policies ← match retentionPolicies with
    | some policies => pure policies
    | none => .error .nameError
  let retentionPolicy ← match policies.get? e.roomId with
    | some retentionPolicy => pure retentionPolicy
    | none => .error .keyError
  let filtered ← checkClientAllowedToSeeEvent userId e s.nowMs filterSendToClient isPeeking
    alwaysIncludeIds (e.sender ∈ ignoreList) retentionPolicy stateAfterEvent
    (erasedSenders.getD e.sender false)
  match filtered with
  | none => pure none
  | some filtered =>
    let ring ← if e.isCallInvite then inPublicRoom stateAfterEvent else pure false
    if ring then pure none
    else
      let membership ← userMembership userId e stateAfterEvent
      pure (some ⟨filtered, membership⟩)

/-- The events that are considered at all: no soft-failed ones, unless an admin asks for them. -/
def consideredEvents (s : Storage) (userId : String) (filterSendToClient : Bool)
    (events : List LoadedEvent) : List LoadedEvent :=
  let clientConfig := s.adminClientConfig userId
  if filterSendToClient && s.serverAdmin userId then
    if clientConfig.returnSoftFailedEvents then events
    else if clientConfig.returnPolicyServerSpammyEvents then
      events.filter fun e => !e.softFailed || e.policyServerSpammy
    else events.filter fun e => !e.softFailed
  else events.filter fun e => !e.softFailed

/-- `filter_and_transform_events_for_client`. -/
def filterAndTransformEventsForClient (s : Storage) (userId : String)
    (eventsBeforeFiltering : List LoadedEvent) (isPeeking : Bool) (alwaysIncludeIds : List String)
    (filterSendToClient : Bool) : Except Error (List ClientEvent) := do
  let foundCallInvite := eventsBeforeFiltering.any fun e => !e.softFailed && e.isCallInvite
  let events := consideredEvents s userId filterSendToClient eventsBeforeFiltering
  let types := [("m.room.history_visibility", some ""), ("m.room.member", some userId)] ++
    if foundCallInvite then [("m.room.join_rules", some "")] else []
  let eventIdToState := s.getStateForEvents ((events.filter fun e => !e.outlier).map (·.eventId)) (.fromTypes types)
  let ignoreList := s.ignoredUsers userId
  let erasedSenders := Dict.ofKeys (events.map (·.sender)) s.erased
  -- bound in this branch only
  let retentionPolicies :=
    if filterSendToClient then some (Dict.ofKeys (events.map (·.roomId)) s.retentionPolicy) else none
  let filteredEvents ← events.mapM (allowed s userId isPeeking alwaysIncludeIds filterSendToClient
    eventIdToState ignoreList erasedSenders retentionPolicies)
  pure (filteredEvents.filterMap id)

/-! ## §4 Many users for one event -/

/-- `_get_state_map`. -/
def getStateMap (s : Storage) (e : LoadedEvent) (stateFilter : StateFilter) : StateMap LoadedEvent :=
  let updatedStateMap := s.loadState (stateFilter.filterState (s.prevStateIds e.eventId))
  match e.stateKey with
  | some stateKey => updatedStateMap.set (e.type, stateKey) e
  | none => updatedStateMap

/-- The users left after the checks on what is sent to clients. -/
def allowedUserIds (s : Storage) (userIds : List String) (e : LoadedEvent) (filterSendToClient : Bool) :
    List String :=
  userIds.dedup.filter fun userId => !(filterSendToClient &&
    checkFilterSendToClient e s.nowMs (s.retentionPolicy e.roomId) (userId ∈ s.ignoredBy e.sender) = .denied)

/-- `filter_event_for_clients_with_state`. -/
def filterEventForClientsWithState (s : Storage) (userIds : List String) (e : LoadedEvent)
    (isPeeking filterSendToClient : Bool) : Except Error (List String) := do
  if e.softFailed then pure []
  else if userIds.isEmpty then pure []
  else
    let allowedUserIds := allowedUserIds s userIds e filterSendToClient
    if e.outlier then
      if e.type = "m.room.member" then
        let stateKey ← e.getStateKey
        if stateKey ∈ allowedUserIds then pure [stateKey] else pure []
      else pure []
    else
      let visibilityStateMap := getStateMap s e (.fromTypes [("m.room.history_visibility", some "")])
      let visibility := getEffectiveRoomVisibilityFromState visibilityStateMap
      if checkHistoryVisibility e visibility isPeeking = .allowed then pure allowedUserIds
      else
        let filterList := allowedUserIds.map (fun userId => ("m.room.member", some userId)) ++
          [("m.room.history_visibility", some "")]
        let stateMap := getStateMap s e (.fromTypes filterList)
        let results ← allowedUserIds.mapM fun userId => do
          let result ← checkMembership userId e visibility stateMap isPeeking
          pure (userId, result.allowed)
        pure ((results.filter Prod.snd).map Prod.fst)

/-! ## §5 The state after an event -/

/-- The user's own membership event. -/
def Own (e : LoadedEvent) (userId : String) : Prop := e.type = "m.room.member" ∧ e.stateKey = some userId

instance (e : LoadedEvent) (userId : String) : Decidable (Own e userId) :=
  inferInstanceAs (Decidable (_ ∧ _))

/-- An event the store has and did not reject. -/
def Storage.Has (s : Storage) (e : LoadedEvent) : Prop :=
  s.events.get? e.eventId = some e ∧ e.rejected = false

/-- The state after an event. -/
def Storage.stateAfter (s : Storage) (e : LoadedEvent) : StateMap LoadedEvent :=
  s.loadState (s.stateIdsAfter e.eventId)

variable {e : LoadedEvent}

theorem LoadedEvent.getStateKey_eq_ok (hrejected : e.rejected = false)
    (htype : e.type = "m.room.member") : ∃ stateKey, e.stateKey = some stateKey := by
  exact Option.ne_none_iff_exists'.mp (e.authed hrejected htype).1

theorem LoadedEvent.membership_eq_ok (hrejected : e.rejected = false)
    (htype : e.type = "m.room.member") : ∃ v, e.membership = .ok v := by
  obtain ⟨v, hv⟩ := Option.ne_none_iff_exists'.mp (e.authed hrejected htype).2
  exact ⟨v, by rw [LoadedEvent.membership, hv]⟩

theorem LoadedEvent.isOwnMembership_eq (hrejected : e.rejected = false) (userId : String) :
    e.isOwnMembership userId = .ok (decide (Own e userId)) := by
  unfold LoadedEvent.isOwnMembership
  by_cases htype : e.type = "m.room.member"
  · obtain ⟨stateKey, hkey⟩ := LoadedEvent.getStateKey_eq_ok hrejected htype
    rw [if_pos htype, LoadedEvent.getStateKey, hkey]
    simp [Own, htype, hkey, bind, Except.bind, pure, Except.pure]
  · rw [if_neg htype]
    simp [Own, htype, pure, Except.pure]

namespace Storage

variable {s : Storage} {e : LoadedEvent}

theorem get?_loadState (s : Storage) (stateIds : StateMap String) (key : String × String) :
    (s.loadState stateIds).get? key = (stateIds.get? key).bind s.getEvent := by
  apply Option.ext
  intro m
  rw [loadState, get?_filterMapValues, Option.bind_eq_some_iff]

variable {m : LoadedEvent}

theorem getEvent_eq_some {id : String} :
    s.getEvent id = some m ↔ s.events.get? id = some m ∧ m.rejected = false := by
  rw [getEvent, Option.filter_eq_some_iff, Bool.not_eq_true']

variable {stateFilter : StateFilter} {key : String × String}

/-- What a filter admits is loaded as if there were no filter. -/
theorem get?_loadState_filterState (h : stateFilter.admits key = true) (stateIds : StateMap String) :
    (s.loadState (stateFilter.filterState stateIds)).get? key = (s.loadState stateIds).get? key := by
  rw [get?_loadState, get?_loadState, StateFilter.get?_filterState, if_pos h]

theorem stateIdsAfter_eq (h : s.Has e) : s.stateIdsAfter e.eventId = e.stateKey.elim (s.prevStateIds e.eventId)
      fun stateKey => (s.prevStateIds e.eventId).set (e.type, stateKey) e.eventId := by
  rw [stateIdsAfter, h.1]
  cases hkey : e.stateKey with
  | none => simp only [hkey, Option.elim_none]
  | some stateKey => simp only [hkey, h.2, Bool.false_eq_true, if_false, elim_some]

/-- **The two states are one**: the state before the event with the event on top is the state after it,
wherever the filter lets it through. -/
theorem get?_getStateMap (h : s.Has e) (hadmits : stateFilter.admits key = true) :
    (getStateMap s e stateFilter).get? key = (s.stateAfter e).get? key := by
  rw [stateAfter, stateIdsAfter_eq h, getStateMap]
  cases e.stateKey with
  | none => exact get?_loadState_filterState hadmits _
  | some stateKey =>
    have hload := get?_loadState_filterState (s := s) hadmits (s.prevStateIds e.eventId)
    simp only [elim_some, get?_set, get?_loadState] at hload ⊢
    by_cases hkey : key = (e.type, stateKey)
    · rw [if_pos hkey, if_pos hkey]
      exact (getEvent_eq_some.mpr h).symm
    · rw [if_neg hkey, if_neg hkey]
      exact hload

theorem get?_getStateForEvents {ids : List String} {id : String} (h : id ∈ ids) :
    (s.getStateForEvents ids stateFilter).get? id =
      some (s.loadState (stateFilter.filterState (s.stateIdsAfter id))) := by
  rw [getStateForEvents, get?_ofKeys, if_pos h]

/-- The state after an event holds events that were not rejected, each under its own key. -/
theorem of_get?_stateAfter (h : s.Has e)
    (hm : (s.stateAfter e).get? key = some m) : m.rejected = false ∧ m.type = key.1 := by
  rw [stateAfter, get?_loadState, Option.bind_eq_some_iff] at hm
  obtain ⟨id, hid, hm⟩ := hm
  obtain ⟨hstored, hrejected⟩ := getEvent_eq_some.mp hm
  refine ⟨hrejected, ?_⟩
  rw [stateIdsAfter_eq h] at hid
  cases hkey : e.stateKey with
  | none =>
    rw [hkey] at hid
    exact (s.keyed _ _ _ _ hid hstored).1
  | some stateKey =>
    simp only [hkey, elim_some, get?_set] at hid
    split at hid
    · -- the event itself
      rename_i heq
      obtain rfl := Option.some.inj hid
      obtain rfl : e = m := Option.some.inj (h.1.symm.trans hstored)
      rw [heq]
    · exact (s.keyed _ _ _ _ hid hstored).1

/-- The membership of every member event in the state can be read. -/
theorem membership_of_stateAfter (h : s.Has e) {userId : String}
    (hm : (s.stateAfter e).get? ("m.room.member", userId) = some m) : ∃ v, m.membership = .ok v := by
  obtain ⟨hrejected, htype⟩ := of_get?_stateAfter h hm
  exact LoadedEvent.membership_eq_ok hrejected htype

end Storage

/-! ## §6 Who may see an event -/

/-- **Who may see an event**, in terms of the state after it: the memberships outside of any known room
are for the user they are about; every other event is for those that the history visibility or their own
membership lets in. -/
def MaySee (s : Storage) (userId : String) (e : LoadedEvent) (isPeeking : Bool) : Prop :=
  if e.outlier = true then Own e userId
  else
    checkHistoryVisibility e (getEffectiveRoomVisibilityFromState (s.stateAfter e)) isPeeking = .allowed ∨
      ∃ r, checkMembership userId e (getEffectiveRoomVisibilityFromState (s.stateAfter e)) (s.stateAfter e)
        isPeeking = .ok r ∧ r.allowed = true

/-- The event is kept from the user for reasons other than the state of the room. -/
def Denied (s : Storage) (userId : String) (e : LoadedEvent) : Prop :=
  checkFilterSendToClient e s.nowMs (s.retentionPolicy e.roomId) ((userId, e.sender) ∈ s.ignoredUsersTable) =
    .denied

instance (s : Storage) (userId : String) (e : LoadedEvent) : Decidable (Denied s userId e) :=
  inferInstanceAs (Decidable (_ = _))

variable {s : Storage} {userId : String}

theorem mem_ignoredUsers {sender : String} :
    sender ∈ s.ignoredUsers userId ↔ (userId, sender) ∈ s.ignoredUsersTable := by
  simp [Storage.ignoredUsers]

theorem mem_ignoredBy {sender : String} : userId ∈ s.ignoredBy sender ↔ (userId, sender) ∈ s.ignoredUsersTable := by
  simp [Storage.ignoredBy]

/-- The effective visibility depends on one entry of the state. -/
theorem getEffectiveRoomVisibilityFromState_congr {state state' : StateMap LoadedEvent}
    (h : state.get? ("m.room.history_visibility", "") = state'.get? ("m.room.history_visibility", "")) :
    getEffectiveRoomVisibilityFromState state = getEffectiveRoomVisibilityFromState state' := by
  unfold getEffectiveRoomVisibilityFromState
  rw [h]

/-- So does the membership check. -/
theorem checkMembership_congr {state state' : StateMap LoadedEvent}
    (h : state.get? ("m.room.member", userId) = state'.get? ("m.room.member", userId)) (e : LoadedEvent)
    (visibility : HistoryVisibility) (isPeeking : Bool) : checkMembership userId e visibility state isPeeking =
      checkMembership userId e visibility state' isPeeking := by
  unfold checkMembership
  rw [h]

/-- What the membership check finds on a stored event. -/
theorem exists_checkMembership (h : s.Has e) (userId : String) (visibility : HistoryVisibility)
    (isPeeking : Bool) : ∃ r, checkMembership userId e visibility (s.stateAfter e) isPeeking = .ok r := by
  unfold checkMembership
  rw [LoadedEvent.isOwnMembership_eq h.2, except_ok_bind]
  split
  · exact ⟨_, rfl⟩
  cases hm : (s.stateAfter e).get? ("m.room.member", userId) with
  | none => exact ⟨_, rfl⟩
  | some m =>
    obtain ⟨v, hv⟩ := Storage.membership_of_stateAfter h hm
    exact ⟨membershipResult (Membership.ofJson? v) visibility isPeeking, by simp only [hv]; rfl⟩

/-! ## §7 Many users for one event: who is included -/

theorem mem_allowedUserIds {userIds : List String} {fs : Bool} {u : String} :
    u ∈ allowedUserIds s userIds e fs ↔ u ∈ userIds ∧ ¬ (fs = true ∧ Denied s u e) := by
  rw [allowedUserIds, List.mem_filter, List.mem_dedup, Bool.not_eq_true', Bool.and_eq_false_iff]
  simp only [Denied, decide_eq_false_iff_not, mem_ignoredBy]
  grind

/-- The visibility that the second check computes is the one after the event. -/
theorem visibility_getStateMap (h : s.Has e) :
    getEffectiveRoomVisibilityFromState (getStateMap s e (.fromTypes [("m.room.history_visibility", some "")])) =
      getEffectiveRoomVisibilityFromState (s.stateAfter e) := by
  refine getEffectiveRoomVisibilityFromState_congr (Storage.get?_getStateMap h ?_)
  rw [StateFilter.admits_fromTypes]
  exact .inr List.mem_cons_self

/-- **The second check**: it does not raise on a stored event, and includes exactly the users that may see
the event and are not denied it. -/
theorem exists_filterEventForClientsWithState (h : s.Has e) (userIds : List String) (isPeeking fs : Bool) :
    ∃ out, filterEventForClientsWithState s userIds e isPeeking fs = .ok out ∧
      ∀ u, u ∈ out ↔ u ∈ userIds ∧ e.softFailed = false ∧ ¬ (fs = true ∧ Denied s u e) ∧
        MaySee s u e isPeeking := by
  unfold filterEventForClientsWithState
  by_cases hsoft : e.softFailed = true
  · exact ⟨[], by rw [if_pos hsoft]; rfl, fun u => by simp [hsoft]⟩
  rw [if_neg hsoft]
  by_cases hempty : userIds.isEmpty = true
  · exact ⟨[], by rw [if_pos hempty]; rfl, fun u => by simp [List.isEmpty_iff.mp hempty]⟩
  rw [if_neg hempty]
  by_cases houtlier : e.outlier = true
  · rw [if_pos houtlier]
    have hsee : ∀ u, MaySee s u e isPeeking ↔ Own e u := fun u => by rw [MaySee, if_pos houtlier]
    by_cases htype : e.type = "m.room.member"
    · obtain ⟨stateKey, hkey⟩ := LoadedEvent.getStateKey_eq_ok h.2 htype
      have hown : ∀ u, Own e u ↔ u = stateKey := fun u => by simp [Own, htype, hkey, eq_comm]
      rw [if_pos htype, LoadedEvent.getStateKey, hkey, except_ok_bind]
      by_cases hallowed : stateKey ∈ allowedUserIds s userIds e fs
      · refine ⟨[stateKey], by rw [if_pos hallowed]; rfl, fun u => ?_⟩
        have hmem := mem_allowedUserIds.mp hallowed
        grind
      · refine ⟨[], by rw [if_neg hallowed]; rfl, fun u => ?_⟩
        have hmem := fun hin => hallowed (mem_allowedUserIds.mpr hin)
        grind
    · refine ⟨[], by rw [if_neg htype]; rfl, fun u => ?_⟩
      simp [hsee, Own, htype]
  · simp only [MaySee, if_neg houtlier, visibility_getStateMap h]
    generalize hvisibility : getEffectiveRoomVisibilityFromState (s.stateAfter e) = visibility
    by_cases hlax : checkHistoryVisibility e visibility isPeeking = .allowed
    · refine ⟨allowedUserIds s userIds e fs, by rw [if_pos hlax]; rfl, fun u => ?_⟩
      rw [mem_allowedUserIds]
      simp only [hsoft, hlax, true_or, and_true, true_and]
    rw [if_neg hlax]
    choose result hresult using fun u => exists_checkMembership h u visibility isPeeking
    rw [mapM_eq_ok_map (g := fun u => (u, (result u).allowed)) fun u hu => ?_]
    · refine ⟨_, rfl, fun u => ?_⟩
      have hmem : u ∈ ((((allowedUserIds s userIds e fs).map fun u => (u, (result u).allowed)).filter
          Prod.snd).map Prod.fst) ↔ u ∈ allowedUserIds s userIds e fs ∧ (result u).allowed = true := by
        grind
      rw [hmem, mem_allowedUserIds]
      grind
    · rw [checkMembership_congr (Storage.get?_getStateMap h ?_), hresult u]
      · rfl
      · rw [StateFilter.admits_fromTypes]
        exact .inr (List.mem_append_left _ (List.mem_map.mpr ⟨u, hu, rfl⟩))

/-! ## §8 Many events for one user: what is returned -/

/-- What the first check gets of the state after an event: what its filter admits, and nothing for an
outlier. -/
def ReadsState (s : Storage) (userId : String) (e : LoadedEvent) (state : Option (StateMap LoadedEvent)) : Prop :=
  e.outlier = false → ∃ st, state = some st ∧
    st.get? ("m.room.history_visibility", "") = (s.stateAfter e).get? ("m.room.history_visibility", "") ∧
    st.get? ("m.room.member", userId) = (s.stateAfter e).get? ("m.room.member", userId)

variable {state : Option (StateMap LoadedEvent)}

/-- On a stored event the check of one event does not raise; where the sender is not erased, it lets the
event through for who may see it and is not denied it. -/
theorem exists_checkClientAllowedToSeeEvent (h : s.Has e) (hstate : ReadsState s userId e state)
    (fs isPeeking erased : Bool) :
    ∃ r, checkClientAllowedToSeeEvent userId e s.nowMs fs isPeeking [] (e.sender ∈ s.ignoredUsers userId)
        (s.retentionPolicy e.roomId) state erased = .ok r ∧
      (∀ f ∈ r, f.event = e ∧ (e.outlier = true → Own e userId)) ∧
      (erased = false → (r ≠ none ↔ ¬ (fs = true ∧ Denied s userId e) ∧ MaySee s userId e isPeeking)) := by
  have hdenied : (fs && decide (checkFilterSendToClient e s.nowMs (s.retentionPolicy e.roomId)
      (e.sender ∈ s.ignoredUsers userId) = .denied)) = true ↔ fs = true ∧ Denied s userId e := by
    simp only [Bool.and_eq_true, decide_eq_true_eq, Denied, mem_ignoredUsers]
  unfold checkClientAllowedToSeeEvent
  by_cases hd : fs = true ∧ Denied s userId e
  · refine ⟨none, by rw [if_pos (hdenied.mpr hd)]; rfl, fun f hf => absurd hf (not_mem_none f), ?_⟩
    simp [hd]
  rw [if_neg (mt hdenied.mp hd), if_neg List.not_mem_nil]
  by_cases houtlier : e.outlier = true
  · rw [if_pos houtlier, LoadedEvent.isOwnMembership_eq h.2, except_ok_bind]
    by_cases hown : Own e userId
    · refine ⟨some ⟨e, false⟩, by rw [if_pos (decide_eq_true hown)]; rfl, ?_, fun _ => ?_⟩
      · rintro f hf
        obtain rfl := Option.some.inj hf
        exact ⟨rfl, fun _ => hown⟩
      · simp [MaySee, houtlier, hown, hd]
    · refine ⟨none, by rw [decide_eq_false hown]; rfl, fun f hf => absurd hf (not_mem_none f), ?_⟩
      simp [MaySee, houtlier, hown]
  · obtain ⟨st, rfl, hvis, hmember⟩ := hstate (Bool.not_eq_true _ ▸ houtlier)
    obtain ⟨result, hresult⟩ := exists_checkMembership h userId
      (getEffectiveRoomVisibilityFromState (s.stateAfter e)) isPeeking
    simp only [if_neg houtlier, MaySee, getEffectiveRoomVisibilityFromState_congr hvis,
      checkMembership_congr hmember, hresult, except_ok_bind, Except.ok.injEq, exists_eq_left',
      Bool.and_eq_true, Bool.not_eq_true', decide_eq_true_eq]
    -- the sender's erasure only takes away the shortcut
    split
    · rename_i hlax
      refine ⟨_, rfl, ?_, fun _ => by simp [hd, hlax.2]⟩
      rintro f hf
      obtain rfl := Option.some.inj hf
      exact ⟨rfl, fun hout => absurd hout houtlier⟩
    rename_i hlax
    cases hallowed : result.allowed with
    | false =>
      refine ⟨none, rfl, fun f hf => absurd hf (not_mem_none f), fun herased => ?_⟩
      simp only [ne_eq, not_true_eq_false, Bool.false_eq_true, or_false, false_iff, not_and]
      exact fun _ hl => hlax ⟨herased, hl⟩
    | true =>
      refine ⟨_, rfl, ?_, fun _ => by simp [hd]⟩
      rintro f hf
      obtain rfl := Option.some.inj hf
      exact ⟨rfl, fun hout => absurd hout houtlier⟩

/-- The annotation does not raise on an event that was let through. -/
theorem exists_userMembership (h : s.Has e) (hstate : ReadsState s userId e state)
    (hown : e.outlier = true → Own e userId) : ∃ v, userMembership userId e state = .ok v := by
  unfold userMembership
  rw [LoadedEvent.isOwnMembership_eq h.2, except_ok_bind]
  by_cases ho : Own e userId
  · obtain ⟨v, hv⟩ := LoadedEvent.membership_eq_ok h.2 ho.1
    exact ⟨v, by rw [if_pos (decide_eq_true ho), hv]⟩
  rw [decide_eq_false ho, if_neg Bool.false_ne_true]
  obtain ⟨st, rfl, -, hmember⟩ := hstate (Bool.eq_false_of_not_eq_true fun hout => ho (hown hout))
  simp only [hmember]
  cases hm : (s.stateAfter e).get? ("m.room.member", userId) with
  | none => exact ⟨_, rfl⟩
  | some m => exact Storage.membership_of_stateAfter h hm

/-- Nor does the test of the join rules for a call invite. -/
theorem exists_inPublicRoom (hstate : ReadsState s userId e state) (hown : e.outlier = true → Own e userId)
    (hcall : e.isCallInvite = true) : ∃ b, inPublicRoom state = .ok b := by
  have hnot : ¬ Own e userId := fun ho => by
    simp [LoadedEvent.isCallInvite, ho.1] at hcall
  obtain ⟨st, rfl, -, -⟩ := hstate (Bool.eq_false_of_not_eq_true fun hout => hnot (hown hout))
  unfold inPublicRoom
  dsimp only
  split
  · split <;> exact ⟨_, rfl⟩
  · exact ⟨_, rfl⟩

/-- **The closure `allowed`** does not raise on a stored event once the retention policies are bound, and
returns the event itself; where the sender is not erased and the event is no call invite, it returns
it for who may see it and is not denied it. -/
theorem exists_allowed (h : s.Has e) {eventIdToState : Dict String (StateMap LoadedEvent)}
    (hstate : ReadsState s userId e (eventIdToState.get? e.eventId)) {erasedSenders : Dict String Bool}
    (herased : erasedSenders.getD e.sender false = s.erased e.sender) {policies : Dict String RetentionPolicy}
    (hpolicy : policies.get? e.roomId = some (s.retentionPolicy e.roomId)) (fs isPeeking : Bool) :
    ∃ r, allowed s userId isPeeking [] fs eventIdToState (s.ignoredUsers userId) erasedSenders (some policies)
        e = .ok r ∧
      (∀ c ∈ r, c.event = e) ∧
      (s.erased e.sender = false → e.isCallInvite = false →
        (r ≠ none ↔ ¬ (fs = true ∧ Denied s userId e) ∧ MaySee s userId e isPeeking)) := by
  obtain ⟨filtered, hcheck, hevent, hsee⟩ :=
    exists_checkClientAllowedToSeeEvent h hstate fs isPeeking (s.erased e.sender)
  unfold allowed
  simp only [hpolicy, herased, pure_bind, hcheck, except_ok_bind]
  cases filtered with
  | none =>
    refine ⟨none, rfl, fun c hc => absurd hc (not_mem_none c), fun he _ => ?_⟩
    exact ⟨fun hne => absurd rfl hne, fun hs => absurd rfl ((hsee he).mpr hs)⟩
  | some filtered =>
    obtain ⟨heq, hown⟩ := hevent filtered rfl
    obtain ⟨v, hv⟩ := exists_userMembership h hstate hown
    have hshown : s.erased e.sender = false → ¬ (fs = true ∧ Denied s userId e) ∧
        MaySee s userId e isPeeking := fun he => (hsee he).mp (some_ne_none filtered)
    have hreturn : ∀ c ∈ some (ClientEvent.mk filtered v), c.event = e := by
      rintro c hc
      obtain rfl := Option.some.inj hc
      exact heq
    cases hcall : e.isCallInvite with
    | false =>
      refine ⟨some ⟨filtered, v⟩, by rw [hv]; rfl, hreturn, fun he _ => ?_⟩
      exact ⟨fun _ => hshown he, fun _ => some_ne_none _⟩
    | true =>
      obtain ⟨ring, hring⟩ := exists_inPublicRoom hstate hown hcall
      dsimp only
      rw [if_pos rfl, hring, except_ok_bind]
      cases ring with
      | true => exact ⟨none, rfl, fun c hc => absurd hc (not_mem_none c), fun _ hc => by cases hc⟩
      | false => exact ⟨some ⟨filtered, v⟩, by rw [hv]; rfl, hreturn, fun _ hc => by cases hc⟩

variable {events : List LoadedEvent}

/-- The state that the whole filter hands to `allowed`. -/
theorem readsState_getStateForEvents (hin : e ∈ events) (rest : List (String × Option String)) :
    ReadsState s userId e ((s.getStateForEvents ((events.filter fun e => !e.outlier).map (·.eventId))
      (.fromTypes ([("m.room.history_visibility", some ""), ("m.room.member", some userId)] ++ rest))).get?
        e.eventId) := by
  intro houtlier
  have hmem : e.eventId ∈ (events.filter fun e => !e.outlier).map (·.eventId) :=
    List.mem_map.mpr ⟨e, List.mem_filter.mpr ⟨hin, by rw [houtlier]; rfl⟩, rfl⟩
  rw [Storage.get?_getStateForEvents hmem]
  refine ⟨_, rfl, Storage.get?_loadState_filterState ?_ _, Storage.get?_loadState_filterState ?_ _⟩
  · rw [StateFilter.admits_fromTypes]
    exact .inr List.mem_cons_self
  · rw [StateFilter.admits_fromTypes]
    exact .inr (List.mem_cons_of_mem _ List.mem_cons_self)

/-- For who is not an admin the soft-failed events are left out. -/
theorem consideredEvents_eq (hadmin : s.serverAdmin userId = false) (fs : Bool) (events : List LoadedEvent) :
    consideredEvents s userId fs events = events.filter fun e => !e.softFailed := by
  unfold consideredEvents
  rw [hadmin, Bool.and_false]
  rfl

/-- **The first check, sending to a client**: it does not raise on stored events, and of those whose sender
is not erased and that are no call invites it returns exactly the ones the user may see and is not
denied. -/
theorem exists_filterAndTransformEventsForClient (hadmin : s.serverAdmin userId = false)
    (hhas : ∀ e ∈ events, s.Has e) (isPeeking : Bool) :
    ∃ out, filterAndTransformEventsForClient s userId events isPeeking [] true = .ok out ∧
      ∀ e ∈ events, s.erased e.sender = false → e.isCallInvite = false → ((∃ c ∈ out, c.event = e) ↔
          e.softFailed = false ∧ ¬ Denied s userId e ∧ MaySee s userId e isPeeking) := by
  unfold filterAndTransformEventsForClient
  rw [consideredEvents_eq hadmin]
  have hof : ∀ e ∈ events.filter fun e => !e.softFailed, e ∈ events := fun e he => List.mem_of_mem_filter he
  have hsenders : ∀ e ∈ events.filter fun e => !e.softFailed,
      (Dict.ofKeys ((events.filter fun e => !e.softFailed).map (·.sender)) s.erased).getD e.sender false =
        s.erased e.sender := fun e he => by
    refine getD_of_get? ?_ _
    rw [get?_ofKeys, if_pos (List.mem_map_of_mem he)]
  have hpolicies : ∀ e ∈ events.filter fun e => !e.softFailed,
      (Dict.ofKeys ((events.filter fun e => !e.softFailed).map (·.roomId)) s.retentionPolicy).get? e.roomId =
        some (s.retentionPolicy e.roomId) := fun e he => by
    rw [get?_ofKeys, if_pos (List.mem_map_of_mem he)]
  -- each turn of the loop ends well
  choose! r hr hevent hsee using fun e (he : e ∈ events.filter fun e => !e.softFailed) =>
    exists_allowed (hhas e (hof e he))
      (readsState_getStateForEvents he (if events.any fun e => !e.softFailed && e.isCallInvite then
        [("m.room.join_rules", some "")] else [])) (hsenders e he) (hpolicies e he) true isPeeking
  dsimp only
  rw [if_pos rfl, mapM_eq_ok_map hr]
  refine ⟨_, rfl, fun e he herased hcall => ?_⟩
  have hout : (∃ c ∈ ((events.filter fun e => !e.softFailed).map r).filterMap id, c.event = e) ↔
      e ∈ events.filter (fun e => !e.softFailed) ∧ r e ≠ none := by
    constructor
    · rintro ⟨c, hc, hce⟩
      obtain ⟨o, ho, hoc⟩ := List.mem_filterMap.mp hc
      obtain ⟨e', he', rfl⟩ := List.mem_map.mp ho
      obtain rfl : e = e' := hce.symm.trans (hevent e' he' c hoc)
      exact ⟨he', by rw [show r e = some c from hoc]; exact some_ne_none c⟩
    · rintro ⟨he', hne⟩
      obtain ⟨c, hc⟩ := Option.ne_none_iff_exists'.mp hne
      exact ⟨c, List.mem_filterMap.mpr ⟨r e, List.mem_map_of_mem he', hc⟩, hevent e he' c hc⟩
  rw [hout]
  constructor
  · rintro ⟨he', hne⟩
    have hs := (hsee e he' herased hcall).mp hne
    exact ⟨by simpa using (List.mem_filter.mp he').2, fun hd => hs.1 ⟨rfl, hd⟩, hs.2⟩
  rintro ⟨hsoft, hd, hs⟩
  have he' : e ∈ events.filter fun e => !e.softFailed := List.mem_filter.mpr ⟨he, by rw [hsoft]; rfl⟩
  exact ⟨he', (hsee e he' herased hcall).mpr ⟨fun h => hd h.2, hs⟩⟩

variable {isPeeking : Bool}

/-- Without the checks for sending to a client the retention policies are unbound, and no event is
returned. -/
theorem not_returned_of_not_filterSendToClient {ids : List String} {out : List ClientEvent}
    (hout : filterAndTransformEventsForClient s userId events isPeeking ids false = .ok out) : out = [] := by
  obtain ⟨filtered, hfiltered, hout⟩ := except_bind_eq_ok.mp hout
  obtain rfl := Except.ok.inj hout
  rw [List.filterMap_eq_nil_iff]
  intro o ho
  obtain ⟨e, -, hallowed⟩ := exists_of_mapM_eq_ok hfiltered ho
  cases hallowed

/-! ## §9 Nothing leaks, and where the two checks agree -/

/-- The user's membership at an event. -/
def membershipAt (s : Storage) (userId : String) (e : LoadedEvent) : Option Membership :=
  ((s.stateAfter e).get? ("m.room.member", userId)).bind fun m =>
    (Json.member? m.content "membership").bind Membership.ofJson?

/-- On events other than the user's own membership event, the check goes by the membership at the event. -/
theorem checkMembership_of_not_own (h : s.Has e) (hown : ¬ Own e userId) (visibility : HistoryVisibility)
    (isPeeking : Bool) : checkMembership userId e visibility (s.stateAfter e) isPeeking =
      .ok (membershipResult (membershipAt s userId e) visibility isPeeking) := by
  unfold checkMembership membershipAt
  rw [LoadedEvent.isOwnMembership_eq h.2, except_ok_bind, decide_eq_false hown, if_neg Bool.false_ne_true]
  cases hm : (s.stateAfter e).get? ("m.room.member", userId) with
  | none => rfl
  | some m =>
    obtain ⟨v, hv⟩ := Storage.membership_of_stateAfter h hm
    have hmember : Json.member? m.content "membership" = some v := by
      unfold LoadedEvent.membership at hv
      split at hv
      · rename_i hget
        rw [hget, Except.ok.inj hv]
      · cases hv
    simp only [hv, Option.bind_some, hmember]
    rfl

/-- The visibility in force is never stricter than the one for a boundary. -/
theorem visibility_of_boundaryVisibility (e : LoadedEvent) (visibility : HistoryVisibility) :
    (boundaryVisibility e visibility = joined → visibility = joined) ∧
      (boundaryVisibility e visibility = invited → visibility = joined ∨ visibility = invited) := by
  unfold boundaryVisibility
  split
  · generalize ((Json.member? e.prevContent "history_visibility").bind HistoryVisibility.ofJson?).getD
      shared = prevVisibility
    cases visibility <;> cases prevVisibility <;> decide
  · exact ⟨id, .inr⟩

/-- The visibility that counts for an event: for a history visibility event the laxer one of the old and
the new. -/
def effectiveVisibility (s : Storage) (e : LoadedEvent) : HistoryVisibility :=
  boundaryVisibility e (getEffectiveRoomVisibilityFromState (s.stateAfter e))

/-- **No leak**: where the history visibility at a boundary is joined (or invited), whoever sees an event
that is not their own membership event was joined (or joined or invited) at it. -/
def NoLeak (s : Storage) (userId : String) (e : LoadedEvent) (shown : Prop) : Prop :=
  e.outlier = false → ¬ Own e userId → shown →
    (effectiveVisibility s e = joined → membershipAt s userId e = some join) ∧
      (effectiveVisibility s e = invited →
        membershipAt s userId e = some join ∨ membershipAt s userId e = some invite)

theorem noLeak_of_maySee (h : s.Has e) {shown : Prop}
    (hshown : shown → MaySee s userId e isPeeking) : NoLeak s userId e shown := by
  intro houtlier hown hs
  have hsee := hshown hs
  rw [MaySee, if_neg (by rw [houtlier]; exact Bool.false_ne_true), checkMembership_of_not_own h hown] at hsee
  obtain ⟨hjoined, hinvited⟩ :=
    visibility_of_boundaryVisibility e (getEffectiveRoomVisibilityFromState (s.stateAfter e))
  rcases hsee with hlax | ⟨r, hr, hallowed⟩
  · -- a lax visibility is neither of the two
    have hnot : effectiveVisibility s e ≠ joined ∧ effectiveVisibility s e ≠ invited := by
      constructor <;> intro heq <;> simp [checkHistoryVisibility, show boundaryVisibility e _ = _ from heq] at hlax
    exact ⟨fun hv => absurd hv hnot.1, fun hv => absurd hv hnot.2⟩
  obtain rfl := Except.ok.inj hr
  constructor
  · intro hv
    rw [hjoined hv] at hallowed
    by_contra hne
    simp [membershipResult, hne] at hallowed
  · intro hv
    by_contra hne
    obtain ⟨hnotJoin, hnotInvite⟩ := not_or.mp hne
    rcases hinvited hv with hv' | hv' <;> simp [hv', membershipResult, hnotJoin, hnotInvite] at hallowed

/-- The first check returns the event, without raising. -/
def Returned (s : Storage) (userId : String) (events : List LoadedEvent) (isPeeking fs : Bool)
    (e : LoadedEvent) : Prop :=
  ∃ out, filterAndTransformEventsForClient s userId events isPeeking [] fs = .ok out ∧
    ∃ c ∈ out, c.event = e

/-- The second check includes the user. -/
def Included (s : Storage) (userIds : List String) (e : LoadedEvent) (isPeeking fs : Bool)
    (userId : String) : Prop :=
  ∃ out, filterEventForClientsWithState s userIds e isPeeking fs = .ok out ∧ userId ∈ out

theorem included_iff (h : s.Has e) {userIds : List String} {fs : Bool} :
    Included s userIds e isPeeking fs userId ↔ userId ∈ userIds ∧ e.softFailed = false ∧
      ¬ (fs = true ∧ Denied s userId e) ∧ MaySee s userId e isPeeking := by
  obtain ⟨out, hout, hmem⟩ := exists_filterEventForClientsWithState h userIds isPeeking fs
  rw [← hmem]
  constructor
  · rintro ⟨out', hout', hin⟩
    obtain rfl : out = out' := Except.ok.inj (hout.symm.trans hout')
    exact hin
  · exact fun hin => ⟨out, hout, hin⟩

theorem returned_iff (hadmin : s.serverAdmin userId = false) (hhas : ∀ e ∈ events, s.Has e) (he : e ∈ events)
    (herased : s.erased e.sender = false) (hcall : e.isCallInvite = false) :
    Returned s userId events isPeeking true e ↔
      e.softFailed = false ∧ ¬ Denied s userId e ∧ MaySee s userId e isPeeking := by
  obtain ⟨out, hout, hmem⟩ := exists_filterAndTransformEventsForClient hadmin hhas isPeeking
  rw [← hmem e he herased hcall]
  constructor
  · rintro ⟨out', hout', hin⟩
    obtain rfl : out = out' := Except.ok.inj (hout.symm.trans hout')
    exact hin
  · exact fun hin => ⟨out, hout, hin⟩

theorem not_returned : ¬ Returned s userId events isPeeking false e := by
  rintro ⟨out, hout, c, hc, -⟩
  rw [not_returned_of_not_filterSendToClient hout] at hc
  exact absurd hc List.not_mem_nil

/-- **Where the two checks agree**: for an event of the given list that is no call invite and whose sender
is not erased, and for a user who is not an admin, they give the same answer and leak nothing exactly when
the events are about to be sent to a client, or the event is soft-failed, or the user may not see it. In
every other case the first check stops at its unbound retention policies. -/
theorem filters_agree_iff (s : Storage) (userId : String) (hadmin : s.serverAdmin userId = false)
    (events : List LoadedEvent) (hhas : ∀ e ∈ events, s.Has e) (e : LoadedEvent) (he : e ∈ events)
    (hcall : e.isCallInvite = false) (herased : s.erased e.sender = false) (userIds : List String)
    (huser : userId ∈ userIds) (isPeeking filterSendToClient : Bool) :
    ((Returned s userId events isPeeking filterSendToClient e ↔
        Included s userIds e isPeeking filterSendToClient userId) ∧
      NoLeak s userId e (Returned s userId events isPeeking filterSendToClient e ∨
        Included s userIds e isPeeking filterSendToClient userId)) ↔
      filterSendToClient = true ∨ e.softFailed = true ∨ ¬ MaySee s userId e isPeeking := by
  have hincluded : Included s userIds e isPeeking filterSendToClient userId ↔ _ := included_iff (hhas e he)
  cases filterSendToClient with
  | true =>
    have hreturned : Returned s userId events isPeeking true e ↔ _ :=
      returned_iff hadmin hhas he herased hcall
    have hleak : NoLeak s userId e (Returned s userId events isPeeking true e ∨
        Included s userIds e isPeeking true userId) :=
      noLeak_of_maySee (hhas e he) fun h =>
        h.elim (fun h => (hreturned.mp h).2.2) fun h => (hincluded.mp h).2.2.2
    refine iff_of_true ⟨?_, hleak⟩ (.inl rfl)
    rw [hreturned, hincluded]
    simp [huser]
  | false =>
    have hleak : NoLeak s userId e (Returned s userId events isPeeking false e ∨
        Included s userIds e isPeeking false userId) :=
      noLeak_of_maySee (hhas e he) fun h => (hincluded.mp (h.resolve_left not_returned)).2.2.2
    rw [and_iff_left hleak, iff_false_left not_returned, hincluded]
    grind

/-! ## §10 A message in a room without a history visibility -/

def exampleMessage : LoadedEvent where
  eventId := "$m"
  roomId := "!r:s"
  roomVersion := RoomVersions.v11
  type := "m.room.message"
  stateKey := none
  sender := "@alice:s"
  originServerTs := 1000
  content := [("body", .str "hello")]
  authEventIds := []
  rejected := false
  prevContent := []
  softFailed := false
  outlier := false
  policyServerSpammy := false
  authed := fun _ h => absurd h (by decide)

def exampleStorage : Storage where
  nowMs := 2000
  events := Dict.empty.set "$m" exampleMessage
  prevStateIds := fun _ => .empty
  serverAdmin := fun _ => false
  adminClientConfig := fun _ => ⟨false, false⟩
  ignoredUsersTable := []
  erased := fun _ => false
  retentionPolicy := fun _ => ⟨none, none⟩
  keyed := fun _ _ _ _ h => by cases h

theorem exampleStorage_has : ∀ e ∈ [exampleMessage], exampleStorage.Has e := by
  intro e he
  obtain rfl := List.mem_singleton.mp he
  exact ⟨rfl, rfl⟩

theorem filters_agree_iff_example : ((Returned exampleStorage "@bob:s" [exampleMessage] false true exampleMessage ↔
        Included exampleStorage ["@bob:s", "@carol:s"] exampleMessage false true "@bob:s") ∧
      NoLeak exampleStorage "@bob:s" exampleMessage
        (Returned exampleStorage "@bob:s" [exampleMessage] false true exampleMessage ∨
          Included exampleStorage ["@bob:s", "@carol:s"] exampleMessage false true "@bob:s")) :=
  (filters_agree_iff exampleStorage "@bob:s" rfl [exampleMessage] exampleStorage_has exampleMessage
    List.mem_cons_self rfl rfl ["@bob:s", "@carol:s"] List.mem_cons_self false true).mpr (.inl rfl)

/-- A check that is not for sending to a client raises in the one function and includes the user in the
other. -/
theorem retention_policies_unbound :
    filterAndTransformEventsForClient exampleStorage "@bob:s" [exampleMessage] false [] false = .error .nameError ∧
      filterEventForClientsWithState exampleStorage ["@bob:s"] exampleMessage false false = .ok ["@bob:s"] ∧
      ¬ (Returned exampleStorage "@bob:s" [exampleMessage] false false exampleMessage ↔
        Included exampleStorage ["@bob:s"] exampleMessage false false "@bob:s") := by
  have hincludes :
      filterEventForClientsWithState exampleStorage ["@bob:s"] exampleMessage false false = .ok ["@bob:s"] := by
    rfl
  refine ⟨rfl, hincludes, fun h => not_returned (h.mpr ⟨_, hincludes, List.mem_cons_self⟩)⟩

end Setka.Visibility
