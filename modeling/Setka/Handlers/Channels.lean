/-
# Setka.Handlers.Channels — broadcast channels.

A room is a channel by its topic. `SetkaChannelsHandler` lets moderators post into it, registers it for
the feed and puts what they post into the index of the feed.
-/
import Setka.EventAuth
import Setka.Handlers.Feed

namespace Setka.Handlers.Channels

open Setka.Api Setka.Events Setka.EventAuth Setka.Lib Setka.Handlers.Feed

/-! ## §1 Channels and comments -/

/-- `CHANNEL_TOPIC_PREFIX`, `MODERATOR_POWER_LEVEL`, `_FEED_EVENT_TYPES`, `_THREAD_REL_TYPES` and
`_PUBLIC_JOIN_RULES`. -/
def channelTopicPrefix : String := "setka:channel"

def moderatorPowerLevel : ℤ := 50

def feedEventTypes : List String := ["m.room.message", "m.sticker"]

def threadRelTypes : List String := ["m.thread", "io.element.thread"]

def publicJoinRules : List String := ["public", "knock", "knock_restricted"]

/-- `_topic_from_state`. -/
def topicFromState (str : Str) (state : StateMap EventBase) : String :=
  match state.get? ("m.room.topic", "") with
  | some topic => strOr str "" (Json.member? topic.content "topic")
  | none => ""

/-- `_is_setka_channel_state`. -/
def isSetkaChannelState (str : Str) (uni : PyStr.Unicode) (state : StateMap EventBase) : Bool :=
  PyStr.startsWith channelTopicPrefix (uni.lower (PyStr.strip (topicFromState str state)))

/-- A character that `[a-z0-9_]` matches when case is ignored: besides those of ASCII, four letters
whose other case is one of them. -/
def isTagChar (c : Char) : Bool :=
  c.isAlphanum || c = '_' || c.toNat ∈ [0x130, 0x131, 0x17f, 0x212a]

/-- `_parse_channel_tag`. -/
def parseChannelTag (uni : PyStr.Unicode) (topic : String) : Option String :=
  if PyStr.startsWith channelTopicPrefix (uni.lower topic) then
    let remainder := PyStr.strip (PyStr.drop channelTopicPrefix.length (PyStr.strip topic))
    let first := PyStr.strip (String.ofList (remainder.toList.takeWhile fun c => c ≠ ' '))
    match first.toList with
    | '#' :: tag =>
      if 3 ≤ tag.length ∧ tag.length ≤ 32 ∧ tag.all isTagChar then
        some (uni.lower (String.ofList tag))
      else none
    | _ => none
  else none

/-- A truthy `event_id` in a mapping. -/
def namesEvent : Option Json → Bool
  | some (.obj members) => (Json.truthy? (Json.member? members "event_id")).isSome
  | _ => false

/-- `_is_threaded_content`. The relation type is looked up in a set, which takes no list and no
dictionary; of a frozen event these are tuples and `immutabledict`s. -/
def isThreadedContent (o : EventObject) : Except Error Bool :=
  let top := namesEvent (Json.member? o.event.content "m.in_reply_to")
  match Json.member? o.event.content "m.relates_to" with
  | some (.obj relates) =>
    let relType := Json.member? relates "rel_type"
    match relType with
    | some (.str relType) =>
      .ok (relType ∈ threadRelTypes || (relType ≠ "" && namesEvent (some (.obj relates))) ||
        namesEvent (Json.member? relates "m.in_reply_to") || top)
    | some (.arr _) | some (.obj _) =>
      if o.frozen then
        .ok (((Json.truthy? relType).isSome && namesEvent (some (.obj relates))) ||
          namesEvent (Json.member? relates "m.in_reply_to") || top)
      else .error .typeError
    | _ =>
      .ok (((Json.truthy? relType).isSome && namesEvent (some (.obj relates))) ||
        namesEvent (Json.member? relates "m.in_reply_to") || top)
  | _ => .ok top

/-- The level that messages of a channel are lowered to. An `OverflowError` is not caught. -/
def loweredDefault (powerLevels : Option EventBase) : Except Error ℤ :=
  match powerLevels with
  | none => .ok 0
  | some powerLevels =>
    match toInt ((Json.truthy? (Json.member? powerLevels.content "users_default")).getD (.int 0)) with
    | .ok level => .ok level
    | .error .overflowError => .error .overflowError
    | .error _ => .ok 0

/-- `setka_channel_thread_comment_send_level`. -/
def setkaChannelThreadCommentSendLevel (str : Str) (uni : PyStr.Unicode) (o : EventObject)
    (authEvents : StateMap EventBase) : Except Error (Option ℤ) :=
  if o.event.type ∉ feedEventTypes then .ok none
  else if isSetkaChannelState str uni authEvents = false then .ok none
  else do
    let threaded ← isThreadedContent o
    if threaded then pure none
    else do
      let level ← loweredDefault (authEvents.get? powerLevelsKey)
      pure (some level)

/-! ## §2 The registry -/

/-- `_upsert_published_channel`. `category` is `none` where `update_category` is off. -/
def upsertPublishedChannel (roomId : String) (tag : Option String) (publishedAt : ℤ)
    (category : Option (Option String)) : Action World Error Unit :=
  .modify fun w =>
    { w with
      published := w.published.set roomId (match w.published.get? roomId with
          | some c =>
            { c with publishedAt, tag, categoryId := category.getD c.categoryId, feedEnabled := true }
          | none =>
            { publishedAt, tag, hidden := false, categoryId := category.getD none
              feedEnabled := true }) }

/-- `unpublish_channel`. -/
def unpublishChannel (roomId : String) : Action World Error Unit :=
  .modify fun w => { w with published := w.published.erase roomId }

/-- `set_channel_hidden`. -/
def setChannelHidden (roomId : String) (hidden : Bool) : Action World Error Unit := do
  let known ← .reads fun w => .ok (w.published.get? roomId).isSome
  if known then .modify fun w => w.updateChannel roomId fun c => { c with hidden }
  else .raise (.synapseError 404 "Channel not in registry" "M_NOT_FOUND")

/-- The `join_rule` of a room's state. -/
def joinRuleFromState (str : Str) (state : StateMap EventBase) : String :=
  match state.get? ("m.room.join_rules", "") with
  | some joinRules => strOr str "" (Json.member? joinRules.content "join_rule")
  | none => ""

/-- The category under which `ensure_channel_published` registers a public room. -/
def resolvedCategoryId (w : World) (roomId : String) (categoryId : Option String) : Except Error String :=
  let existing := ((w.published.get? roomId).bind PublishedChannel.categoryId).getD ""
  if categoryId.getD "" ≠ "" then validateCategoryId w (categoryId.getD "")
  else if existing ≠ "" then .ok existing
  else .error (.synapseError 400 "category_id is required" "M_MISSING_PARAM")

/-- `ensure_channel_published`. `state` is the room's state as it was loaded, `none` where that
failed. -/
def ensureChannelPublished (str : Str) (uni : PyStr.Unicode) (now : ℤ) (roomId : String)
    (categoryId : Option String) (state : Option (StateMap EventBase)) : Action World Error Bool :=
  match state with
  | none => pure false
  | some state =>
    if isSetkaChannelState str uni state = false then pure false
    else
      let joinRule := joinRuleFromState str state
      let tag := parseChannelTag uni (topicFromState str state)
      if joinRule ∉ publicJoinRules then do
        unpublishChannel roomId
        pure false
      else if joinRule = "public" then do
        let resolved ← .reads fun w => resolvedCategoryId w roomId categoryId
        upsertPublishedChannel roomId tag now (some (some resolved))
        pure true
      else do
        upsertPublishedChannel roomId tag now none
        pure true

/-- The rooms that `rebuild_registry` scans, with their topics. `like` is the database's
`LOWER(…) LIKE ?`. -/
def scannedRooms (like : String → String → Bool) (w : World) : List (String × String) :=
  w.roomStats.items.filterMap fun (roomId, stats) =>
    match stats.topic, stats.joinRules with
    | some topic, some joinRules =>
      if like topic ("%" ++ channelTopicPrefix ++ "%") ∧ joinRules ∈ publicJoinRules then
        some (roomId, topic)
      else none
    | _, _ => none

/-- What `rebuild_registry` writes for one room of the scan. -/
def rebuildRoom (uni : PyStr.Unicode) (now : ℤ) (published : Dict String PublishedChannel)
    (room : String × String) : Dict String PublishedChannel :=
  let tag := parseChannelTag uni room.2
  published.set room.1 (match published.get? room.1 with
      | some c => { c with tag }
      | none => { publishedAt := now, tag, hidden := false, categoryId := none, feedEnabled := true })

/-- `rebuild_registry`. The scan is a transaction of its own: `scanned` is what it found. -/
def rebuildRegistry (uni : PyStr.Unicode) (now : ℤ) (scanned : List (String × String)) : Action World Error Unit :=
  .modify fun w =>
    let published := scanned.foldl (rebuildRoom uni now) w.published
    let stale := published.keys.filter fun roomId => roomId ∉ scanned.map Prod.fst
    { w with published := stale.foldl Dict.erase published }

/-! ## §3 Messages -/

/-- `_ensure_feed_registry_for_channel`. -/
def ensureFeedRegistryForChannel (str : Str) (uni : PyStr.Unicode) (now : ℤ) (roomId : String)
    (state : StateMap EventBase) : Action World Error Unit :=
  upsertPublishedChannel roomId (parseChannelTag uni (topicFromState str state)) now none

/-- The calls of the database that fail while a message is checked. -/
structure Outage where
  registry : Bool
  index : Bool

/-- What `check_event_allowed` does with the post of a moderator. Failures are only logged. -/
def admitPost (str : Str) (uni : PyStr.Unicode) (now : ℤ) (outage : Outage) (o : EventObject)
    (state : StateMap EventBase) : Action World Error Unit :=
  if outage.registry then pure ()
  else do
    ensureFeedRegistryForChannel str uni now o.event.roomId state
    if outage.index then pure () else maybeIngestEvent str o

/-- `check_event_allowed`. -/
def checkEventAllowed (str : Str) (uni : PyStr.Unicode) (now : ℤ) (outage : Outage)
    (o : EventObject) (state : StateMap EventBase) : Action World Error Bool :=
  if o.event.type ∉ feedEventTypes then pure true
  else if isSetkaChannelState str uni state = false then pure true
  else do
    let threaded ← .lift (isThreadedContent o)
    if threaded then pure true
    else do
      let level ← .lift (getUserPowerLevel o.event.sender state)
      if moderatorPowerLevel ≤ level then do
        admitPost str uni now outage o state
        pure true
      else pure false

end Setka.Handlers.Channels
