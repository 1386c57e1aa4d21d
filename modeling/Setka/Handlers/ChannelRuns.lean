/-
# Setka.Handlers.ChannelRuns — what happens to rooms, channels and the feed.

The steps of a server: messages are proposed and checked, events are stored and redacted, rooms change,
channels are published and administered, and users read the feed.
-/
import Setka.Handlers.Channels
import Setka.Handlers.FeedShown
import Setka.Lib.Transition
import Setka.ModuleApi.ThirdPartyEventRules

namespace Setka.Handlers.Channels

open Setka.Api Setka.Events Setka.EventAuth Setka.Lib Setka.Handlers.Feed

/-! ## §1 Steps -/

/-- A server whose tables for channels and the feed have just been created. -/
structure Initial (w : World) : Prop where
  published : w.published = .empty
  subscriptions : w.subscriptions = []
  posts : w.posts = .empty
  likes : w.likes = []
  views : w.views = []

/-- What a module other than Setka's answers about an event. -/
abbrev OtherModule : Type :=
  EventObject → StateMap EventBase → Except Error (Bool × Option (List (String × Json)))

/-- `check_event_allowed` as it is registered. -/
def setkaCallback (str : Str) (uni : PyStr.Unicode) (now : ℤ) (outage : Outage) :
    ModuleApi.CheckEventAllowed World := fun o state => do
  let allowed ← checkEventAllowed str uni now outage o state
  pure (allowed, none)

/-- The callbacks of a server, in the order in which the modules registered them. -/
def callbacks (str : Str) (uni : PyStr.Unicode) (now : ℤ) (outage : Outage)
    (before after : List OtherModule) : List (ModuleApi.CheckEventAllowed World) :=
  before.map ModuleApi.pureCallback ++ setkaCallback str uni now outage :: after.map ModuleApi.pureCallback

/-- A step. An event that is proposed may be stored in a later step, or never; what is stored may have
been rejected by the authorisation rules, and what is stored already is not stored again. A redaction
may turn out not to be valid. -/
inductive Act
  | propose (now : ℤ) (outage : Outage) (before after : List OtherModule) (o : EventObject)
      (state : StateMap EventBase)
  | persist (e : StoredEvent)
  | redact (eventId : String) (valid : Bool)
  | setCurrentState (roomId : String) (state : StateMap EventBase)
  | setRoomStats (roomId : String) (stats : RoomStats)
  | setMembership (userId roomId : String) (membership : Option String)
  | ensureChannelPublished (now : ℤ) (roomId : String) (categoryId : Option String)
      (state : Option (StateMap EventBase))
  | unpublishChannel (roomId : String)
  | setChannelHidden (roomId : String) (hidden : Bool)
  | setChannelCategory (roomId categoryId : String) (feedEnabled : Bool)
  | rebuildRegistry (now : ℤ) (scanned : List (String × String))
  | subscribe (userId roomId : String)
  | unsubscribe (userId roomId : String)
  | toggleLike (userId eventId : String)
  | recordView (userId eventId : String)
  | getFeed (r : ℕ → Reading) (q : FeedRequest)

/-- The event store after a redaction. -/
def redactEvent (eventId : String) (valid : Bool) (w : World) : World :=
  { w with
    redactions := eventId :: w.redactions
    events := w.events.map fun e =>
      if e.event.eventId = eventId then { e with redacted := e.redacted || valid } else e }

/-- The world after a step. -/
def step (str : Str) (uni : PyStr.Unicode) (w : World) : Act → World
  | .propose now outage before after o state =>
    ((ModuleApi.checkEventAllowed (callbacks str uni now outage before after) o state).run w).2
  | .persist e =>
    if w.events.any fun e' => e'.event.eventId = e.event.eventId then w
    else { w with events := e :: w.events }
  | .redact eventId valid => redactEvent eventId valid w
  | .setCurrentState roomId state =>
    { w with currentState := fun r => if r = roomId then state else w.currentState r }
  | .setRoomStats roomId stats => { w with roomStats := w.roomStats.set roomId stats }
  | .setMembership userId roomId membership =>
    { w with
      localCurrentMembership := fun u r =>
        if u = userId ∧ r = roomId then membership else w.localCurrentMembership u r }
  | .ensureChannelPublished now roomId categoryId state =>
    ((ensureChannelPublished str uni now roomId categoryId state).run w).2
  | .unpublishChannel roomId => ((unpublishChannel roomId).run w).2
  | .setChannelHidden roomId hidden => ((setChannelHidden roomId hidden).run w).2
  | .setChannelCategory roomId categoryId feedEnabled =>
    ((Feed.setChannelCategory roomId categoryId feedEnabled).run w).2
  | .rebuildRegistry now scanned => ((rebuildRegistry uni now scanned).run w).2
  | .subscribe userId roomId => ((Feed.subscribe userId roomId).run w).2
  | .unsubscribe userId roomId => ((Feed.unsubscribe userId roomId).run w).2
  | .toggleLike userId eventId => ((Feed.toggleLike userId eventId).run w).2
  | .recordView userId eventId => ((Feed.recordView userId eventId).run w).2
  | .getFeed r q => ((Feed.getFeed str uni r q).run w).2

/-! ## §2 A server with one channel -/

/-- What `str` makes of other values does not matter here. -/
def exampleStr : Str := fun _ => ""

def exampleTables : PyStr.Unicode := .ascii

/-- A database that orders equal rows as they are, and a page that is not shuffled. -/
def exampleReading : Reading where
  newestFirst := List.insertionSort fun a b => b.2.createdAt ≤ a.2.createdAt
  newestFirst_perm := List.perm_insertionSort _
  newestFirst_sorted rows := by
    have : Std.Total fun a b : String × FeedPost => b.2.createdAt ≤ a.2.createdAt :=
      ⟨fun a b => le_total _ _⟩
    have : IsTrans (String × FeedPost) fun a b => b.2.createdAt ≤ a.2.createdAt :=
      ⟨fun a b c hab hbc => hbc.trans hab⟩
    exact List.pairwise_insertionSort _ rows
  random := id
  random_perm := List.Perm.refl
  topCategories := List.insertionSort fun a b => b.2 ≤ a.2
  topCategories_perm := List.perm_insertionSort _
  topCategories_sorted rows := by
    have : Std.Total fun a b : String × ℕ => b.2 ≤ a.2 := ⟨fun a b => le_total _ _⟩
    have : IsTrans (String × ℕ) fun a b => b.2 ≤ a.2 := ⟨fun a b c hab hbc => hbc.trans hab⟩
    exact List.pairwise_insertionSort _ rows
  shuffle := id
  shuffle_perm := List.Perm.refl
  like _ _ := true
  fetchFails := false
  joinedFails := false
  frozen _ := false

def exampleServer : World where
  published := .empty
  categories := .empty
  subscriptions := []
  posts := .empty
  likes := []
  views := []
  events := []
  redactions := []
  currentState _ := .empty
  roomStats := .empty
  localCurrentMembership _ _ := none

theorem exampleServer_initial : Initial exampleServer := ⟨rfl, rfl, rfl, rfl, rfl⟩

/-- An event of the channel, sent by its creator. -/
def exampleEvent (eventId type : String) (stateKey : Option String) (key value : String) : EventBase where
  eventId
  roomId := "!channel:s"
  roomVersion := RoomVersions.v11
  type
  stateKey
  sender := "@owner:s"
  originServerTs := 1700000000000
  content := [(key, .str value)]
  authEventIds := []
  rejected := false

def examplePost : EventBase := exampleEvent "$post" "m.room.message" none "body" "news"

/-- The state of the channel, with a join rule. -/
def exampleChannel (joinRule : String) : StateMap EventBase :=
  ((Dict.empty.set createKey (exampleEvent "$create" "m.room.create" (some "") "m.federate" "")).set
    ("m.room.topic", "") (exampleEvent "$topic" "m.room.topic" (some "") "topic" "setka:channel")).set
    ("m.room.join_rules", "")
    (exampleEvent "$rules" "m.room.join_rules" (some "") "join_rule" joinRule)

/-- The channel is created, and its owner sends a post that is then stored. -/
def exampleActs (joinRule : String) : List Act :=
  [.setCurrentState "!channel:s" (exampleChannel joinRule),
    .propose 1700000000000 ⟨false, false⟩ [] [] ⟨examplePost, false⟩ (exampleChannel joinRule),
    .persist ⟨examplePost, false, false⟩]

/-- A user who is in no room reads the feed. -/
def exampleRequest : FeedRequest := ⟨"@reader:s", "recommended", 20, none, none⟩

/-- The rooms and the events of a page. -/
def shown (w : World) (q : FeedRequest) : List (String × String) :=
  match ((getFeed exampleStr exampleTables (fun _ => exampleReading) q).run w).1 with
  | .ok page => page.posts.map fun item => (item.roomId, item.eventId)
  | .error _ => []

theorem exists_of_mem_shown {w : World} {q : FeedRequest} {roomId eventId : String}
    (h : (roomId, eventId) ∈ shown w q) : ∃ page w',
      (getFeed exampleStr exampleTables (fun _ => exampleReading) q).run w = (.ok page, w') ∧
      ∃ item ∈ page.posts, item.roomId = roomId ∧ item.eventId = eventId := by
  unfold shown at h
  rcases hrun : (getFeed exampleStr exampleTables (fun _ => exampleReading) q).run w with ⟨res, w'⟩
  rw [hrun] at h
  cases res with
  | error e => exact absurd h List.not_mem_nil
  | ok page =>
    obtain ⟨item, hitem, heq⟩ := List.mem_map.mp h
    exact ⟨page, w', rfl, item, hitem, congrArg Prod.fst heq, congrArg Prod.snd heq⟩

end Setka.Handlers.Channels
