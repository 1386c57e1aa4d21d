/-
# Setka.Handlers.Feed — the feed of channel posts.

The tables of `SetkaFeedHandler`, how a post enters the index, and how `get_feed` reads the index and
the events behind it. What the database leaves open, the order of equal rows and of random ones, is a
parameter, and so is what `str` makes of a value that is no string. Creating tables is left out.
-/
import Mathlib.Data.List.Sort
import Setka.Api.Errors
import Setka.Events.EventBase
import Setka.Lib.Action
import Setka.Lib.PyInt

namespace Setka.Handlers.Feed

open Setka.Api Setka.Events Setka.Lib

/-! ## §1 Tables -/

/-- A row of `setka_published_channels`, by its room. -/
structure PublishedChannel where
  publishedAt : ℤ
  tag : Option String
  hidden : Bool
  categoryId : Option String
  feedEnabled : Bool

/-- A row of `setka_feed_posts`, by its event. -/
structure FeedPost where
  roomId : String
  categoryId : Option String
  sender : String
  createdAt : ℤ
  msgtype : String
  body : String
  mediaMxc : Option String
  commentCount : ℤ
  viewCount : ℤ
  likeCount : ℤ

/-- A row of `setka_channel_categories`, by its id. -/
structure Category where
  label : String
  sortOrder : ℤ
  isActive : Bool

/-- `room_stats_state` and `room_stats_current` of a room. -/
structure RoomStats where
  name : Option String
  topic : Option String
  avatar : Option String
  canonicalAlias : Option String
  joinRules : Option String
  joinedMembers : ℤ

/-- An event in the database. `redacted` says that a valid redaction of it was found, `withheld` that it
is a redaction that cannot be checked. -/
structure StoredEvent where
  event : EventBase
  redacted : Bool
  withheld : Bool

/-- The database and the state of the rooms, as far as channels and the feed read them. -/
structure World where
  published : Dict String PublishedChannel
  categories : Dict String Category
  subscriptions : List (String × String)
  posts : Dict String FeedPost
  likes : List (String × String)
  views : List (String × String)
  events : List StoredEvent
  redactions : List String
  currentState : String → StateMap EventBase
  roomStats : Dict String RoomStats
  localCurrentMembership : String → String → Option String

/-- The row of a room that `feed_enabled = 1` and `hidden = 0` select. -/
def PublishedChannel.listed (c : PublishedChannel) : Bool := c.feedEnabled && !c.hidden

/-- The rooms whose posts the feed shows. -/
def World.listed (w : World) (roomId : String) : Bool :=
  match w.published.get? roomId with
  | some c => c.listed
  | none => false

/-! ## §2 Content -/

/-- `str(v)` of a value that is no string. -/
abbrev Str : Type := Json → String

/-- `str(v or default)`. -/
def strOr (str : Str) (default : String) (v : Option Json) : String :=
  match Json.truthy? v with
  | none => default
  | some (.str s) => s
  | some v => str v

/-- `_content_mapping`: only a `dict`. -/
def contentMapping (o : EventObject) : Option (List (String × Json)) :=
  if o.frozen then none else some o.event.content

/-- `_message_fields_from_content`. -/
def messageFieldsFromContent (str : Str) (content : List (String × Json)) : String × String × Option String :=
  let msgtype := strOr str "m.text" (Json.member? content "msgtype")
  let body := strOr str "" (Json.member? content "body")
  let mediaMxc := if msgtype ∈ ["m.image", "m.video"] then Json.member? content "url" else none
  let mediaMxc :=
    match Json.truthy? mediaMxc, Json.member? content "file" with
    | none, some (.obj file) => Json.member? file "url"
    | _, _ => mediaMxc
  (msgtype, body, match mediaMxc with
    | none | some .null => none
    | some (.str s) => some s
    | some v => some (str v))

/-- `_post_is_visible`. -/
def postIsVisible (msgtype body : String) (mediaMxc : Option String) : Bool :=
  PyStr.strip body ≠ "" ||
    (mediaMxc.getD "" ≠ "" && msgtype ∈ ["m.image", "m.video", "m.audio", "m.file"])

/-! ## §3 The index -/

/-- The upsert of `maybe_ingest_event`. -/
def ingested (o : EventObject) (categoryId : Option String) (fields : String × String × Option String)
    (posts : Dict String FeedPost) : Dict String FeedPost :=
  let (msgtype, body, mediaMxc) := fields
  posts.set o.event.eventId (match posts.get? o.event.eventId with
      | some post => { post with msgtype, body, mediaMxc }
      | none =>
        { roomId := o.event.roomId
          categoryId
          sender := o.event.sender
          createdAt := o.event.originServerTs
          msgtype
          body
          mediaMxc
          commentCount := 0
          viewCount := 0
          likeCount := 0 })

/-- `_room_feed_enabled`. -/
def roomFeedEnabled (w : World) (roomId : String) : Bool × Option String :=
  match w.published.get? roomId with
  | some c => if c.hidden then (false, none) else (c.feedEnabled, c.categoryId)
  | none => (false, none)

/-- `maybe_ingest_event`. -/
def maybeIngestEvent (str : Str) (o : EventObject) : Action World Error Unit :=
  if o.event.type ≠ "m.room.message" then pure ()
  else
    let content := (contentMapping o).getD []
    if (Json.truthy? (Json.member? content "m.relates_to")).isSome then pure ()
    else do
      let (enabled, categoryId) ← .reads fun w => .ok (roomFeedEnabled w o.event.roomId)
      if enabled then
        .modify fun w =>
          { w with
            posts := ingested o categoryId (messageFieldsFromContent str content) w.posts }
      else pure ()

/-- The upsert of `ingest_post`: it also moves a row that is there to the category. -/
def ingestedPost (o : EventObject) (roomId categoryId : String)
    (fields : String × String × Option String) (posts : Dict String FeedPost) :
    Dict String FeedPost :=
  let (msgtype, body, mediaMxc) := fields
  posts.set o.event.eventId (match posts.get? o.event.eventId with
      | some post => { post with msgtype, body, mediaMxc, categoryId := some categoryId }
      | none =>
        { roomId
          categoryId := some categoryId
          sender := o.event.sender
          createdAt := o.event.originServerTs
          msgtype
          body
          mediaMxc
          commentCount := 0
          viewCount := 0
          likeCount := 0 })

/-- `ingest_post`. -/
def ingestPost (str : Str) (o : EventObject) (roomId categoryId : String) : Action World Error Unit :=
  if o.event.type ≠ "m.room.message" then pure ()
  else
    let content := (contentMapping o).getD []
    if (Json.truthy? (Json.member? content "m.relates_to")).isSome then pure ()
    else
      .modify fun w =>
        { w with
          posts := ingestedPost o roomId categoryId (messageFieldsFromContent str content) w.posts }

/-- A row of the index after an `UPDATE … WHERE event_id = ?`. -/
def World.updatePost (w : World) (eventId : String) (f : FeedPost → FeedPost) : World :=
  match w.posts.get? eventId with
  | some post => { w with posts := w.posts.set eventId (f post) }
  | none => w

/-- `toggle_like`: whether the post is liked now, and how often. -/
def toggleLike (userId eventId : String) : Action World Error (Bool × ℤ) := do
  let liked ← .reads fun w => .ok (!w.likes.contains (userId, eventId))
  .modify fun w =>
    if liked then
      { w with likes := (userId, eventId) :: w.likes }.updatePost eventId fun post =>
        { post with likeCount := post.likeCount + 1 }
    else
      { w with likes := w.likes.filter fun row => row ≠ (userId, eventId) }.updatePost eventId fun post =>
          { post with likeCount := if 0 < post.likeCount then post.likeCount - 1 else 0 }
  let likeCount ← .reads fun w => .ok (((w.posts.get? eventId).map FeedPost.likeCount).getD 0)
  pure (liked, likeCount)

/-- `record_view`: how often the post was seen. -/
def recordView (userId eventId : String) : Action World Error ℤ := do
  .modify fun w =>
    if (userId, eventId) ∈ w.views then w
    else
      { w with views := (userId, eventId) :: w.views }.updatePost eventId fun post =>
        { post with viewCount := post.viewCount + 1 }
  .reads fun w => .ok (((w.posts.get? eventId).map FeedPost.viewCount).getD 0)

/-! ## §4 Channels and subscriptions -/

/-- `validate_category_id`. -/
def validateCategoryId (w : World) (categoryId : String) : Except Error String :=
  if PyStr.strip categoryId = "" then
    .error (.synapseError 400 "category_id is required" "M_MISSING_PARAM")
  else
    match w.categories.get? (PyStr.strip categoryId) with
    | some category =>
      if category.isActive then .ok (PyStr.strip categoryId)
      else .error (.synapseError 400 "Unknown category_id" "M_INVALID_PARAM")
    | none => .error (.synapseError 400 "Unknown category_id" "M_INVALID_PARAM")

/-- A row of the registry after an `UPDATE … WHERE room_id = ?`. -/
def World.updateChannel (w : World) (roomId : String) (f : PublishedChannel → PublishedChannel) : World :=
  match w.published.get? roomId with
  | some c => { w with published := w.published.set roomId (f c) }
  | none => w

/-- `set_channel_category`. -/
def setChannelCategory (roomId categoryId : String) (feedEnabled : Bool) : Action World Error Unit := do
  let categoryId ← .reads fun w => validateCategoryId w categoryId
  .modify fun w => w.updateChannel roomId fun c => { c with categoryId := some categoryId, feedEnabled }

/-- `subscribe` and `unsubscribe`. -/
def subscribe (userId roomId : String) : Action World Error Unit :=
  .modify fun w =>
    if (userId, roomId) ∈ w.subscriptions then w
    else { w with subscriptions := (userId, roomId) :: w.subscriptions }

def unsubscribe (userId roomId : String) : Action World Error Unit :=
  .modify fun w =>
    { w with subscriptions := w.subscriptions.filter fun row => row ≠ (userId, roomId) }

/-! ## §5 Reading the feed -/

/-- A post as the feed returns it. -/
structure FeedItem where
  eventId : String
  roomId : String
  sender : String
  createdAt : ℤ
  msgtype : String
  body : String
  mediaMxc : Option String
  commentCount : ℤ
  viewCount : ℤ
  likeCount : ℤ
  liked : Bool
  subscribed : Bool
  roomName : Option String
  roomAvatarUrl : Option String
  categoryId : Option String
  categoryLabel : Option String

def FeedItem.isVisible (item : FeedItem) : Bool :=
  postIsVisible item.msgtype item.body item.mediaMxc

/-- What a call of `get_feed` finds: how the database orders equal rows, what its `LIKE` matches,
whether `get_events_as_list` raises, which of the events in memory are frozen, and how the page is
shuffled. -/
structure Reading where
  newestFirst : List (String × FeedPost) → List (String × FeedPost)
  newestFirst_perm : ∀ rows, (newestFirst rows).Perm rows
  newestFirst_sorted : ∀ rows, (newestFirst rows).Pairwise fun a b => b.2.createdAt ≤ a.2.createdAt
  random : List (String × FeedPost) → List (String × FeedPost)
  random_perm : ∀ rows, (random rows).Perm rows
  topCategories : List (String × ℕ) → List (String × ℕ)
  topCategories_perm : ∀ rows, (topCategories rows).Perm rows
  topCategories_sorted : ∀ rows, (topCategories rows).Pairwise fun a b => b.2 ≤ a.2
  shuffle : List FeedItem → List FeedItem
  shuffle_perm : ∀ posts, (shuffle posts).Perm posts
  like : String → String → Bool
  fetchFails : Bool
  joinedFails : Bool
  frozen : String → Bool

/-- `get_events_as_list` with `redact_behaviour` `block`: neither rejected nor redacted events. -/
def getEventsAsList (frozen : String → Bool) (w : World) (eventIds : List String) : List EventObject :=
  eventIds.filterMap fun eventId =>
    (w.events.find? fun e => e.event.eventId = eventId).bind fun e =>
      if e.event.rejected || e.redacted || e.withheld then none else some ⟨e.event, frozen eventId⟩

/-- `_purge_feed_posts`. -/
def purgeFeedPosts (eventIds : List String) (w : World) : World :=
  { w with posts := eventIds.foldl Dict.erase w.posts }

/-- A row with the fields of its event. -/
def FeedItem.refreshed (item : FeedItem) (fields : String × String × Option String) : FeedItem :=
  { item with
    msgtype := fields.1
    body := fields.2.1
    mediaMxc := if fields.2.2.getD "" = "" then item.mediaMxc else fields.2.2 }

/-- What becomes of a row whose event was found. -/
def refresh (str : Str) (o : EventObject) (item : FeedItem) : Option FeedItem :=
  if o.event.type ≠ "m.room.message" then none
  else
    let content := (contentMapping o).getD []
    if (Json.truthy? (Json.member? content "m.relates_to")).isSome then none
    else some (item.refreshed (messageFieldsFromContent str content)) |>.filter FeedItem.isVisible

/-- `_filter_posts_with_events`. -/
def filterPostsWithEvents (str : Str) (r : Reading) (items : List FeedItem) : Action World Error (List FeedItem) :=
  if items = [] then pure []
  else if r.fetchFails then pure (items.filter FeedItem.isVisible)
  else do
    let eventIds := items.map FeedItem.eventId
    let events ← .reads fun w => .ok (getEventsAsList r.frozen w eventIds)
    let event? := fun eventId => events.find? fun o => o.event.eventId = eventId
    let missingIds := eventIds.filter fun eventId => (event? eventId).isNone
    let redactedIds ← .reads fun w => .ok (missingIds.filter fun eventId => eventId ∈ w.redactions)
    .modify (purgeFeedPosts redactedIds)
    pure (items.filterMap fun item =>
      match event? item.eventId with
      | some o => refresh str o item
      | none =>
        if item.eventId ∈ redactedIds then none
        else if item.isVisible then some item
        else none)

/-- A row with what `_hydrate_posts` joins to it. -/
def hydrate (w : World) (userId : String) (row : String × FeedPost) : FeedItem :=
  let (eventId, post) := row
  let channel := w.published.get? post.roomId
  let stats := channel.bind fun _ => w.roomStats.get? post.roomId
  let categoryId := channel.bind PublishedChannel.categoryId
  { eventId
    roomId := post.roomId
    sender := post.sender
    createdAt := post.createdAt
    msgtype := post.msgtype
    body := post.body
    mediaMxc := post.mediaMxc
    commentCount := post.commentCount
    viewCount := post.viewCount
    likeCount := post.likeCount
    liked := (userId, eventId) ∈ w.likes
    subscribed := (userId, post.roomId) ∈ w.subscriptions
    roomName := stats.bind RoomStats.name
    roomAvatarUrl := stats.bind RoomStats.avatar
    categoryId
    categoryLabel := (categoryId.bind w.categories.get?).map Category.label }

/-- The arguments of `_fetch_posts`. -/
structure Query where
  limit : ℤ
  sinceMs : Option ℤ
  roomIds : Option (List String)
  categoryIds : List String
  searchQuery : String
  randomExplore : Bool

/-- The `WHERE` clause of `_fetch_posts`, with its join. -/
def Query.matches (q : Query) (r : Reading) (uni : PyStr.Unicode) (w : World) (row : String × FeedPost) : Bool :=
  w.listed row.2.roomId &&
  (match q.sinceMs with
    | some since => decide (row.2.createdAt < since)
    | none => true) &&
  (match q.roomIds with
    | some roomIds => decide (row.2.roomId ∈ roomIds)
    | none => true) &&
  (q.categoryIds.isEmpty || (match row.2.categoryId with
    | some categoryId => decide (categoryId ∈ q.categoryIds)
    | none => false)) &&
  (q.searchQuery = "" || r.like row.2.body ("%" ++ uni.lower q.searchQuery ++ "%"))

/-- The rows that `_fetch_posts` selects. -/
def Query.rows (q : Query) (r : Reading) (uni : PyStr.Unicode) (w : World) : List (String × FeedPost) :=
  let rows := w.posts.items.filter (q.matches r uni w)
  (if q.randomExplore then r.random rows else r.newestFirst rows).take (max 1 (min q.limit 50)).toNat

/-- `_fetch_posts`. -/
def fetchPosts (str : Str) (uni : PyStr.Unicode) (r : Reading) (userId : String) (q : Query) :
    Action World Error (List FeedItem) := do
  let items ← .reads fun w => .ok ((q.rows r uni w).map (hydrate w userId))
  filterPostsWithEvents str r items

/-- `_user_subscribed_rooms`. -/
def userSubscribedRooms (w : World) (userId : String) : List String :=
  (w.subscriptions.filter fun row => row.1 = userId).map Prod.snd

/-- `_user_joined_published_channels`. -/
def userJoinedPublishedChannels (r : Reading) (w : World) (userId : String) : List String :=
  if r.joinedFails then []
  else w.published.keys.filter fun roomId => w.localCurrentMembership userId roomId = some "join"

/-- `_user_top_categories`. -/
def userTopCategories (r : Reading) (w : World) (userId : String) : List String :=
  let subscribed := userSubscribedRooms w userId
  let categoryIds := w.published.items.filterMap fun (roomId, c) =>
    if roomId ∈ subscribed then c.categoryId else none
  let counts := categoryIds.dedup.map fun categoryId => (categoryId, categoryIds.count categoryId)
  (((r.topCategories counts).take 5).map Prod.fst).filter fun categoryId => categoryId ≠ ""

/-- `_merge`: the posts of a batch that were not seen before. -/
def merge (posts batch : List FeedItem) : List FeedItem :=
  batch.foldl (fun posts post =>
    if post.eventId ∈ posts.map FeedItem.eventId then posts else posts ++ [post]) posts

/-- What `get_feed` answers. -/
structure Page where
  posts : List FeedItem
  nextBatch : Option String

/-- `_page_response`. -/
def pageResponse (posts : List FeedItem) : Page where
  posts
  nextBatch := posts.getLast?.map fun last => toString last.createdAt

/-- The arguments of `get_feed`. -/
structure FeedRequest where
  userId : String
  mode : String
  limit : ℤ
  since : Option String
  searchQuery : Option String

/-- `_parse_since`. -/
def parseSince (since : Option String) : Option ℤ := since.bind PyInt.parse

/-- The sizes of the parts of a recommended page. -/
structure Sizes where
  page : ℕ
  sub : ℕ
  cat : ℕ
  explore : ℕ

/-- `int(page_size * 0.6)` and `int(page_size * 0.25)` are exact for the sizes of a page. -/
def sizes (limit : ℤ) : Sizes :=
  let page := (max 1 (min limit 50)).toNat
  let sub := max 1 (page * 3 / 5)
  let cat := page / 4
  { page, sub, cat, explore := page - sub - cat }

/-- One part of a recommended page, where it is wanted. -/
def recommendedPart (str : Str) (uni : PyStr.Unicode) (r : Reading) (userId : String) (wanted : Bool)
    (q : Query) (posts : List FeedItem) : Action World Error (List FeedItem) :=
  if wanted then do
    let batch ← fetchPosts str uni r userId q
    pure (merge posts batch)
  else pure posts

/-- `get_feed` in the recommended mode. Its fetches see the database one after the other. -/
def recommended (str : Str) (uni : PyStr.Unicode) (r : ℕ → Reading) (q : FeedRequest) :
    Action World Error Page := do
  let n := sizes q.limit
  let query : Query := ⟨n.sub, parseSince q.since, none, [], "", false⟩
  let subscribed ← .reads fun w => .ok (userSubscribedRooms w q.userId)
  let topCategories ← .reads fun w => .ok (userTopCategories (r 0) w q.userId)
  let posts ← recommendedPart str uni (r 0) q.userId (subscribed ≠ []) { query with roomIds := some subscribed } []
  let posts ← recommendedPart str uni (r 1) q.userId (topCategories ≠ [] ∧ n.cat ≠ 0)
    { query with limit := n.cat * 2, categoryIds := topCategories } posts
  let posts ← recommendedPart str uni (r 2) q.userId (n.explore ≠ 0)
    { query with limit := n.explore * 3, randomExplore := true } posts
  let posts := (posts.insertionSort fun a b => b.createdAt ≤ a.createdAt).take n.page
  pure (pageResponse (if posts.length < n.page then (r 2).shuffle posts else posts))

/-- `get_feed`. -/
def getFeed (str : Str) (uni : PyStr.Unicode) (r : ℕ → Reading) (q : FeedRequest) : Action World Error Page :=
  let query : Query := ⟨q.limit, parseSince q.since, none, [], "", false⟩
  let searchQuery := q.searchQuery.getD ""
  if searchQuery ≠ "" then do
    let posts ← fetchPosts str uni (r 0) q.userId { query with searchQuery := PyStr.strip searchQuery }
    pure (pageResponse posts)
  else if q.mode = "subscriptions" then do
    let roomIds ← .reads fun w =>
      .ok (userSubscribedRooms w q.userId ++ userJoinedPublishedChannels (r 0) w q.userId)
    let posts ← fetchPosts str uni (r 0) q.userId { query with roomIds := some roomIds }
    pure (pageResponse posts)
  else recommended str uni r q

end Setka.Handlers.Feed
