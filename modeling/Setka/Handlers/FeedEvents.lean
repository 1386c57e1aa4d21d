/-
# Setka.Handlers.FeedEvents — what the feed shows has entered a room.

A message is indexed while it is only proposed, and the feed falls back to the row of the index where
it finds no event. But the message is frozen when it is indexed, the content of a frozen event is no
`dict`, and so the row has no text and no media: it is never visible by itself.
-/
import Setka.Handlers.ChannelRuns

namespace Setka.Handlers.Channels

open Setka.Api Setka.Events Setka.EventAuth Setka.Lib Setka.Handlers.Feed Setka.Lib.Action

/-! ## §1 Blank rows -/

/-- A row that is not visible by itself. -/
def BlankPost (post : FeedPost) : Prop := postIsVisible post.msgtype post.body post.mediaMxc = false

/-- No row of the index is visible by itself. -/
def Blank (w : World) : Prop := ∀ eventId post, w.posts.get? eventId = some post → BlankPost post

/-- The later index is blank if the earlier one was. -/
def KeepsBlank (w w' : World) : Prop := Blank w → Blank w'

theorem KeepsBlank.refl (w : World) : KeepsBlank w w := id

theorem KeepsBlank.trans (w w' w'' : World) (h : KeepsBlank w w') (h' : KeepsBlank w' w'') : KeepsBlank w w'' :=
  fun hblank => h' (h hblank)

variable {w w' : World}

/-- What does not touch the index keeps it blank. -/
theorem KeepsBlank.of_posts_eq (h : w'.posts = w.posts) : KeepsBlank w w' := by
  intro hblank eventId post hpost
  apply hblank eventId post
  rw [← h]
  exact hpost

theorem keepsBlank_of_purged (h : Purged w w') : KeepsBlank w w' :=
  fun hblank eventId post hpost => hblank eventId post (h.posts eventId post hpost)

theorem keepsBlank_set {posts : Dict String FeedPost} {eventId : String} {post : FeedPost}
    (hposts : posts = w.posts.set eventId post) (hpost : Blank w → BlankPost post) :
    KeepsBlank w { w with posts } := by
  intro hblank eventId' post' hget
  subst hposts
  have hset : (if eventId' = eventId then some post else w.posts.get? eventId') = some post' := by
    rw [← Dict.get?_set]
    exact hget
  split at hset
  · obtain rfl := Option.some.inj hset
    exact hpost hblank
  · exact hblank eventId' post' hset

/-- An update that leaves what the row shows alone. -/
theorem keepsBlank_updatePost (hposts : w'.posts = w.posts) (eventId : String) {f : FeedPost → FeedPost}
    (hf : ∀ post, BlankPost post → BlankPost (f post)) : KeepsBlank w (w'.updatePost eventId f) := by
  apply KeepsBlank.trans w w' _ (KeepsBlank.of_posts_eq hposts)
  unfold World.updatePost
  split
  · rename_i post hpost
    exact keepsBlank_set rfl fun hblank => hf post (hblank eventId post hpost)
  · exact KeepsBlank.refl w'

/-! ## §2 What one operation keeps -/

/-- **A frozen event is indexed without text and media.** -/
theorem keepsBlank_maybeIngestEvent (str : Str) {o : EventObject} (ho : o.frozen = true) :
    (maybeIngestEvent str o).Keeps KeepsBlank := by
  have hcontent : (contentMapping o).getD [] = [] := by
    unfold contentMapping
    rw [if_pos ho]
    rfl
  unfold maybeIngestEvent
  split
  · exact keeps_pure KeepsBlank.refl _
  dsimp only
  rw [hcontent]
  split
  · exact keeps_pure KeepsBlank.refl _
  apply Action.Keeps.bind KeepsBlank.refl KeepsBlank.trans (keeps_reads KeepsBlank.refl _)
  rintro ⟨enabled, categoryId⟩
  split
  · intro w
    apply keepsBlank_set (w := w) rfl
    intro _
    -- with no content, the row is of type `m.text` with an empty body
    split <;> rfl
  · exact keeps_pure KeepsBlank.refl _

theorem keepsBlank_checkEventAllowed (str : Str) (uni : PyStr.Unicode) (now : ℤ) (outage : Outage)
    {o : EventObject} (ho : o.frozen = true) (state : StateMap EventBase) :
    (checkEventAllowed str uni now outage o state).Keeps KeepsBlank := by
  have hadmitted : (admitPost str uni now outage o state).Keeps KeepsBlank := by
    unfold admitPost
    split
    · exact keeps_pure KeepsBlank.refl _
    apply Action.Keeps.bind KeepsBlank.refl KeepsBlank.trans
    · exact fun w => KeepsBlank.of_posts_eq rfl
    intro _
    split
    · exact keeps_pure KeepsBlank.refl _
    · exact keepsBlank_maybeIngestEvent str ho
  unfold checkEventAllowed
  split
  · exact keeps_pure KeepsBlank.refl _
  split
  · exact keeps_pure KeepsBlank.refl _
  apply Action.Keeps.bind KeepsBlank.refl KeepsBlank.trans (keeps_lift KeepsBlank.refl _)
  intro threaded
  split
  · exact keeps_pure KeepsBlank.refl _
  apply Action.Keeps.bind KeepsBlank.refl KeepsBlank.trans (keeps_lift KeepsBlank.refl _)
  intro level
  split
  · apply Action.Keeps.bind KeepsBlank.refl KeepsBlank.trans hadmitted
    exact fun _ => keeps_pure KeepsBlank.refl _
  · exact keeps_pure KeepsBlank.refl _

/-- A callback of the server keeps the index blank: it is asked about a frozen event. -/
theorem keepsBlank_callbacks (str : Str) (uni : PyStr.Unicode) (now : ℤ) (outage : Outage)
    (before after : List OtherModule) (o : EventObject) (state : StateMap EventBase) :
    ∀ callback ∈ callbacks str uni now outage before after, (callback o.freeze state).Keeps KeepsBlank := by
  intro callback hcallback
  rcases List.mem_append.mp hcallback with hother | hcallback
  · obtain ⟨module, -, rfl⟩ := List.mem_map.mp hother
    exact keeps_lift KeepsBlank.refl _
  rcases List.mem_cons.mp hcallback with rfl | hother
  · apply Action.Keeps.bind KeepsBlank.refl KeepsBlank.trans
      (keepsBlank_checkEventAllowed str uni now outage rfl state)
    exact fun allowed => keeps_pure KeepsBlank.refl _
  · obtain ⟨module, -, rfl⟩ := List.mem_map.mp hother
    exact keeps_lift KeepsBlank.refl _

/-- The administration of the registry does not touch the index. -/
theorem keepsBlank_ensureChannelPublished (str : Str) (uni : PyStr.Unicode) (now : ℤ) (roomId : String)
    (categoryId : Option String) (state : Option (StateMap EventBase)) :
    (ensureChannelPublished str uni now roomId categoryId state).Keeps KeepsBlank := by
  have hupsert : ∀ tag category, (upsertPublishedChannel roomId tag now category).Keeps KeepsBlank :=
    fun _ _ w => KeepsBlank.of_posts_eq rfl
  unfold ensureChannelPublished
  split
  · exact keeps_pure KeepsBlank.refl _
  split
  · exact keeps_pure KeepsBlank.refl _
  dsimp only
  split
  · apply Action.Keeps.bind KeepsBlank.refl KeepsBlank.trans
    · exact fun w => KeepsBlank.of_posts_eq rfl
    · exact fun _ => keeps_pure KeepsBlank.refl _
  split
  · apply Action.Keeps.bind KeepsBlank.refl KeepsBlank.trans (keeps_reads KeepsBlank.refl _)
    intro resolved
    apply Action.Keeps.bind KeepsBlank.refl KeepsBlank.trans (hupsert _ _)
    exact fun _ => keeps_pure KeepsBlank.refl _
  · apply Action.Keeps.bind KeepsBlank.refl KeepsBlank.trans (hupsert _ _)
    exact fun _ => keeps_pure KeepsBlank.refl _

theorem posts_updateChannel (w : World) (roomId : String) (f : PublishedChannel → PublishedChannel) :
    (w.updateChannel roomId f).posts = w.posts := by
  unfold World.updateChannel
  split <;> rfl

theorem keepsBlank_setChannelHidden (roomId : String) (hidden : Bool) :
    (setChannelHidden roomId hidden).Keeps KeepsBlank := by
  apply Action.Keeps.bind KeepsBlank.refl KeepsBlank.trans (keeps_reads KeepsBlank.refl _)
  intro known
  split
  · exact fun w => KeepsBlank.of_posts_eq (posts_updateChannel w roomId _)
  · exact keeps_raise KeepsBlank.refl _

theorem keepsBlank_setChannelCategory (roomId categoryId : String) (feedEnabled : Bool) :
    (setChannelCategory roomId categoryId feedEnabled).Keeps KeepsBlank := by
  apply Action.Keeps.bind KeepsBlank.refl KeepsBlank.trans (keeps_reads KeepsBlank.refl _)
  exact fun resolved w => KeepsBlank.of_posts_eq (posts_updateChannel w roomId _)

/-- Likes and views count, and show nothing. -/
theorem keepsBlank_toggleLike (userId eventId : String) : (toggleLike userId eventId).Keeps KeepsBlank := by
  apply Action.Keeps.bind KeepsBlank.refl KeepsBlank.trans (keeps_reads KeepsBlank.refl _)
  intro liked
  apply Action.Keeps.bind KeepsBlank.refl KeepsBlank.trans
  · intro w
    show KeepsBlank w (if liked then _ else _)
    split
    · apply keepsBlank_updatePost
      · rfl
      · exact fun _ hblank => hblank
    apply keepsBlank_updatePost
    · rfl
    · exact fun _ hblank => hblank
  · intro _
    apply Action.Keeps.bind KeepsBlank.refl KeepsBlank.trans (keeps_reads KeepsBlank.refl _)
    exact fun likeCount => keeps_pure KeepsBlank.refl _

theorem keepsBlank_recordView (userId eventId : String) : (recordView userId eventId).Keeps KeepsBlank := by
  apply Action.Keeps.bind KeepsBlank.refl KeepsBlank.trans
  · intro w
    show KeepsBlank w (if (userId, eventId) ∈ w.views then _ else _)
    split
    · exact KeepsBlank.refl w
    apply keepsBlank_updatePost
    · rfl
    · exact fun _ hblank => hblank
  · exact fun _ => keeps_reads KeepsBlank.refl _

/-! ## §3 Runs -/

/-- **A step keeps the index blank.** -/
theorem keepsBlank_step (str : Str) (uni : PyStr.Unicode) (w : World) (act : Act) :
    KeepsBlank w (step str uni w act) := by
  cases act with
  | propose now outage before after o state =>
    exact ModuleApi.runCallbacks_keeps KeepsBlank.refl KeepsBlank.trans
      (keepsBlank_callbacks str uni now outage before after o state) w
  | persist e =>
    apply KeepsBlank.of_posts_eq
    show World.posts (if _ then w else _) = w.posts
    split <;> rfl
  | redact eventId valid => exact KeepsBlank.of_posts_eq rfl
  | setCurrentState roomId state => exact KeepsBlank.of_posts_eq rfl
  | setRoomStats roomId stats => exact KeepsBlank.of_posts_eq rfl
  | setMembership userId roomId membership => exact KeepsBlank.of_posts_eq rfl
  | ensureChannelPublished now roomId categoryId state =>
    exact keepsBlank_ensureChannelPublished str uni now roomId categoryId state w
  | unpublishChannel roomId => exact KeepsBlank.of_posts_eq rfl
  | setChannelHidden roomId hidden => exact keepsBlank_setChannelHidden roomId hidden w
  | setChannelCategory roomId categoryId feedEnabled =>
    exact keepsBlank_setChannelCategory roomId categoryId feedEnabled w
  | rebuildRegistry now scanned => exact KeepsBlank.of_posts_eq rfl
  | subscribe userId roomId =>
    apply KeepsBlank.of_posts_eq
    show World.posts (if _ then w else _) = w.posts
    split <;> rfl
  | unsubscribe userId roomId => exact KeepsBlank.of_posts_eq rfl
  | toggleLike userId eventId => exact keepsBlank_toggleLike userId eventId w
  | recordView userId eventId => exact keepsBlank_recordView userId eventId w
  | getFeed r q => exact keepsBlank_of_purged (purged_getFeed str uni r q w)

theorem blank_of_initial (h : Initial w) : Blank w := by
  intro eventId post hpost
  rw [h.posts] at hpost
  cases hpost

/-- **The index is blank in every run.** -/
theorem blank_of_reachable {str : Str} {uni : PyStr.Unicode}
    (h : Reachable Initial (fun w w' => ∃ act, w' = step str uni w act) w) : Blank w := by
  apply h.invariant
  · exact fun _ => blank_of_initial
  · rintro w _ - hblank ⟨act, rfl⟩
    exact keepsBlank_step str uni w act hblank

/-- **What the feed shows was persisted**, and neither rejected nor redacted. -/
theorem persisted_of_mem_feed {str : Str} {uni : PyStr.Unicode} {w w' : World} {r : ℕ → Reading}
    {q : FeedRequest} {page : Page}
    (hw : Reachable Initial (fun w w' => ∃ act, w' = step str uni w act) w)
    (hfeed : (getFeed str uni r q).run w = (.ok page, w')) {item : FeedItem}
    (hitem : item ∈ page.posts) : w.HasEvent item.eventId := by
  obtain ⟨post, hpost, -, -, hevent⟩ := getFeed_spec hfeed hitem
  rcases hevent with hevent | hvisible
  · exact hevent
  have hblank : BlankPost post := blank_of_reachable hw item.eventId post hpost
  rw [hblank] at hvisible
  cases hvisible

/-- A post of a public channel is shown to everyone, and was persisted. -/
theorem persisted_of_mem_feed_example : ∃ page w',
    (getFeed exampleStr exampleTables (fun _ => exampleReading) exampleRequest).run
      ((exampleActs "public").foldl (step exampleStr exampleTables) exampleServer) = (.ok page, w') ∧
    ∃ item ∈ page.posts, item.eventId = "$post" ∧
      World.HasEvent ((exampleActs "public").foldl (step exampleStr exampleTables) exampleServer) item.eventId := by
  have hshown : ("!channel:s", "$post") ∈
      shown ((exampleActs "public").foldl (step exampleStr exampleTables) exampleServer)
        exampleRequest := by decide +kernel
  obtain ⟨page, w', hfeed, item, hitem, -, hid⟩ := exists_of_mem_shown hshown
  have hreach : Reachable Initial (fun w w' => ∃ act, w' = step exampleStr exampleTables w act)
      ((exampleActs "public").foldl (step exampleStr exampleTables) exampleServer) :=
    Reachable.of_foldl exampleServer_initial fun _ act _ _ => ⟨act, rfl⟩
  exact ⟨page, w', hfeed, item, hitem, hid, persisted_of_mem_feed hreach hfeed hitem⟩

end Setka.Handlers.Channels
