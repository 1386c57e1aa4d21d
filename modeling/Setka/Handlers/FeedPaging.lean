/-
# Setka.Handlers.FeedPaging — the subscriptions feed, page by page.

The cursor is the time of the last post of a page, and the next page has what is older. A page that ends
between two posts of one time loses the second, and a page whose rows are all hidden ends the reading: the
database limits the rows before the handler looks at the posts behind them. A reading misses nothing else.
-/
import Setka.Handlers.ChannelRuns
import Setka.Lib.Follow

namespace Setka.Handlers.Feed

open Setka.Api Setka.Events Setka.Lib Setka.Lib.Action Dict KeyCursor

/-! ## §1 One row -/

/-- The event that `get_events_as_list` finds. -/
def servedEvent (frozen : String → Bool) (w : World) (eventId : String) : Option EventObject :=
  (w.events.find? fun e => e.event.eventId = eventId).bind fun e =>
    if e.event.rejected || e.redacted || e.withheld then none else some ⟨e.event, frozen eventId⟩

/-- What the feed shows of a row. -/
def shownPost (str : Str) (r : Reading) (w : World) (item : FeedItem) : Option FeedItem :=
  if r.fetchFails then some item |>.filter FeedItem.isVisible
  else
    match servedEvent r.frozen w item.eventId with
    | some o => refresh str o item
    | none =>
      if item.eventId ∈ w.redactions then none
      else if item.isVisible then some item
      else none

/-- A row that is deleted when it is read. -/
def goneWhenRead (r : Reading) (w : World) (eventId : String) : Bool :=
  !r.fetchFails && (servedEvent r.frozen w eventId).isNone && decide (eventId ∈ w.redactions)

variable {w : World}

theorem servedEvent_eventId {frozen : String → Bool} {eventId : String} {o : EventObject}
    (h : servedEvent frozen w eventId = some o) : o.event.eventId = eventId := by
  obtain ⟨e, hfind, h⟩ := Option.bind_eq_some_iff.mp h
  split at h
  · cases h
  · obtain rfl := Option.some.inj h
    simpa using List.find?_some hfind

/-- In a batch an event is found as it is alone. -/
theorem find?_getEventsAsList {frozen : String → Bool} {eventIds : List String} {eventId : String}
    (h : eventId ∈ eventIds) : ((getEventsAsList frozen w eventIds).find? fun o => o.event.eventId = eventId) =
      servedEvent frozen w eventId := by
  show (eventIds.filterMap (servedEvent frozen w)).find? _ = _
  induction eventIds with
  | nil => exact absurd h List.not_mem_nil
  | cons first rest ih =>
    cases hfirst : servedEvent frozen w first with
    | none =>
      rw [List.filterMap_cons_none hfirst]
      rcases List.mem_cons.mp h with rfl | h
      · -- later ones of the same id are not found either
        rw [hfirst]
        refine List.find?_eq_none.mpr fun o ho heq => ?_
        obtain ⟨other, -, hother⟩ := List.mem_filterMap.mp ho
        have hid := (servedEvent_eventId hother).symm.trans (of_decide_eq_true heq)
        rw [hid, hfirst] at hother
        cases hother
      · exact ih h
    | some o =>
      rw [List.filterMap_cons_some hfirst, List.find?_cons]
      have hid := servedEvent_eventId hfirst
      by_cases heq : first = eventId
      · rw [hid, decide_eq_true heq, ← heq, hfirst]
      · rw [hid, decide_eq_false heq]
        exact ih ((List.mem_cons.mp h).resolve_left (Ne.symm heq))

variable {str : Str} {r : Reading}

/-- What is shown of a row is the post of the row. -/
theorem shownPost_keeps {item shown : FeedItem} (h : shownPost str r w item = some shown) :
    shown.eventId = item.eventId ∧ shown.createdAt = item.createdAt := by
  unfold shownPost at h
  split at h
  · obtain rfl := Option.some.inj (Option.filter_eq_some_iff.mp h).1
    exact ⟨rfl, rfl⟩
  split at h
  · unfold refresh at h
    split at h
    · cases h
    dsimp only at h
    split at h
    · cases h
    · obtain rfl := Option.some.inj (Option.filter_eq_some_iff.mp h).1
      exact ⟨rfl, rfl⟩
  · split at h
    · cases h
    · split at h
      · obtain rfl := Option.some.inj h
        exact ⟨rfl, rfl⟩
      · cases h

/-- What is deleted is not shown. -/
theorem shownPost_of_gone (str : Str) {item : FeedItem}
    (h : goneWhenRead r w item.eventId = true) : shownPost str r w item = none := by
  simp only [goneWhenRead, Bool.and_eq_true, Bool.not_eq_true', decide_eq_true_eq, Option.isNone_iff_eq_none] at h
  obtain ⟨⟨hfails, hserved⟩, hredacted⟩ := h
  rw [shownPost, if_neg (by rw [hfails]; exact Bool.false_ne_true), hserved]
  exact if_pos hredacted

/-- **The filter looks at each row by itself**, and deletes the rows of redacted posts. -/
theorem run_filterPostsWithEvents (str : Str) (r : Reading) (items : List FeedItem) (w : World) :
    (filterPostsWithEvents str r items).run w = (.ok (items.filterMap (shownPost str r w)),
      purgeFeedPosts ((items.map FeedItem.eventId).filter (goneWhenRead r w)) w) := by
  unfold filterPostsWithEvents
  split
  · rename_i hitems
    subst hitems
    rfl
  split
  · rename_i hfails
    have hshown : shownPost str r w = Option.guard FeedItem.isVisible := by
      funext item
      rw [shownPost, if_pos hfails]
      cases hvisible : item.isVisible <;> simp [Option.guard, hvisible]
    have hpurged : (items.map FeedItem.eventId).filter (goneWhenRead r w) = [] := by
      refine List.filter_eq_nil_iff.mpr fun eventId _ => ?_
      simp [goneWhenRead, hfails]
    rw [hshown, hpurged, List.filterMap_eq_filter]
    rfl
  · rename_i hfails
    have hfind : ∀ item ∈ items, ((getEventsAsList r.frozen w (items.map FeedItem.eventId)).find? fun o =>
        o.event.eventId = item.eventId) = servedEvent r.frozen w item.eventId := fun item hitem =>
      find?_getEventsAsList (List.mem_map_of_mem hitem)
    have hgone : ((items.map FeedItem.eventId).filter fun eventId =>
          ((getEventsAsList r.frozen w (items.map FeedItem.eventId)).find? fun o =>
            o.event.eventId = eventId).isNone).filter (fun eventId => decide (eventId ∈ w.redactions)) =
        (items.map FeedItem.eventId).filter (goneWhenRead r w) := by
      rw [List.filter_filter]
      refine List.filter_congr fun eventId heventId => ?_
      rw [find?_getEventsAsList heventId, goneWhenRead, Bool.eq_false_iff.mpr hfails, Bool.not_false, Bool.true_and,
        Bool.and_comm]
    refine Prod.ext (congrArg Except.ok (List.filterMap_congr fun item hitem => ?_))
      (congrArg (fun eventIds => purgeFeedPosts eventIds w) hgone)
    show _ = shownPost str r w item
    rw [shownPost, if_neg hfails]
    dsimp only
    rw [hgone, hfind item hitem]
    cases hserved : servedEvent r.frozen w item.eventId with
    | some o => rfl
    | none =>
      refine if_congr ?_ rfl rfl
      rw [List.mem_filter, goneWhenRead, hserved, Bool.eq_false_iff.mpr hfails]
      simp only [Bool.not_false, Option.isNone_none, Bool.true_and, decide_eq_true_eq, and_iff_right_iff_imp]
      exact fun _ => List.mem_map_of_mem hitem

/-! ## §2 A page -/

/-- The rooms whose posts `get_feed` looks for. -/
def feedRooms (r : Reading) (w : World) (userId : String) : List String :=
  userSubscribedRooms w userId ++ userJoinedPublishedChannels r w userId

/-- The user has subscribed to the room or joined it. -/
def World.follows (w : World) (userId roomId : String) : Bool :=
  decide ((userId, roomId) ∈ w.subscriptions) || decide (w.localCurrentMembership userId roomId = some "join")

/-- **The posts that the reader should see**: what is shown of the rows of the enabled channels that the user has
subscribed to or joined. -/
def visiblePosts (str : Str) (r : Reading) (w : World) (userId : String) : List FeedItem :=
  (w.posts.items.filter fun row => w.listed row.2.roomId && w.follows userId row.2.roomId).filterMap fun row =>
    shownPost str r w (hydrate w userId row)

/-- The first part of the index: the rows of the channels that `get_feed` looks for. -/
def feedRows (r : Reading) (w : World) (userId : String) : List (String × FeedPost) :=
  w.posts.items.filter fun row => w.listed row.2.roomId && decide (row.2.roomId ∈ feedRooms r w userId)

/-- A call of `get_feed` for the subscriptions, and what it leaves for the next: the database and the cursor. -/
def subscriptionsPage (str : Str) (uni : PyStr.Unicode) (r : Reading) (userId : String) (limit : ℤ)
    (s : World × Option String) : Option (List FeedItem × Option (World × Option String)) :=
  match (getFeed str uni (fun _ => r) ⟨userId, "subscriptions", limit, s.2, none⟩).run s.1 with
  | (.ok page, w) => some (page.posts, page.nextBatch.map fun since => (w, some since))
  | (.error _, _) => none

/-- How the index is read. -/
def feedCursor (str : Str) (r : Reading) (w : World) (userId : String) (limit : ℤ) :
    KeyCursor (String × FeedPost) FeedItem String ℤ where
  size := (max 1 (min limit 50)).toNat
  key row := row.2.createdAt
  id := Prod.fst
  order := r.newestFirst
  order_perm := r.newestFirst_perm
  order_sorted := r.newestFirst_sorted
  shown row := shownPost str r w (hydrate w userId row)
  keyOf := FeedItem.createdAt
  keyOf_shown _ _ h := (shownPost_keeps h).2
  dropped := goneWhenRead r w
  shown_dropped _ h := shownPost_of_gone str h

/-- The query of a call. -/
def feedQuery (r : Reading) (w : World) (userId : String) (limit : ℤ) (since : Option String) : Query :=
  ⟨limit, parseSince since, some (feedRooms r w userId), [], "", false⟩

/-- The rows that a call finds, before they are limited. -/
def rowsFrom (uni : PyStr.Unicode) (r : Reading) (userId : String) (limit : ℤ) (s : World × Option String) :
    List (String × FeedPost) :=
  s.1.posts.items.filter ((feedQuery r s.1 userId limit s.2).matches r uni s.1)

/-- **A page is what is shown of a window.** -/
theorem subscriptionsPage_eq (str : Str) (uni : PyStr.Unicode) (r : Reading) (userId : String) (limit : ℤ)
    (s : World × Option String) :
    subscriptionsPage str uni r userId limit s =
      some ((feedCursor str r s.1 userId limit).page (rowsFrom uni r userId limit s),
        ((feedCursor str r s.1 userId limit).page (rowsFrom uni r userId limit s)).getLast?.map fun last =>
          (purgeFeedPosts ((((feedCursor str r s.1 userId limit).window (rowsFrom uni r userId limit s)).map
            Prod.fst).filter (goneWhenRead r s.1)) s.1, some (toString last.createdAt))) := by
  have hrun : (getFeed str uni (fun _ => r) ⟨userId, "subscriptions", limit, s.2, none⟩).run s.1 =
      (.ok (pageResponse ((feedCursor str r s.1 userId limit).page (rowsFrom uni r userId limit s))),
        purgeFeedPosts ((((feedCursor str r s.1 userId limit).window (rowsFrom uni r userId limit s)).map
          Prod.fst).filter (goneWhenRead r s.1)) s.1) := by
    have hfilter := run_filterPostsWithEvents str r
      (((feedQuery r s.1 userId limit s.2).rows r uni s.1).map (hydrate s.1 userId)) s.1
    rw [List.filterMap_map, List.map_map] at hfilter
    have hfetch : (fetchPosts str uni r userId (feedQuery r s.1 userId limit s.2)).run s.1 = _ :=
      (run_bind_of_ok (run_reads _ _) _).trans hfilter
    refine (run_bind_of_ok (run_reads _ _) _).trans ?_
    exact (run_bind_of_ok hfetch _).trans rfl
  rw [subscriptionsPage, hrun]
  dsimp only [pageResponse]
  rw [Option.map_map]
  rfl

/-- The row is older than the cursor. -/
def older (since : Option String) (row : String × FeedPost) : Prop := ∀ t ∈ parseSince since, row.2.createdAt < t

variable {uni : PyStr.Unicode} {userId : String} {limit : ℤ}

theorem matches_feedQuery {since : Option String} {row : String × FeedPost} :
    (feedQuery r w userId limit since).matches r uni w row = true ↔
      (w.listed row.2.roomId = true ∧ row.2.roomId ∈ feedRooms r w userId) ∧ older since row := by
  unfold Query.matches feedQuery older
  cases parseSince since with
  | none => simp
  | some t =>
    simp only [Bool.and_eq_true, decide_eq_true_eq, List.isEmpty_nil, Bool.true_or, and_true, Option.mem_def,
      Option.some.injEq, forall_eq', decide_true]
    exact and_right_comm

/-- The place of a reading in the index that it started from, and the rows that are left. -/
structure ReadsFrom (uni : PyStr.Unicode) (r : Reading) (w : World) (userId : String) (limit : ℤ)
    (s : World × Option String) (rows : List (String × FeedPost)) : Prop where
  purged : Purged w s.1
  rows_eq : rows = rowsFrom uni r userId limit s

/-- The rows after a page: a query that asks for what is older than its last post finds them. -/
theorem rowsFrom_next {s : World × Option String} {row : String × FeedPost}
    (hrow : row ∈ rowsFrom uni r userId limit s) (hprintable : PyInt.Printable row.2.createdAt)
    (gone : List String) :
    rowsFrom uni r userId limit (purgeFeedPosts gone s.1, some (toString row.2.createdAt)) =
      (rowsFrom uni r userId limit s).filter fun a =>
        decide (a.2.createdAt < row.2.createdAt) && decide (a.1 ∉ gone) := by
  have hparse : parseSince (some (toString row.2.createdAt)) = some row.2.createdAt := by
    rw [parseSince, Option.bind_some]
    exact PyInt.parse_toString hprintable
  obtain ⟨-, hold⟩ := matches_feedQuery.mp (List.mem_filter.mp hrow).2
  show (List.foldl Dict.erase _ _).items.filter _ = _
  rw [items_foldl_erase, rowsFrom, List.filter_filter, List.filter_filter]
  refine List.filter_congr fun a _ => Bool.eq_iff_iff.mpr ?_
  rw [Bool.and_eq_true, Bool.and_eq_true, Bool.and_eq_true, decide_eq_true_eq, decide_eq_true_eq]
  have hlisted : (purgeFeedPosts gone s.1).listed = s.1.listed := rfl
  have hrooms : feedRooms r (purgeFeedPosts gone s.1) userId = feedRooms r s.1 userId := rfl
  have holder : older (some (toString row.2.createdAt)) a ↔ a.2.createdAt < row.2.createdAt := by
    rw [older, hparse]
    simp
  rw [matches_feedQuery, matches_feedQuery, holder, hlisted, hrooms]
  constructor
  · rintro ⟨⟨hroom, hless⟩, hgone⟩
    exact ⟨⟨hless, hgone⟩, hroom, fun t ht => lt_trans hless (hold t ht)⟩
  · rintro ⟨⟨hless, hgone⟩, hroom, -⟩
    exact ⟨⟨hroom, hless⟩, hgone⟩

/-- A page of the feed reads a window of the rows and leaves the rest. -/
theorem ReadsFrom.step (str : Str) (hstored : ∀ row ∈ w.posts.items, PyInt.Printable row.2.createdAt)
    {s : World × Option String} {rows : List (String × FeedPost)} (h : ReadsFrom uni r w userId limit s rows) :
    ∃ page next next', subscriptionsPage str uni r userId limit s = some (page, next) ∧
      (feedCursor str r w userId limit).step rows = some (page, next') ∧
      Option.Rel (ReadsFrom uni r w userId limit) next next' := by
  have hcursor : feedCursor str r s.1 userId limit = feedCursor str r w userId limit := by
    rw [h.purged.eq]
    rfl
  have hgone : goneWhenRead r s.1 = goneWhenRead r w := by
    rw [h.purged.eq]
    rfl
  have hpage := subscriptionsPage_eq str uni r userId limit s
  rw [hcursor, hgone, ← h.rows_eq] at hpage
  refine ⟨_, _, _, hpage, rfl, ?_⟩
  cases hlast : ((feedCursor str r w userId limit).page rows).getLast? with
  | none => exact .none
  | some last =>
    obtain ⟨row, hrow, hshown⟩ := List.mem_filterMap.mp (List.mem_of_getLast? hlast)
    have hkey : last.createdAt = row.2.createdAt := (feedCursor str r w userId limit).keyOf_shown row last hshown
    have hmem : row ∈ rowsFrom uni r userId limit s :=
      h.rows_eq ▸ (r.newestFirst_perm _).mem_iff.mp (List.mem_of_mem_take hrow)
    have hprintable : PyInt.Printable row.2.createdAt :=
      hstored row (get?_eq_some_iff.mp (h.purged.posts row.1 row.2
        (get?_eq_some_iff.mpr (List.mem_filter.mp hmem).1)))
    refine .some ⟨Purged.trans _ _ _ h.purged (purged_purgeFeedPosts _ _), ?_⟩
    dsimp only
    rw [hkey, rowsFrom_next hmem hprintable, ← h.rows_eq]
    show (feedCursor str r w userId limit).rest rows last.createdAt = _
    rw [hkey]
    rfl

/-! ## §3 The whole feed -/

/-- **Paging is complete**: following the cursors from the first page until there is none gives every post that
the reader should see once, the newest first. -/
def FeedComplete (str : Str) (uni : PyStr.Unicode) (r : Reading) (w : World) (userId : String) (limit : ℤ) : Prop :=
  ∃ posts, Followed (subscriptionsPage str uni r userId limit) (w, none) posts ∧
    (∀ item, item ∈ posts ↔ item ∈ visiblePosts str r w userId) ∧ (posts.map FeedItem.eventId).Nodup ∧
    posts.Pairwise fun a b => b.createdAt ≤ a.createdAt

/-- The lookup of the joined channels answers, or there is no post that would be missed. -/
def ChannelsFound (str : Str) (r : Reading) (w : World) (userId : String) : Prop :=
  r.joinedFails = true → ∀ row ∈ w.posts.items, w.listed row.2.roomId = true →
    w.localCurrentMembership userId row.2.roomId = some "join" →
    (shownPost str r w (hydrate w userId row)).isSome = true → (userId, row.2.roomId) ∈ w.subscriptions

theorem nodup_visiblePosts (str : Str) (r : Reading) (w : World) (userId : String) :
    ((visiblePosts str r w userId).map FeedItem.eventId).Nodup := by
  refine List.pairwise_map.mpr (List.pairwise_filterMap.mpr ?_)
  have hnodup : w.posts.items.Pairwise fun a b => a.1 ≠ b.1 := List.pairwise_map.mp w.posts.nodup
  refine (hnodup.sublist List.filter_sublist).imp ?_
  intro a b hne x hx y hy
  rw [(shownPost_keeps hx).1, (shownPost_keeps hy).1]
  exact hne

/-- Of an enabled channel that the user follows the posts are looked for, unless the lookup of the joined channels
fails. -/
theorem mem_feedRooms_iff {roomId : String} (hlisted : w.listed roomId = true) :
    roomId ∈ feedRooms r w userId ↔ (userId, roomId) ∈ w.subscriptions ∨
      r.joinedFails = false ∧ w.localCurrentMembership userId roomId = some "join" := by
  have hkey : roomId ∈ w.published.keys := by
    unfold World.listed at hlisted
    cases hget : w.published.get? roomId with
    | none => rw [hget] at hlisted; cases hlisted
    | some c => exact mem_keys_iff.mpr ⟨c, hget⟩
  rw [feedRooms, List.mem_append, userSubscribedRooms, userJoinedPublishedChannels]
  refine or_congr ?_ ?_
  · simp
  cases r.joinedFails with
  | true => simp
  | false => simp [hkey]

/-- Every post once, in other words. -/
theorem perm_visiblePosts_iff {posts : List FeedItem} : posts.Perm (visiblePosts str r w userId) ↔
      (∀ item, item ∈ posts ↔ item ∈ visiblePosts str r w userId) ∧ (posts.map FeedItem.eventId).Nodup := by
  have hnodup := nodup_visiblePosts str r w userId
  constructor
  · intro hperm
    exact ⟨fun item => hperm.mem_iff, (hperm.map _).nodup_iff.mpr hnodup⟩
  · rintro ⟨hmem, hposts⟩
    exact (List.perm_ext_iff_of_nodup hposts.of_map hnodup.of_map).mpr hmem

/-- The rows of the channels that are found are among those of the channels that the user follows. -/
theorem feedRows_eq (r : Reading) (w : World) (userId : String) : feedRows r w userId =
      (w.posts.items.filter fun row => w.listed row.2.roomId && w.follows userId row.2.roomId).filter
        fun row => decide (row.2.roomId ∈ feedRooms r w userId) := by
  rw [feedRows, List.filter_filter]
  refine List.filter_congr fun row _ => ?_
  cases hlisted : w.listed row.2.roomId with
  | false => simp
  | true =>
    rw [Bool.true_and, Bool.true_and, eq_comm, Bool.and_eq_left_iff_imp, decide_eq_true_eq,
      mem_feedRooms_iff hlisted, World.follows, Bool.or_eq_true, decide_eq_true_eq, decide_eq_true_eq]
    exact Or.imp_right And.right

theorem channelsFound_iff : ChannelsFound str r w userId ↔ ∀ row ∈ w.posts.items.filter fun row =>
        w.listed row.2.roomId && w.follows userId row.2.roomId,
      (shownPost str r w (hydrate w userId row)).isSome = true →
        decide (row.2.roomId ∈ feedRooms r w userId) = true := by
  simp only [List.mem_filter, Bool.and_eq_true, decide_eq_true_eq, World.follows, Bool.or_eq_true]
  constructor
  · rintro hfound row ⟨hmem, hlisted, hfollows⟩ hshown
    rw [mem_feedRooms_iff hlisted]
    rcases hfollows with hsubscribed | hjoined
    · exact .inl hsubscribed
    by_cases hfails : r.joinedFails = true
    · exact .inl (hfound hfails row hmem hlisted hjoined hshown)
    · exact .inr ⟨Bool.eq_false_iff.mpr hfails, hjoined⟩
  · intro hfound hfails row hmem hlisted hjoined hshown
    rcases (mem_feedRooms_iff hlisted).mp (hfound row ⟨hmem, hlisted, .inr hjoined⟩ hshown) with hroom | ⟨hanswers, -⟩
    · exact hroom
    · rw [hfails] at hanswers
      cases hanswers

/-- **The feed is read as its rows are**: a window at a time. -/
theorem feedComplete_iff_followed (hstored : ∀ row ∈ w.posts.items, PyInt.Printable row.2.createdAt) :
    FeedComplete str uni r w userId limit ↔ ChannelsFound str r w userId ∧
      ∃ posts, Followed (feedCursor str r w userId limit).step (feedRows r w userId) posts ∧
        posts.Perm ((feedRows r w userId).filterMap (feedCursor str r w userId limit).shown) ∧
        posts.Pairwise fun a b => b.createdAt ≤ a.createdAt := by
  have hreads : ReadsFrom uni r w userId limit (w, none) (feedRows r w userId) := by
    refine ⟨Purged.refl w, ?_⟩
    refine List.filter_congr fun row _ => Bool.eq_iff_iff.mpr ?_
    rw [matches_feedQuery, Bool.and_eq_true, decide_eq_true_eq, older]
    simp [parseSince]
  have hfollowed : ∀ posts, Followed (subscriptionsPage str uni r userId limit) (w, none) posts ↔
      Followed (feedCursor str r w userId limit).step (feedRows r w userId) posts := fun posts =>
    followed_iff_of_alike (fun _ _ h => h.step str hstored) hreads
  have hshown := shown_filter_iff (C := feedCursor str r w userId limit)
    (l := w.posts.items.filter fun row => w.listed row.2.roomId && w.follows userId row.2.roomId)
    (p := fun row => decide (row.2.roomId ∈ feedRooms r w userId))
  rw [← feedRows_eq] at hshown
  have hall := hshown.trans (channelsFound_iff : ChannelsFound str r w userId ↔ _).symm
  rw [← hall, FeedComplete]
  constructor
  · rintro ⟨posts, hposts, hmem, hnodup, hsorted⟩
    have hread := (hfollowed posts).mp hposts
    have hperm := Multiset.coe_eq_coe.mpr (perm_visiblePosts_iff.mpr ⟨hmem, hnodup⟩)
    -- what is read is among what is found, and that is among what should be seen
    have hle := hread.le_wanted (KeyCursor.wanted _) (fun _ _ _ => step_le)
    have hfound : ((feedRows r w userId).filterMap (feedCursor str r w userId limit).shown : Multiset FeedItem) ≤
        (visiblePosts str r w userId : List FeedItem) := by
      rw [feedRows_eq]
      exact (List.filter_sublist.filterMap _).subperm
    have heq := le_antisymm hfound (hperm ▸ hle)
    exact ⟨heq, posts, hread, Multiset.coe_eq_coe.mp (hperm.trans heq.symm), hsorted⟩
  · rintro ⟨heq, posts, hread, hperm, hsorted⟩
    obtain ⟨hmem, hnodup⟩ := perm_visiblePosts_iff.mp (hperm.trans (Multiset.coe_eq_coe.mp heq))
    exact ⟨posts, (hfollowed posts).mpr hread, hmem, hnodup, hsorted⟩

/-- A window of a complete feed: no post outside of it is as new as its last. -/
theorem FeedComplete.wide (hstored : ∀ row ∈ w.posts.items, PyInt.Printable row.2.createdAt)
    (h : FeedComplete str uni r w userId limit) :
    (feedCursor str r w userId limit).Wide (feedRows r w userId) := by
  obtain ⟨-, posts, hread, hperm, hsorted⟩ := (feedComplete_iff_followed hstored).mp h
  exact (followed_iff.mp ⟨posts, hread, hperm, hsorted⟩).here

/-- **The feed is complete exactly when no window loses a post.** -/
theorem feedComplete_iff (str : Str) (uni : PyStr.Unicode) (r : Reading) (w : World) (userId : String) (limit : ℤ)
    (hstored : ∀ row ∈ w.posts.items, PyInt.Printable row.2.createdAt) :
    FeedComplete str uni r w userId limit ↔ ChannelsFound str r w userId ∧
      AlongPages (feedCursor str r w userId limit).step (feedCursor str r w userId limit).Wide
        (feedRows r w userId) := by
  rw [feedComplete_iff_followed hstored, ← KeyCursor.followed_iff]
  rfl

/-- A channel with one subscriber, and posts with their times and texts. -/
def exampleIndex (posts : List (String × ℤ × String)) : World :=
  { Channels.exampleServer with
    published := Dict.empty.set "!channel:s" ⟨0, none, false, none, true⟩
    subscriptions := [("@reader:s", "!channel:s")]
    posts := posts.foldl (fun d post => d.set post.1
      ⟨"!channel:s", none, "@owner:s", post.2.1, "m.text", post.2.2, none, 0, 0, 0⟩) .empty }

theorem feedComplete_iff_example : FeedComplete Channels.exampleStr Channels.exampleTables Channels.exampleReading
        (exampleIndex [("$a", 6, "news"), ("$b", 5, "older news")]) "@reader:s" 1 ↔
      ChannelsFound Channels.exampleStr Channels.exampleReading
        (exampleIndex [("$a", 6, "news"), ("$b", 5, "older news")]) "@reader:s" ∧
      AlongPages (feedCursor Channels.exampleStr Channels.exampleReading
          (exampleIndex [("$a", 6, "news"), ("$b", 5, "older news")]) "@reader:s" 1).step
        (feedCursor Channels.exampleStr Channels.exampleReading
          (exampleIndex [("$a", 6, "news"), ("$b", 5, "older news")]) "@reader:s" 1).Wide
        (feedRows Channels.exampleReading
          (exampleIndex [("$a", 6, "news"), ("$b", 5, "older news")]) "@reader:s") :=
  feedComplete_iff _ _ _ _ _ _ (by decide +kernel)

/-- **Two posts of one time** on the edge of a page, of which the second is lost, and a first page with nothing to
show, after which there is no other. -/
theorem feed_not_complete : ¬FeedComplete Channels.exampleStr Channels.exampleTables Channels.exampleReading
        (exampleIndex [("$a", 5, "news"), ("$b", 5, "more news")]) "@reader:s" 1 ∧
      ¬FeedComplete Channels.exampleStr Channels.exampleTables Channels.exampleReading
        (exampleIndex [("$a", 6, ""), ("$b", 5, "older news")]) "@reader:s" 1 := by
  constructor
  · intro h
    obtain ⟨last, hlast, hless⟩ := h.wide (by decide +kernel)
      ("$b", ⟨"!channel:s", none, "@owner:s", 5, "m.text", "more news", none, 0, 0, 0⟩) (List.Mem.head _)
      (by decide +kernel)
    obtain rfl := Option.some.inj hlast
    exact absurd hless (by decide +kernel)
  · intro h
    obtain ⟨last, hlast, -⟩ := h.wide (by decide +kernel)
      ("$b", ⟨"!channel:s", none, "@owner:s", 5, "m.text", "older news", none, 0, 0, 0⟩) (List.Mem.head _)
      (by decide +kernel)
    cases hlast

end Setka.Handlers.Feed
