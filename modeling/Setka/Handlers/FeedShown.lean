/-
# Setka.Handlers.FeedShown — what a page of the feed shows.

Every post of a page is in the index and of a listed room, and either its event was found in the
database or its row is visible by itself. Reading the feed only ever removes rows.
-/
import Setka.Handlers.Feed

namespace Setka.Handlers.Feed

open Setka.Api Setka.Events Setka.Lib Setka.Lib.Action

/-! ## §1 One fetch -/

/-- The event was persisted, and neither rejected nor redacted. -/
def World.HasEvent (w : World) (eventId : String) : Prop :=
  ∃ e, w.events.find? (fun e => e.event.eventId = eventId) = some e ∧ e.event.rejected = false ∧
    e.redacted = false

/-- **A post that may be shown**: from the index, of a listed room, with an event or visible as it was
indexed. -/
def Shown (w : World) (item : FeedItem) : Prop :=
  ∃ post, w.posts.get? item.eventId = some post ∧ item.roomId = post.roomId ∧
    w.listed post.roomId = true ∧
    (w.HasEvent item.eventId ∨ postIsVisible post.msgtype post.body post.mediaMxc = true)

/-- The later world has lost rows of the index, and nothing else has changed. -/
structure Purged (w w' : World) : Prop where
  eq : w' = { w with posts := w'.posts }
  posts : ∀ eventId post, w'.posts.get? eventId = some post → w.posts.get? eventId = some post

theorem Purged.refl (w : World) : Purged w w := ⟨rfl, fun _ _ h => h⟩

theorem Purged.trans (w w' w'' : World) (h : Purged w w') (h' : Purged w' w'') : Purged w w'' where
  eq := by
    rw [h'.eq, h.eq]
  posts eventId post hpost := h.posts eventId post (h'.posts eventId post hpost)

variable {w w' : World}

theorem Purged.listed (h : Purged w w') (roomId : String) : w'.listed roomId = w.listed roomId := by
  rw [h.eq]
  rfl

theorem Purged.hasEvent (h : Purged w w') {eventId : String}
    (hevent : w'.HasEvent eventId) : w.HasEvent eventId := by
  rw [h.eq] at hevent
  exact hevent

variable {item : FeedItem}

theorem Shown.of_purged (h : Purged w w') (hitem : Shown w' item) : Shown w item := by
  obtain ⟨post, hpost, hroom, hlisted, hevent⟩ := hitem
  refine ⟨post, h.posts _ _ hpost, hroom, ?_, hevent.imp h.hasEvent id⟩
  rw [← h.listed]
  exact hlisted

theorem purged_purgeFeedPosts (eventIds : List String) (w : World) : Purged w (purgeFeedPosts eventIds w) :=
  ⟨rfl, fun _ _ h => Dict.get?_foldl_erase h⟩

theorem mem_getEventsAsList {frozen : String → Bool} {eventIds : List String} {o : EventObject}
    (h : o ∈ getEventsAsList frozen w eventIds) : w.HasEvent o.event.eventId := by
  obtain ⟨eventId, -, h⟩ := List.mem_filterMap.mp h
  obtain ⟨e, hfind, h⟩ := Option.bind_eq_some_iff.mp h
  split at h
  · cases h
  rename_i hserved
  obtain rfl := Option.some.inj h
  simp only [Bool.or_eq_true, not_or, Bool.not_eq_true] at hserved
  obtain rfl : e.event.eventId = eventId := by simpa using List.find?_some hfind
  exact ⟨e, hfind, hserved.1.1, hserved.1.2⟩

variable {str : Str}

/-- A refreshed row keeps its event and its room. -/
theorem refresh_eq_some {o : EventObject} {item' : FeedItem} (h : refresh str o item = some item') :
    item'.eventId = item.eventId ∧ item'.roomId = item.roomId := by
  unfold refresh at h
  split at h
  · cases h
  dsimp only at h
  split at h
  · cases h
  obtain ⟨h, -⟩ := Option.filter_eq_some_iff.mp h
  obtain rfl := Option.some.inj h
  exact ⟨rfl, rfl⟩

/-- Filtering only removes rows. -/
theorem purged_filterPostsWithEvents (str : Str) (r : Reading) (items : List FeedItem) :
    (filterPostsWithEvents str r items).Keeps Purged := by
  unfold filterPostsWithEvents
  split
  · exact keeps_pure Purged.refl _
  split
  · exact keeps_pure Purged.refl _
  apply Action.Keeps.bind Purged.refl Purged.trans (keeps_reads Purged.refl _)
  intro events
  apply Action.Keeps.bind Purged.refl Purged.trans (keeps_reads Purged.refl _)
  intro redactedIds
  apply Action.Keeps.bind Purged.refl Purged.trans
  · exact fun w => purged_purgeFeedPosts redactedIds w
  · exact fun _ => keeps_pure Purged.refl _

variable {r : Reading} {items : List FeedItem}

/-- **What filtering keeps.** -/
theorem filterPostsWithEvents_spec {kept : List FeedItem}
    (h : (filterPostsWithEvents str r items).run w = (.ok kept, w')) (hitem : item ∈ kept) :
    ∃ old ∈ items, item.eventId = old.eventId ∧ item.roomId = old.roomId ∧
      (w.HasEvent item.eventId ∨ item = old ∧ old.isVisible = true) := by
  unfold filterPostsWithEvents at h
  split at h
  · rw [run_pure] at h
    cases h
    exact absurd hitem List.not_mem_nil
  split at h
  · rw [run_pure] at h
    cases h
    obtain ⟨hmem, hvisible⟩ := List.mem_filter.mp hitem
    exact ⟨item, hmem, rfl, rfl, Or.inr ⟨rfl, hvisible⟩⟩
  obtain ⟨events, w₁, hevents, h⟩ := exists_of_run_bind_eq_ok h
  obtain ⟨redactedIds, w₂, hredacted, h⟩ := exists_of_run_bind_eq_ok h
  cases hevents
  cases hredacted
  cases h
  obtain ⟨old, hold, hitem⟩ := List.mem_filterMap.mp hitem
  split at hitem
  · rename_i o ho
    obtain ⟨hid, hroom⟩ := refresh_eq_some hitem
    refine ⟨old, hold, hid, hroom, Or.inl ?_⟩
    have hevent := mem_getEventsAsList (List.mem_of_find?_eq_some ho)
    have hfound : o.event.eventId = old.eventId := by simpa using List.find?_some ho
    rw [hid, ← hfound]
    exact hevent
  · split at hitem
    · cases hitem
    · split at hitem
      · rename_i hvisible
        obtain rfl := Option.some.inj hitem
        exact ⟨old, hold, rfl, rfl, Or.inr ⟨rfl, hvisible⟩⟩
      · cases hitem

variable {q : Query} {uni : PyStr.Unicode}

/-- The rows that a query selects are rows of the index, of listed rooms. -/
theorem mem_rows {row : String × FeedPost} (h : row ∈ q.rows r uni w) :
    w.posts.get? row.1 = some row.2 ∧ w.listed row.2.roomId = true := by
  have hmem : row ∈ w.posts.items.filter (q.matches r uni w) := by
    have hordered := List.mem_of_mem_take h
    split at hordered
    · exact (r.random_perm _).mem_iff.mp hordered
    · exact (r.newestFirst_perm _).mem_iff.mp hordered
  obtain ⟨hitems, hmatches⟩ := List.mem_filter.mp hmem
  refine ⟨Dict.get?_eq_some_iff.mpr hitems, ?_⟩
  unfold Query.matches at hmatches
  simp only [Bool.and_eq_true] at hmatches
  exact hmatches.1.1.1.1

theorem purged_fetchPosts (str : Str) (uni : PyStr.Unicode) (r : Reading) (userId : String)
    (q : Query) : (fetchPosts str uni r userId q).Keeps Purged := by
  apply Action.Keeps.bind Purged.refl Purged.trans (keeps_reads Purged.refl _)
  exact fun items => purged_filterPostsWithEvents str r items

/-- **What one fetch shows.** -/
theorem fetchPosts_spec {userId : String} (h : (fetchPosts str uni r userId q).run w = (.ok items, w'))
    (hitem : item ∈ items) : Shown w item := by
  obtain ⟨rows, w₁, hrows, h⟩ := exists_of_run_bind_eq_ok h
  cases hrows
  obtain ⟨old, hold, hid, hroom, hevent⟩ := filterPostsWithEvents_spec h hitem
  obtain ⟨row, hrow, rfl⟩ := List.mem_map.mp hold
  obtain ⟨hpost, hlisted⟩ := mem_rows hrow
  refine ⟨row.2, ?_, hroom, hlisted, ?_⟩
  · rw [hid]
    exact hpost
  rcases hevent with hevent | ⟨-, hvisible⟩
  · exact Or.inl hevent
  · exact Or.inr hvisible

/-! ## §2 A page -/

theorem mem_merge {posts batch : List FeedItem} (h : item ∈ merge posts batch) : item ∈ posts ∨ item ∈ batch := by
  induction batch generalizing posts with
  | nil => exact Or.inl h
  | cons x xs ih =>
    rcases ih h with hmem | hmem
    · dsimp only at hmem
      split at hmem
      · exact Or.inl hmem
      rcases List.mem_append.mp hmem with hmem | hmem
      · exact Or.inl hmem
      · obtain rfl := List.mem_singleton.mp hmem
        exact Or.inr List.mem_cons_self
    · exact Or.inr (List.mem_cons_of_mem x hmem)

theorem purged_recommendedPart (str : Str) (uni : PyStr.Unicode) (r : Reading) (userId : String)
    (wanted : Bool) (q : Query) (posts : List FeedItem) :
    (recommendedPart str uni r userId wanted q posts).Keeps Purged := by
  unfold recommendedPart
  split
  · apply Action.Keeps.bind Purged.refl Purged.trans (purged_fetchPosts str uni r userId q)
    exact fun batch => keeps_pure Purged.refl _
  · exact keeps_pure Purged.refl _

/-- A part of a recommended page adds posts that may be shown. -/
theorem recommendedPart_spec {userId : String} {wanted : Bool} {posts : List FeedItem} {w₀ : World}
    (hw : Purged w₀ w) (hposts : ∀ item ∈ posts, Shown w₀ item)
    (h : (recommendedPart str uni r userId wanted q posts).run w = (.ok items, w')) :
    Purged w₀ w' ∧ ∀ item ∈ items, Shown w₀ item := by
  have hpurged : Purged w w' := by
    have hkeeps := purged_recommendedPart str uni r userId wanted q posts w
    rw [h] at hkeeps
    exact hkeeps
  refine ⟨Purged.trans _ _ _ hw hpurged, fun item hitem => ?_⟩
  unfold recommendedPart at h
  split at h
  · obtain ⟨batch, w₁, hbatch, h⟩ := exists_of_run_bind_eq_ok h
    cases h
    rcases mem_merge hitem with hitem | hitem
    · exact hposts item hitem
    · exact (fetchPosts_spec hbatch hitem).of_purged hw
  · rw [run_pure] at h
    cases h
    exact hposts item hitem

theorem recommended_spec {r : ℕ → Reading} {q : FeedRequest} {page : Page}
    (h : (recommended str uni r q).run w = (.ok page, w')) (hitem : item ∈ page.posts) : Shown w item := by
  obtain ⟨subscribed, w₁, hsubscribed, h⟩ := exists_of_run_bind_eq_ok h
  obtain ⟨topCategories, w₂, htop, h⟩ := exists_of_run_bind_eq_ok h
  cases hsubscribed
  cases htop
  obtain ⟨posts₁, w₃, hpart, h⟩ := exists_of_run_bind_eq_ok h
  obtain ⟨hw₃, hposts₁⟩ := recommendedPart_spec (Purged.refl w)
    (fun item hitem => absurd hitem List.not_mem_nil) hpart
  obtain ⟨posts₂, w₄, hpart, h⟩ := exists_of_run_bind_eq_ok h
  obtain ⟨hw₄, hposts₂⟩ := recommendedPart_spec hw₃ hposts₁ hpart
  obtain ⟨posts₃, w₅, hpart, h⟩ := exists_of_run_bind_eq_ok h
  obtain ⟨-, hposts₃⟩ := recommendedPart_spec hw₄ hposts₂ hpart
  cases h
  apply hposts₃ item
  -- sorting, cutting and shuffling add nothing
  have hpage : item ∈ (posts₃.insertionSort fun a b => b.createdAt ≤ a.createdAt).take (sizes q.limit).page := by
    split at hitem
    · exact ((r 2).shuffle_perm _).mem_iff.mp hitem
    · exact hitem
  exact (List.mem_insertionSort _).mp (List.mem_of_mem_take hpage)

/-- **Reading the feed only removes rows of the index.** -/
theorem purged_getFeed (str : Str) (uni : PyStr.Unicode) (r : ℕ → Reading) (q : FeedRequest) :
    (getFeed str uni r q).Keeps Purged := by
  have hfetch : ∀ query, Action.Keeps Purged (do
      let posts ← fetchPosts str uni (r 0) q.userId query
      pure (pageResponse posts)) := by
    intro query
    apply Action.Keeps.bind Purged.refl Purged.trans (purged_fetchPosts str uni (r 0) q.userId query)
    exact fun posts => keeps_pure Purged.refl _
  unfold getFeed
  dsimp only
  split
  · exact hfetch _
  split
  · apply Action.Keeps.bind Purged.refl Purged.trans (keeps_reads Purged.refl _)
    exact fun roomIds => hfetch _
  apply Action.Keeps.bind Purged.refl Purged.trans (keeps_reads Purged.refl _)
  intro subscribed
  apply Action.Keeps.bind Purged.refl Purged.trans (keeps_reads Purged.refl _)
  intro topCategories
  apply Action.Keeps.bind Purged.refl Purged.trans (purged_recommendedPart str uni (r 0) q.userId _ _ [])
  intro posts₁
  apply Action.Keeps.bind Purged.refl Purged.trans (purged_recommendedPart str uni (r 1) q.userId _ _ posts₁)
  intro posts₂
  apply Action.Keeps.bind Purged.refl Purged.trans (purged_recommendedPart str uni (r 2) q.userId _ _ posts₂)
  exact fun posts₃ => keeps_pure Purged.refl _

/-- **What `get_feed` shows.** -/
theorem getFeed_spec {r : ℕ → Reading} {q : FeedRequest} {page : Page}
    (h : (getFeed str uni r q).run w = (.ok page, w')) (hitem : item ∈ page.posts) : Shown w item := by
  unfold getFeed at h
  dsimp only at h
  split at h
  · obtain ⟨posts, w₁, hposts, h⟩ := exists_of_run_bind_eq_ok h
    cases h
    exact fetchPosts_spec hposts hitem
  split at h
  · obtain ⟨roomIds, w₁, hrooms, h⟩ := exists_of_run_bind_eq_ok h
    cases hrooms
    obtain ⟨posts, w₂, hposts, h⟩ := exists_of_run_bind_eq_ok h
    cases h
    exact fetchPosts_spec hposts hitem
  · exact recommended_spec h hitem

end Setka.Handlers.Feed
