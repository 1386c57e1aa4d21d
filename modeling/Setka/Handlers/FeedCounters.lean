/-
# Setka.Handlers.FeedCounters — the counters of the feed.

`setka_feed_posts` keeps how many rows the tables of likes and views have for a post. Likes and views
are counted as they come and go, a row that is written again keeps its counts, and a purge drops the
row with its counts. But likes and views outlive the row and may come before it: a new row starts at
zero, whatever the tables say.
-/
import Setka.Handlers.ChannelRuns

namespace Setka.Handlers.Feed

open Setka.Api Setka.Events Setka.Lib

/-! ## §1 Transactions -/

/-- The fields under which `maybe_ingest_event` and `ingest_post` index an event, if they do. -/
def postFields (str : Str) (o : EventObject) : Option (String × String × Option String) :=
  if o.event.type ≠ "m.room.message" then none
  else
    let content := (contentMapping o).getD []
    if (Json.truthy? (Json.member? content "m.relates_to")).isSome then none
    else some (messageFieldsFromContent str content)

/-- The database, and the calls of `maybe_ingest_event` that have read that the room is enabled and
have not written the row yet: each with its event, the category that was read, and the fields. -/
structure Database where
  world : World
  waiting : List (EventObject × Option String × String × String × Option String)

/-- A transaction. `maybe_ingest_event` has two, and others may run between them. The registry of the
channels is written by other handlers. -/
inductive Txn
  | roomEnabled (o : EventObject)
  | upsert (n : ℕ)
  | ingestPost (o : EventObject) (roomId categoryId : String)
  | toggleLike (userId eventId : String)
  | recordView (userId eventId : String)
  | purgeFeedPosts (eventIds : List String)
  | setRegistry (published : Dict String PublishedChannel)

/-- The database after a transaction. -/
def Database.after (str : Str) (d : Database) : Txn → Database
  | .roomEnabled o =>
    match postFields str o, roomFeedEnabled d.world o.event.roomId with
    | some fields, (true, categoryId) =>
      { d with waiting := d.waiting ++ [(o, categoryId, fields)] }
    | _, _ => d
  | .upsert n =>
    match d.waiting[n]? with
    | some (o, categoryId, fields) =>
      { world := { d.world with posts := ingested o categoryId fields d.world.posts }
        waiting := d.waiting.eraseIdx n }
    | none => d
  | .ingestPost o roomId categoryId =>
    { d with world := ((Feed.ingestPost str o roomId categoryId).run d.world).2 }
  | .toggleLike userId eventId =>
    { d with world := ((Feed.toggleLike userId eventId).run d.world).2 }
  | .recordView userId eventId =>
    { d with world := ((Feed.recordView userId eventId).run d.world).2 }
  | .purgeFeedPosts eventIds => { d with world := Feed.purgeFeedPosts eventIds d.world }
  | .setRegistry published => { d with world := { d.world with published } }

/-- The database after several transactions. -/
def Database.run (str : Str) (d : Database) (txns : List Txn) : Database :=
  txns.foldl (Database.after str) d

/-- Tables that have just been created. -/
structure Created (d : Database) : Prop where
  posts : d.world.posts = .empty
  likes : d.world.likes = []
  views : d.world.views = []
  waiting : d.waiting = []

/-! ## §2 Counting rows -/

/-- How many rows a table of likes or views has for a post. -/
def rowsOf (rows : List (String × String)) (eventId : String) : ℕ :=
  rows.countP fun row => row.2 = eventId

theorem rowsOf_cons (userId eventId : String) (rows : List (String × String)) (a : String) :
    rowsOf ((userId, eventId) :: rows) a = rowsOf rows a + if eventId = a then 1 else 0 := by
  unfold rowsOf
  rw [List.countP_cons]
  simp

variable {rows : List (String × String)} {userId eventId : String}

/-- Dropping a row counts one less for its post, and as before for the others. -/
theorem rowsOf_filter (hnodup : rows.Nodup) (hmem : (userId, eventId) ∈ rows) (a : String) :
    rowsOf (rows.filter fun row => row ≠ (userId, eventId)) a + (if eventId = a then 1 else 0) = rowsOf rows a := by
  have hperm : rows.Perm ((userId, eventId) :: rows.filter fun row => row ≠ (userId, eventId)) := by
    have herase := List.perm_cons_erase hmem
    rw [hnodup.erase_eq_filter] at herase
    refine herase.trans (List.Perm.cons _ (List.Perm.of_eq ?_))
    refine List.filter_congr fun row _ => ?_
    by_cases hrow : row = (userId, eventId)
    · simp [hrow]
    · simp [hrow]
  rw [← rowsOf_cons]
  exact (hperm.countP_eq _).symm

/-- A column of the index that counts the rows of a table. -/
def Counts (column : FeedPost → ℤ) (rows : List (String × String)) (posts : Dict String FeedPost) : Prop :=
  ∀ eventId post, posts.get? eventId = some post → column post = rowsOf rows eventId

namespace Counts

variable {column : FeedPost → ℤ} {rows : List (String × String)} {posts : Dict String FeedPost}

theorem purged (h : Counts column rows posts) (eventIds : List String) :
    Counts column rows (eventIds.foldl Dict.erase posts) :=
  fun eventId post hpost => h eventId post (Dict.get?_foldl_erase hpost)

/-- **A row that is written.** The counts stay true exactly when its own is. -/
theorem set_iff (h : Counts column rows posts) (eventId : String) (post : FeedPost) :
    Counts column rows (posts.set eventId post) ↔ column post = rowsOf rows eventId := by
  constructor
  · intro hset
    exact hset eventId post (by simp)
  intro hcolumn a other hother
  rcases Dict.of_get?_set hother with ⟨ha, rfl⟩ | ⟨-, hother⟩
  · rw [ha, hcolumn]
  · exact h a other hother

end Counts

theorem get?_updatePost (w : World) (eventId : String) (f : FeedPost → FeedPost) (a : String) :
    (w.updatePost eventId f).posts.get? a = if a = eventId then (w.posts.get? a).map f else w.posts.get? a := by
  unfold World.updatePost
  by_cases ha : a = eventId
  · subst ha
    cases hrow : w.posts.get? a with
    | none => simp [hrow]
    | some post => simp
  · cases hrow : w.posts.get? eventId with
    | none => simp [ha]
    | some post => simp [ha]

@[simp] theorem updatePost_likes (w : World) (eventId : String) (f : FeedPost → FeedPost) :
    (w.updatePost eventId f).likes = w.likes := by
  unfold World.updatePost
  cases w.posts.get? eventId with
  | none => rfl
  | some post => rfl

@[simp] theorem updatePost_views (w : World) (eventId : String) (f : FeedPost → FeedPost) :
    (w.updatePost eventId f).views = w.views := by
  unfold World.updatePost
  cases w.posts.get? eventId with
  | none => rfl
  | some post => rfl

/-! ## §3 What each transaction does to the counts -/

/-- The tables of likes and views have one row for a user and a post. -/
structure Keyed (w : World) : Prop where
  likes : w.likes.Nodup
  views : w.views.Nodup

/-- **The counters are true.** -/
structure CountersTrue (w : World) : Prop where
  likes : Counts FeedPost.likeCount w.likes w.posts
  views : Counts FeedPost.viewCount w.views w.posts

variable {w : World}

/-- A user who likes the post takes the like back. -/
theorem toggleLike_of_mem (h : (userId, eventId) ∈ w.likes) : ((toggleLike userId eventId).run w).2 =
      { w with likes := w.likes.filter fun row => row ≠ (userId, eventId) }.updatePost eventId fun post =>
          { post with likeCount := if 0 < post.likeCount then post.likeCount - 1 else 0 } := by
  have hliked : (!w.likes.contains (userId, eventId)) = false := by simpa using h
  show (if (!w.likes.contains (userId, eventId)) = true then _ else _) = _
  rw [hliked, if_neg Bool.false_ne_true]

theorem toggleLike_of_not_mem (h : (userId, eventId) ∉ w.likes) : ((toggleLike userId eventId).run w).2 =
      { w with likes := (userId, eventId) :: w.likes }.updatePost eventId fun post =>
        { post with likeCount := post.likeCount + 1 } := by
  have hliked : (!w.likes.contains (userId, eventId)) = true := by simpa using h
  show (if (!w.likes.contains (userId, eventId)) = true then _ else _) = _
  rw [if_pos hliked]

/-- The row of a post and the table change together. -/
theorem Counts.updated {column : FeedPost → ℤ} {rows' : List (String × String)} {w' : World}
    (h : Counts column rows w.posts) (hposts : w'.posts = w.posts) {f : FeedPost → FeedPost}
    (hf : ∀ post, column post = rowsOf rows eventId → column (f post) = rowsOf rows' eventId)
    (hother : ∀ a, a ≠ eventId → rowsOf rows' a = rowsOf rows a) :
    Counts column rows' (w'.updatePost eventId f).posts := by
  intro a post hpost
  rw [get?_updatePost, hposts] at hpost
  by_cases ha : a = eventId
  · subst ha
    rw [if_pos rfl] at hpost
    obtain ⟨row, hrow, rfl⟩ := Option.map_eq_some_iff.mp hpost
    exact hf row (h a row hrow)
  · rw [if_neg ha] at hpost
    rw [hother a ha]
    exact h a post hpost

/-- A counter is left alone by an update of the other one. -/
theorem Counts.framed {column : FeedPost → ℤ} {w' : World} (h : Counts column rows w.posts)
    (hposts : w'.posts = w.posts) {f : FeedPost → FeedPost} (hf : ∀ post, column (f post) = column post) :
    Counts column rows (w'.updatePost eventId f).posts :=
  h.updated hposts (fun post hpost => by rw [hf, hpost]) fun _ _ => rfl

theorem toggleLike_keyed (h : Keyed w) (userId eventId : String) : Keyed ((toggleLike userId eventId).run w).2 := by
  by_cases hliked : (userId, eventId) ∈ w.likes
  · rw [toggleLike_of_mem hliked]
    exact ⟨by simpa using h.likes.filter _, by simpa using h.views⟩
  · rw [toggleLike_of_not_mem hliked]
    exact ⟨by simpa using ⟨hliked, h.likes⟩, by simpa using h.views⟩

theorem toggleLike_countersTrue (hkeyed : Keyed w) (h : CountersTrue w)
    (userId eventId : String) : CountersTrue ((toggleLike userId eventId).run w).2 := by
  by_cases hliked : (userId, eventId) ∈ w.likes
  · rw [toggleLike_of_mem hliked]
    have hrows := rowsOf_filter hkeyed.likes hliked
    refine ⟨?_, ?_⟩
    · rw [updatePost_likes]
      apply h.likes.updated
      · rfl
      · intro post hpost
        have hone := hrows eventId
        rw [if_pos rfl] at hone
        -- the like that goes was counted, so the count is not zero
        show (if 0 < post.likeCount then post.likeCount - 1 else 0) =
          (rowsOf (w.likes.filter fun row => row ≠ (userId, eventId)) eventId : ℤ)
        omega
      · intro a ha
        have hsame := hrows a
        rwa [if_neg (Ne.symm ha), Nat.add_zero] at hsame
    · rw [updatePost_views]
      apply h.views.framed
      · rfl
      · intro post
        rfl
  · rw [toggleLike_of_not_mem hliked]
    refine ⟨?_, ?_⟩
    · rw [updatePost_likes]
      apply h.likes.updated
      · rfl
      · intro post hpost
        rw [rowsOf_cons, if_pos rfl]
        show post.likeCount + 1 = _
        omega
      · intro a ha
        rw [rowsOf_cons, if_neg (Ne.symm ha), Nat.add_zero]
    · rw [updatePost_views]
      apply h.views.framed
      · rfl
      · intro post
        rfl

theorem recordView_of_mem (h : (userId, eventId) ∈ w.views) : ((recordView userId eventId).run w).2 = w := by
  show (if (userId, eventId) ∈ w.views then w else _) = w
  rw [if_pos h]

theorem recordView_of_not_mem (h : (userId, eventId) ∉ w.views) : ((recordView userId eventId).run w).2 =
      { w with views := (userId, eventId) :: w.views }.updatePost eventId fun post =>
        { post with viewCount := post.viewCount + 1 } := by
  show (if (userId, eventId) ∈ w.views then w else _) = _
  rw [if_neg h]

theorem recordView_keyed (h : Keyed w) (userId eventId : String) : Keyed ((recordView userId eventId).run w).2 := by
  by_cases hseen : (userId, eventId) ∈ w.views
  · rwa [recordView_of_mem hseen]
  · rw [recordView_of_not_mem hseen]
    exact ⟨by simpa using h.likes, by simpa using ⟨hseen, h.views⟩⟩

theorem recordView_countersTrue (h : CountersTrue w) (userId eventId : String) :
    CountersTrue ((recordView userId eventId).run w).2 := by
  by_cases hseen : (userId, eventId) ∈ w.views
  · rwa [recordView_of_mem hseen]
  rw [recordView_of_not_mem hseen]
  refine ⟨?_, ?_⟩
  · rw [updatePost_likes]
    apply h.likes.framed
    · rfl
    · intro post
      rfl
  rw [updatePost_views]
  apply h.views.updated
  · rfl
  · intro post hpost
    rw [rowsOf_cons, if_pos rfl]
    show post.viewCount + 1 = _
    omega
  · intro a ha
    rw [rowsOf_cons, if_neg (Ne.symm ha), Nat.add_zero]

/-- **A row that is written.** A row that is there keeps its counts; a new one starts at zero, which is
its count exactly when no one has liked or seen the post. -/
theorem countersTrue_insert_iff (h : CountersTrue w) {post : FeedPost}
    (hnew : w.posts.get? eventId = none → post.likeCount = 0 ∧ post.viewCount = 0)
    (hold : ∀ row, w.posts.get? eventId = some row →
      post.likeCount = row.likeCount ∧ post.viewCount = row.viewCount) :
    CountersTrue { w with posts := w.posts.set eventId post } ↔
      (w.posts.get? eventId = none → rowsOf w.likes eventId = 0 ∧ rowsOf w.views eventId = 0) := by
  have hiff : CountersTrue { w with posts := w.posts.set eventId post } ↔
      post.likeCount = rowsOf w.likes eventId ∧ post.viewCount = rowsOf w.views eventId := by
    rw [← h.likes.set_iff, ← h.views.set_iff]
    exact ⟨fun h => ⟨h.likes, h.views⟩, fun h => ⟨h.1, h.2⟩⟩
  rw [hiff]
  cases hrow : w.posts.get? eventId with
  | none =>
    obtain ⟨hlike, hview⟩ := hnew hrow
    rw [hlike, hview, forall_prop_of_true rfl]
    omega
  | some row =>
    obtain ⟨hlike, hview⟩ := hold row hrow
    rw [hlike, hview, h.likes eventId row hrow, h.views eventId row hrow]
    simp

/-! ## §4 Runs -/

/-- The event whose row a transaction writes. -/
def Txn.writes (str : Str) (d : Database) : Txn → Option String
  | .upsert n => (d.waiting[n]?).map fun call => call.1.event.eventId
  | .ingestPost o _ _ => (postFields str o).map fun _ => o.event.eventId
  | _ => none

/-- **A transaction that inserts no row of a post that was liked or seen before.** -/
def InsertsUnseen (str : Str) (d : Database) (txn : Txn) : Prop :=
  ∀ eventId, txn.writes str d = some eventId → d.world.posts.get? eventId = none →
    rowsOf d.world.likes eventId = 0 ∧ rowsOf d.world.views eventId = 0

instance (str : Str) (d : Database) (txn : Txn) : Decidable (InsertsUnseen str d txn) :=
  decidable_of_iff ((txn.writes str d).all fun eventId => (d.world.posts.get? eventId).isSome ||
      (rowsOf d.world.likes eventId = 0 && rowsOf d.world.views eventId = 0)) (by
    unfold InsertsUnseen
    rw [Option.all_eq_true]
    refine forall_congr' fun eventId => imp_congr_right fun _ => ?_
    cases d.world.posts.get? eventId with
    | none => simp
    | some post => simp)

theorem after_roomEnabled_world (str : Str) (d : Database) (o : EventObject) :
    (d.after str (.roomEnabled o)).world = d.world := by
  rw [Database.after]
  split
  · rfl
  · rfl

variable {str : Str} {d : Database}

theorem after_upsert_of_none {n : ℕ} (h : d.waiting[n]? = none) : d.after str (.upsert n) = d := by
  rw [Database.after, h]

theorem after_upsert_of_some {n : ℕ} {call : EventObject × Option String × String × String × Option String}
    (h : d.waiting[n]? = some call) : (d.after str (.upsert n)).world =
      { d.world with posts := ingested call.1 call.2.1 call.2.2 d.world.posts } := by
  rw [Database.after, h]

theorem ingestPost_of_none {o : EventObject} (h : postFields str o = none) (roomId categoryId : String)
    (w : World) : ((ingestPost str o roomId categoryId).run w).2 = w := by
  unfold postFields at h
  unfold ingestPost
  split at h
  · rename_i htype
    rw [if_pos htype]
    rfl
  rename_i htype
  dsimp only at h
  split at h
  · rename_i hrelates
    rw [if_neg htype, if_pos hrelates]
    rfl
  · cases h

theorem ingestPost_of_some {o : EventObject} {fields : String × String × Option String}
    (h : postFields str o = some fields) (roomId categoryId : String) (w : World) :
    ((ingestPost str o roomId categoryId).run w).2 =
      { w with posts := ingestedPost o roomId categoryId fields w.posts } := by
  unfold postFields at h
  unfold ingestPost
  split at h
  · cases h
  rename_i htype
  dsimp only at h
  split at h
  · cases h
  rename_i hrelates
  cases h
  rw [if_neg htype, if_neg hrelates]
  rfl

/-- The upsert of `maybe_ingest_event` counts nothing for a new row and recounts no other. -/
theorem ingested_eq_set (o : EventObject) (categoryId : Option String)
    (fields : String × String × Option String) (posts : Dict String FeedPost) :
    ∃ post, ingested o categoryId fields posts = posts.set o.event.eventId post ∧
      (posts.get? o.event.eventId = none → post.likeCount = 0 ∧ post.viewCount = 0) ∧
      ∀ row, posts.get? o.event.eventId = some row →
        post.likeCount = row.likeCount ∧ post.viewCount = row.viewCount := by
  refine ⟨_, rfl, ?_, ?_⟩
  · intro hnone
    rw [hnone]
    exact ⟨rfl, rfl⟩
  intro row hrow
  rw [hrow]
  exact ⟨rfl, rfl⟩

theorem ingestedPost_eq_set (o : EventObject) (roomId categoryId : String)
    (fields : String × String × Option String) (posts : Dict String FeedPost) :
    ∃ post, ingestedPost o roomId categoryId fields posts = posts.set o.event.eventId post ∧
      (posts.get? o.event.eventId = none → post.likeCount = 0 ∧ post.viewCount = 0) ∧
      ∀ row, posts.get? o.event.eventId = some row →
        post.likeCount = row.likeCount ∧ post.viewCount = row.viewCount := by
  refine ⟨_, rfl, ?_, ?_⟩
  · intro hnone
    rw [hnone]
    exact ⟨rfl, rfl⟩
  intro row hrow
  rw [hrow]
  exact ⟨rfl, rfl⟩

theorem after_keyed (h : Keyed d.world) (txn : Txn) : Keyed (d.after str txn).world := by
  cases txn with
  | roomEnabled o => rwa [after_roomEnabled_world]
  | upsert n =>
    cases hcall : d.waiting[n]? with
    | none => rwa [after_upsert_of_none hcall]
    | some call =>
      rw [after_upsert_of_some hcall]
      exact ⟨h.likes, h.views⟩
  | ingestPost o roomId categoryId =>
    show Keyed ((ingestPost str o roomId categoryId).run d.world).2
    cases hfields : postFields str o with
    | none => rwa [ingestPost_of_none hfields]
    | some fields =>
      rw [ingestPost_of_some hfields]
      exact ⟨h.likes, h.views⟩
  | toggleLike userId eventId => exact toggleLike_keyed h userId eventId
  | recordView userId eventId => exact recordView_keyed h userId eventId
  | purgeFeedPosts eventIds => exact ⟨h.likes, h.views⟩
  | setRegistry published => exact ⟨h.likes, h.views⟩

theorem insertsUnseen_of_none {txn : Txn} (h : txn.writes str d = none) : InsertsUnseen str d txn := by
  intro eventId hwrites
  rw [h] at hwrites
  cases hwrites

theorem insertsUnseen_iff {txn : Txn} (h : txn.writes str d = some eventId) :
    InsertsUnseen str d txn ↔ (d.world.posts.get? eventId = none →
      rowsOf d.world.likes eventId = 0 ∧ rowsOf d.world.views eventId = 0) := by
  unfold InsertsUnseen
  rw [h]
  simp

/-- **One transaction.** It keeps the counters true exactly when it inserts no row of a post that was
liked or seen before. -/
theorem after_countersTrue_iff (hkeyed : Keyed d.world) (h : CountersTrue d.world) (txn : Txn) :
    CountersTrue (d.after str txn).world ↔ InsertsUnseen str d txn := by
  cases txn with
  | roomEnabled o =>
    rw [after_roomEnabled_world]
    exact iff_of_true h (insertsUnseen_of_none rfl)
  | upsert n =>
    cases hcall : d.waiting[n]? with
    | none =>
      rw [after_upsert_of_none hcall]
      refine iff_of_true h (insertsUnseen_of_none ?_)
      simp [Txn.writes, hcall]
    | some call =>
      obtain ⟨post, hset, hnew, hold⟩ :=
        ingested_eq_set call.1 call.2.1 call.2.2 d.world.posts
      have hwrites : (Txn.upsert n).writes str d = some call.1.event.eventId := by
        simp [Txn.writes, hcall]
      rw [after_upsert_of_some hcall, hset, countersTrue_insert_iff h hnew hold, insertsUnseen_iff hwrites]
  | ingestPost o roomId categoryId =>
    show CountersTrue ((ingestPost str o roomId categoryId).run d.world).2 ↔ _
    cases hfields : postFields str o with
    | none =>
      rw [ingestPost_of_none hfields]
      refine iff_of_true h (insertsUnseen_of_none ?_)
      simp [Txn.writes, hfields]
    | some fields =>
      obtain ⟨post, hset, hnew, hold⟩ :=
        ingestedPost_eq_set o roomId categoryId fields d.world.posts
      have hwrites : (Txn.ingestPost o roomId categoryId).writes str d = some o.event.eventId := by
        simp [Txn.writes, hfields]
      rw [ingestPost_of_some hfields, hset, countersTrue_insert_iff h hnew hold, insertsUnseen_iff hwrites]
  | toggleLike userId eventId =>
    exact iff_of_true (toggleLike_countersTrue hkeyed h userId eventId) (insertsUnseen_of_none rfl)
  | recordView userId eventId =>
    exact iff_of_true (recordView_countersTrue h userId eventId) (insertsUnseen_of_none rfl)
  | purgeFeedPosts eventIds =>
    exact iff_of_true ⟨h.likes.purged eventIds, h.views.purged eventIds⟩ (insertsUnseen_of_none rfl)
  | setRegistry published =>
    exact iff_of_true ⟨h.likes, h.views⟩ (insertsUnseen_of_none rfl)

theorem run_concat (str : Str) (d : Database) (txns : List Txn) (txn : Txn) :
    d.run str (txns ++ [txn]) = (d.run str txns).after str txn := by
  unfold Database.run
  rw [List.foldl_append]
  rfl

theorem Created.keyed (h : Created d) : Keyed d.world :=
  ⟨by rw [h.likes]; exact List.nodup_nil, by rw [h.views]; exact List.nodup_nil⟩

theorem Created.countersTrue (h : Created d) : CountersTrue d.world := by
  constructor
  · intro eventId post hpost
    rw [h.posts] at hpost
    cases hpost
  intro eventId post hpost
  rw [h.posts] at hpost
  cases hpost

theorem run_keyed (h : Keyed d.world) (txns : List Txn) : Keyed (d.run str txns).world := by
  induction txns using List.reverseRecOn with
  | nil => exact h
  | append_singleton txns txn ih =>
    rw [run_concat]
    exact after_keyed ih txn

/-- The counters stay true along a run without such insertions. -/
theorem run_countersTrue (hd : Created d) {txns : List Txn}
    (h : AllSteps (fun before txn => InsertsUnseen str (d.run str before) txn) txns) :
    CountersTrue (d.run str txns).world := by
  induction txns using List.reverseRecOn with
  | nil => exact hd.countersTrue
  | append_singleton txns txn ih =>
    obtain ⟨hbefore, hlast⟩ := allSteps_concat.mp h
    rw [run_concat]
    exact (after_countersTrue_iff (run_keyed hd.keyed txns) (ih hbefore) txn).mpr hlast

/-- **The counters of the feed are true.** In the states of a run from empty tables every row counts its
likes and its views exactly when no transaction of the run inserts the row of a post that was liked or
seen before. -/
theorem countersTrue_iff {str : Str} {d : Database} (hd : Created d) (txns : List Txn) :
    (∀ before after, txns = before ++ after → CountersTrue (d.run str before).world) ↔
      AllSteps (fun before txn => InsertsUnseen str (d.run str before) txn) txns := by
  constructor
  · intro h before txn after hsplit
    have hstart := h before (txn :: after) hsplit
    have hnext := h (before ++ [txn]) after (by simp [hsplit])
    rw [run_concat] at hnext
    exact (after_countersTrue_iff (run_keyed hd.keyed before) hstart txn).mp hnext
  · intro h before after hsplit
    refine run_countersTrue hd fun earlier txn later hearlier => h earlier txn (later ++ after) ?_
    rw [hsplit, hearlier, List.append_assoc, List.cons_append]

/-- A channel whose feed is enabled, and no posts yet. -/
def exampleDatabase : Database where
  world :=
    { Channels.exampleServer with
      published := Dict.empty.set "!channel:s" ⟨1700000000000, none, false, none, true⟩ }
  waiting := []

theorem exampleDatabase_created : Created exampleDatabase := ⟨rfl, rfl, rfl, rfl⟩

/-- The post enters the index, is liked, is seen twice by one reader, and loses its like. -/
def exampleTxns : List Txn :=
  [.roomEnabled ⟨Channels.examplePost, false⟩, .upsert 0, .toggleLike "@reader:s" "$post",
    .recordView "@reader:s" "$post", .recordView "@reader:s" "$post",
    .toggleLike "@reader:s" "$post"]

theorem countersTrue_iff_example : CountersTrue (exampleDatabase.run Channels.exampleStr exampleTxns).world := by
  refine (countersTrue_iff exampleDatabase_created exampleTxns).mpr ?_ exampleTxns [] rfl
  simp only [exampleTxns, allSteps_cons, allSteps_nil, and_true]
  decide +kernel

theorem not_countersTrue {w : World} {eventId : String} {n : ℤ}
    (hrow : (w.posts.get? eventId).map FeedPost.likeCount = some n)
    (hlikes : n ≠ rowsOf w.likes eventId) : ¬ CountersTrue w := by
  intro h
  obtain ⟨post, hpost, rfl⟩ := Option.map_eq_some_iff.mp hrow
  exact hlikes (h.likes eventId post hpost)

/-- A like that comes before its post, or outlives the row of its post, is not counted. -/
theorem like_not_counted : ¬ CountersTrue (exampleDatabase.run Channels.exampleStr
        [.toggleLike "@reader:s" "$post", .roomEnabled ⟨Channels.examplePost, false⟩, .upsert 0]).world ∧
      ¬ CountersTrue (exampleDatabase.run Channels.exampleStr
        [.roomEnabled ⟨Channels.examplePost, false⟩, .upsert 0, .toggleLike "@reader:s" "$post",
          .purgeFeedPosts ["$post"], .roomEnabled ⟨Channels.examplePost, false⟩,
          .upsert 0]).world := by
  constructor
  · apply @not_countersTrue _ "$post" 0
    · decide +kernel
    · decide +kernel
  apply @not_countersTrue _ "$post" 0
  · decide +kernel
  · decide +kernel

end Setka.Handlers.Feed
