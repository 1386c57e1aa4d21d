/-
# Setka.Handlers.ChannelModeration — what stays of a moderator's decision.

A channel is unpublished, hidden or taken out of the feed by a call, and a call takes the decision back.
But the post of a channel's moderator registers the channel: an unpublished one is published again, and
`feed_enabled` is set with the row. Rebuilding the registry publishes the rooms it finds as well. A
hidden channel stays hidden as long as its row is there.
-/
import Setka.Handlers.FeedPrivacy

namespace Setka.Handlers.Channels

open Setka.Api Setka.Events Setka.EventAuth Setka.Lib Setka.Handlers.Feed Dict Setka.Lib.Action

/-! ## §1 Decisions -/

/-- What a decision switches off. -/
inductive Flag
  | published
  | feedEnabled
  | visible
  deriving DecidableEq

/-- The flag is off in the row of a room. -/
def Flag.Off : Flag → Option PublishedChannel → Prop
  | .published, row => row = none
  | .feedEnabled, row => ∀ c, row = some c → c.feedEnabled = false
  | .visible, row => ∀ c, row = some c → c.hidden = true

/-- The call switches the flag of the room off: it does not fail. -/
inductive Decides (w : World) : Act → Flag → String → Prop
  | unpublish (roomId : String) : Decides w (.unpublishChannel roomId) .published roomId
  | hide (roomId : String) : ((setChannelHidden roomId true).run w).1 = .ok () →
      Decides w (.setChannelHidden roomId true) .visible roomId
  | disable (roomId categoryId : String) : ((Feed.setChannelCategory roomId categoryId false).run w).1 = .ok () →
      Decides w (.setChannelCategory roomId categoryId false) .feedEnabled roomId

/-- The calls that take a decision back. -/
inductive Reverses : Flag → String → Act → Prop
  | publish (flag : Flag) (now : ℤ) (roomId : String) (categoryId : Option String)
      (state : Option (StateMap EventBase)) :
      Reverses flag roomId (.ensureChannelPublished now roomId categoryId state)
  | show (roomId : String) : Reverses .visible roomId (.setChannelHidden roomId false)
  | enable (roomId categoryId : String) : Reverses .feedEnabled roomId (.setChannelCategory roomId categoryId true)

/-- The proposed event registers its room: it is the post of a moderator, the modules before Setka's let
it pass, and the database can be written. -/
def Registers (str : Str) (uni : PyStr.Unicode) (outage : Outage) (before : List OtherModule)
    (o : EventObject) (state : StateMap EventBase) : Prop :=
  (∀ module ∈ before, module o.freeze state = .ok (true, none)) ∧ outage.registry = false ∧
    isModeratorPost str uni o.freeze state

/-- **A step that leaves the decision alone.** The post of a moderator may find its own channel hidden,
and a rebuild may find the channel in the registry. -/
def Spares (str : Str) (uni : PyStr.Unicode) (flag : Flag) (roomId : String) (w : World) : Act → Prop
  | .propose _ outage before _ o state =>
    Registers str uni outage before o state → o.event.roomId = roomId →
      flag = .visible ∧ (w.published.get? roomId).isSome
  | .rebuildRegistry _ scanned =>
    roomId ∈ scanned.map Prod.fst → (w.published.get? roomId).isSome
  | _ => True

/-! ## §2 The row of a room after a step -/

theorem Flag.off_none (flag : Flag) : flag.Off none := by
  cases flag with
  | published => rfl
  | feedEnabled => exact fun c h => absurd h (by simp)
  | visible => exact fun c h => absurd h (by simp)

theorem get?_updateChannel (w : World) (roomId : String) (f : PublishedChannel → PublishedChannel) (room : String) :
    (w.updateChannel roomId f).published.get? room =
      if room = roomId then (w.published.get? room).map f else w.published.get? room := by
  unfold World.updateChannel
  by_cases hroom : room = roomId
  · subst hroom
    cases hrow : w.published.get? room with
    | none => simp [hrow]
    | some c => simp
  · cases hrow : w.published.get? roomId with
    | none => simp [hroom]
    | some c => simp [hroom]

variable {roomId : String} {w w' : World}

/-- Registering a room writes its row: enabled, and as hidden as it was. -/
theorem Registered.get?_self (h : Registered roomId w w') :
    ∃ c, w'.published.get? roomId = some c ∧ c.feedEnabled = true ∧
      c.hidden = ((w.published.get? roomId).map PublishedChannel.hidden).getD false := by
  obtain ⟨tag, publishedAt, category, hpublished⟩ := h.published
  rw [hpublished]
  refine ⟨_, get?_set .. |>.trans (if_pos rfl), ?_, ?_⟩
  · cases w.published.get? roomId with
    | none => rfl
    | some c => rfl
  cases w.published.get? roomId with
  | none => rfl
  | some c => rfl

variable {room : String}

theorem Registered.get?_other (h : Registered roomId w w')
    (hroom : room ≠ roomId) : w'.published.get? room = w.published.get? room := by
  obtain ⟨tag, publishedAt, category, hpublished⟩ := h.published
  rw [hpublished]
  exact (get?_set ..).trans (if_neg hroom)

variable {flag : Flag}

/-- **A room that is registered.** Of what was off only a hidden row is still off. -/
theorem Registered.off_iff (h : Registered roomId w w') (hoff : flag.Off (w.published.get? roomId)) :
    flag.Off (w'.published.get? roomId) ↔
      flag = .visible ∧ (w.published.get? roomId).isSome := by
  obtain ⟨c, hc, henabled, hhidden⟩ := h.get?_self
  rw [hc]
  cases flag with
  | published => simp [Flag.Off]
  | feedEnabled => simp [Flag.Off, henabled]
  | visible =>
    cases hrow : w.published.get? roomId with
    | none =>
      rw [hrow] at hhidden
      simpa [Flag.Off] using hhidden
    | some c' =>
      have hhid := hoff c' hrow
      rw [hrow] at hhidden
      simpa [Flag.Off, hhid] using hhidden

variable {str : Str} {uni : PyStr.Unicode}

theorem off_propose_iff (hoff : flag.Off (w.published.get? roomId)) (now : ℤ) (outage : Outage)
    (before after : List OtherModule) (o : EventObject) (state : StateMap EventBase) :
    flag.Off ((step str uni w (.propose now outage before after o state)).published.get? roomId) ↔
      Spares str uni flag roomId w (.propose now outage before after o state) := by
  show _ ↔ (Registers str uni outage before o state → _)
  by_cases hregisters : Registers str uni outage before o state
  · rw [forall_prop_of_true hregisters]
    obtain ⟨hbefore, hregistry, hpost⟩ := hregisters
    have hregistered := propose_registered hbefore hregistry hpost now after w
    by_cases hroom : o.event.roomId = roomId
    · rw [forall_prop_of_true hroom]
      subst hroom
      exact hregistered.off_iff hoff
    · rw [hregistered.get?_other (Ne.symm hroom)]
      exact iff_of_true hoff fun h => absurd h hroom
  · refine iff_of_true ?_ fun h => absurd h hregisters
    rcases propose_cases str uni now outage before after o state w with
      hw | ⟨hbefore, hregistry, hpost, -⟩
    · rw [hw]
      exact hoff
    · exact absurd ⟨hbefore, hregistry, hpost⟩ hregisters

/-- The row of a room after a rebuild of the registry: the flags of a row that is there stay. -/
structure Rebuilt (old : Option PublishedChannel) (c : PublishedChannel) : Prop where
  hidden : c.hidden = (old.map PublishedChannel.hidden).getD false
  feedEnabled : c.feedEnabled = (old.map PublishedChannel.feedEnabled).getD true

theorem get?_rebuildRoom (uni : PyStr.Unicode) (now : ℤ) (published : Dict String PublishedChannel)
    (room : String × String) :
    ∃ c, (rebuildRoom uni now published room).get? room.1 = some c ∧
      Rebuilt (published.get? room.1) c := by
  refine ⟨_, (get?_set ..).trans (if_pos rfl), ?_⟩
  cases published.get? room.1 with
  | none => exact ⟨rfl, rfl⟩
  | some c => exact ⟨rfl, rfl⟩

theorem get?_rebuildRoom_of_ne (uni : PyStr.Unicode) (now : ℤ) (published : Dict String PublishedChannel)
    {room : String × String} (h : roomId ≠ room.1) :
    (rebuildRoom uni now published room).get? roomId = published.get? roomId :=
  (get?_set ..).trans (if_neg h)

theorem Rebuilt.trans {old : Option PublishedChannel} {c c' : PublishedChannel}
    (h : Rebuilt old c) (h' : Rebuilt (some c) c') : Rebuilt old c' :=
  ⟨h'.hidden.trans h.hidden, h'.feedEnabled.trans h.feedEnabled⟩

theorem get?_foldl_rebuildRoom_of_not_mem (uni : PyStr.Unicode) (now : ℤ) {scanned : List (String × String)}
    (h : roomId ∉ scanned.map Prod.fst) (published : Dict String PublishedChannel) :
    (scanned.foldl (rebuildRoom uni now) published).get? roomId = published.get? roomId := by
  induction scanned generalizing published with
  | nil => rfl
  | cons room scanned ih =>
    rw [List.map_cons, List.mem_cons, not_or] at h
    rw [List.foldl_cons, ih h.2, get?_rebuildRoom_of_ne uni now published h.1]

/-- A room of the scan is in the registry afterwards. -/
theorem get?_foldl_rebuildRoom_of_mem (uni : PyStr.Unicode) (now : ℤ) {scanned : List (String × String)}
    (h : roomId ∈ scanned.map Prod.fst) (published : Dict String PublishedChannel) :
    ∃ c, (scanned.foldl (rebuildRoom uni now) published).get? roomId = some c ∧
      Rebuilt (published.get? roomId) c := by
  induction scanned generalizing published with
  | nil => exact absurd h List.not_mem_nil
  | cons room scanned ih =>
    rw [List.foldl_cons]
    by_cases hmem : roomId ∈ scanned.map Prod.fst
    · obtain ⟨c, hc, hrebuilt⟩ := ih hmem (rebuildRoom uni now published room)
      refine ⟨c, hc, ?_⟩
      by_cases hroom : roomId = room.1
      · subst hroom
        obtain ⟨c', hc', hfirst⟩ := get?_rebuildRoom uni now published room
        rw [hc'] at hrebuilt
        exact hfirst.trans hrebuilt
      · rwa [get?_rebuildRoom_of_ne uni now published hroom] at hrebuilt
    · have hroom : roomId = room.1 := by
        rcases List.mem_cons.mp h with heq | hrest
        · exact heq
        · exact absurd hrest hmem
      subst hroom
      rw [get?_foldl_rebuildRoom_of_not_mem uni now hmem]
      exact get?_rebuildRoom uni now published room

/-- **A rebuild of the registry.** What was off stays off for the rooms that have a row, and for those
the scan does not find: their row is dropped. -/
theorem off_rebuildRegistry_iff (hoff : flag.Off (w.published.get? roomId)) (now : ℤ)
    (scanned : List (String × String)) :
    flag.Off ((step str uni w (.rebuildRegistry now scanned)).published.get? roomId) ↔
      Spares str uni flag roomId w (.rebuildRegistry now scanned) := by
  let published := scanned.foldl (rebuildRoom uni now) w.published
  let stale := published.keys.filter fun room => room ∉ scanned.map Prod.fst
  have hrow : (step str uni w (.rebuildRegistry now scanned)).published.get? roomId =
      if roomId ∈ stale then none else published.get? roomId :=
    get?_foldl_erase_eq stale published roomId
  rw [hrow]
  show _ ↔ (roomId ∈ scanned.map Prod.fst → _)
  by_cases hmem : roomId ∈ scanned.map Prod.fst
  · have hfresh : roomId ∉ stale := fun h => absurd hmem (by simpa using (List.mem_filter.mp h).2)
    obtain ⟨c, hc, hhidden, henabled⟩ := get?_foldl_rebuildRoom_of_mem uni now hmem w.published
    rw [if_neg hfresh, forall_prop_of_true hmem, show published.get? roomId = some c from hc]
    cases hold : w.published.get? roomId with
    | none =>
      rw [hold] at hhidden henabled
      cases flag with
      | published => simp [Flag.Off]
      | feedEnabled => simpa [Flag.Off] using henabled
      | visible => simpa [Flag.Off] using hhidden
    | some old =>
      rw [hold] at hhidden henabled hoff
      cases flag with
      | published => exact absurd hoff (by simp [Flag.Off])
      | feedEnabled => simpa [Flag.Off] using henabled.trans (hoff old rfl)
      | visible => simpa [Flag.Off] using hhidden.trans (hoff old rfl)
  · refine iff_of_true ?_ fun h => absurd h hmem
    have hnone : (if roomId ∈ stale then none else published.get? roomId) = none := by
      split
      · rfl
      rename_i hfresh
      by_contra hsome
      obtain ⟨c, hc⟩ := Option.ne_none_iff_exists'.mp hsome
      exact hfresh (List.mem_filter.mpr ⟨mem_keys_iff.mpr ⟨c, hc⟩, by simpa using hmem⟩)
    rw [hnone]
    exact flag.off_none

/-! ## §3 Calls -/

theorem setChannelHidden_published (w : World) (roomId : String) (hidden : Bool) :
    ((setChannelHidden roomId hidden).run w).2.published =
      (w.updateChannel roomId fun c => { c with hidden }).published := by
  have hread : (Action.reads fun w : World =>
      (Except.ok (w.published.get? roomId).isSome : Except Error Bool)).run w =
        (.ok (w.published.get? roomId).isSome, w) := rfl
  rw [setChannelHidden, run_bind_of_ok hread, World.updateChannel]
  cases hrow : w.published.get? roomId with
  | none => rfl
  | some c =>
    show (w.updateChannel roomId _).published = _
    rw [World.updateChannel, hrow]

theorem setChannelCategory_published (w : World) (roomId categoryId : String) (feedEnabled : Bool) :
    (((Feed.setChannelCategory roomId categoryId feedEnabled).run w).1 ≠ .ok () ∧
      ((Feed.setChannelCategory roomId categoryId feedEnabled).run w).2 = w) ∨
    ∃ category, ((Feed.setChannelCategory roomId categoryId feedEnabled).run w).2 =
      w.updateChannel roomId fun c => { c with categoryId := some category, feedEnabled } := by
  have hread := run_reads (fun w => validateCategoryId w categoryId) w
  rw [Feed.setChannelCategory]
  rcases hresolved : validateCategoryId w categoryId with error | resolved
  · rw [hresolved] at hread
    rw [run_bind_of_error hread]
    exact Or.inl ⟨by simp, rfl⟩
  rw [hresolved] at hread
  rw [run_bind_of_ok hread]
  exact Or.inr ⟨resolved, rfl⟩

/-- **The decision is made.** -/
theorem Decides.off {act : Act} (h : Decides w act flag roomId) :
    flag.Off ((step str uni w act).published.get? roomId) := by
  cases h with
  | unpublish => exact (get?_erase ..).trans (if_pos rfl)
  | hide _ hok =>
    show Flag.Off .visible (((setChannelHidden roomId true).run w).2.published.get? roomId)
    rw [setChannelHidden_published, get?_updateChannel, if_pos rfl]
    intro c hc
    obtain ⟨c', -, rfl⟩ := Option.map_eq_some_iff.mp hc
    rfl
  | disable _ categoryId hok =>
    show Flag.Off .feedEnabled (((Feed.setChannelCategory roomId categoryId false).run w).2.published.get? roomId)
    rcases setChannelCategory_published w roomId categoryId false with
      ⟨hfailed, -⟩ | ⟨category, hw⟩
    · exact absurd hok hfailed
    rw [hw, get?_updateChannel, if_pos rfl]
    intro c hc
    obtain ⟨c', -, rfl⟩ := Option.map_eq_some_iff.mp hc
    rfl

/-- A call that only changes other flags. -/
theorem Flag.Off.map {row : Option PublishedChannel} (h : flag.Off row) {f : PublishedChannel → PublishedChannel}
    (hfeed : flag = .feedEnabled → ∀ c, c.feedEnabled = false → (f c).feedEnabled = false)
    (hvisible : flag = .visible → ∀ c, c.hidden = true → (f c).hidden = true) : flag.Off (row.map f) := by
  cases flag with
  | published =>
    have hrow : row = none := h
    rw [hrow]
    rfl
  | feedEnabled =>
    intro c hc
    obtain ⟨c', hc', rfl⟩ := Option.map_eq_some_iff.mp hc
    exact hfeed rfl c' (h c' hc')
  | visible =>
    intro c hc
    obtain ⟨c', hc', rfl⟩ := Option.map_eq_some_iff.mp hc
    exact hvisible rfl c' (h c' hc')

theorem Flag.Off.updateChannel (h : flag.Off (w.published.get? roomId)) {f : PublishedChannel → PublishedChannel}
    (hf : room = roomId → flag.Off ((w.published.get? roomId).map f)) :
    flag.Off ((w.updateChannel room f).published.get? roomId) := by
  rw [get?_updateChannel]
  split
  · rename_i hroom
    exact hf hroom.symm
  · exact h

theorem off_ensureChannelPublished (hoff : flag.Off (w.published.get? roomId)) (hroom : roomId ≠ room) (now : ℤ)
    (categoryId : Option String) (state : Option (StateMap EventBase)) :
    flag.Off ((step str uni w (.ensureChannelPublished now room categoryId state)).published.get? roomId) := by
  show flag.Off (((ensureChannelPublished str uni now room categoryId state).run w).2.published.get? roomId)
  rcases ensureChannelPublished_cases str uni now room categoryId state w with
    hw | hw | ⟨-, hregistered⟩
  · rw [hw]
    exact hoff
  · rw [hw]
    show flag.Off ((w.published.erase room).get? roomId)
    rw [get?_erase, if_neg hroom]
    exact hoff
  · rw [hregistered.get?_other hroom]
    exact hoff

/-! ## §4 Runs -/

/-- **One step.** What was off stays off exactly when the step leaves the decision alone. -/
theorem off_step_iff {act : Act} (hoff : flag.Off (w.published.get? roomId)) (hact : ¬ Reverses flag roomId act) :
    flag.Off ((step str uni w act).published.get? roomId) ↔ Spares str uni flag roomId w act := by
  cases act with
  | propose now outage before after o state => exact off_propose_iff hoff now outage before after o state
  | persist e =>
    refine iff_of_true ?_ trivial
    show flag.Off (World.published (if _ then w else _) |>.get? roomId)
    split
    · exact hoff
    · exact hoff
  | redact eventId valid => exact iff_of_true hoff trivial
  | setCurrentState room state => exact iff_of_true hoff trivial
  | setRoomStats room stats => exact iff_of_true hoff trivial
  | setMembership userId room membership => exact iff_of_true hoff trivial
  | ensureChannelPublished now room categoryId state =>
    refine iff_of_true ?_ trivial
    apply off_ensureChannelPublished hoff
    rintro rfl
    exact hact (.publish flag now roomId categoryId state)
  | unpublishChannel room =>
    refine iff_of_true ?_ trivial
    show flag.Off ((w.published.erase room).get? roomId)
    rw [get?_erase]
    split
    · exact flag.off_none
    · exact hoff
  | setChannelHidden room hidden =>
    refine iff_of_true ?_ trivial
    show flag.Off (((setChannelHidden room hidden).run w).2.published.get? roomId)
    rw [setChannelHidden_published]
    apply hoff.updateChannel
    rintro rfl
    apply hoff.map
    · exact fun _ c hc => hc
    rintro rfl c -
    cases hidden with
    | true => rfl
    | false => exact absurd (.show room) hact
  | setChannelCategory room categoryId feedEnabled =>
    refine iff_of_true ?_ trivial
    show flag.Off (((Feed.setChannelCategory room categoryId feedEnabled).run w).2.published.get? roomId)
    rcases setChannelCategory_published w room categoryId feedEnabled with
      ⟨-, hw⟩ | ⟨category, hw⟩
    · rw [hw]
      exact hoff
    rw [hw]
    apply hoff.updateChannel
    rintro rfl
    apply hoff.map
    · rintro rfl c -
      cases feedEnabled with
      | true => exact absurd (.enable room categoryId) hact
      | false => rfl
    · exact fun _ c hc => hc
  | rebuildRegistry now scanned => exact off_rebuildRegistry_iff hoff now scanned
  | subscribe userId room =>
    refine iff_of_true ?_ trivial
    show flag.Off (World.published (if _ then w else _) |>.get? roomId)
    split
    · exact hoff
    · exact hoff
  | unsubscribe userId room => exact iff_of_true hoff trivial
  | toggleLike userId eventId =>
    refine iff_of_true ?_ trivial
    show flag.Off (((Feed.toggleLike userId eventId).run w).2.published.get? roomId)
    rw [(toggleLike_rooms userId eventId w).1]
    exact hoff
  | recordView userId eventId =>
    refine iff_of_true ?_ trivial
    show flag.Off (((Feed.recordView userId eventId).run w).2.published.get? roomId)
    rw [(recordView_rooms userId eventId w).1]
    exact hoff
  | getFeed r q =>
    refine iff_of_true ?_ trivial
    show flag.Off (((Feed.getFeed str uni r q).run w).2.published.get? roomId)
    rw [(purged_getFeed str uni r q w).eq]
    exact hoff

/-- What was off stays off along steps that leave the decision alone. -/
theorem off_foldl {acts : List Act} (hoff : flag.Off (w.published.get? roomId))
    (hacts : ∀ act ∈ acts, ¬ Reverses flag roomId act) (h : AllSteps (fun before act =>
      Spares str uni flag roomId (before.foldl (step str uni) w) act) acts) :
    flag.Off ((acts.foldl (step str uni) w).published.get? roomId) := by
  induction acts using List.reverseRecOn with
  | nil => exact hoff
  | append_singleton acts act ih =>
    obtain ⟨hbefore, hlast⟩ := allSteps_concat.mp h
    rw [List.forall_mem_append] at hacts
    rw [List.foldl_append]
    exact (off_step_iff (ih hacts.1 hbefore) (hacts.2 act (by simp))).mpr hlast

/-- **A moderator's decision lasts.** After it, and as long as no call takes it back, the flag stays off
exactly in the runs whose steps leave it alone: without posts of moderators in the channel, unless it is
hidden and still registered, and without a rebuild that finds the channel unregistered. -/
theorem off_iff_spares {str : Str} {uni : PyStr.Unicode} {w : World} {decision : Act} {flag : Flag}
    {roomId : String} (hdecision : Decides w decision flag roomId) {acts : List Act}
    (hacts : ∀ act ∈ acts, ¬ Reverses flag roomId act) :
    (∀ before after, acts = before ++ after →
      flag.Off (((decision :: before).foldl (step str uni) w).published.get? roomId)) ↔
      AllSteps (fun before act =>
        Spares str uni flag roomId ((decision :: before).foldl (step str uni) w) act) acts := by
  constructor
  · intro h before act after hsplit
    have hstart := h before (act :: after) hsplit
    have hnext := h (before ++ [act]) after (by simp [hsplit])
    rw [← List.cons_append, List.foldl_append] at hnext
    exact (off_step_iff hstart (hacts act (by simp [hsplit]))).mp hnext
  · intro h before after hsplit
    apply off_foldl hdecision.off
    · exact fun act hact => hacts act (by simp [hsplit, hact])
    intro earlier act later hearlier
    apply h earlier act (later ++ after)
    rw [hsplit, hearlier, List.append_assoc, List.cons_append]

/-- A server whose channel is published in a category. -/
def moderatedServer : World :=
  { exampleServer with
    published := Dict.empty.set "!channel:s" ⟨1700000000000, none, false, some "news", true⟩
    categories := Dict.empty.set "news" ⟨"News", 0, true⟩ }

/-- The owner of the channel posts. -/
def ownerPosts : Act :=
  .propose 1700000000001 ⟨false, false⟩ [] [] ⟨examplePost, false⟩ (exampleChannel "public")

theorem not_reverses_ownerPosts (flag : Flag) (roomId : String) :
    ∀ act ∈ [ownerPosts], ¬ Reverses flag roomId act := by
  intro act hact hreverses
  obtain rfl := List.mem_singleton.mp hact
  cases hreverses

/-- The channel is hidden, and its owner posts: it stays hidden. -/
theorem off_iff_spares_example : Flag.Off .visible (([.setChannelHidden "!channel:s" true, ownerPosts].foldl
      (step exampleStr exampleTables) moderatedServer).published.get? "!channel:s") := by
  have hdecision : Decides moderatedServer (.setChannelHidden "!channel:s" true) .visible
      "!channel:s" := .hide "!channel:s" rfl
  refine (off_iff_spares hdecision (not_reverses_ownerPosts _ _)).mpr ?_ [ownerPosts] [] rfl
  rw [allSteps_cons]
  refine ⟨fun _ _ => ⟨rfl, ?_⟩, allSteps_nil _⟩
  decide +kernel

theorem decides_disable : Decides moderatedServer (.setChannelCategory "!channel:s" "news" false)
    .feedEnabled "!channel:s" := by
  apply Decides.disable
  have hcategory : validateCategoryId moderatedServer "news" = .ok (PyStr.strip "news") := by
    have hstrip : PyStr.strip "news" = "news" := by decide +kernel
    unfold validateCategoryId
    rw [hstrip]
    rfl
  have hread := run_reads (fun w => validateCategoryId w "news") moderatedServer
  rw [hcategory] at hread
  rw [Feed.setChannelCategory, run_bind_of_ok hread]
  rfl

/-- **One post takes the decision back.** The owner's post publishes the channel again, and sets
`feed_enabled` again. -/
theorem decision_taken_back : (¬ ∀ acts : List Act, (∀ act ∈ acts, ¬ Reverses .published "!channel:s" act) →
      Flag.Off .published ((Act.unpublishChannel "!channel:s" :: acts).foldl
        (step exampleStr exampleTables) moderatedServer |>.published.get? "!channel:s")) ∧
    Decides moderatedServer (.setChannelCategory "!channel:s" "news" false) .feedEnabled "!channel:s" ∧
    ¬ ∀ acts : List Act, (∀ act ∈ acts, ¬ Reverses .feedEnabled "!channel:s" act) →
      Flag.Off .feedEnabled ((Act.setChannelCategory "!channel:s" "news" false :: acts).foldl
        (step exampleStr exampleTables) moderatedServer |>.published.get? "!channel:s") := by
  constructor
  · intro h
    have hnone := h [ownerPosts] (not_reverses_ownerPosts _ _)
    have hsome : ([Act.unpublishChannel "!channel:s", ownerPosts].foldl
        (step exampleStr exampleTables) moderatedServer |>.published.get? "!channel:s").isSome =
          true := by decide +kernel
    rw [show _ = none from hnone] at hsome
    cases hsome
  refine ⟨decides_disable, fun h => ?_⟩
  have hoff := h [ownerPosts] (not_reverses_ownerPosts _ _)
  have henabled : ([Act.setChannelCategory "!channel:s" "news" false, ownerPosts].foldl
      (step exampleStr exampleTables) moderatedServer |>.published.get? "!channel:s").map
        PublishedChannel.feedEnabled = some true := by decide +kernel
  obtain ⟨c, hc, htrue⟩ := Option.map_eq_some_iff.mp henabled
  rw [hoff c hc] at htrue
  cases htrue

end Setka.Handlers.Channels
