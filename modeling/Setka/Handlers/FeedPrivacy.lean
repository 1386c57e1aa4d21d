/-
# Setka.Handlers.FeedPrivacy — what the feed shows to strangers.

The feed shows the posts of every listed room to everyone. Publishing a channel looks at its join rule;
the message of a moderator lists the channel without a look at it, a later join rule does not unlist it,
and neither do the flags of the registry. A run without such steps lists open rooms only.
-/
import Setka.Handlers.ChannelRuns

namespace Setka.Handlers.Channels

open Setka.Api Setka.Events Setka.EventAuth Setka.Lib Setka.Handlers.Feed Dict Setka.Lib.Action ModuleApi

/-! ## §1 Open rooms -/

/-- The join rule lets everyone in, or lets everyone knock. -/
def Open (str : Str) (state : StateMap EventBase) : Prop :=
  joinRuleFromState str state ∈ publicJoinRules

instance (str : Str) (state : StateMap EventBase) : Decidable (Open str state) :=
  inferInstanceAs (Decidable (_ ∈ _))

/-- The user may see the posts of the room. -/
def MaySee (str : Str) (w : World) (userId roomId : String) : Prop :=
  Open str (w.currentState roomId) ∨ w.localCurrentMembership userId roomId = some "join"

/-- The registry hides the room. -/
def World.hidden (w : World) (roomId : String) : Bool :=
  match w.published.get? roomId with
  | some c => c.hidden
  | none => false

/-- A post with which `check_event_allowed` registers the channel it is sent to. -/
def isModeratorPost (str : Str) (uni : PyStr.Unicode) (o : EventObject) (state : StateMap EventBase) : Prop :=
  o.event.type ∈ feedEventTypes ∧ isSetkaChannelState str uni state = true ∧
    isThreadedContent o = .ok false ∧
    ∃ level, getUserPowerLevel o.event.sender state = .ok level ∧ moderatorPowerLevel ≤ level

/-- **A step that lists open rooms only.** A post reaches Setka's callback if the modules before it let
it pass, and the channel is registered if the database can be written. -/
def Careful (str : Str) (uni : PyStr.Unicode) (w : World) : Act → Prop
  | .propose _ outage before _ o state =>
    (∀ module ∈ before, module o.freeze state = .ok (true, none)) → outage.registry = false →
      isModeratorPost str uni o.freeze state → World.hidden w o.event.roomId = false →
        Open str (w.currentState o.event.roomId)
  | .setCurrentState roomId state => w.listed roomId = true → Open str state
  | .ensureChannelPublished _ roomId _ state =>
    (∃ s, state = some s ∧ isSetkaChannelState str uni s = true ∧ Open str s) →
      World.hidden w roomId = false → Open str (w.currentState roomId)
  | .setChannelHidden roomId hidden =>
    hidden = false → (∃ c, w.published.get? roomId = some c ∧ c.feedEnabled = true) →
      Open str (w.currentState roomId)
  | .setChannelCategory roomId _ feedEnabled =>
    feedEnabled = true → (∃ c, w.published.get? roomId = some c ∧ c.hidden = false) →
      Open str (w.currentState roomId)
  | .rebuildRegistry _ scanned =>
    ∀ room ∈ scanned, w.published.get? room.1 = none → Open str (w.currentState room.1)
  | _ => True

/-! ## §2 What is listed -/

/-- Every listed room is open. -/
def ListsOpen (str : Str) (w : World) : Prop :=
  ∀ roomId, w.listed roomId = true → Open str (w.currentState roomId)

variable {w w' : World}

theorem listed_congr (h : w'.published = w.published) (roomId : String) : w'.listed roomId = w.listed roomId := by
  unfold World.listed
  rw [h]

variable {roomId : String}

theorem listed_iff : w.listed roomId = true ↔ ∃ c, w.published.get? roomId = some c ∧ c.listed = true := by
  unfold World.listed
  cases w.published.get? roomId with
  | none => simp
  | some c => simp

theorem hidden_eq_false_iff :
    World.hidden w roomId = false ↔ ∀ c, w.published.get? roomId = some c → c.hidden = false := by
  unfold World.hidden
  cases w.published.get? roomId with
  | none => simp
  | some c => simp

variable {c : PublishedChannel}

theorem PublishedChannel.listed_iff : c.listed = true ↔ c.feedEnabled = true ∧ c.hidden = false := by
  unfold PublishedChannel.listed
  simp

variable {str : Str}

/-- The rooms that a step lists are open, and no state has changed. -/
theorem ListsOpen.of_listed (h : ListsOpen str w) (hstate : w'.currentState = w.currentState)
    (hlisted : ∀ roomId, w'.listed roomId = true →
      w.listed roomId = true ∨ Open str (w.currentState roomId)) : ListsOpen str w' := by
  intro roomId hroom
  rw [hstate]
  rcases hlisted roomId hroom with hold | hopen
  · exact h roomId hold
  · exact hopen

theorem ListsOpen.of_published_eq (h : ListsOpen str w) (hstate : w'.currentState = w.currentState)
    (hpublished : w'.published = w.published) : ListsOpen str w' := by
  apply h.of_listed hstate
  intro roomId hroom
  rw [listed_congr hpublished] at hroom
  exact Or.inl hroom

/-- A room is listed after its row was written if the row says so. -/
theorem listed_set (h : w'.published = w.published.set roomId c) {room : String}
    (hroom : w'.listed room = true) : w.listed room = true ∨ room = roomId ∧ c.listed = true := by
  obtain ⟨c', hget, hc'⟩ := listed_iff.mp hroom
  rw [h, get?_set] at hget
  split at hget
  · rename_i heq
    obtain rfl := Option.some.inj hget
    exact Or.inr ⟨heq, hc'⟩
  · exact Or.inl (listed_iff.mpr ⟨c', hget, hc'⟩)

theorem listed_erase (h : w'.published = w.published.erase roomId) {room : String}
    (hroom : w'.listed room = true) : w.listed room = true := by
  obtain ⟨c, hget, hc⟩ := listed_iff.mp hroom
  rw [h, get?_erase] at hget
  split at hget
  · cases hget
  · exact listed_iff.mpr ⟨c, hget, hc⟩

/-- The later world has the room registered, as `_upsert_published_channel` does it. -/
structure Registered (roomId : String) (w w' : World) : Prop where
  currentState : w'.currentState = w.currentState
  published : ∃ tag publishedAt category,
    w'.published = ((upsertPublishedChannel roomId tag publishedAt category).run w).2.published

/-- **Registering a room lists it unless it is hidden.** -/
theorem Registered.listsOpen (h : Registered roomId w w') (hw : ListsOpen str w)
    (hopen : World.hidden w roomId = false → Open str (w.currentState roomId)) : ListsOpen str w' := by
  obtain ⟨tag, publishedAt, category, hpublished⟩ := h.published
  apply hw.of_listed h.currentState
  intro room hroom
  rcases listed_set hpublished hroom with hold | ⟨rfl, hlisted⟩
  · exact Or.inl hold
  refine Or.inr (hopen (hidden_eq_false_iff.mpr fun c hc => ?_))
  rw [hc] at hlisted
  exact (PublishedChannel.listed_iff.mp hlisted).2

/-! ## §3 What one operation lists -/

/-- Putting a post into the index touches neither the registry nor a room. -/
theorem maybeIngestEvent_rooms (str : Str) (o : EventObject) (w : World) :
    ((maybeIngestEvent str o).run w).2.published = w.published ∧
      ((maybeIngestEvent str o).run w).2.currentState = w.currentState := by
  let R : World → World → Prop := fun w w' =>
    w'.published = w.published ∧ w'.currentState = w.currentState
  have hrefl : ∀ w, R w w := fun w => ⟨rfl, rfl⟩
  have htrans : ∀ w w' w'', R w w' → R w' w'' → R w w'' :=
    fun w w' w'' h h' => ⟨h'.1.trans h.1, h'.2.trans h.2⟩
  suffices hkeeps : (maybeIngestEvent str o).Keeps R from hkeeps w
  unfold maybeIngestEvent
  split
  · exact keeps_pure hrefl _
  dsimp only
  split
  · exact keeps_pure hrefl _
  apply Action.Keeps.bind hrefl htrans (keeps_reads hrefl _)
  rintro ⟨enabled, categoryId⟩
  split
  · exact fun w => ⟨rfl, rfl⟩
  · exact keeps_pure hrefl _

/-- Nor do likes and views. -/
theorem updatePost_rooms (w : World) (eventId : String) (f : FeedPost → FeedPost) :
    (w.updatePost eventId f).published = w.published ∧
      (w.updatePost eventId f).currentState = w.currentState := by
  unfold World.updatePost
  split <;> exact ⟨rfl, rfl⟩

theorem toggleLike_rooms (userId eventId : String) (w : World) :
    ((toggleLike userId eventId).run w).2.published = w.published ∧
      ((toggleLike userId eventId).run w).2.currentState = w.currentState := by
  show World.published (if _ then _ else _) = w.published ∧
    World.currentState (if _ then _ else _) = w.currentState
  split <;> exact updatePost_rooms _ eventId _

theorem recordView_rooms (userId eventId : String) (w : World) :
    ((recordView userId eventId).run w).2.published = w.published ∧
      ((recordView userId eventId).run w).2.currentState = w.currentState := by
  show World.published (if _ then _ else _) = w.published ∧
    World.currentState (if _ then _ else _) = w.currentState
  split
  · exact ⟨rfl, rfl⟩
  · exact updatePost_rooms _ eventId _

variable {outage : Outage}

/-- The post of a moderator registers its room, where the database can be written. -/
theorem admitPost_registered (str : Str) (uni : PyStr.Unicode) (now : ℤ) (h : outage.registry = false)
    (o : EventObject) (state : StateMap EventBase) (w : World) :
    Registered o.event.roomId w ((admitPost str uni now outage o state).run w).2 := by
  have hregister : (ensureFeedRegistryForChannel str uni now o.event.roomId state).run w =
      (.ok (), ((ensureFeedRegistryForChannel str uni now o.event.roomId state).run w).2) := rfl
  rw [admitPost, h, if_neg Bool.false_ne_true, run_bind_of_ok hregister]
  split
  · exact ⟨rfl, _, _, _, rfl⟩
  obtain ⟨hpublished, hstate⟩ := maybeIngestEvent_rooms str o
    ((ensureFeedRegistryForChannel str uni now o.event.roomId state).run w).2
  exact ⟨hstate, _, _, _, hpublished⟩

theorem admitPost_cases (str : Str) (uni : PyStr.Unicode) (now : ℤ) (outage : Outage)
    (o : EventObject) (state : StateMap EventBase) (w : World) :
    ((admitPost str uni now outage o state).run w).2 = w ∨
    outage.registry = false ∧
      Registered o.event.roomId w ((admitPost str uni now outage o state).run w).2 := by
  cases hregistry : outage.registry with
  | true =>
    rw [admitPost, hregistry, if_pos rfl]
    exact Or.inl rfl
  | false => exact Or.inr ⟨rfl, admitPost_registered str uni now hregistry o state w⟩

theorem admitPost_pure (str : Str) (uni : PyStr.Unicode) (now : ℤ) (outage : Outage)
    (o : EventObject) (state : StateMap EventBase) (allowed : Bool) (w : World) :
    ((admitPost str uni now outage o state >>= fun _ => pure allowed).run w).2 =
      ((admitPost str uni now outage o state).run w).2 :=
  Action.Keeps.after (R := fun s t => t = s) (fun _ => rfl) (fun _ _ => rfl) _ w

/-- **What a checked event changes.** -/
theorem checkEventAllowed_cases (str : Str) (uni : PyStr.Unicode) (now : ℤ) (outage : Outage)
    (o : EventObject) (state : StateMap EventBase) (w : World) :
    ((checkEventAllowed str uni now outage o state).run w).2 = w ∨
    isModeratorPost str uni o state ∧ outage.registry = false ∧
      Registered o.event.roomId w ((checkEventAllowed str uni now outage o state).run w).2 := by
  unfold checkEventAllowed
  split
  · exact Or.inl rfl
  rename_i htype
  split
  · exact Or.inl rfl
  rename_i hchannel
  rcases hthreaded : isThreadedContent o with error | threaded
  · rw [lift_error_bind]
    exact Or.inl rfl
  rw [lift_ok_bind]
  cases threaded with
  | true => exact Or.inl rfl
  | false =>
    rw [if_neg Bool.false_ne_true]
    rcases hlevel : getUserPowerLevel o.event.sender state with error | level
    · rw [lift_error_bind]
      exact Or.inl rfl
    rw [lift_ok_bind]
    split
    · rename_i hmoderator
      rw [admitPost_pure]
      rcases admitPost_cases str uni now outage o state w with hw | ⟨hregistry, hregistered⟩
      · exact Or.inl hw
      have hpost : isModeratorPost str uni o state :=
        ⟨by simpa using htype, by simpa using hchannel, hthreaded, level, hlevel, hmoderator⟩
      exact Or.inr ⟨hpost, hregistry, hregistered⟩
    · exact Or.inl rfl

variable {uni : PyStr.Unicode}

theorem checkEventAllowed_registered {o : EventObject} {state : StateMap EventBase}
    (hpost : isModeratorPost str uni o state) (h : outage.registry = false) (now : ℤ) (w : World) :
    Registered o.event.roomId w ((checkEventAllowed str uni now outage o state).run w).2 := by
  obtain ⟨htype, hchannel, hthreaded, level, hlevel, hmoderator⟩ := hpost
  rw [checkEventAllowed, if_neg (not_not.mpr htype), hchannel, if_neg Bool.noConfusion, hthreaded,
    lift_ok_bind, if_neg Bool.false_ne_true, hlevel, lift_ok_bind,
    if_pos hmoderator, admitPost_pure]
  exact admitPost_registered str uni now h o state w

/-- The modules behind Setka's change nothing. -/
theorem runCallbacks_setkaCallback (str : Str) (uni : PyStr.Unicode) (now : ℤ) (outage : Outage)
    (after : List OtherModule) (o : EventObject) (state : StateMap EventBase) (w : World) :
    ((ModuleApi.runCallbacks o state (setkaCallback str uni now outage ::
      after.map ModuleApi.pureCallback)).run w).2 = ((checkEventAllowed str uni now outage o state).run w).2 := by
  let Same : World → World → Prop := fun w w' => w' = w
  have hrefl : ∀ w, Same w w := fun _ => rfl
  have htrans : ∀ w w' w'', Same w w' → Same w' w'' → Same w w'' := fun _ _ _ h h' => h'.trans h
  have hafter : (ModuleApi.runCallbacks o state (after.map ModuleApi.pureCallback)).Keeps Same := by
    apply runCallbacks_keeps hrefl htrans
    intro callback hmem
    obtain ⟨module, -, rfl⟩ := List.mem_map.mp hmem
    exact keeps_lift hrefl _
  rw [runCallbacks_cons]
  calc _ = ((setkaCallback str uni now outage o state).run w).2 := by
            apply Action.Keeps.after (R := Same) hrefl
            intro answer
            split
            · exact keeps_pure hrefl _
            split
            · exact keeps_pure hrefl _
            · exact hafter
      _ = _ := Action.Keeps.after (R := Same) hrefl (fun _ => keeps_pure hrefl _) _ w

/-- **What a proposed event changes.** -/
theorem propose_cases (str : Str) (uni : PyStr.Unicode) (now : ℤ) (outage : Outage)
    (before after : List OtherModule) (o : EventObject) (state : StateMap EventBase) (w : World) :
    step str uni w (.propose now outage before after o state) = w ∨
    (∀ module ∈ before, module o.freeze state = .ok (true, none)) ∧ outage.registry = false ∧
      isModeratorPost str uni o.freeze state ∧
      Registered o.event.roomId w (step str uni w (.propose now outage before after o state)) := by
  show ((ModuleApi.runCallbacks o.freeze state _).run w).2 = w ∨ _ ∧ _ ∧ _ ∧
    Registered o.event.roomId w ((ModuleApi.runCallbacks o.freeze state _).run w).2
  rcases runCallbacks_append o.freeze state before (setkaCallback str uni now outage ::
      after.map ModuleApi.pureCallback) w with hw | ⟨hbefore, hrest⟩
  · exact Or.inl hw
  unfold callbacks
  rw [hrest, runCallbacks_setkaCallback]
  rcases checkEventAllowed_cases str uni now outage o.freeze state w with
    hw | ⟨hpost, hregistry, hregistered⟩
  · exact Or.inl hw
  · exact Or.inr ⟨hbefore, hregistry, hpost, hregistered⟩

/-- The post of a moderator registers its room, where it reaches Setka's callback. -/
theorem propose_registered {before : List OtherModule} {o : EventObject} {state : StateMap EventBase}
    (hbefore : ∀ module ∈ before, module o.freeze state = .ok (true, none))
    (hregistry : outage.registry = false) (hpost : isModeratorPost str uni o.freeze state) (now : ℤ)
    (after : List OtherModule) (w : World) :
    Registered o.event.roomId w (step str uni w (.propose now outage before after o state)) := by
  show Registered o.event.roomId w ((ModuleApi.runCallbacks o.freeze state _).run w).2
  rw [callbacks, runCallbacks_of_allowed hbefore, runCallbacks_setkaCallback]
  exact checkEventAllowed_registered hpost hregistry now w

/-- **What publishing a channel changes.** -/
theorem ensureChannelPublished_cases (str : Str) (uni : PyStr.Unicode) (now : ℤ) (roomId : String)
    (categoryId : Option String) (state : Option (StateMap EventBase)) (w : World) :
    let w' := ((ensureChannelPublished str uni now roomId categoryId state).run w).2
    w' = w ∨ w' = { w with published := w.published.erase roomId } ∨
    (∃ s, state = some s ∧ isSetkaChannelState str uni s = true ∧ Open str s) ∧
      Registered roomId w w' := by
  unfold ensureChannelPublished
  split
  · exact Or.inl rfl
  rename_i s
  split
  · exact Or.inl rfl
  rename_i hchannel
  dsimp only
  split
  · exact Or.inr (Or.inl rfl)
  rename_i hopen
  have hs : ∃ s', some s = some s' ∧ isSetkaChannelState str uni s' = true ∧ Open str s' :=
    ⟨s, rfl, by simpa using hchannel, not_not.mp hopen⟩
  split
  · have hread := run_reads (fun w => resolvedCategoryId w roomId categoryId) w
    rcases hresolved : resolvedCategoryId w roomId categoryId with error | resolved
    · rw [hresolved] at hread
      rw [run_bind_of_error hread]
      exact Or.inl rfl
    rw [hresolved] at hread
    rw [run_bind_of_ok hread]
    exact Or.inr (Or.inr ⟨hs, rfl, _, _, _, rfl⟩)
  · exact Or.inr (Or.inr ⟨hs, rfl, _, _, _, rfl⟩)

/-- Writing a flag of a row. -/
theorem ListsOpen.updateChannel (h : ListsOpen str w) {f : PublishedChannel → PublishedChannel}
    (hopen : ∀ c, w.published.get? roomId = some c → (f c).listed = true →
      Open str (w.currentState roomId)) : ListsOpen str (w.updateChannel roomId f) := by
  unfold World.updateChannel
  split
  · rename_i c hc
    apply ListsOpen.of_listed h
    · rfl
    intro room hroom
    rcases listed_set rfl hroom with hold | ⟨rfl, hlisted⟩
    · exact Or.inl hold
    · exact Or.inr (hopen c hc hlisted)
  · exact h

/-- The rooms that a scan writes are listed as before, or new. -/
theorem get?_foldl_rebuildRoom {now : ℤ} {scanned : List (String × String)}
    {published : Dict String PublishedChannel}
    (h : (scanned.foldl (rebuildRoom uni now) published).get? roomId = some c) :
    (∃ c', published.get? roomId = some c' ∧ c'.listed = c.listed) ∨
      published.get? roomId = none ∧ ∃ room ∈ scanned, room.1 = roomId := by
  induction scanned generalizing published with
  | nil => exact Or.inl ⟨c, h, rfl⟩
  | cons room scanned ih =>
    have hstep := get?_set published room.1 roomId (match published.get? room.1 with
      | some c => { c with tag := parseChannelTag uni room.2 }
      | none => ⟨now, parseChannelTag uni room.2, false, none, true⟩)
    have hmem : ∀ {P : Prop}, (P ∧ ∃ room' ∈ scanned, room'.1 = roomId) →
        P ∧ ∃ room' ∈ room :: scanned, room'.1 = roomId :=
      fun ⟨hp, room', hroom', heq⟩ => ⟨hp, room', List.mem_cons_of_mem room hroom', heq⟩
    rcases ih h with ⟨c', hc', hlisted⟩ | hnew
    · rw [show (rebuildRoom uni now published room).get? roomId = _ from hstep] at hc'
      split at hc'
      · rename_i heq
        rw [heq]
        obtain rfl := Option.some.inj hc'
        split at hlisted
        · rename_i old hold
          exact Or.inl ⟨old, hold, hlisted⟩
        · rename_i hnone
          exact Or.inr ⟨hnone, room, List.mem_cons_self, rfl⟩
      · exact Or.inl ⟨c', hc', hlisted⟩
    · rw [show (rebuildRoom uni now published room).get? roomId = _ from hstep] at hnew
      split at hnew
      · exact absurd hnew.1 (by simp)
      · exact Or.inr (hmem hnew)

/-! ## §4 Runs -/

/-- **A careful step lists open rooms only.** -/
theorem listsOpen_step {act : Act} (h : ListsOpen str w)
    (hact : Careful str uni w act) : ListsOpen str (step str uni w act) := by
  cases act with
  | propose now outage before after o state =>
    rcases propose_cases str uni now outage before after o state w with
      hw | ⟨hbefore, hregistry, hpost, hregistered⟩
    · rw [hw]
      exact h
    · exact hregistered.listsOpen h (hact hbefore hregistry hpost)
  | persist e =>
    show ListsOpen str (if _ then w else _)
    split
    · exact h
    · exact h.of_published_eq rfl rfl
  | redact eventId valid => exact h.of_published_eq rfl rfl
  | setCurrentState roomId state =>
    intro room hroom
    show Open str (if room = roomId then state else w.currentState room)
    split
    · rename_i heq
      subst heq
      exact hact hroom
    · exact h room hroom
  | setRoomStats roomId stats => exact h.of_published_eq rfl rfl
  | setMembership userId roomId membership => exact h.of_published_eq rfl rfl
  | ensureChannelPublished now roomId categoryId state =>
    rcases ensureChannelPublished_cases str uni now roomId categoryId state w with
      hw | hw | ⟨hs, hregistered⟩
    · show ListsOpen str ((ensureChannelPublished str uni now roomId categoryId state).run w).2
      rw [hw]
      exact h
    · show ListsOpen str ((ensureChannelPublished str uni now roomId categoryId state).run w).2
      rw [hw]
      exact h.of_listed rfl fun room hroom => Or.inl (listed_erase rfl hroom)
    · exact hregistered.listsOpen h (hact hs)
  | unpublishChannel roomId =>
    exact h.of_listed rfl fun room hroom => Or.inl (listed_erase rfl hroom)
  | setChannelHidden roomId hidden =>
    show ListsOpen str ((setChannelHidden roomId hidden).run w).2
    have hread : (Action.reads fun w : World =>
        (Except.ok (w.published.get? roomId).isSome : Except Error Bool)).run w =
          (.ok (w.published.get? roomId).isSome, w) := rfl
    rw [setChannelHidden, run_bind_of_ok hread]
    split
    · apply h.updateChannel
      intro c hc hlisted
      obtain ⟨henabled, hshown⟩ := PublishedChannel.listed_iff.mp hlisted
      exact hact hshown ⟨c, hc, henabled⟩
    · exact h
  | setChannelCategory roomId categoryId feedEnabled =>
    show ListsOpen str ((Feed.setChannelCategory roomId categoryId feedEnabled).run w).2
    have hread := run_reads (fun w => validateCategoryId w categoryId) w
    rw [Feed.setChannelCategory]
    rcases hresolved : validateCategoryId w categoryId with error | resolved
    · rw [hresolved] at hread
      rw [run_bind_of_error hread]
      exact h
    rw [hresolved] at hread
    rw [run_bind_of_ok hread]
    apply h.updateChannel
    intro c hc hlisted
    obtain ⟨henabled, hshown⟩ := PublishedChannel.listed_iff.mp hlisted
    exact hact henabled ⟨c, hc, hshown⟩
  | rebuildRegistry now scanned =>
    apply ListsOpen.of_listed h
    · rfl
    intro room hroom
    obtain ⟨c, hc, hlisted⟩ := listed_iff.mp hroom
    rcases get?_foldl_rebuildRoom (get?_foldl_erase hc) with
      ⟨c', hc', heq⟩ | ⟨hnone, room', hroom', rfl⟩
    · exact Or.inl (listed_iff.mpr ⟨c', hc', heq.trans hlisted⟩)
    · exact Or.inr (hact room' hroom' hnone)
  | subscribe userId roomId =>
    show ListsOpen str (if _ then w else _)
    split
    · exact h
    · exact h.of_published_eq rfl rfl
  | unsubscribe userId roomId => exact h.of_published_eq rfl rfl
  | toggleLike userId eventId =>
    obtain ⟨hpublished, hstate⟩ := toggleLike_rooms userId eventId w
    exact h.of_published_eq hstate hpublished
  | recordView userId eventId =>
    obtain ⟨hpublished, hstate⟩ := recordView_rooms userId eventId w
    exact h.of_published_eq hstate hpublished
  | getFeed r q =>
    have hpurged := purged_getFeed str uni r q w
    show ListsOpen str ((Feed.getFeed str uni r q).run w).2
    rw [hpurged.eq]
    exact h.of_published_eq rfl rfl

theorem listsOpen_of_initial (str : Str) (h : Initial w) : ListsOpen str w := by
  intro roomId hroom
  obtain ⟨c, hc, -⟩ := listed_iff.mp hroom
  rw [h.published] at hc
  cases hc

/-- **Careful runs list open rooms only.** -/
theorem listsOpen_of_reachable
    (h : Reachable Initial (fun w w' => ∃ act, Careful str uni w act ∧ w' = step str uni w act) w) :
    ListsOpen str w := by
  apply h.invariant
  · exact fun _ => listsOpen_of_initial str
  · rintro w _ - hopen ⟨act, hact, rfl⟩
    exact listsOpen_step hopen hact

/-- **After a careful run the feed shows nothing that its reader may not see.** -/
theorem maySee_of_mem_feed {str : Str} {uni : PyStr.Unicode} {w w' : World} {r : ℕ → Reading}
    {q : FeedRequest} {page : Page}
    (hw : Reachable Initial (fun w w' => ∃ act, Careful str uni w act ∧ w' = step str uni w act) w)
    (hfeed : (getFeed str uni r q).run w = (.ok page, w')) {item : FeedItem}
    (hitem : item ∈ page.posts) : MaySee str w q.userId item.roomId := by
  obtain ⟨post, -, hroom, hlisted, -⟩ := getFeed_spec hfeed hitem
  rw [hroom]
  exact Or.inl (listsOpen_of_reachable hw post.roomId hlisted)

/-- The public channel of the example is set up in careful steps, and is shown to everyone. -/
theorem maySee_of_mem_feed_example : ∃ page w',
    (getFeed exampleStr exampleTables (fun _ => exampleReading) exampleRequest).run
      ((exampleActs "public").foldl (step exampleStr exampleTables) exampleServer) = (.ok page, w') ∧
    ∃ item ∈ page.posts, item.eventId = "$post" ∧
      MaySee exampleStr ((exampleActs "public").foldl (step exampleStr exampleTables) exampleServer)
        "@reader:s" item.roomId := by
  have hshown : ("!channel:s", "$post") ∈
      shown ((exampleActs "public").foldl (step exampleStr exampleTables) exampleServer)
        exampleRequest := by decide +kernel
  obtain ⟨page, w', hfeed, item, hitem, -, hid⟩ := exists_of_mem_shown hshown
  have hcreate : Careful exampleStr exampleTables exampleServer
      (.setCurrentState "!channel:s" (exampleChannel "public")) :=
    fun hlisted => absurd hlisted (by decide)
  have hopen : Open exampleStr (exampleChannel "public") := by decide +kernel
  have hstart : Reachable Initial (fun w w' => ∃ act, Careful exampleStr exampleTables w act ∧
      w' = step exampleStr exampleTables w act) exampleServer := .start exampleServer_initial
  have hpost := (hstart.next ⟨_, hcreate, rfl⟩).next
    ⟨.propose 1700000000000 ⟨false, false⟩ [] [] ⟨examplePost, false⟩ (exampleChannel "public"),
      fun _ _ _ _ => hopen, rfl⟩
  have hstored := hpost.next ⟨.persist ⟨examplePost, false, false⟩, trivial, rfl⟩
  exact ⟨page, w', hfeed, item, hitem, hid, maySee_of_mem_feed hstored hfeed hitem⟩

/-- **A post of an invite-only channel is shown to a stranger.** -/
theorem private_channel_shown : ¬ ∀ (w w' : World) (r : ℕ → Reading) (q : FeedRequest) (page : Page),
    Reachable Initial (fun w w' => ∃ act, w' = step exampleStr exampleTables w act) w →
    (getFeed exampleStr exampleTables r q).run w = (.ok page, w') →
    ∀ item ∈ page.posts, MaySee exampleStr w q.userId item.roomId := by
  intro h
  have hshown : ("!channel:s", "$post") ∈
      shown ((exampleActs "invite").foldl (step exampleStr exampleTables) exampleServer)
        exampleRequest := by decide +kernel
  obtain ⟨page, w', hfeed, item, hitem, hroom, -⟩ := exists_of_mem_shown hshown
  have hreach : Reachable Initial (fun w w' => ∃ act, w' = step exampleStr exampleTables w act)
      ((exampleActs "invite").foldl (step exampleStr exampleTables) exampleServer) :=
    Reachable.of_foldl exampleServer_initial fun _ act _ _ => ⟨act, rfl⟩
  have hsee := h _ w' _ exampleRequest page hreach hfeed item hitem
  rw [hroom] at hsee
  revert hsee
  unfold MaySee
  decide +kernel

end Setka.Handlers.Channels
