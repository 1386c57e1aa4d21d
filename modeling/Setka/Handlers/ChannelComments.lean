/-
# Setka.Handlers.ChannelComments — who may post and who may comment in a channel.

Two layers decide about a message: the authorisation rules, with a level that a channel lowers, and the
callback of the channel. The callback lets every comment in a thread pass, but the level is lowered for
the messages that are no comments.
-/
import Setka.EventAuth.Rules
import Setka.Handlers.FeedPrivacy

namespace Setka.Handlers.Channels

open Setka.Api Setka.Events Setka.EventAuth Setka.Lib Setka.Types Setka.Handlers.Feed Setka.Lib.Action

/-! ## §1 The two layers -/

/-- What the rules ask of any message besides its level: the sender's server may take part in the room,
and state under a user id is the sender's to set. -/
def Unhindered (out : Outside) (event : EventBase) (authEvents : StateMap EventBase) (level : ℤ) : Prop :=
  MayTakePart out event authEvents ∧ ownState out event level authEvents = .ok ()

/-- The default level that a channel lowers to, as a number. -/
theorem toInt_truthy {v : Option Json} (h : toInt (v.getD (.int 0)) = .ok 0) :
    toInt ((Json.truthy? v).getD (.int 0)) = .ok 0 := by
  cases v with
  | none => exact h
  | some v =>
    cases htruthy : Json.truthy v with
    | true =>
      rw [Json.truthy?, Option.filter_some, if_pos htruthy]
      exact h
    | false =>
      rw [Json.truthy?, Option.filter_some, if_neg (by simp [htruthy])]
      rfl

/-- A channel's room state: a topic with the prefix, and power levels with a default of zero for users
and of fifty for events. -/
structure ChannelState (out : Outside) (state : StateMap EventBase) : Prop where
  channel : isSetkaChannelState out.str out.uni state = true
  levels : ∃ powerLevels, state.get? powerLevelsKey = some powerLevels ∧
    toInt ((Json.member? powerLevels.content "users_default").getD (.int 0)) = .ok 0 ∧
    toInt ((Json.member? powerLevels.content "events_default").getD (.int 0)) = .ok 50

variable {state : StateMap EventBase}

/-- In a channel the level of a message that is no comment is lowered to zero. -/
theorem ChannelState.lowerable_iff {out : Outside} (h : ChannelState out state) (o : EventObject) (level : ℤ) :
    Lowerable o state level ↔ isThreadedContent o = .ok false ∧ 0 ≤ level := by
  obtain ⟨powerLevels, hpowerLevels, hdefault, -⟩ := h.levels
  have hlowered : loweredDefault (state.get? powerLevelsKey) = .ok 0 := by
    rw [hpowerLevels, loweredDefault, toInt_truthy hdefault]
  unfold Lowerable
  rw [hlowered]
  simp

theorem maybeIngestEvent_ok (str : Str) (o : EventObject) (w : World) :
    ∃ w', (maybeIngestEvent str o).run w = (.ok (), w') := by
  unfold maybeIngestEvent
  split
  · exact ⟨w, rfl⟩
  dsimp only
  split
  · exact ⟨w, rfl⟩
  have hread : (Action.reads fun w => .ok (roomFeedEnabled w o.event.roomId) :
      Action World Error (Bool × Option String)).run w = (.ok (roomFeedEnabled w o.event.roomId), w) := rfl
  rw [run_bind_of_ok hread]
  split
  · exact ⟨_, rfl⟩
  · exact ⟨w, rfl⟩

/-- Failures of the feed are only logged. -/
theorem admitPost_ok (str : Str) (uni : PyStr.Unicode) (now : ℤ) (outage : Outage) (o : EventObject)
    (state : StateMap EventBase) (w : World) :
    ∃ w', (admitPost str uni now outage o state).run w = (.ok (), w') := by
  unfold admitPost
  split
  · exact ⟨w, rfl⟩
  have hregister : (ensureFeedRegistryForChannel str uni now o.event.roomId state).run w =
      (.ok (), ((ensureFeedRegistryForChannel str uni now o.event.roomId state).run w).2) := rfl
  rw [run_bind_of_ok hregister]
  split
  · exact ⟨_, rfl⟩
  · exact maybeIngestEvent_ok str o _

/-- The callback answers what the comment and the level say: the index of the feed does not change its
answer. -/
theorem checkEventAllowed_eq_true_iff {str : Str} {uni : PyStr.Unicode} {o : EventObject}
    (htype : o.event.type ∈ feedEventTypes) (hchannel : isSetkaChannelState str uni state = true) (now : ℤ)
    (outage : Outage) (w : World) : ((checkEventAllowed str uni now outage o state).run w).1 = .ok true ↔
      isThreadedContent o = .ok true ∨ isThreadedContent o = .ok false ∧
        ∃ level, getUserPowerLevel o.event.sender state = .ok level ∧ moderatorPowerLevel ≤ level := by
  rw [checkEventAllowed, if_neg (not_not.mpr htype), if_neg (by simp [hchannel])]
  rcases isThreadedContent o with error | threaded
  · rw [lift_error_bind]
    simp
  rw [lift_ok_bind]
  cases threaded with
  | true => simp
  | false =>
    rw [if_neg Bool.false_ne_true]
    rcases getUserPowerLevel o.event.sender state with error | level
    · rw [lift_error_bind]
      simp
    rw [lift_ok_bind]
    by_cases hlevel : moderatorPowerLevel ≤ level
    · rw [if_pos hlevel]
      obtain ⟨w', hadmitted⟩ := admitPost_ok str uni now outage o state w
      rw [run_bind_of_ok hadmitted]
      simp [hlevel]
    · rw [if_neg hlevel]
      simp [hlevel]

/-! ## §2 The comment rule -/

/-- A message passes both layers. -/
def Passes (out : Outside) (o : EventObject) (authEvents : List EventBase)
    (state : StateMap EventBase) (now : ℤ) (outage : Outage) (w : World) : Prop :=
  checkStateDependentAuthRules out o authEvents = .ok () ∧
    ((checkEventAllowed out.str out.uni now outage o state).run w).1 = .ok true

/-- It is a comment in a thread, or its sender is a moderator. -/
def MayPass (o : EventObject) (state : StateMap EventBase) : Prop :=
  isThreadedContent o = .ok true ∨
    ∃ level, getUserPowerLevel o.event.sender state = .ok level ∧ moderatorPowerLevel ≤ level

/-- **When the rules agree with the rule for comments.** The sender of a comment reaches the level that
the power levels ask for its type, which no channel lowers; and nothing but levels keeps a comment or the
post of a moderator out. -/
structure LevelDecides (out : Outside) (o : EventObject) (state : StateMap EventBase) : Prop where
  comment : isThreadedContent o = .ok true → ∃ level sendLevel,
    Levels o.event state level sendLevel ∧ sendLevel ≤ level ∧ Unhindered out o.event state level
  post : isThreadedContent o ≠ .ok true → ∀ level,
    getUserPowerLevel o.event.sender state = .ok level → moderatorPowerLevel ≤ level →
    isThreadedContent o = .ok false ∧ (∃ sendLevel, Levels o.event state level sendLevel) ∧
      Unhindered out o.event state level

theorem passes_iff {out : Outside} {o : EventObject} {authEvents : List EventBase}
    (hevents : authDict authEvents = .ok state) (htype : o.event.type ∈ feedEventTypes)
    (hjoined : HasMembership state o.event.sender "join") (hstate : ChannelState out state) (now : ℤ)
    (outage : Outage) (w : World) : Passes out o authEvents state now outage w ↔
      ∃ level sendLevel, Levels o.event state level sendLevel ∧
        Unhindered out o.event state level ∧
        (isThreadedContent o = .ok true ∧ sendLevel ≤ level ∨
          isThreadedContent o = .ok false ∧ moderatorPowerLevel ≤ level) := by
  have hcreate : o.event.type ≠ "m.room.create" := by
    intro heq
    rw [heq] at htype
    exact absurd htype (by decide)
  have hrules : checkStateDependentAuthRules out o authEvents = checkAgainst out o state := by
    rw [checkStateDependentAuthRules, if_neg hcreate, hevents]
    rfl
  unfold Passes
  rw [hrules, message_accepted_iff htype, checkEventAllowed_eq_true_iff htype hstate.channel]
  simp only [hjoined, hstate.channel, hstate.lowerable_iff, true_and]
  constructor
  · rintro ⟨⟨hpart, level, sendLevel, hlevels, hle, hown⟩, hcallback⟩
    refine ⟨level, sendLevel, hlevels, ⟨hpart, hown⟩, ?_⟩
    rcases hcallback with hthreaded | ⟨hthreaded, other, hother, hmoderator⟩
    · refine Or.inl ⟨hthreaded, hle.resolve_right fun h => ?_⟩
      rw [hthreaded] at h
      cases h.1
    · obtain rfl := Except.ok.inj (hother.symm.trans hlevels.1)
      exact Or.inr ⟨hthreaded, hmoderator⟩
  · rintro ⟨level, sendLevel, hlevels, hfree, ⟨hthreaded, hle⟩ | ⟨hthreaded, hmoderator⟩⟩
    · exact ⟨⟨hfree.1, level, sendLevel, hlevels, Or.inl hle, hfree.2⟩, Or.inl hthreaded⟩
    · have hnonneg : 0 ≤ level := le_trans (by decide) hmoderator
      exact ⟨⟨hfree.1, level, sendLevel, hlevels, Or.inr ⟨hthreaded, hnonneg⟩, hfree.2⟩,
        Or.inr ⟨hthreaded, level, hlevels.1, hmoderator⟩⟩

/-- **The rule for comments.** A message of a joined user passes both layers exactly when it is a comment
or its sender a moderator, if and only if the level decides as it should. -/
theorem passes_iff_mayPass_iff {out : Outside} {o : EventObject} {authEvents : List EventBase}
    {state : StateMap EventBase} (hevents : authDict authEvents = .ok state)
    (htype : o.event.type ∈ feedEventTypes)
    (hjoined : HasMembership state o.event.sender "join") (hstate : ChannelState out state)
    (now : ℤ) (outage : Outage) (w : World) :
    (Passes out o authEvents state now outage w ↔ MayPass o state) ↔ LevelDecides out o state := by
  rw [passes_iff hevents htype hjoined hstate]
  constructor
  · intro h
    constructor
    · intro hthreaded
      obtain ⟨level, sendLevel, hlevels, hfree, hcase⟩ := h.mpr (Or.inl hthreaded)
      refine ⟨level, sendLevel, hlevels, ?_, hfree⟩
      rcases hcase with ⟨-, hle⟩ | ⟨hfalse, -⟩
      · exact hle
      · rw [hthreaded] at hfalse
        cases hfalse
    · intro hthreaded level hlevel hmoderator
      obtain ⟨level', sendLevel, hlevels, hfree, hcase⟩ := h.mpr (Or.inr ⟨level, hlevel, hmoderator⟩)
      obtain rfl := Except.ok.inj (hlevel.symm.trans hlevels.1)
      exact ⟨(hcase.resolve_left fun h => hthreaded h.1).1, ⟨sendLevel, hlevels⟩, hfree⟩
  · intro h
    constructor
    · rintro ⟨level, sendLevel, hlevels, -, ⟨hthreaded, -⟩ | ⟨-, hmoderator⟩⟩
      · exact Or.inl hthreaded
      · exact Or.inr ⟨level, hlevels.1, hmoderator⟩
    intro hmay
    by_cases hthreaded : isThreadedContent o = .ok true
    · obtain ⟨level, sendLevel, hlevels, hle, hfree⟩ := h.comment hthreaded
      exact ⟨level, sendLevel, hlevels, hfree, Or.inl ⟨hthreaded, hle⟩⟩
    obtain ⟨level, hlevel, hmoderator⟩ := hmay.resolve_left hthreaded
    obtain ⟨hfalse, ⟨sendLevel, hlevels⟩, hfree⟩ := h.post hthreaded level hlevel hmoderator
    exact ⟨level, sendLevel, hlevels, hfree, Or.inr ⟨hfalse, hmoderator⟩⟩

/-! ## §3 A channel -/

/-- The events of a channel that its owner and a guest have joined. -/
def channelEvents : List EventBase :=
  [EventAuth.exampleEvent "$create" "m.room.create" "@owner:s" (some "") [] [],
    EventAuth.exampleEvent "$levels" "m.room.power_levels" "@owner:s" (some "")
      [("users", .obj [("@owner:s", .int 100)]), ("users_default", .int 0),
        ("events_default", .int 50)] ["$create"],
    EventAuth.exampleEvent "$topic" "m.room.topic" "@owner:s" (some "")
      [("topic", .str "setka:channel")] ["$levels"],
    exampleMember "@owner:s" "@owner:s" "join" ["$create"],
    exampleMember "@guest:s" "@guest:s" "join" ["$topic"]]

def channelState : StateMap EventBase :=
  channelEvents.foldl (fun dict event => dict.set (event.type, event.stateKey.getD "") event) .empty

theorem authDict_channelEvents : authDict channelEvents = .ok channelState := rfl

theorem channelState_channel : ChannelState exampleOutside channelState :=
  ⟨by decide +kernel, _, rfl, by decide +kernel, by decide +kernel⟩

/-- A message, as a comment to a post or not. -/
def channelMessage (sender : String) (relation : List (String × Json)) : EventObject where
  event := EventAuth.exampleEvent "$message" "m.room.message" sender none
    (("body", .str "hello") :: relation) ["$post"]
  frozen := true

def inThread : List (String × Json) :=
  [("m.relates_to", .obj [("rel_type", .str "m.thread"), ("event_id", .str "$post")])]

theorem joined_channelState (userId : String) (h : userId ∈ ["@owner:s", "@guest:s"]) :
    HasMembership channelState userId "join" := by
  simp only [List.mem_cons, List.not_mem_nil, or_false] at h
  rcases h with rfl | rfl
  · exact ⟨_, rfl, rfl⟩
  · exact ⟨_, rfl, rfl⟩

/-- The owner posts. -/
theorem passes_iff_mayPass_iff_example : Passes exampleOutside (channelMessage "@owner:s" [])
    channelEvents channelState 0 ⟨false, false⟩ exampleServer := by
  have hlevel : getUserPowerLevel "@owner:s" channelState = .ok 100 := by decide +kernel
  have hthreaded : isThreadedContent (channelMessage "@owner:s" []) = .ok false := rfl
  have hdecides : LevelDecides exampleOutside (channelMessage "@owner:s" []) channelState := by
    refine ⟨fun h => ?_, fun _ level h _ => ⟨hthreaded, ⟨50, h, rfl⟩, ?_⟩⟩
    · rw [hthreaded] at h
      cases h
    · exact ⟨⟨_, rfl, "s", "s", by decide +kernel, by decide +kernel, Or.inl rfl⟩, rfl⟩
  refine ((passes_iff_mayPass_iff authDict_channelEvents (by decide)
    (joined_channelState _ (by decide)) channelState_channel _ _ _).mpr hdecides).mpr ?_
  exact Or.inr ⟨100, hlevel, by decide⟩

/-- **A comment that is not let in.** The guest may comment, but the level that a comment needs is the
one for posts. -/
theorem comment_rejected : MayPass (channelMessage "@guest:s" inThread) channelState ∧
      ¬ Passes exampleOutside (channelMessage "@guest:s" inThread) channelEvents channelState 0
        ⟨false, false⟩ exampleServer := by
  constructor
  · exact Or.inl (by decide +kernel)
  rintro ⟨hrules, -⟩
  revert hrules
  decide +kernel

end Setka.Handlers.Channels
