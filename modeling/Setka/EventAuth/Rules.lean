/-
# Setka.EventAuth.Rules — the authorisation rules that depend on the state of the room.

`check_state_dependent_auth_rules`, with the rules for sending events, for redactions and for the state
of other users.
-/
import Setka.EventAuth.Membership
import Setka.EventAuth.PowerLevels
import Setka.Handlers.Channels

namespace Setka.EventAuth

open Setka.Api Setka.Events Setka.Lib Setka.Types Setka.Handlers.Channels

/-! ## §1 Sending events -/

/-- `get_send_level`. -/
def getSendLevel (type : String) (stateKey : Option String) (powerLevelsEvent : Option EventBase) :
    Except Error ℤ :=
  let content := (powerLevelsEvent.map EventBase.content).getD []
  match (Json.member? content "events").getD (.obj []) with
  | .obj events =>
    match Json.member? events type with
    | none | some .null =>
      toInt (if stateKey.isSome then (Json.member? content "state_default").getD (.int 50)
        else (Json.member? content "events_default").getD (.int 0))
    | some level => toInt level
  | _ => .error .attributeError

/-- The level that an event needs in the end: a channel lowers it for some messages. -/
def loweredLevel (out : Outside) (o : EventObject) (authEvents : StateMap EventBase)
    (sendLevel userLevel : ℤ) : Except Error ℤ :=
  if userLevel < sendLevel then do
    let override ← setkaChannelThreadCommentSendLevel out.str out.uni o authEvents
    pure (override.getD sendLevel)
  else .ok sendLevel

/-- The user id that a state key is, or that it starts with before an underscore. -/
def stateKeyUserId (out : Outside) (stateKey : String) : Option String :=
  match stateKey.toList with
  | [] => none
  | sigil :: rest =>
    match rest.dropWhile fun c => c ≠ ':' with
    | [] => none
    | colon :: domain =>
      let userId := String.ofList (sigil :: (rest.takeWhile fun c => c ≠ ':') ++
        colon :: domain.takeWhile fun c => c ≠ '_')
      if UserID.isValid out.validIpv6 userId then some userId else none

/-- State that is kept under a user id is set by this user, or by one above it. -/
def ownState (out : Outside) (event : EventBase) (userLevel : ℤ) (authEvents : StateMap EventBase) :
    Except Error Unit :=
  match event.stateKey with
  | none => .ok ()
  | some stateKey =>
    if PyStr.startsWith "@" stateKey = false ∨ stateKey = event.sender then .ok ()
    else if event.roomVersion.msc3757Enabled = false then
      .error (authError "You are not allowed to set others state")
    else
      match stateKeyUserId out stateKey with
      | none =>
        .error (.synapseError 400 "State key neither equals a valid user ID, nor starts with one plus an underscore"
          "M_BAD_JSON")
      | some userId =>
        if userId = event.sender then .ok ()
        else do
          let ownerLevel ← getUserPowerLevel userId authEvents
          if ownerLevel < userLevel then pure ()
          else .error (authError "You are not allowed to set others state")

/-- `_can_send_event`. It returns `True` or raises. -/
def canSendEvent (out : Outside) (o : EventObject) (authEvents : StateMap EventBase) : Except Error Unit := do
  let sendLevel ← getSendLevel o.event.type o.event.stateKey (authEvents.get? powerLevelsKey)
  let userLevel ← getUserPowerLevel o.event.sender authEvents
  let sendLevel ← loweredLevel out o authEvents sendLevel userLevel
  if userLevel < sendLevel then
    .error (unstableSpecAuthError
      ("You don't have permission to post that to the room. user_level (" ++ toString userLevel ++
        ") < send_level (" ++ toString sendLevel ++ ")") "INSUFFICIENT_POWER")
  else ownState out o.event userLevel authEvents

/-! ## §2 Redactions and the rules as a whole -/

/-- `check_redaction`: whether the redaction is still to be checked against the event it redacts. -/
def checkRedaction (out : Outside) (roomVersion : RoomVersion) (event : EventBase)
    (authEvents : StateMap EventBase) : Except Error Bool := do
  let userLevel ← getUserPowerLevel event.sender authEvents
  let redactLevel ← getNamedLevel authEvents "redact" 50
  if redactLevel ≤ userLevel then pure false
  else if roomVersion.eventFormat = .roomV1V2 then do
    let redacterDomain ← getDomainFromId (out.repr (.str event.eventId)) event.eventId
    match event.redacts with
    | some (.str redacts) => do
        let redacteeDomain ← getDomainFromId (out.repr (.str redacts)) redacts
        if redacterDomain = redacteeDomain then pure true
        else .error (authError "You don't have permission to redact events")
    | _ => pure false
  else pure true

/-- The rule for aliases, in the room versions that have it. -/
def aliasesAllowed (out : Outside) (event : EventBase) : Except Error Unit :=
  match event.stateKey with
  | none => .error (authError "Alias event must be a state event")
  | some stateKey =>
    if stateKey = "" then .error (authError "Alias event must have non-empty state_key")
    else do
      let senderDomain ← getDomainFromId (out.repr (.str event.sender)) event.sender
      if stateKey ≠ senderDomain then
        .error (authError "Alias event's state_key does not match sender's domain")
      else pure ()

/-- An invite to someone who has no user id yet. -/
def thirdPartyInviteAllowed (event : EventBase) (authEvents : StateMap EventBase) : Except Error Unit := do
  let userLevel ← getUserPowerLevel event.sender authEvents
  let inviteLevel ← getNamedLevel authEvents "invite" 0
  if userLevel < inviteLevel then
    .error (unstableSpecAuthError "You don't have permission to invite users" "INSUFFICIENT_POWER")
  else pure ()

/-- What is checked of an event that may be sent, by its type. -/
def typeAllowed (out : Outside) (event : EventBase) (authEvents : StateMap EventBase) : Except Error Unit :=
  if event.type = "m.room.power_levels" then
    checkPowerLevels out event.roomVersion event authEvents
  else if event.type = "m.room.redaction" then do
    let _ ← checkRedaction out event.roomVersion event authEvents
    pure ()
  else .ok ()

/-- The rules for an event of a user who may federate. -/
def eventAllowed (out : Outside) (o : EventObject) (authEvents : StateMap EventBase) : Except Error Unit :=
  if o.event.type = "m.room.aliases" ∧ o.event.roomVersion.specialCaseAliasesAuth = true then
    aliasesAllowed out o.event
  else if o.event.type = "m.room.member" then
    isMembershipChangeAllowed out o.event.roomVersion o authEvents
  else do
    checkJoinedRoom out (authEvents.get? ("m.room.member", o.event.sender)) o.event.sender o.event.roomId
    if o.event.type = "m.room.third_party_invite" then thirdPartyInviteAllowed o.event authEvents
    else do
      canSendEvent out o authEvents
      typeAllowed out o.event authEvents

/-- The rules against the events by their keys. -/
def checkAgainst (out : Outside) (o : EventObject) (authEvents : StateMap EventBase) : Except Error Unit :=
  match authEvents.get? createKey with
  | none =>
    .error (authError ("Event " ++ o.event.eventId ++ " is missing a create event in auth_events."))
  | some create => do
      let creatingDomain ← getDomainFromId (out.repr (.str create.sender)) create.sender
      let originatingDomain ← getDomainFromId (out.repr (.str o.event.sender)) o.event.sender
      if creatingDomain ≠ originatingDomain ∧ canFederate authEvents = false then
        .error (authError "This room has been marked as unfederatable.")
      else eventAllowed out o authEvents

/-- The events by type and state key. Of two with the same key the later one counts. -/
def authDict (authEvents : List EventBase) : Except Error (StateMap EventBase) :=
  authEvents.foldlM (fun dict event => do
    let stateKey ← stateKeyOf event
    pure (dict.set (event.type, stateKey) event)) Dict.empty

/-- `check_state_dependent_auth_rules`. -/
def checkStateDependentAuthRules (out : Outside) (o : EventObject) (authEvents : List EventBase) :
    Except Error Unit :=
  if o.event.type = "m.room.create" then .ok ()
  else do
    let dict ← authDict authEvents
    checkAgainst out o dict

/-! ## §3 What is selected of the state -/

/-- A key that is put into a set: a list and a dictionary have no hash. -/
def hashed (frozen : Bool) (type : String) : Json → Except Error (String × Json)
  | .arr xs => if frozen then .ok (type, .arr xs) else .error .typeError
  | .obj members => if frozen then .ok (type, .obj members) else .error .typeError
  | v => .ok (type, v)

/-- The token of a third party's invite. -/
def tokenSelected (o : EventObject) (membership : Json) : Except Error (List (String × Json)) :=
  match Json.member? o.event.content "third_party_invite" with
  | some invite =>
    if isStr membership "invite" then do
      let signed ← item invite "signed"
      let token ← item signed "token"
      let key ← hashed o.frozen "m.room.third_party_invite" token
      pure [key]
    else .ok []
  | none => .ok []

/-- The user who authorised a join. -/
def authoriserSelected (roomVersion : RoomVersion) (o : EventObject) (membership : Json) :
    Except Error (List (String × Json)) :=
  match Json.member? o.event.content "join_authorised_via_users_server" with
  | some authorisingUser =>
    if roomVersion.restrictedJoinRule ∧ isStr membership "join" then do
      let key ← hashed o.frozen "m.room.member" authorisingUser
      pure [key]
    else .ok []
  | none => .ok []

/-- `auth_types_for_event`. A state key is a value of the event's content, mostly a string. -/
def authTypesForEvent (roomVersion : RoomVersion) (o : EventObject) : Except Error (List (String × Json)) :=
  let authTypes :=
    [("m.room.power_levels", Json.str ""), ("m.room.member", .str o.event.sender), ("m.room.create", .str "")]
  if o.event.type = "m.room.create" then .ok []
  else if o.event.type = "m.room.member" then do
    let membership ← membershipOf o.event
    let joinRules :=
      if isStr membership "join" ∨ isStr membership "invite" ∨ isStr membership "knock" then
        [("m.room.join_rules", Json.str "")]
      else []
    let stateKey ← stateKeyOf o.event
    let token ← tokenSelected o membership
    let authoriser ← authoriserSelected roomVersion o membership
    pure (authTypes ++ joinRules ++ [("m.room.member", .str stateKey)] ++ token ++ authoriser)
  else .ok authTypes

/-! ## §4 What an accepted event has passed -/

/-- The sender's server may take part in the room. -/
def MayTakePart (out : Outside) (event : EventBase) (authEvents : StateMap EventBase) : Prop :=
  ∃ create, authEvents.get? createKey = some create ∧
    ∃ creatingDomain originatingDomain,
      getDomainFromId (out.repr (.str create.sender)) create.sender = .ok creatingDomain ∧
      getDomainFromId (out.repr (.str event.sender)) event.sender = .ok originatingDomain ∧
      (creatingDomain = originatingDomain ∨ canFederate authEvents = true)

variable {out : Outside} {o : EventObject} {authEvents : StateMap EventBase}

theorem checkAgainst_eq_ok_iff : checkAgainst out o authEvents = .ok () ↔
      MayTakePart out o.event authEvents ∧ eventAllowed out o authEvents = .ok () := by
  unfold checkAgainst MayTakePart
  cases hcreate : authEvents.get? createKey with
  | none => simp
  | some create =>
    constructor
    · intro h
      obtain ⟨creatingDomain, hcreating, h⟩ := except_bind_eq_ok.mp h
      obtain ⟨originatingDomain, horiginating, h⟩ := except_bind_eq_ok.mp h
      split at h
      · cases h
      rename_i hfederate
      refine ⟨⟨create, rfl, _, _, hcreating, horiginating, ?_⟩, h⟩
      by_contra hneither
      rw [not_or] at hneither
      exact hfederate ⟨hneither.1, by simpa using hneither.2⟩
    · rintro ⟨⟨create', hcreate', _, _, hcreating, horiginating, hfederate⟩, h⟩
      obtain rfl := Option.some.inj hcreate'
      refine except_bind_eq_ok.mpr ⟨_, hcreating, ?_⟩
      refine except_bind_eq_ok.mpr ⟨_, horiginating, ?_⟩
      rw [if_neg]
      · exact h
      rintro ⟨hne, hfalse⟩
      rcases hfederate with heq | htrue
      · exact hne heq
      · rw [htrue] at hfalse
        cases hfalse

theorem checkJoinedRoom_eq_ok_iff {out : Outside} {authEvents : StateMap EventBase} {userId roomId : String} :
    checkJoinedRoom out (authEvents.get? ("m.room.member", userId)) userId roomId = .ok () ↔
      HasMembership authEvents userId "join" := by
  unfold checkJoinedRoom HasMembership
  cases authEvents.get? ("m.room.member", userId) with
  | none => simp
  | some member =>
    rw [except_bind_eq_ok]
    constructor
    · rintro ⟨membership, hmembership, h⟩
      split at h
      · rename_i hjoin
        rw [isStr_iff.mp hjoin] at hmembership
        exact ⟨member, rfl, membershipOf_eq_ok.mp hmembership⟩
      · cases h
    · rintro ⟨member', hmember, hjoin⟩
      obtain rfl := Option.some.inj hmember
      refine ⟨_, membershipOf_eq_ok.mpr hjoin, ?_⟩
      rfl

/-- The types of events with rules of their own. -/
def ruledTypes : List String := ["m.room.aliases", "m.room.member", "m.room.third_party_invite"]

/-- **Any other event** is sent by a joined user who may send it. -/
theorem eventAllowed_eq_ok_iff (htype : o.event.type ∉ ruledTypes) :
    eventAllowed out o authEvents = .ok () ↔ HasMembership authEvents o.event.sender "join" ∧
      canSendEvent out o authEvents = .ok () ∧ typeAllowed out o.event authEvents = .ok () := by
  simp only [ruledTypes, List.mem_cons, List.not_mem_nil, or_false, not_or] at htype
  obtain ⟨haliases, hmember, hinvite⟩ := htype
  rw [eventAllowed, if_neg fun h => haliases h.1, if_neg hmember, except_bind_eq_ok, if_neg hinvite]
  rw [← @checkJoinedRoom_eq_ok_iff out authEvents o.event.sender o.event.roomId]
  constructor
  · rintro ⟨_, hjoined, h⟩
    obtain ⟨_, hsend, h⟩ := except_bind_eq_ok.mp h
    exact ⟨hjoined, hsend, h⟩
  · rintro ⟨hjoined, hsend, h⟩
    exact ⟨(), hjoined, except_bind_eq_ok.mpr ⟨(), hsend, h⟩⟩

/-! ## §5 Messages -/

/-- The level of the sender, with the level that the power levels ask for the type of the event. -/
def Levels (event : EventBase) (authEvents : StateMap EventBase) (level sendLevel : ℤ) : Prop :=
  getUserPowerLevel event.sender authEvents = .ok level ∧
    getSendLevel event.type event.stateKey (authEvents.get? powerLevelsKey) = .ok sendLevel

/-- A message that is no comment, from a sender who reaches the default of the power levels: a channel
would lower its level. -/
def Lowerable (o : EventObject) (authEvents : StateMap EventBase) (level : ℤ) : Prop :=
  isThreadedContent o = .ok false ∧
    ∃ lowered, loweredDefault (authEvents.get? powerLevelsKey) = .ok lowered ∧ lowered ≤ level

/-- **The level that a message needs.** The level of its type, or what a channel lowers it to. -/
theorem loweredLevel_le_iff {sendLevel level : ℤ} (htype : o.event.type ∈ feedEventTypes) :
    (∃ needed, loweredLevel out o authEvents sendLevel level = .ok needed ∧ needed ≤ level) ↔
      sendLevel ≤ level ∨ isSetkaChannelState out.str out.uni authEvents = true ∧
        Lowerable o authEvents level := by
  unfold loweredLevel Lowerable
  by_cases hlevel : level < sendLevel
  · have hnot : ¬ sendLevel ≤ level := by omega
    rw [if_pos hlevel, setkaChannelThreadCommentSendLevel, if_neg (not_not.mpr htype)]
    simp only [hnot, false_or]
    cases hchannel : isSetkaChannelState out.str out.uni authEvents with
    | false =>
      refine iff_of_false ?_ (by simp)
      rintro ⟨needed, hneeded, hle⟩
      obtain rfl : sendLevel = needed := Except.ok.inj hneeded
      exact hnot hle
    | true =>
      rcases isThreadedContent o with error | threaded
      · refine iff_of_false ?_ (by simp)
        rintro ⟨needed, hneeded, -⟩
        cases hneeded
      cases threaded with
      | true =>
        refine iff_of_false ?_ (by simp)
        rintro ⟨needed, hneeded, hle⟩
        obtain rfl : sendLevel = needed := Except.ok.inj hneeded
        exact hnot hle
      | false =>
        cases loweredDefault (authEvents.get? powerLevelsKey) with
        | error e =>
          refine iff_of_false ?_ (by simp)
          rintro ⟨needed, hneeded, -⟩
          cases hneeded
        | ok lowered =>
          constructor
          · rintro ⟨needed, hneeded, hle⟩
            obtain rfl : lowered = needed := Except.ok.inj hneeded
            exact ⟨rfl, rfl, lowered, rfl, hle⟩
          rintro ⟨-, -, lowered', hlowered, hle⟩
          obtain rfl := Except.ok.inj hlowered
          exact ⟨lowered, rfl, hle⟩
  · rw [if_neg hlevel]
    constructor
    · rintro ⟨needed, hneeded, hle⟩
      obtain rfl := Except.ok.inj hneeded
      exact Or.inl hle
    · intro _
      exact ⟨sendLevel, rfl, by omega⟩

theorem canSendEvent_eq_ok_iff (htype : o.event.type ∈ feedEventTypes) :
    canSendEvent out o authEvents = .ok () ↔ ∃ level sendLevel, Levels o.event authEvents level sendLevel ∧
      (sendLevel ≤ level ∨ isSetkaChannelState out.str out.uni authEvents = true ∧
        Lowerable o authEvents level) ∧
      ownState out o.event level authEvents = .ok () := by
  constructor
  · intro h
    obtain ⟨sendLevel, hsend, h⟩ := except_bind_eq_ok.mp h
    obtain ⟨level, hlevel, h⟩ := except_bind_eq_ok.mp h
    obtain ⟨needed, hneeded, h⟩ := except_bind_eq_ok.mp h
    split at h
    · cases h
    · rename_i hle
      exact ⟨level, sendLevel, ⟨hlevel, hsend⟩, (loweredLevel_le_iff htype).mp ⟨needed, hneeded, by omega⟩, h⟩
  · rintro ⟨level, sendLevel, ⟨hlevel, hsend⟩, hle, hown⟩
    obtain ⟨needed, hneeded, hle⟩ := (loweredLevel_le_iff htype).mpr hle
    refine except_bind_eq_ok.mpr ⟨sendLevel, hsend, ?_⟩
    refine except_bind_eq_ok.mpr ⟨level, hlevel, ?_⟩
    refine except_bind_eq_ok.mpr ⟨needed, hneeded, ?_⟩
    rw [if_neg (by omega)]
    exact hown

/-- **A message** is accepted from a joined user whose level is enough. -/
theorem message_accepted_iff (htype : o.event.type ∈ feedEventTypes) :
    checkAgainst out o authEvents = .ok () ↔ MayTakePart out o.event authEvents ∧
      HasMembership authEvents o.event.sender "join" ∧ ∃ level sendLevel,
        Levels o.event authEvents level sendLevel ∧
        (sendLevel ≤ level ∨ isSetkaChannelState out.str out.uni authEvents = true ∧
          Lowerable o authEvents level) ∧
        ownState out o.event level authEvents = .ok () := by
  have hother : ∀ type, type ∉ feedEventTypes → o.event.type ≠ type := by
    rintro type hnot rfl
    exact hnot htype
  have hplain : o.event.type ∉ ruledTypes := by
    intro hruled
    simp only [ruledTypes, List.mem_cons, List.not_mem_nil, or_false] at hruled
    rcases hruled with heq | heq | heq
    · exact hother _ (by decide) heq
    · exact hother _ (by decide) heq
    · exact hother _ (by decide) heq
  have htyped : typeAllowed out o.event authEvents = .ok () := by
    rw [typeAllowed, if_neg (hother _ (by decide)), if_neg (hother _ (by decide))]
  rw [checkAgainst_eq_ok_iff, eventAllowed_eq_ok_iff hplain, canSendEvent_eq_ok_iff htype]
  simp only [htyped, and_true]

end Setka.EventAuth
