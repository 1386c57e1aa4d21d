/-
# Setka.EventAuth.Selection — what the authorisation rules read of the state.

`auth_types_for_event` selects the state that the rules may look at. What they look up under the
selected keys decides, with two exceptions: a channel is told by its topic, and a power levels event is
compared with the one under its own state key.
-/
import Setka.EventAuth.Rules

namespace Setka.EventAuth

open Setka.Api Setka.Events Setka.Lib Setka.Types Setka.Handlers.Channels Dict PyStr

/-! ## §1 States that agree -/

/-- Two states have the same events under the selected keys. -/
def AgreeOn (authTypes : List (String × Json)) (state state' : StateMap EventBase) : Prop :=
  ∀ type stateKey, (type, Json.str stateKey) ∈ authTypes →
    state.get? (type, stateKey) = state'.get? (type, stateKey)

/-- What the rules look up for every event. -/
structure AgreeFor (event : EventBase) (state state' : StateMap EventBase) : Prop where
  create : state.get? createKey = state'.get? createKey
  powerLevels : state.get? powerLevelsKey = state'.get? powerLevelsKey
  sender : state.get? ("m.room.member", event.sender) = state'.get? ("m.room.member", event.sender)

section Lookups

variable {event : EventBase} {state state' : StateMap EventBase} (h : AgreeFor event state state')

include h

theorem AgreeFor.getUserPowerLevel (userId : String) :
    getUserPowerLevel userId state = EventAuth.getUserPowerLevel userId state' := by
  unfold EventAuth.getUserPowerLevel
  rw [h.create, h.powerLevels]

theorem AgreeFor.getNamedLevel (name : String) (default : ℤ) :
    getNamedLevel state name default = EventAuth.getNamedLevel state' name default := by
  unfold EventAuth.getNamedLevel
  rw [h.powerLevels]

theorem AgreeFor.canFederate : canFederate state = EventAuth.canFederate state' := by
  unfold EventAuth.canFederate
  rw [h.create]

theorem AgreeFor.isCreatorsJoin (roomVersion : RoomVersion) (membership : Json) :
    isCreatorsJoin roomVersion event membership state =
      EventAuth.isCreatorsJoin roomVersion event membership state' := by
  unfold EventAuth.isCreatorsJoin
  rw [h.create]

theorem AgreeFor.ownState (out : Outside) (userLevel : ℤ) :
    ownState out event userLevel state = EventAuth.ownState out event userLevel state' := by
  unfold EventAuth.ownState
  simp only [h.getUserPowerLevel]

theorem AgreeFor.checkRedaction (out : Outside) (roomVersion : RoomVersion) :
    checkRedaction out roomVersion event state = EventAuth.checkRedaction out roomVersion event state' := by
  unfold EventAuth.checkRedaction
  rw [h.getUserPowerLevel, h.getNamedLevel]

theorem AgreeFor.thirdPartyInviteAllowed :
    thirdPartyInviteAllowed event state = EventAuth.thirdPartyInviteAllowed event state' := by
  unfold EventAuth.thirdPartyInviteAllowed
  rw [h.getUserPowerLevel, h.getNamedLevel]

theorem AgreeFor.levelsWellFormed (out : Outside) (roomVersion : RoomVersion) :
    levelsWellFormed out roomVersion event state = EventAuth.levelsWellFormed out roomVersion event state' := by
  unfold EventAuth.levelsWellFormed creatorsUnlisted
  rw [h.create]

theorem AgreeFor.levelsComparable (roomVersion : RoomVersion) (currentState : EventBase) :
    levelsComparable roomVersion event currentState state =
      EventAuth.levelsComparable roomVersion event currentState state' := by
  unfold EventAuth.levelsComparable
  rw [h.getUserPowerLevel]

end Lookups

variable {state state' : StateMap EventBase}

theorem lookupKey_congr {type : String} {v : Json}
    (h : ∀ s, v = .str s → state.get? (type, s) = state'.get? (type, s)) (frozen : Bool) :
    lookupKey frozen state type v = lookupKey frozen state' type v := by
  cases v with
  | str s => rw [lookupKey, lookupKey, h s rfl]
  | _ => rfl

theorem hashed_eq_ok {frozen : Bool} {type : String} {v : Json} {key : String × Json}
    (h : hashed frozen type v = .ok key) : key = (type, v) := by
  unfold hashed at h
  split at h
  · split at h
    · exact (Except.ok.inj h).symm
    · cases h
  · split at h
    · exact (Except.ok.inj h).symm
    · cases h
  · exact (Except.ok.inj h).symm

/-! ## §2 Membership events -/

/-- What the rules look up for a membership event. -/
structure AgreeForMember (roomVersion : RoomVersion) (o : EventObject) (membership : Json)
    (targetUserId : String) (state state' : StateMap EventBase) : Prop where
  event : AgreeFor o.event state state'
  target : state.get? ("m.room.member", targetUserId) = state'.get? ("m.room.member", targetUserId)
  joinRules : isStr membership "join" = true ∨ isStr membership "invite" = true ∨
    isStr membership "knock" = true →
    state.get? ("m.room.join_rules", "") = state'.get? ("m.room.join_rules", "")
  token : isStr membership "invite" = true → ∀ invite signed token,
    Json.member? o.event.content "third_party_invite" = some invite →
    invite.get? "signed" = some signed → signed.get? "token" = some token →
    lookupKey o.frozen state "m.room.third_party_invite" token =
      lookupKey o.frozen state' "m.room.third_party_invite" token
  authoriser : roomVersion.restrictedJoinRule = true → isStr membership "join" = true → ∀ authorisingUser,
      Json.member? o.event.content "join_authorised_via_users_server" = some authorisingUser →
      lookupKey o.frozen state "m.room.member" authorisingUser =
        lookupKey o.frozen state' "m.room.member" authorisingUser

variable {o : EventObject}

/-- **The selection for a membership event** has all that its rules look up. -/
theorem agreeForMember_of_agreeOn {roomVersion : RoomVersion} {authTypes : List (String × Json)}
    (htype : o.event.type = "m.room.member") (h : authTypesForEvent roomVersion o = .ok authTypes)
    (hagree : AgreeOn authTypes state state') :
    ∃ membership targetUserId, membershipOf o.event = .ok membership ∧
      stateKeyOf o.event = .ok targetUserId ∧
      AgreeForMember roomVersion o membership targetUserId state state' := by
  unfold authTypesForEvent at h
  rw [if_neg (by rw [htype]; decide), if_pos htype] at h
  obtain ⟨membership, hmembership, h⟩ := except_bind_eq_ok.mp h
  obtain ⟨targetUserId, htarget, h⟩ := except_bind_eq_ok.mp h
  obtain ⟨token, htoken, h⟩ := except_bind_eq_ok.mp h
  obtain ⟨authoriser, hauthoriser, h⟩ := except_bind_eq_ok.mp h
  obtain rfl := Except.ok.inj h
  refine ⟨membership, targetUserId, hmembership, htarget, ⟨?_, ?_, ?_⟩, ?_, ?_, ?_, ?_⟩
  · exact hagree _ _ (by simp)
  · exact hagree _ _ (by simp)
  · exact hagree _ _ (by simp)
  · exact hagree _ _ (by simp)
  · intro hrules
    apply hagree
    rw [if_pos hrules]
    simp
  · intro hinvite invite signed tok hthird hsigned htok
    rw [tokenSelected, hthird] at htoken
    dsimp only at htoken
    rw [if_pos hinvite] at htoken
    obtain ⟨signed', hsigned', htoken⟩ := except_bind_eq_ok.mp htoken
    obtain rfl := Option.some.inj (hsigned.symm.trans (item_eq_ok.mp hsigned'))
    obtain ⟨tok', htok', htoken⟩ := except_bind_eq_ok.mp htoken
    obtain rfl := Option.some.inj (htok.symm.trans (item_eq_ok.mp htok'))
    obtain ⟨key, hkey, htoken⟩ := except_bind_eq_ok.mp htoken
    obtain rfl := hashed_eq_ok hkey
    obtain rfl := Except.ok.inj htoken
    apply lookupKey_congr
    rintro s rfl
    exact hagree _ _ (by simp)
  · intro hrestricted hjoin authorisingUser hauthorising
    rw [authoriserSelected, hauthorising] at hauthoriser
    dsimp only at hauthoriser
    rw [if_pos ⟨hrestricted, hjoin⟩] at hauthoriser
    obtain ⟨key, hkey, hauthoriser⟩ := except_bind_eq_ok.mp hauthoriser
    obtain rfl := hashed_eq_ok hkey
    obtain rfl := Except.ok.inj hauthoriser
    apply lookupKey_congr
    rintro s rfl
    exact hagree _ _ (by simp)

variable {out : Outside}

/-- An invite's signatures are looked up in the invite, its token in the state. -/
theorem verifyThirdPartyInvite_congr (h : ∀ invite signed token,
      Json.member? o.event.content "third_party_invite" = some invite →
      invite.get? "signed" = some signed → signed.get? "token" = some token →
      lookupKey o.frozen state "m.room.third_party_invite" token =
        lookupKey o.frozen state' "m.room.third_party_invite" token) :
    verifyThirdPartyInvite out o state = verifyThirdPartyInvite out o state' := by
  unfold verifyThirdPartyInvite
  cases hthird : Json.member? o.event.content "third_party_invite" with
  | none => rfl
  | some invite =>
    rw [Option.bind_some]
    cases hsigned : invite.get? "signed" with
    | none => rfl
    | some signed =>
      cases signed with
      | obj signed =>
        dsimp only
        cases Json.member? signed "mxid" with
        | none => rfl
        | some mxid =>
          cases htoken : Json.member? signed "token" with
          | none => rfl
          | some token =>
            cases Json.member? signed "signatures" with
            | none => rfl
            | some signatures =>
              dsimp only
              rw [h invite _ token hthird hsigned htoken]
      | _ => rfl

section Membership

variable {roomVersion : RoomVersion} {o : EventObject} {membership : Json} {targetUserId : String}
  {state state' : StateMap EventBase}
  (h : AgreeForMember roomVersion o membership targetUserId state state')

include h

/-- Only the join rule may differ among what the rules look up. -/
theorem AgreeForMember.membershipFacts : membershipFacts roomVersion o.event.sender targetUserId state' =
      (EventAuth.membershipFacts roomVersion o.event.sender targetUserId state).map fun facts =>
        { facts with joinRule := joinRuleOf state' } := by
  have hmember : ∀ userId, state.get? ("m.room.member", userId) = state'.get? ("m.room.member", userId) →
      memberOf state userId = memberOf state' userId := by
    intro userId heq
    unfold memberOf
    rw [heq]
  unfold EventAuth.membershipFacts
  rw [hmember _ h.event.sender, hmember _ h.target, h.event.getUserPowerLevel,
    h.event.getUserPowerLevel, h.event.getNamedLevel, h.event.getNamedLevel]
  cases memberOf state' o.event.sender with
  | error e => rfl
  | ok caller =>
    cases memberOf state' targetUserId with
    | error e => rfl
    | ok target =>
      cases getUserPowerLevel o.event.sender state' with
      | error e => rfl
      | ok userLevel =>
        cases getUserPowerLevel targetUserId state' with
        | error e => rfl
        | ok targetLevel =>
          cases EventAuth.getNamedLevel state' "invite" 0 with
          | error e => rfl
          | ok inviteLevel =>
            cases EventAuth.getNamedLevel state' "ban" 50 with
            | error e => rfl
            | ok banLevel => rfl

theorem AgreeForMember.joinRuleOf (hrules : isStr membership "join" = true ∨
    isStr membership "invite" = true ∨ isStr membership "knock" = true) :
    joinRuleOf state = EventAuth.joinRuleOf state' := by
  unfold EventAuth.joinRuleOf
  rw [h.joinRules hrules]

theorem AgreeForMember.authorisedJoin (hrestricted : roomVersion.restrictedJoinRule = true)
    (hjoin : isStr membership "join" = true) (out : Outside) (facts : MembershipFacts) :
    authorisedJoin out o facts state = EventAuth.authorisedJoin out o facts state' := by
  unfold EventAuth.authorisedJoin
  cases hauthoriser : Json.member? o.event.content "join_authorised_via_users_server" with
  | none => rfl
  | some authorisingUser =>
    have hlookup := h.authoriser hrestricted hjoin authorisingUser hauthoriser
    have hlevel := h.event.getUserPowerLevel
    cases authorisingUser with
    | null => rfl
    | str s =>
      dsimp only
      rw [hlookup]
      simp only [hlevel]
    | _ =>
      dsimp only
      rw [hlookup]

theorem AgreeForMember.joinAllowed (hrestricted : roomVersion.knockRestrictedJoinRule = true →
      roomVersion.restrictedJoinRule = true)
    (hjoin : isStr membership "join" = true) (out : Outside) (facts : MembershipFacts) :
    joinAllowed out roomVersion o targetUserId facts state =
      EventAuth.joinAllowed out roomVersion o targetUserId facts state' := by
  by_cases hversion : roomVersion.restrictedJoinRule = true
  · unfold EventAuth.joinAllowed
    rw [h.authorisedJoin hversion hjoin out facts]
  -- without the restricted rule nobody is asked to authorise the join
  have hknock : roomVersion.knockRestrictedJoinRule = false := by
    by_contra hknock
    exact hversion (hrestricted (by simpa using hknock))
  unfold EventAuth.joinAllowed
  simp [hversion, hknock]

/-- The rule for a membership: only joins and knocks look at the join rule. -/
theorem AgreeForMember.changeAllowed (hrestricted : roomVersion.knockRestrictedJoinRule = true →
      roomVersion.restrictedJoinRule = true)
    (out : Outside) {facts : MembershipFacts} {joinRule : Json}
    (hjoinRule : isStr membership "join" = true ∨ isStr membership "knock" = true → joinRule = facts.joinRule) :
    changeAllowed out roomVersion o membership targetUserId facts state =
      EventAuth.changeAllowed out roomVersion o membership targetUserId { facts with joinRule } state' := by
  unfold EventAuth.changeAllowed
  by_cases hinvite : isStr membership "invite" = true
  · rw [if_pos hinvite, if_pos hinvite]
    rfl
  rw [if_neg hinvite, if_neg hinvite]
  by_cases hjoin : isStr membership "join" = true
  · rw [if_pos hjoin, if_pos hjoin, hjoinRule (Or.inl hjoin)]
    exact h.joinAllowed hrestricted hjoin out facts
  rw [if_neg hjoin, if_neg hjoin]
  by_cases hleave : isStr membership "leave" = true
  · rw [if_pos hleave, if_pos hleave]
    unfold leaveAllowed
    rw [h.event.getNamedLevel]
  rw [if_neg hleave, if_neg hleave]
  by_cases hban : isStr membership "ban" = true
  · rw [if_pos hban, if_pos hban]
    rfl
  rw [if_neg hban, if_neg hban]
  by_cases hknock : (roomVersion.knockJoinRule && isStr membership "knock") = true
  · have hstr : isStr membership "knock" = true := by
      rw [Bool.and_eq_true] at hknock
      exact hknock.2
    rw [if_pos hknock, if_pos hknock, hjoinRule (Or.inr hstr)]
  · rw [if_neg hknock, if_neg hknock]

theorem AgreeForMember.decideChange (hrestricted : roomVersion.knockRestrictedJoinRule = true →
      roomVersion.restrictedJoinRule = true)
    (out : Outside) {facts : MembershipFacts} (hfacts : facts.joinRule = EventAuth.joinRuleOf state) :
    decideChange out roomVersion o membership targetUserId facts state =
      EventAuth.decideChange out roomVersion o membership targetUserId
        { facts with joinRule := EventAuth.joinRuleOf state' } state' := by
  have hjoinRule : isStr membership "join" = true ∨ isStr membership "knock" = true →
      EventAuth.joinRuleOf state' = facts.joinRule := by
    rintro hrules
    rw [hfacts, h.joinRuleOf (by tauto)]
  unfold EventAuth.decideChange
  by_cases hinvite : isStr membership "invite" = true ∧
      (Json.member? o.event.content "third_party_invite").isSome = true
  · rw [if_pos hinvite, if_pos hinvite, verifyThirdPartyInvite_congr (h.token hinvite.1)]
  rw [if_neg hinvite, if_neg hinvite]
  rw [h.changeAllowed hrestricted out hjoinRule]

/-- **Membership events** are judged by what is selected for them. -/
theorem AgreeForMember.isMembershipChangeAllowed (hrestricted : roomVersion.knockRestrictedJoinRule = true →
      roomVersion.restrictedJoinRule = true)
    (hmembership : membershipOf o.event = .ok membership)
    (htarget : stateKeyOf o.event = .ok targetUserId) (out : Outside) :
    isMembershipChangeAllowed out roomVersion o state =
      EventAuth.isMembershipChangeAllowed out roomVersion o state' := by
  have hdecided : (EventAuth.membershipFacts roomVersion o.event.sender targetUserId state >>= fun facts =>
        EventAuth.decideChange out roomVersion o membership targetUserId facts state) =
      (EventAuth.membershipFacts roomVersion o.event.sender targetUserId state' >>= fun facts =>
        EventAuth.decideChange out roomVersion o membership targetUserId facts state') := by
    rw [h.membershipFacts]
    cases hfacts : EventAuth.membershipFacts roomVersion o.event.sender targetUserId state with
    | error e => rfl
    | ok facts => exact h.decideChange hrestricted out (joinRule_of_membershipFacts hfacts)
  unfold EventAuth.isMembershipChangeAllowed
  rw [hmembership, except_ok_bind, except_ok_bind, h.event.isCreatorsJoin, htarget, h.event.create,
    h.event.canFederate]
  simp only [except_ok_bind, hdecided]

end Membership

/-! ## §3 Other events -/

section Events

variable {o : EventObject} {state state' : StateMap EventBase} (h : AgreeFor o.event state state')

include h

theorem AgreeFor.mayTakePart (out : Outside) : MayTakePart out o.event state ↔ MayTakePart out o.event state' := by
  unfold MayTakePart
  rw [h.create, h.canFederate]

theorem AgreeFor.senderJoined :
    HasMembership state o.event.sender "join" ↔ HasMembership state' o.event.sender "join" := by
  unfold HasMembership
  rw [h.sender]

theorem AgreeFor.levels (level sendLevel : ℤ) :
    Levels o.event state level sendLevel ↔ Levels o.event state' level sendLevel := by
  unfold Levels
  rw [h.getUserPowerLevel, h.powerLevels]

theorem AgreeFor.lowerable (level : ℤ) : Lowerable o state level ↔ Lowerable o state' level := by
  unfold Lowerable
  rw [h.powerLevels]

/-- Only a message's level depends on the topic. -/
theorem AgreeFor.canSendEvent (out : Outside) (htype : o.event.type ∉ feedEventTypes) :
    canSendEvent out o state = EventAuth.canSendEvent out o state' := by
  have hlowered : ∀ authEvents sendLevel userLevel,
      loweredLevel out o authEvents sendLevel userLevel = .ok sendLevel := by
    intro authEvents sendLevel userLevel
    unfold loweredLevel
    split
    · rw [setkaChannelThreadCommentSendLevel, if_pos htype]
      rfl
    · rfl
  unfold EventAuth.canSendEvent
  simp only [hlowered, h.powerLevels, h.getUserPowerLevel, h.ownState]

/-- A power levels event is compared with the one under its own key. -/
theorem AgreeFor.checkPowerLevels (out : Outside) (roomVersion : RoomVersion)
    (hcurrent : ∀ stateKey, o.event.stateKey = some stateKey →
      state.get? (o.event.type, stateKey) = state'.get? (o.event.type, stateKey)) :
    checkPowerLevels out roomVersion o.event state = EventAuth.checkPowerLevels out roomVersion o.event state' := by
  unfold EventAuth.checkPowerLevels
  rw [h.levelsWellFormed]
  cases hstateKey : stateKeyOf o.event with
  | error e => rfl
  | ok stateKey =>
    rw [except_ok_bind, except_ok_bind, hcurrent stateKey (stateKeyOf_eq_ok.mp hstateKey)]
    simp only [h.levelsComparable]

theorem AgreeFor.eventAllowed (out : Outside) (hfeed : o.event.type ∉ feedEventTypes)
    (hmember : o.event.type ≠ "m.room.member")
    (hcurrent : o.event.type = "m.room.power_levels" → ∀ stateKey, o.event.stateKey = some stateKey →
        state.get? (o.event.type, stateKey) = state'.get? (o.event.type, stateKey)) :
    eventAllowed out o state = EventAuth.eventAllowed out o state' := by
  have htyped : typeAllowed out o.event state = typeAllowed out o.event state' := by
    unfold typeAllowed
    by_cases hlevels : o.event.type = "m.room.power_levels"
    · rw [if_pos hlevels, if_pos hlevels, h.checkPowerLevels out _ (hcurrent hlevels)]
    · rw [if_neg hlevels, if_neg hlevels, h.checkRedaction]
  unfold EventAuth.eventAllowed
  rw [if_neg hmember, if_neg hmember, h.sender, h.thirdPartyInviteAllowed, h.canSendEvent out hfeed, htyped]

/-- What the sender's server may do is the same in both states. -/
theorem AgreeFor.checkAgainst {out : Outside}
    (hallowed : EventAuth.eventAllowed out o state = EventAuth.eventAllowed out o state') :
    checkAgainst out o state = EventAuth.checkAgainst out o state' := by
  unfold EventAuth.checkAgainst
  rw [h.create, h.canFederate, hallowed]

end Events

/-! ## §4 What is read besides -/

/-- **The topic decides.** A message whose sender has not the level for it, but would have the one that
a channel lowers it to, and that nothing else keeps out. -/
def TopicDecides (out : Outside) (o : EventObject) (state : StateMap EventBase) : Prop :=
  o.event.type ∈ feedEventTypes ∧ MayTakePart out o.event state ∧
    HasMembership state o.event.sender "join" ∧ ∃ level sendLevel,
      Levels o.event state level sendLevel ∧ level < sendLevel ∧ Lowerable o state level ∧
      ownState out o.event level state = .ok ()

/-- **Other power levels decide.** A power levels event with a state key of its own, that passes all that
is asked of it before it is compared with the event under this key. -/
def OtherLevelsDecide (out : Outside) (o : EventObject) (state : StateMap EventBase) : Prop :=
  o.event.type = "m.room.power_levels" ∧
    (∃ stateKey, o.event.stateKey = some stateKey ∧ stateKey ≠ "") ∧
    MayTakePart out o.event state ∧ HasMembership state o.event.sender "join" ∧
    canSendEvent out o state = .ok () ∧
    levelsWellFormed out o.event.roomVersion o.event state = .ok ()

/-- Whether the topic decides does not depend on the topic. -/
theorem AgreeFor.topicDecides (h : AgreeFor o.event state state') (out : Outside) :
    TopicDecides out o state ↔ TopicDecides out o state' := by
  unfold TopicDecides
  simp only [h.mayTakePart, h.senderJoined, h.levels, h.lowerable, h.ownState]

theorem AgreeFor.otherLevelsDecide (h : AgreeFor o.event state state') (out : Outside) :
    OtherLevelsDecide out o state ↔ OtherLevelsDecide out o state' := by
  refine and_congr_right fun htype => ?_
  have hfeed : o.event.type ∉ feedEventTypes := by
    rw [htype]
    decide
  rw [h.mayTakePart, h.senderJoined, h.canSendEvent out hfeed, h.levelsWellFormed]

theorem otherLevelsDecide_of_accepted (htype : o.event.type = "m.room.power_levels")
    (hkey : ∃ stateKey, o.event.stateKey = some stateKey ∧ stateKey ≠ "")
    (h : checkAgainst out o state = .ok ()) : OtherLevelsDecide out o state := by
  have hplain : o.event.type ∉ ruledTypes := by
    rw [htype]
    decide
  obtain ⟨hpart, hallowed⟩ := checkAgainst_eq_ok_iff.mp h
  obtain ⟨hjoined, hsend, htyped⟩ := (eventAllowed_eq_ok_iff hplain).mp hallowed
  rw [typeAllowed, if_pos htype] at htyped
  obtain ⟨_, hwell, _⟩ := except_bind_eq_ok.mp htyped
  exact ⟨htype, hkey, hpart, hjoined, hsend, hwell⟩

/-- What is selected for an event that is no membership event. -/
theorem agreeFor_of_agreeOn {roomVersion : RoomVersion} {o : EventObject}
    {authTypes : List (String × Json)} {state state' : StateMap EventBase}
    (hcreate : o.event.type ≠ "m.room.create") (hmember : o.event.type ≠ "m.room.member")
    (h : authTypesForEvent roomVersion o = .ok authTypes) :
    AgreeOn authTypes state state' ↔ AgreeFor o.event state state' := by
  unfold authTypesForEvent at h
  rw [if_neg hcreate, if_neg hmember] at h
  obtain rfl := Except.ok.inj h
  constructor
  · intro hagree
    exact ⟨hagree _ _ (by simp), hagree _ _ (by simp), hagree _ _ (by simp)⟩
  intro hagree type stateKey hmem
  simp only [List.mem_cons, List.not_mem_nil, or_false, Prod.mk.injEq, Json.str.injEq] at hmem
  rcases hmem with ⟨rfl, rfl⟩ | ⟨rfl, rfl⟩ | ⟨rfl, rfl⟩
  · exact hagree.powerLevels
  · exact hagree.sender
  · exact hagree.create

/-- **What is selected decides**, where neither the topic nor other power levels do. -/
theorem checkAgainst_congr {authTypes : List (String × Json)}
    (hversion : o.event.roomVersion ∈ knownRoomVersions) (hcreate : o.event.type ≠ "m.room.create")
    (hselected : authTypesForEvent o.event.roomVersion o = .ok authTypes)
    (hagree : AgreeOn authTypes state state') (htopic : ¬ TopicDecides out o state)
    (hlevels : ¬ OtherLevelsDecide out o state) :
    checkAgainst out o state' = .ok () ↔ checkAgainst out o state = .ok () := by
  by_cases hmember : o.event.type = "m.room.member"
  · have hrestricted : o.event.roomVersion.knockRestrictedJoinRule = true →
        o.event.roomVersion.restrictedJoinRule = true := by
      have hknown : ∀ roomVersion ∈ knownRoomVersions, roomVersion.knockRestrictedJoinRule = true →
            roomVersion.restrictedJoinRule = true := by decide
      exact hknown _ hversion
    obtain ⟨membership, targetUserId, hmembership, htarget, h⟩ :=
      agreeForMember_of_agreeOn hmember hselected hagree
    have haliases : ¬ (o.event.type = "m.room.aliases" ∧
        o.event.roomVersion.specialCaseAliasesAuth = true) := by
      rw [hmember]
      rintro ⟨heq, -⟩
      exact absurd heq (by decide)
    have hallowed : eventAllowed out o state = eventAllowed out o state' := by
      unfold eventAllowed
      rw [if_neg haliases, if_neg haliases, if_pos hmember, if_pos hmember,
        h.isMembershipChangeAllowed hrestricted hmembership htarget]
    rw [h.event.checkAgainst hallowed]
  · have h := (agreeFor_of_agreeOn hcreate hmember hselected).mp hagree
    by_cases hfeed : o.event.type ∈ feedEventTypes
    · -- a message: the states may differ in whether a channel lowers its level
      rw [message_accepted_iff hfeed, message_accepted_iff hfeed, h.mayTakePart, h.senderJoined]
      refine and_congr_right fun hpart => and_congr_right fun hjoined => ?_
      refine exists_congr fun level => exists_congr fun sendLevel => ?_
      rw [h.levels, h.lowerable, h.ownState]
      refine and_congr_right fun hlevel => and_congr_left fun hown => ?_
      by_cases hle : sendLevel ≤ level
      · exact iff_of_true (Or.inl hle) (Or.inl hle)
      have hnot : ¬ Lowerable o state' level := by
        intro hlowerable
        refine htopic ((h.topicDecides out).mpr ?_)
        exact ⟨hfeed, hpart, hjoined, level, sendLevel, hlevel, by omega, hlowerable, hown⟩
      simp only [hnot, and_false]
    · by_cases hother : o.event.type = "m.room.power_levels" ∧
          ∃ stateKey, o.event.stateKey = some stateKey ∧ stateKey ≠ ""
      · refine iff_of_false (fun haccepted => hlevels ?_) (fun haccepted => hlevels ?_)
        · exact (h.otherLevelsDecide out).mpr (otherLevelsDecide_of_accepted hother.1 hother.2 haccepted)
        · exact otherLevelsDecide_of_accepted hother.1 hother.2 haccepted
      · have hcurrent : o.event.type = "m.room.power_levels" → ∀ stateKey, o.event.stateKey = some stateKey →
              state.get? (o.event.type, stateKey) = state'.get? (o.event.type, stateKey) := by
          intro htype stateKey hstateKey
          obtain rfl : stateKey = "" := by
            by_contra hne
            exact hother ⟨htype, stateKey, hstateKey, hne⟩
          rw [htype]
          exact h.powerLevels
        rw [h.checkAgainst (h.eventAllowed out hfeed hmember hcurrent)]

/-! ## §5 States that differ there -/

theorem authDict_append (events : List EventBase) (event : EventBase) :
    authDict (events ++ [event]) = authDict events >>= fun dict =>
      stateKeyOf event >>= fun stateKey => .ok (dict.set (event.type, stateKey) event) := by
  rw [authDict, List.foldlM_append]
  simp only [List.foldlM_cons, List.foldlM_nil, bind_pure]
  rfl

/-- The event is kept under this key. -/
def Under (key : String × String) (event : EventBase) : Bool :=
  event.type = key.1 ∧ event.stateKey = some key.2

variable {events : List EventBase}

/-- Of the events under a key the last one counts. -/
theorem get?_authDict (h : authDict events = .ok state) (key : String × String) :
    state.get? key = events.reverse.find? (Under key) := by
  induction events using List.reverseRecOn generalizing state with
  | nil =>
    obtain rfl := Except.ok.inj h
    rfl
  | append_singleton events event ih =>
    rw [authDict_append] at h
    obtain ⟨dict, hdict, h⟩ := except_bind_eq_ok.mp h
    obtain ⟨stateKey, hstateKey, h⟩ := except_bind_eq_ok.mp h
    obtain rfl := Except.ok.inj h
    have hsome := stateKeyOf_eq_ok.mp hstateKey
    rw [get?_set, List.reverse_append, List.reverse_singleton, List.singleton_append]
    split
    · rename_i hkey
      rw [List.find?_cons_of_pos (by simp [Under, hsome, hkey])]
    rename_i hkey
    rw [List.find?_cons_of_neg, ih hdict]
    rw [Under, decide_eq_true_iff, hsome, Option.some.injEq]
    rintro ⟨htype, hstateKey⟩
    exact hkey (Prod.ext htype.symm hstateKey.symm)

/-- State events have a dictionary. -/
theorem exists_authDict_iff :
    (∃ state, authDict events = .ok state) ↔ ∀ event ∈ events, event.stateKey.isSome = true := by
  induction events using List.reverseRecOn with
  | nil => exact iff_of_true ⟨_, rfl⟩ (by simp)
  | append_singleton events event ih =>
    rw [authDict_append]
    constructor
    · rintro ⟨state, h⟩ other hother
      obtain ⟨dict, hdict, h⟩ := except_bind_eq_ok.mp h
      obtain ⟨stateKey, hstateKey, _⟩ := except_bind_eq_ok.mp h
      rcases List.mem_append.mp hother with hmem | hmem
      · exact ih.mp ⟨dict, hdict⟩ other hmem
      · rw [List.mem_singleton.mp hmem, stateKeyOf_eq_ok.mp hstateKey]
        rfl
    · intro hall
      obtain ⟨dict, hdict⟩ := ih.mpr fun other hother => hall other (by simp [hother])
      obtain ⟨stateKey, hstateKey⟩ := Option.isSome_iff_exists.mp (hall event (by simp))
      rw [hdict, except_ok_bind, stateKeyOf_eq_ok.mpr hstateKey]
      exact ⟨_, rfl⟩

/-- **Leaving out the events under a key** leaves the others as they are. -/
theorem authDict_without (key : String × String) (h : authDict events = .ok state) :
    ∃ state', authDict (events.filter fun event => !Under key event) = .ok state' ∧
      ∀ k, state'.get? k = if k = key then none else state.get? k := by
  have hstate := exists_authDict_iff.mp ⟨state, h⟩
  obtain ⟨state', hstate'⟩ : ∃ state', authDict (events.filter fun event => !Under key event) = .ok state' :=
    exists_authDict_iff.mpr fun event hmem => hstate event (List.mem_filter.mp hmem).1
  refine ⟨state', hstate', fun k => ?_⟩
  rw [get?_authDict hstate', get?_authDict h, ← List.filter_reverse, List.find?_filter]
  split
  · rename_i hkey
    simp [hkey]
  rename_i hkey
  congr 1
  funext event
  by_cases hunder : Under k event = true
  · have hnot : Under key event = false := by
      by_contra hboth
      rw [Bool.not_eq_false] at hboth
      simp only [Under, decide_eq_true_iff] at hunder hboth
      refine hkey (Prod.ext (hunder.1.symm.trans hboth.1) (Option.some.inj ?_))
      exact hunder.2.symm.trans hboth.2
    simp [hunder, hnot]
  · simp [hunder]

/-- The topic of a room, as its creator sets it. -/
def topicEvent (create : EventBase) (topic : String) : EventBase :=
  { create with
    type := "m.room.topic"
    stateKey := some ""
    content := [("topic", .str topic)] }

def topicKey : String × String := ("m.room.topic", "")

/-- A room is a channel by its topic. -/
theorem isSetkaChannelState_topic (out : Outside) (state : StateMap EventBase) (create : EventBase) :
    isSetkaChannelState out.str out.uni (state.set topicKey (topicEvent create "setka:channel")) = true ∧
      isSetkaChannelState out.str out.uni (state.set topicKey (topicEvent create "")) = false := by
  have htopic : ∀ topic, topicFromState out.str (state.set topicKey (topicEvent create topic)) = topic := by
    intro topic
    unfold topicFromState
    have hget : (state.set topicKey (topicEvent create topic)).get? ("m.room.topic", "") =
        some (topicEvent create topic) := by
      rw [get?_set]
      exact if_pos rfl
    rw [hget]
    show Handlers.Feed.strOr out.str "" (some (.str topic)) = topic
    rw [Handlers.Feed.strOr, Json.truthy?, Option.filter_some]
    by_cases hempty : topic = ""
    · rw [hempty]
      rfl
    · rw [if_pos (by simpa [Json.truthy] using hempty)]
  unfold isSetkaChannelState
  rw [htopic, htopic]
  constructor
  · rw [strip_of_not_space (not_isSpace_of_all (by decide)),
      out.uni.lower_ascii _ (ascii_of_all (by decide))]
    decide +kernel
  rw [strip_of_not_space (not_isSpace_of_all (by decide)),
    out.uni.lower_ascii _ (ascii_of_all (by decide))]
  decide +kernel

/-- **An event is judged by what is selected**, against this state and any other: all states that agree
with it on the selected keys accept the event if it does. -/
def SelectionDecides (out : Outside) (o : EventObject) (events : List EventBase)
    (state : StateMap EventBase) (authTypes : List (String × Json)) : Prop :=
  ∀ events' state', authDict events' = .ok state' → AgreeOn authTypes state state' →
    (checkStateDependentAuthRules out o events' = .ok () ↔
      checkStateDependentAuthRules out o events = .ok ())

section Exact

variable {out : Outside} {o : EventObject} {events : List EventBase} {state : StateMap EventBase}
  {authTypes : List (String × Json)}

theorem checkStateDependentAuthRules_eq (hcreate : o.event.type ≠ "m.room.create")
    (hevents : authDict events = .ok state) :
    checkStateDependentAuthRules out o events = checkAgainst out o state := by
  rw [checkStateDependentAuthRules, if_neg hcreate, hevents]
  rfl

/-- Where the topic decides, a state with another topic judges the event differently. -/
theorem not_topicDecides (hevents : authDict events = .ok state)
    (hselected : authTypesForEvent o.event.roomVersion o = .ok authTypes)
    (h : SelectionDecides out o events state authTypes) : ¬ TopicDecides out o state := by
  intro htopic
  obtain ⟨hfeed, ⟨create, -⟩, _, level, sendLevel, hlevels, hless, _⟩ := id htopic
  have hother : ∀ type, type ∉ feedEventTypes → o.event.type ≠ type := by
    rintro type hnot rfl
    exact hnot hfeed
  have hcreate : o.event.type ≠ "m.room.create" := hother _ (by decide)
  have hset : ∀ topic, AgreeFor o.event state (state.set topicKey (topicEvent create topic)) := by
    intro topic
    refine ⟨?_, ?_, ?_⟩
    · rw [get?_set, if_neg (by decide)]
    · rw [get?_set, if_neg (by decide)]
    · rw [get?_set, if_neg (by simp [topicKey])]
  have hsame : ∀ topic, checkAgainst out o (state.set topicKey (topicEvent create topic)) = .ok () ↔
      checkAgainst out o state = .ok () := by
    intro topic
    have hdict : authDict (events ++ [topicEvent create topic]) =
        .ok (state.set topicKey (topicEvent create topic)) := by
      rw [authDict_append, hevents]
      rfl
    rw [← checkStateDependentAuthRules_eq hcreate hdict, ← checkStateDependentAuthRules_eq hcreate hevents]
    exact h _ _ hdict ((agreeFor_of_agreeOn hcreate (hother _ (by decide)) hselected).mpr (hset topic))
  obtain ⟨hchannel, hplain⟩ := isSetkaChannelState_topic out state create
  have hlowered : checkAgainst out o (state.set topicKey (topicEvent create "setka:channel")) = .ok () := by
    obtain ⟨_, hpart, hjoined, level, sendLevel, hlevels, _, hlowerable, hown⟩ :=
      ((hset "setka:channel").topicDecides out).mp htopic
    exact (message_accepted_iff hfeed).mpr
      ⟨hpart, hjoined, level, sendLevel, hlevels, Or.inr ⟨hchannel, hlowerable⟩, hown⟩
  -- without the channel the sender's level is too low
  have haccepted := (hsame "").mpr ((hsame "setka:channel").mp hlowered)
  obtain ⟨-, -, level', sendLevel', hlevels', hcase, -⟩ := (message_accepted_iff hfeed).mp haccepted
  obtain ⟨hlevel, hsend⟩ := ((hset "").levels _ _).mp hlevels
  obtain rfl := Except.ok.inj (hlevel.symm.trans hlevels'.1)
  obtain rfl := Except.ok.inj (hsend.symm.trans hlevels'.2)
  rcases hcase with hle | ⟨htrue, -⟩
  · omega
  · rw [hplain] at htrue
    cases htrue

/-- Where other power levels decide, they may be there or not. -/
theorem not_otherLevelsDecide (hevents : authDict events = .ok state)
    (hselected : authTypesForEvent o.event.roomVersion o = .ok authTypes)
    (h : SelectionDecides out o events state authTypes) : ¬ OtherLevelsDecide out o state := by
  intro hlevels
  obtain ⟨htype, ⟨stateKey, hstateKey, hkey⟩, _⟩ := id hlevels
  have hcreate : o.event.type ≠ "m.room.create" := by
    rw [htype]
    decide
  have hmember : o.event.type ≠ "m.room.member" := by
    rw [htype]
    decide
  have hplain : o.event.type ∉ ruledTypes := by
    rw [htype]
    decide
  have hagree : ∀ state' : StateMap EventBase, (∀ k, k ≠ (o.event.type, stateKey) → state'.get? k = state.get? k) →
        AgreeFor o.event state state' := by
    intro state' hother
    refine ⟨(hother _ ?_).symm, (hother _ ?_).symm, (hother _ ?_).symm⟩
    · rw [htype]
      simp [createKey]
    · rw [htype]
      simpa [powerLevelsKey] using Ne.symm hkey
    · rw [htype]
      simp
  have hsame : ∀ events' state', authDict events' = .ok state' → AgreeFor o.event state state' →
      (checkAgainst out o state' = .ok () ↔ checkAgainst out o state = .ok ()) := by
    intro events' state' hdict hagreed
    rw [← checkStateDependentAuthRules_eq hcreate hdict, ← checkStateDependentAuthRules_eq hcreate hevents]
    exact h _ _ hdict ((agreeFor_of_agreeOn hcreate hmember hselected).mpr hagreed)
  have haccepted_iff : ∀ state', AgreeFor o.event state state' → (checkAgainst out o state' = .ok () ↔
        checkPowerLevels out o.event.roomVersion o.event state' = .ok ()) := by
    intro state' hagreed
    obtain ⟨_, _, hpart, hjoined, hsend, _⟩ := (hagreed.otherLevelsDecide out).mp hlevels
    rw [checkAgainst_eq_ok_iff, eventAllowed_eq_ok_iff hplain, typeAllowed, if_pos htype]
    exact ⟨fun hall => hall.2.2.2, fun hcheck => ⟨hpart, hjoined, hsend, hcheck⟩⟩
  -- no event under the key: there is nothing to compare with
  obtain ⟨without, hwithout, hget⟩ := authDict_without (o.event.type, stateKey) hevents
  have hagreeWithout := hagree without fun k hk => by rw [hget k, if_neg hk]
  have hallowed : checkPowerLevels out o.event.roomVersion o.event without = .ok () := by
    obtain ⟨_, _, _, _, _, hwell⟩ := (hagreeWithout.otherLevelsDecide out).mp hlevels
    rw [checkPowerLevels, hwell, except_ok_bind, stateKeyOf_eq_ok.mpr hstateKey, except_ok_bind, hget, if_pos rfl]
    rfl
  -- an event whose users are no dictionary: the comparison raises
  have hdict : authDict (events ++ [{ o.event with content := [("users", .int 5)] }]) =
      .ok (state.set (o.event.type, stateKey) { o.event with content := [("users", .int 5)] }) := by
    have hown : stateKeyOf { o.event with content := [("users", Json.int 5)] } = .ok stateKey :=
      stateKeyOf_eq_ok.mpr hstateKey
    rw [authDict_append, hevents, except_ok_bind, hown]
    rfl
  have hagreeWith := hagree (state.set (o.event.type, stateKey)
    { o.event with content := [("users", .int 5)] }) fun k hk => by
      rw [get?_set, if_neg hk]
  have haccepted := (haccepted_iff _ hagreeWith).mp ((hsame _ _ hdict hagreeWith).mpr
    ((hsame _ _ hwithout hagreeWithout).mp ((haccepted_iff _ hagreeWithout).mpr hallowed)))
  obtain ⟨_, _, hcompared⟩ := except_bind_eq_ok.mp haccepted
  rw [stateKeyOf_eq_ok.mpr hstateKey, except_ok_bind, get?_set, if_pos rfl] at hcompared
  obtain ⟨_, _, hcompared⟩ := except_bind_eq_ok.mp hcompared
  obtain ⟨_, hlist, _⟩ := except_bind_eq_ok.mp hcompared
  obtain ⟨_, husers, _⟩ := except_bind_eq_ok.mp hlist
  cases husers

/-- **The rules read only what is selected**, if and only if neither the topic of the room nor other
power levels decide. -/
theorem selectionDecides_iff (hversion : o.event.roomVersion ∈ knownRoomVersions)
    (hcreate : o.event.type ≠ "m.room.create") (hevents : authDict events = .ok state)
    (hselected : authTypesForEvent o.event.roomVersion o = .ok authTypes) :
    SelectionDecides out o events state authTypes ↔
      ¬ TopicDecides out o state ∧ ¬ OtherLevelsDecide out o state := by
  constructor
  · intro h
    exact ⟨not_topicDecides hevents hselected h, not_otherLevelsDecide hevents hselected h⟩
  rintro ⟨htopic, hlevels⟩ events' state' hdict hagree
  rw [checkStateDependentAuthRules_eq hcreate hdict, checkStateDependentAuthRules_eq hcreate hevents]
  exact checkAgainst_congr hversion hcreate hselected hagree htopic hlevels

end Exact

/-! ## §6 A message -/

/-- A room with a topic, where posting takes a moderator. -/
def exampleTopical (topic : String) : List EventBase :=
  [exampleEvent "$create" "m.room.create" "@owner:s" (some "") [] [],
    exampleEvent "$levels" "m.room.power_levels" "@owner:s" (some "")
      [("users", .obj [("@owner:s", .int 100)]), ("events_default", .int 50)] ["$create"],
    exampleEvent "$topic" "m.room.topic" "@owner:s" (some "") [("topic", .str topic)] ["$levels"],
    exampleMember "@owner:s" "@owner:s" "join" ["$create"],
    exampleMember "@guest:s" "@guest:s" "join" ["$topic"]]

def exampleTopicalState (topic : String) : StateMap EventBase :=
  (exampleTopical topic).foldl (fun dict event => dict.set (event.type, event.stateKey.getD "") event) .empty

def exampleMessage (sender : String) : EventObject where
  event := exampleEvent "$message" "m.room.message" sender none [("body", .str "hello")] ["$last"]
  frozen := true

/-- The owner's message is sent whatever the topic is. -/
theorem selectionDecides_iff_example :
    SelectionDecides exampleOutside (exampleMessage "@owner:s") (exampleTopical "setka:channel")
      (exampleTopicalState "setka:channel")
      [("m.room.power_levels", .str ""), ("m.room.member", .str "@owner:s"), ("m.room.create", .str "")] := by
  have hlevel : getUserPowerLevel "@owner:s" (exampleTopicalState "setka:channel") = .ok 100 := by
    decide +kernel
  refine (selectionDecides_iff (by decide) (by decide) rfl rfl).mpr ⟨?_, ?_⟩
  · rintro ⟨-, -, -, level, sendLevel, ⟨howner, hsend⟩, hless, -⟩
    obtain rfl := Except.ok.inj (hlevel.symm.trans howner)
    obtain rfl : 50 = sendLevel := Except.ok.inj hsend
    omega
  · rintro ⟨htype, -⟩
    exact absurd htype (by decide)

/-- **The topic is not selected.** The guest's message is accepted in a channel, and not in a room whose
state differs in the topic only. -/
theorem topic_not_selected : ∃ state state' authTypes, authDict (exampleTopical "setka:channel") = .ok state ∧
      authDict (exampleTopical "news") = .ok state' ∧
      authTypesForEvent RoomVersions.v11 (exampleMessage "@guest:s") = .ok authTypes ∧
      AgreeOn authTypes state state' ∧ (state.get? createKey).isSome = true ∧
      checkStateDependentAuthRules exampleOutside (exampleMessage "@guest:s")
        (exampleTopical "setka:channel") = .ok () ∧
      checkStateDependentAuthRules exampleOutside (exampleMessage "@guest:s") (exampleTopical "news") ≠ .ok () := by
  refine ⟨exampleTopicalState "setka:channel", exampleTopicalState "news", _, rfl, rfl, rfl, ?_,
    rfl, by decide +kernel, by decide +kernel⟩
  have hagree : AgreeFor (exampleMessage "@guest:s").event (exampleTopicalState "setka:channel")
      (exampleTopicalState "news") := ⟨rfl, rfl, rfl⟩
  exact (@agreeFor_of_agreeOn RoomVersions.v11 _ _ _ _ (by decide) (by decide) rfl).mpr hagree

end Setka.EventAuth
