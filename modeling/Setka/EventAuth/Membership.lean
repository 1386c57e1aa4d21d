/-
# Setka.EventAuth.Membership — who may change whose membership.

The rules for `m.room.member` events: joins, invites, leaves, bans and knocks, and invites that a third
party vouches for.
-/
import Setka.EventAuth
import Setka.Lib.Action
import Setka.Types

namespace Setka.EventAuth

open Setka.Api Setka.Events Setka.Lib Setka.Types

/-! ## §1 Invites by third parties -/

/-- `list.extend(v)` of a decoded value. -/
def iterated : Json → Except Error (List Json)
  | .arr xs => .ok xs
  | .obj members => .ok (members.map fun member => .str member.1)
  | .str s => .ok (s.toList.map fun c => .str (String.singleton c))
  | _ => .error .typeError

/-- `v[k]` of a decoded value and a string. -/
def item : Json → String → Except Error Json
  | .obj members, k =>
    match Json.member? members k with
    | some v => .ok v
    | none => .error .keyError
  | _, _ => .error .typeError

/-- `get_public_keys`. Of a key only its `public_key` is read. -/
def getPublicKeys (inviteEvent : EventBase) : Except Error (List Json) := do
  let own :=
    match Json.member? inviteEvent.content "public_key" with
    | some publicKey => [Json.obj [("public_key", publicKey)]]
    | none => []
  let more ← iterated ((Json.member? inviteEvent.content "public_keys").getD (.arr []))
  pure (own ++ more)

/-- The key names of one server's signatures, until one verifies. -/
def verifyBlock (out : Outside) (publicKey : Json) (signed : List (String × Json)) (server : String) :
    List String → Except Error (Option Bool)
  | [] => .ok none
  | keyName :: keyNames =>
    if PyStr.startsWith "ed25519:" keyName = false then
      verifyBlock out publicKey signed server keyNames
    else do
      let verified ← out.verifySignedJson publicKey signed server keyName
      pure (some verified)

/-- The signatures of all servers: `some true` for one that verifies, `some false` for one that does
not, which ends the loop. -/
def verifySignatures (out : Outside) (publicKey : Json) (signed : List (String × Json)) :
    List (String × Json) → Except Error (Option Bool)
  | [] => .ok none
  | (server, .obj block) :: signatures => do
      let found ← verifyBlock out publicKey signed server (block.map Prod.fst)
      match found with
      | some verified => pure (some verified)
      | none => verifySignatures out publicKey signed signatures
  | _ :: _ => .error .attributeError

/-- The loop of `_verify_third_party_invite` over the public keys. -/
def verifyByKeys (out : Outside) (signed : List (String × Json)) : List Json → Except Error Bool
  | [] => .ok false
  | publicKeyObject :: publicKeyObjects => do
      let publicKey ← item publicKeyObject "public_key"
      let signatures ← item (.obj signed) "signatures"
      match signatures with
      | .obj signatures => do
          let found ← verifySignatures out publicKey signed signatures
          if found = some true then pure true
          else verifyByKeys out signed publicKeyObjects
      | _ => .error .attributeError

/-- `_verify_third_party_invite`. -/
def verifyThirdPartyInvite (out : Outside) (o : EventObject) (authEvents : StateMap EventBase) :
    Except Error Bool :=
  match (Json.member? o.event.content "third_party_invite").bind fun invite => invite.get? "signed" with
  | some (.obj signed) =>
    match Json.member? signed "mxid", Json.member? signed "token", Json.member? signed "signatures" with
    | some mxid, some token, some _ => do
        let inviteEvent ← lookupKey o.frozen authEvents "m.room.third_party_invite" token
        match inviteEvent with
        | none => pure false
        | some inviteEvent =>
          if inviteEvent.sender ≠ o.event.sender then pure false
          else do
            let stateKey ← stateKeyOf o.event
            if isStr mxid stateKey = false then pure false
            else do
              let publicKeyObjects ← getPublicKeys inviteEvent
              verifyByKeys out signed publicKeyObjects
    | _, _, _ => .ok false
  | _ => .ok false

/-! ## §2 What the rules look up -/

/-- The creator of the room, by its version. -/
def creatorNamed (roomVersion : RoomVersion) (create : EventBase) : Except Error Json :=
  if roomVersion.implicitRoomCreator then .ok (.str create.sender)
  else item (.obj create.content) "creator"

/-- Whether the event is the first join of the room's creator. -/
def isCreatorsJoin (roomVersion : RoomVersion) (event : EventBase) (membership : Json)
    (authEvents : StateMap EventBase) : Except Error Bool :=
  match event.prevEventIds with
  | [prevEventId] =>
    if isStr membership "join" = false then .ok false
    else
      match authEvents.get? createKey with
      | none => .ok false
      | some create =>
        if prevEventId ≠ create.eventId then .ok false
        else do
          let creator ← creatorNamed roomVersion create
          let stateKey ← stateKeyOf event
          pure (isStr creator stateKey)
  | _ => .ok false

/-- The membership of a user, where there is an event for it. -/
def memberOf (authEvents : StateMap EventBase) (userId : String) : Except Error (Option Json) :=
  match authEvents.get? ("m.room.member", userId) with
  | none => .ok none
  | some member => do
      let membership ← membershipOf member
      pure (some membership)

/-- A membership that was looked up is this one. -/
def memberIs (member : Option Json) (membership : String) : Bool :=
  member.any fun v => isStr v membership

/-- What `_is_membership_change_allowed` looks up before it decides. -/
structure MembershipFacts where
  callerInRoom : Bool
  callerInvited : Bool
  callerKnocked : Bool
  targetInRoom : Bool
  targetBanned : Bool
  joinRule : Json
  userLevel : ℤ
  targetLevel : ℤ
  inviteLevel : ℤ
  banLevel : ℤ

/-- The `join_rule` of the room. -/
def joinRuleOf (authEvents : StateMap EventBase) : Json :=
  match authEvents.get? ("m.room.join_rules", "") with
  | some joinRules => (Json.member? joinRules.content "join_rule").getD (.str "invite")
  | none => .str "invite"

def membershipFacts (roomVersion : RoomVersion) (userId targetUserId : String)
    (authEvents : StateMap EventBase) : Except Error MembershipFacts := do
  let caller ← memberOf authEvents userId
  let target ← memberOf authEvents targetUserId
  let userLevel ← getUserPowerLevel userId authEvents
  let targetLevel ← getUserPowerLevel targetUserId authEvents
  let inviteLevel ← getNamedLevel authEvents "invite" 0
  let banLevel ← getNamedLevel authEvents "ban" 50
  pure
    { callerInRoom := memberIs caller "join"
      callerInvited := memberIs caller "invite"
      callerKnocked := roomVersion.knockJoinRule && memberIs caller "knock"
      targetInRoom := memberIs target "join"
      targetBanned := memberIs target "ban"
      joinRule := joinRuleOf authEvents
      userLevel, targetLevel, inviteLevel, banLevel }

/-! ## §3 The rules -/

/-- An invite by a member of the room. -/
def inviteAllowed (targetUserId : String) (facts : MembershipFacts) : Except Error Unit :=
  if facts.targetBanned then .error (authError (targetUserId ++ " is banned from the room"))
  else if facts.targetInRoom then
    .error (unstableSpecAuthError (targetUserId ++ " is already in the room.") "ALREADY_JOINED")
  else if facts.userLevel < facts.inviteLevel then
    .error (unstableSpecAuthError "You don't have permission to invite users" "INSUFFICIENT_POWER")
  else .ok ()

/-- A join that another user authorised. -/
def authorisedJoin (out : Outside) (o : EventObject) (facts : MembershipFacts)
    (authEvents : StateMap EventBase) : Except Error Unit :=
  match Json.member? o.event.content "join_authorised_via_users_server" with
  | none | some .null => .error (authError "Join event is missing authorising user.")
  | some authorisingUser => do
      let member ← lookupKey o.frozen authEvents "m.room.member" authorisingUser
      checkJoinedRoom out member (out.shown authorisingUser) o.event.roomId
      -- a member event was found: its key is a string
      match authorisingUser with
      | .str authorisingUser => do
          let authorisingUserLevel ← getUserPowerLevel authorisingUser authEvents
          if authorisingUserLevel < facts.inviteLevel then
            .error (authError "Join event authorised by invalid server.")
          else pure ()
      | _ => .error .typeError

/-- A join. -/
def joinAllowed (out : Outside) (roomVersion : RoomVersion) (o : EventObject) (targetUserId : String)
    (facts : MembershipFacts) (authEvents : StateMap EventBase) : Except Error Unit :=
  let restricted :=
    (roomVersion.restrictedJoinRule && isStr facts.joinRule "restricted") ||
      (roomVersion.knockRestrictedJoinRule && isStr facts.joinRule "knock_restricted")
  let invited :=
    isStr facts.joinRule "invite" ||
      (roomVersion.knockJoinRule && isStr facts.joinRule "knock") ||
      (roomVersion.knockRestrictedJoinRule && isStr facts.joinRule "knock_restricted")
  if o.event.sender ≠ targetUserId then .error (authError "Cannot force another user to join.")
  else if facts.targetBanned then .error (authError "You are banned from this room")
  else if isStr facts.joinRule "public" then .ok ()
  else if restricted then
    if facts.callerInRoom || facts.callerInvited then .ok ()
    else authorisedJoin out o facts authEvents
  else if invited then
    if facts.callerInRoom || facts.callerInvited then .ok ()
    else .error (authError "You are not invited to this room.")
  else .error (authError "You are not allowed to join this room")

/-- A leave, or a kick. -/
def leaveAllowed (event : EventBase) (targetUserId : String) (facts : MembershipFacts)
    (authEvents : StateMap EventBase) : Except Error Unit :=
  if facts.targetBanned && facts.userLevel < facts.banLevel then
    .error (unstableSpecAuthError ("You cannot unban user " ++ targetUserId ++ ".") "INSUFFICIENT_POWER")
  else if targetUserId ≠ event.sender then do
    let kickLevel ← getNamedLevel authEvents "kick" 50
    if facts.userLevel < kickLevel ∨ facts.userLevel ≤ facts.targetLevel then
      .error (unstableSpecAuthError ("You cannot kick user " ++ targetUserId ++ ".") "INSUFFICIENT_POWER")
    else pure ()
  else .ok ()

/-- A ban. -/
def banAllowed (facts : MembershipFacts) : Except Error Unit :=
  if facts.userLevel < facts.banLevel then
    .error (unstableSpecAuthError "You don't have permission to ban" "INSUFFICIENT_POWER")
  else if facts.userLevel ≤ facts.targetLevel then
    .error (unstableSpecAuthError "You don't have permission to ban this user" "INSUFFICIENT_POWER")
  else .ok ()

/-- A knock, in a room version that has them. -/
def knockAllowed (roomVersion : RoomVersion) (event : EventBase) (targetUserId : String)
    (facts : MembershipFacts) : Except Error Unit :=
  if isStr facts.joinRule "knock" = false ∧ (roomVersion.knockRestrictedJoinRule = false ∨
      isStr facts.joinRule "knock_restricted" = false) then
    .error (authError "You don't have permission to knock")
  else if targetUserId ≠ event.sender then .error (authError "You cannot knock for other users")
  else if facts.targetInRoom then
    .error (unstableSpecAuthError "You cannot knock on a room you are already in" "ALREADY_JOINED")
  else if facts.callerInvited then .error (authError "You are already invited to this room")
  else if facts.targetBanned then .error (authError "You are banned from this room")
  else .ok ()

/-- The rule for each membership. -/
def changeAllowed (out : Outside) (roomVersion : RoomVersion) (o : EventObject) (membership : Json)
    (targetUserId : String) (facts : MembershipFacts) (authEvents : StateMap EventBase) :
    Except Error Unit :=
  if isStr membership "invite" then inviteAllowed targetUserId facts
  else if isStr membership "join" then
    joinAllowed out roomVersion o targetUserId facts authEvents
  else if isStr membership "leave" then leaveAllowed o.event targetUserId facts authEvents
  else if isStr membership "ban" then banAllowed facts
  else if roomVersion.knockJoinRule && isStr membership "knock" then
    knockAllowed roomVersion o.event targetUserId facts
  else .error (.synapseError 500 ("Unknown membership " ++ out.shown membership) "M_FORBIDDEN")

/-- What `_is_membership_change_allowed` decides, once it has looked up what it needs. -/
def decideChange (out : Outside) (roomVersion : RoomVersion) (o : EventObject) (membership : Json)
    (targetUserId : String) (facts : MembershipFacts) (authEvents : StateMap EventBase) :
    Except Error Unit :=
  if isStr membership "invite" ∧ (Json.member? o.event.content "third_party_invite").isSome then do
    let verified ← verifyThirdPartyInvite out o authEvents
    if verified = false then .error (authError "You are not invited to this room.")
    else if facts.targetBanned then
      .error (authError (targetUserId ++ " is banned from the room"))
    else pure ()
  else if isStr membership "join" ∨ isStr membership "knock" then
    changeAllowed out roomVersion o membership targetUserId facts authEvents
  else if (facts.callerInvited ∨ facts.callerKnocked) ∧ isStr membership "leave" ∧
      targetUserId = o.event.sender then .ok ()
  else if facts.callerInRoom = false then
    .error (unstableSpecAuthError (o.event.sender ++ " not in room " ++ o.event.roomId ++ ".") "NOT_JOINED")
  else changeAllowed out roomVersion o membership targetUserId facts authEvents

/-- `_is_membership_change_allowed`. -/
def isMembershipChangeAllowed (out : Outside) (roomVersion : RoomVersion) (o : EventObject)
    (authEvents : StateMap EventBase) : Except Error Unit := do
  let membership ← membershipOf o.event
  let creators ← isCreatorsJoin roomVersion o.event membership authEvents
  if creators then pure ()
  else do
    let targetUserId ← stateKeyOf o.event
    match authEvents.get? createKey with
    | none => .error (authError "Create event missing from auth_events")
    | some create => do
        let creatingDomain ← getDomainFromId (out.repr (.str create.sender)) create.sender
        let targetDomain ← getDomainFromId (out.repr (.str targetUserId)) targetUserId
        if creatingDomain ≠ targetDomain ∧ canFederate authEvents = false then
          .error (authError "This room has been marked as unfederatable.")
        else do
          let facts ← membershipFacts roomVersion o.event.sender targetUserId authEvents
          decideChange out roomVersion o membership targetUserId facts authEvents

/-! ## §4 What an accepted change has passed -/

/-- The user has this membership in the auth events. -/
def HasMembership (authEvents : StateMap EventBase) (userId membership : String) : Prop :=
  ∃ member, authEvents.get? ("m.room.member", userId) = some member ∧
    Json.member? member.content "membership" = some (.str membership)

/-- **A first join.** Only the create event comes before the event, and its target is the creator. -/
def FirstJoin (roomVersion : RoomVersion) (event : EventBase) (authEvents : StateMap EventBase) : Prop :=
  Json.member? event.content "membership" = some (.str "join") ∧
  ∃ create, authEvents.get? createKey = some create ∧ event.prevEventIds = [create.eventId] ∧
    ∃ creator, event.stateKey = some creator ∧ creatorNamed roomVersion create = .ok (.str creator)

theorem isStr_iff {v : Json} {s : String} : isStr v s = true ↔ v = .str s := by
  cases v with
  | str t => simp [isStr]
  | _ => simp [isStr]

variable {event : EventBase} {membership : Json}

theorem membershipOf_eq_ok : membershipOf event = .ok membership ↔
      Json.member? event.content "membership" = some membership := by
  unfold membershipOf
  cases Json.member? event.content "membership" with
  | none => simp
  | some v => simp

theorem stateKeyOf_eq_ok {stateKey : String} :
    stateKeyOf event = .ok stateKey ↔ event.stateKey = some stateKey := by
  unfold stateKeyOf
  cases event.stateKey with
  | none => simp
  | some k => simp

variable {authEvents : StateMap EventBase} {userId : String}

theorem memberIs_iff {member : Option Json} (h : memberOf authEvents userId = .ok member)
    (membership : String) : memberIs member membership = true ↔ HasMembership authEvents userId membership := by
  unfold memberOf at h
  unfold HasMembership
  cases hmember : authEvents.get? ("m.room.member", userId) with
  | none =>
    rw [hmember] at h
    cases h
    simp [memberIs]
  | some event =>
    rw [hmember] at h
    obtain ⟨v, hv, h⟩ := except_bind_eq_ok.mp h
    cases h
    rw [membershipOf_eq_ok] at hv
    simp [memberIs, isStr_iff, hv]

theorem item_eq_ok {v w : Json} {k : String} : item v k = .ok w ↔ v.get? k = some w := by
  cases v with
  | obj members =>
    rw [item, Json.get?]
    cases Json.member? members k with
    | none => simp
    | some u => simp
  | _ => simp [item, Json.get?]

variable {roomVersion : RoomVersion}

/-- The first test of the rules finds the first joins. -/
theorem isCreatorsJoin_iff (hmembership : membershipOf event = .ok membership) :
    isCreatorsJoin roomVersion event membership authEvents = .ok true ↔
      FirstJoin roomVersion event authEvents := by
  rw [membershipOf_eq_ok] at hmembership
  unfold FirstJoin
  rw [hmembership, Option.some.injEq, ← isStr_iff]
  constructor
  · intro h
    unfold isCreatorsJoin at h
    split at h
    · rename_i prevEventId hprev
      split at h
      · cases h
      rename_i hjoin
      split at h
      · cases h
      rename_i create hcreate
      split at h
      · cases h
      rename_i heq
      obtain rfl := not_not.mp heq
      obtain ⟨creator, hc, h⟩ := except_bind_eq_ok.mp h
      obtain ⟨stateKey, hstateKey, h⟩ := except_bind_eq_ok.mp h
      obtain rfl := isStr_iff.mp (Except.ok.inj h)
      exact ⟨by simpa using hjoin, create, hcreate, hprev, stateKey, stateKeyOf_eq_ok.mp hstateKey, hc⟩
    · cases h
  · rintro ⟨hjoin, create, hcreate, hprev, creator, hstateKey, hc⟩
    rw [isCreatorsJoin, hprev]
    dsimp only
    rw [hjoin, if_neg Bool.noConfusion, hcreate]
    dsimp only
    rw [if_neg (not_not.mpr rfl)]
    refine except_bind_eq_ok.mpr ⟨_, hc, ?_⟩
    refine except_bind_eq_ok.mpr ⟨_, stateKeyOf_eq_ok.mpr hstateKey, ?_⟩
    rw [isStr_iff.mpr rfl]
    rfl

/-- What the lookups of the rules stand for. -/
structure Looked (roomVersion : RoomVersion) (userId targetUserId : String)
    (authEvents : StateMap EventBase) (facts : MembershipFacts) : Prop where
  callerInRoom : facts.callerInRoom = true ↔ HasMembership authEvents userId "join"
  targetInRoom : facts.targetInRoom = true ↔ HasMembership authEvents targetUserId "join"
  targetBanned : facts.targetBanned = true ↔ HasMembership authEvents targetUserId "ban"
  userLevel : getUserPowerLevel userId authEvents = .ok facts.userLevel
  targetLevel : getUserPowerLevel targetUserId authEvents = .ok facts.targetLevel
  inviteLevel : getNamedLevel authEvents "invite" 0 = .ok facts.inviteLevel

variable {targetUserId : String} {facts : MembershipFacts}

theorem looked_of_membershipFacts (h : membershipFacts roomVersion userId targetUserId authEvents = .ok facts) :
    Looked roomVersion userId targetUserId authEvents facts := by
  obtain ⟨caller, hcaller, h⟩ := except_bind_eq_ok.mp h
  obtain ⟨target, htarget, h⟩ := except_bind_eq_ok.mp h
  obtain ⟨userLevel, huser, h⟩ := except_bind_eq_ok.mp h
  obtain ⟨targetLevel, htargetLevel, h⟩ := except_bind_eq_ok.mp h
  obtain ⟨inviteLevel, hinvite, h⟩ := except_bind_eq_ok.mp h
  obtain ⟨banLevel, -, h⟩ := except_bind_eq_ok.mp h
  cases h
  exact ⟨memberIs_iff hcaller "join", memberIs_iff htarget "join", memberIs_iff htarget "ban",
    huser, htargetLevel, hinvite⟩

theorem joinRule_of_membershipFacts (h : membershipFacts roomVersion userId targetUserId authEvents = .ok facts) :
    facts.joinRule = joinRuleOf authEvents := by
  obtain ⟨_, -, h⟩ := except_bind_eq_ok.mp h
  obtain ⟨_, -, h⟩ := except_bind_eq_ok.mp h
  obtain ⟨_, -, h⟩ := except_bind_eq_ok.mp h
  obtain ⟨_, -, h⟩ := except_bind_eq_ok.mp h
  obtain ⟨_, -, h⟩ := except_bind_eq_ok.mp h
  obtain ⟨_, -, h⟩ := except_bind_eq_ok.mp h
  rw [← Except.ok.inj h]

variable {out : Outside} {o : EventObject}

/-- **How a change is accepted.** By the first join of the creator; by the invite of a third party; as
the user's own leave; or by the rule for its membership, which only joins and knocks reach from outside
the room. -/
theorem accepted_cases (h : isMembershipChangeAllowed out roomVersion o authEvents = .ok ()) :
    FirstJoin roomVersion o.event authEvents ∨
    ∃ membership targetUserId facts, Json.member? o.event.content "membership" = some membership ∧
      o.event.stateKey = some targetUserId ∧
      Looked roomVersion o.event.sender targetUserId authEvents facts ∧
      (isStr membership "invite" = true ∧
          (Json.member? o.event.content "third_party_invite").isSome = true ∨
        isStr membership "leave" = true ∧ targetUserId = o.event.sender ∨
        (isStr membership "join" = true ∨ isStr membership "knock" = true ∨
            facts.callerInRoom = true) ∧
          changeAllowed out roomVersion o membership targetUserId facts authEvents = .ok ()) := by
  obtain ⟨membership, hmembership, h⟩ := except_bind_eq_ok.mp h
  obtain ⟨creators, hcreators, h⟩ := except_bind_eq_ok.mp h
  cases creators with
  | true => exact Or.inl ((isCreatorsJoin_iff hmembership).mp hcreators)
  | false =>
    refine Or.inr ?_
    obtain ⟨targetUserId, htarget, h⟩ := except_bind_eq_ok.mp h
    split at h
    · cases h
    obtain ⟨creatingDomain, -, h⟩ := except_bind_eq_ok.mp h
    obtain ⟨targetDomain, -, h⟩ := except_bind_eq_ok.mp h
    split at h
    · cases h
    obtain ⟨facts, hfacts, h⟩ := except_bind_eq_ok.mp h
    refine ⟨membership, targetUserId, facts, membershipOf_eq_ok.mp hmembership,
      stateKeyOf_eq_ok.mp htarget, looked_of_membershipFacts hfacts, ?_⟩
    unfold decideChange at h
    split at h
    · rename_i hthird
      exact Or.inl hthird
    split at h
    · rename_i hjoin
      exact Or.inr (Or.inr ⟨by tauto, h⟩)
    split at h
    · rename_i hleave
      exact Or.inr (Or.inl hleave.2)
    · split at h
      · cases h
      · rename_i hroom
        exact Or.inr (Or.inr ⟨Or.inr (Or.inr (by simpa using hroom)), h⟩)

/-! ## §5 The guarantees -/

theorem joinAllowed_spec (h : joinAllowed out roomVersion o targetUserId facts authEvents = .ok ()) :
    o.event.sender = targetUserId ∧ facts.targetBanned = false := by
  unfold joinAllowed at h
  split at h
  · cases h
  rename_i hsender
  split at h
  · cases h
  · rename_i hbanned
    exact ⟨not_not.mp hsender, by simpa using hbanned⟩

theorem inviteAllowed_spec (h : inviteAllowed targetUserId facts = .ok ()) :
    facts.targetBanned = false ∧ facts.targetInRoom = false ∧
      facts.inviteLevel ≤ facts.userLevel := by
  unfold inviteAllowed at h
  split at h
  · cases h
  rename_i hbanned
  split at h
  · cases h
  rename_i hroom
  split at h
  · cases h
  · rename_i hlevel
    exact ⟨by simpa using hbanned, by simpa using hroom, by omega⟩

/-- Whoever is kicked has a lower level. -/
theorem leaveAllowed_spec (h : leaveAllowed event targetUserId facts authEvents = .ok ())
    (hother : targetUserId ≠ event.sender) : facts.targetLevel < facts.userLevel := by
  unfold leaveAllowed at h
  split at h
  · cases h
  obtain ⟨kickLevel, -, h⟩ := except_bind_eq_ok.mp h
  split at h
  · cases h
  · rename_i hlevel
    omega

theorem banAllowed_spec (h : banAllowed facts = .ok ()) : facts.targetLevel < facts.userLevel := by
  unfold banAllowed at h
  split at h
  · cases h
  split at h
  · cases h
  · rename_i hlevel
    omega

/-- The level of the one is above that of the other. -/
def Outranks (authEvents : StateMap EventBase) (userId otherUserId : String) : Prop :=
  ∃ level otherLevel, getUserPowerLevel userId authEvents = .ok level ∧
    getUserPowerLevel otherUserId authEvents = .ok otherLevel ∧ otherLevel < level

/-- **The membership rules**, as guarantees about an event and its target. -/
structure FollowsRules (event : EventBase) (targetUserId : String) (authEvents : StateMap EventBase) : Prop where
  join : Json.member? event.content "membership" = some (.str "join") →
    event.sender = targetUserId ∧ ¬ HasMembership authEvents targetUserId "ban"
  removal : Json.member? event.content "membership" = some (.str "leave") ∨
    Json.member? event.content "membership" = some (.str "ban") →
    event.sender ≠ targetUserId →
    HasMembership authEvents event.sender "join" ∧
      Outranks authEvents event.sender targetUserId
  invite : Json.member? event.content "membership" = some (.str "invite") →
    Json.member? event.content "third_party_invite" = none →
    HasMembership authEvents event.sender "join" ∧
      (∃ level inviteLevel, getUserPowerLevel event.sender authEvents = .ok level ∧
        getNamedLevel authEvents "invite" 0 = .ok inviteLevel ∧ inviteLevel ≤ level) ∧
      ¬ HasMembership authEvents targetUserId "join" ∧
      ¬ HasMembership authEvents targetUserId "ban"

/-- The rule for a membership gives its guarantee. -/
theorem followsRules_of_changeAllowed (hmembership : Json.member? o.event.content "membership" = some membership)
    (hlooked : Looked roomVersion o.event.sender targetUserId authEvents facts)
    (hroom : isStr membership "join" = true ∨ isStr membership "knock" = true ∨
      facts.callerInRoom = true)
    (h : changeAllowed out roomVersion o membership targetUserId facts authEvents = .ok ()) :
    FollowsRules o.event targetUserId authEvents := by
  have hjoined : membership ≠ .str "join" → membership ≠ .str "knock" →
      HasMembership authEvents o.event.sender "join" := by
    intro hjoin hknock
    rw [isStr_iff, isStr_iff] at hroom
    exact hlooked.callerInRoom.mp ((hroom.resolve_left hjoin).resolve_left hknock)
  have houtranks : facts.targetLevel < facts.userLevel → Outranks authEvents o.event.sender targetUserId :=
    fun hlevel => ⟨_, _, hlooked.userLevel, hlooked.targetLevel, hlevel⟩
  refine ⟨fun hjoin => ?_, fun hremoval hother => ?_, fun hinvite hthird => ?_⟩
  · obtain rfl := Option.some.inj (hmembership.symm.trans hjoin)
    obtain ⟨hsender, hbanned⟩ := joinAllowed_spec h
    refine ⟨hsender, fun hban => ?_⟩
    rw [hlooked.targetBanned.mpr hban] at hbanned
    cases hbanned
  · rw [hmembership, Option.some.injEq, Option.some.injEq] at hremoval
    rcases hremoval with rfl | rfl
    · exact ⟨hjoined (by simp) (by simp), houtranks (leaveAllowed_spec h (Ne.symm hother))⟩
    · exact ⟨hjoined (by simp) (by simp), houtranks (banAllowed_spec h)⟩
  · obtain rfl := Option.some.inj (hmembership.symm.trans hinvite)
    obtain ⟨hbanned, hin, hlevel⟩ := inviteAllowed_spec h
    refine ⟨hjoined (by simp) (by simp),
      ⟨_, _, hlooked.userLevel, hlooked.inviteLevel, hlevel⟩, fun hmember => ?_, fun hban => ?_⟩
    · rw [hlooked.targetInRoom.mpr hmember] at hin
      cases hin
    · rw [hlooked.targetBanned.mpr hban] at hbanned
      cases hbanned

/-- **An accepted change follows the rules**, unless it is a first join that someone else sent or that a
banned creator makes. -/
theorem followsRules_iff {out : Outside} {roomVersion : RoomVersion} {o : EventObject}
    {authEvents : StateMap EventBase}
    (h : isMembershipChangeAllowed out roomVersion o authEvents = .ok ()) :
    (∀ targetUserId, o.event.stateKey = some targetUserId → FollowsRules o.event targetUserId authEvents) ↔
    (FirstJoin roomVersion o.event authEvents → o.event.stateKey = some o.event.sender ∧
        ¬ HasMembership authEvents o.event.sender "ban") := by
  constructor
  · rintro hrules ⟨hjoin, create, -, -, creator, hstateKey, -⟩
    obtain ⟨rfl, hbanned⟩ := (hrules creator hstateKey).join hjoin
    exact ⟨hstateKey, hbanned⟩
  intro hfirst targetUserId htarget
  rcases accepted_cases h with hcreators | ⟨membership, target, facts, hmembership, hstateKey, hlooked, hcase⟩
  · obtain ⟨hsender, hbanned⟩ := hfirst hcreators
    obtain rfl := Option.some.inj (hsender.symm.trans htarget)
    have hjoin := hcreators.1
    refine ⟨fun _ => ⟨rfl, hbanned⟩, fun hremoval => ?_, fun hinvite => ?_⟩
    · rw [hjoin] at hremoval
      simp at hremoval
    · rw [hjoin] at hinvite
      simp at hinvite
  obtain rfl := Option.some.inj (hstateKey.symm.trans htarget)
  rcases hcase with ⟨hinvite, hthird⟩ | ⟨hleave, hself⟩ | ⟨hroom, hallowed⟩
  · -- the invite of a third party promises nothing about its sender
    obtain rfl := isStr_iff.mp hinvite
    refine ⟨fun hjoin => ?_, fun hremoval => ?_, fun _ hnone => ?_⟩
    · rw [hmembership] at hjoin
      simp at hjoin
    · rw [hmembership] at hremoval
      simp at hremoval
    · rw [hnone] at hthird
      cases hthird
  · obtain rfl := isStr_iff.mp hleave
    refine ⟨fun hjoin => ?_, fun _ hother => absurd hself.symm hother, fun hinvite => ?_⟩
    · rw [hmembership] at hjoin
      simp at hjoin
    · rw [hmembership] at hinvite
      simp at hinvite
  · exact followsRules_of_changeAllowed hmembership hlooked hroom hallowed

/-! ## §6 A room -/

/-- A membership event of a user. -/
def exampleMember (sender userId membership : String) (prevEventIds : List String) : EventBase :=
  exampleEvent "$member" "m.room.member" sender (some userId) [("membership", .str membership)] prevEventIds

/-- The room after its creator and another user have joined. -/
def exampleRoom : StateMap EventBase :=
  (exampleCreated.set ("m.room.member", "@owner:s") (exampleMember "@owner:s" "@owner:s" "join" ["$create"])).set
    ("m.room.member", "@guest:s") (exampleMember "@guest:s" "@guest:s" "join" ["$member"])

/-- The creator may kick the guest. -/
theorem followsRules_iff_example :
    FollowsRules (exampleMember "@owner:s" "@guest:s" "leave" ["$last"]) "@guest:s" exampleRoom := by
  have haccepted : isMembershipChangeAllowed exampleOutside RoomVersions.v11
      ⟨exampleMember "@owner:s" "@guest:s" "leave" ["$last"], false⟩ exampleRoom = .ok () := by
    decide +kernel
  refine (followsRules_iff haccepted).mpr ?_ "@guest:s" rfl
  rintro ⟨hjoin, -⟩
  simp [exampleMember, exampleEvent, Json.member?] at hjoin

/-- **A first join that someone else sends.** It is accepted right after the create event, though its
sender is not the creator who joins. -/
theorem creator_made_to_join : isMembershipChangeAllowed exampleOutside RoomVersions.v11
      ⟨exampleMember "@guest:s" "@owner:s" "join" ["$create"], false⟩ exampleCreated = .ok () ∧
    ¬ FollowsRules (exampleMember "@guest:s" "@owner:s" "join" ["$create"]) "@owner:s" exampleCreated := by
  constructor
  · decide +kernel
  · intro h
    exact absurd (h.join rfl).1 (by decide)

end Setka.EventAuth
