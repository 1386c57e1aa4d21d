/-
# Setka.EventAuth — the authorisation rules that read power levels.
-/
import Setka.Api.Errors
import Setka.Events.EventBase
import Setka.Lib.PyInt

namespace Setka.EventAuth

open Setka.Api Setka.Events Setka.Lib

/-- `CREATE_KEY`, and the key of the power levels. -/
def createKey : String × String := ("m.room.create", "")

def powerLevelsKey : String × String := ("m.room.power_levels", "")

/-- `CREATOR_POWER_LEVEL`. -/
def creatorPowerLevel : ℤ := 2 ^ 53

/-- `int(v)` of a decoded value. -/
def toInt : Json → Except Error ℤ
  | .int n => .ok n
  | .bool b => .ok (if b then 1 else 0)
  | .float (.finite q) => .ok (if 0 ≤ q then ⌊q⌋ else ⌈q⌉)
  | .float .nan => .error .valueError
  | .float _ => .error .overflowError
  | .str s =>
    match PyInt.parse s with
    | some n => .ok n
    | none => .error .valueError
  | _ => .error .typeError

/-- `set(v)` of a decoded value, as a test for a string in it: of a string it has the characters, of an
object the keys. What has no hash cannot be put into it. -/
def memSet (x : String) : Json → Except Error Bool
  | .arr xs =>
    if xs.any fun y => y matches .arr _ | .obj _ then .error .typeError
    else .ok (xs.any fun y => match y with | .str s => s = x | _ => false)
  | .str s => .ok (s.toList.any fun c => String.singleton c = x)
  | .obj members => .ok (members.any fun member => member.1 = x)
  | _ => .error .typeError

/-- `is_creator`. -/
def isCreator (create : EventBase) (userId : String) : Except Error Bool :=
  if create.type ≠ "m.room.create" then .error .assertionError
  else if create.sender = userId then .ok true
  else if create.roomVersion.msc4289CreatorPowerEnabled then
    memSet userId ((Json.member? create.content "additional_creators").getD (.arr []))
  else .ok false

/-- `get_user_power_level` where it reads the power levels event. -/
def namedPowerLevel (userId : String) (powerLevels : EventBase) : Except Error ℤ :=
  match (Json.member? powerLevels.content "users").getD (.obj []) with
  | .obj users =>
    let level :=
      match Json.member? users userId with
      | none | some .null => (Json.member? powerLevels.content "users_default").getD (.int 0)
      | some level => level
    match level with
    | .null => .ok 0
    | level => toInt level
  | _ => .error .attributeError

/-- `get_user_power_level`. -/
def getUserPowerLevel (userId : String) (authEvents : StateMap EventBase) : Except Error ℤ :=
  match authEvents.get? createKey with
  | none => .error .assertionError
  | some create => do
      let creator ← if create.roomVersion.msc4289CreatorPowerEnabled then isCreator create userId else pure false
      if creator then pure creatorPowerLevel
      else
        match authEvents.get? powerLevelsKey with
        | some powerLevels => namedPowerLevel userId powerLevels
        | none =>
          if create.roomVersion.implicitRoomCreator then
            pure (if create.sender = userId then 100 else 0)
          else
            match Json.member? create.content "creator" with
            | none => .error .keyError
            | some (.str creator) => pure (if creator = userId then 100 else 0)
            | some _ => pure 0

/-! ## What the rules share -/

/-- What the rules take from elsewhere: how values and events are printed, the tables of the strings, the
address parser, and the check of a signature by a public key for a server and a key name. `.ok false`
stands for a `KeyError` or a `SignatureVerifyException`. -/
structure Outside where
  str : Json → String
  repr : Json → String
  reprEvent : EventBase → String
  uni : PyStr.Unicode
  validIpv6 : String → Bool
  verifySignedJson : Json → List (String × Json) → String → String → Except Error Bool

/-- `AuthError` and `UnstableSpecAuthError`, with the status 403. -/
def authError (msg : String) : Error := .synapseError 403 msg "M_FORBIDDEN"

def unstableSpecAuthError (msg errcode : String) : Error :=
  .synapseError 403 msg ("ORG.MATRIX.MSC3848." ++ errcode)

/-- `event.state_key`, for an event that should have one. -/
def stateKeyOf (event : EventBase) : Except Error String :=
  match event.stateKey with
  | some stateKey => .ok stateKey
  | none => .error .attributeError

/-- `event.membership`. -/
def membershipOf (event : EventBase) : Except Error Json :=
  match Json.member? event.content "membership" with
  | some membership => .ok membership
  | none => .error .keyError

/-- `"%s" % v`. -/
def Outside.shown (out : Outside) : Json → String
  | .str s => s
  | v => out.str v

/-- A decoded value that is this string. -/
def isStr (v : Json) (s : String) : Bool :=
  match v with
  | .str t => t = s
  | _ => false

/-- The event with this type and state key. A list and a dictionary have no hash, unless the event that
they come from is frozen. -/
def lookupKey (frozen : Bool) (authEvents : StateMap EventBase) (type : String) :
    Json → Except Error (Option EventBase)
  | .str stateKey => .ok (authEvents.get? (type, stateKey))
  | .arr _ | .obj _ => if frozen then .ok none else .error .typeError
  | _ => .ok none

/-- `get_named_level`. -/
def getNamedLevel (authEvents : StateMap EventBase) (name : String) (default : ℤ) : Except Error ℤ :=
  match authEvents.get? powerLevelsKey with
  | none => .ok default
  | some powerLevels =>
    match Json.member? powerLevels.content name with
    | none | some .null => .ok default
    | some level => toInt level

/-- `_can_federate`. -/
def canFederate (authEvents : StateMap EventBase) : Bool :=
  match authEvents.get? createKey with
  | none => false
  | some create =>
    match Json.member? create.content "m.federate" with
    | none => true
    | some (.bool federate) => federate
    | some _ => false

/-- `_check_joined_room`. -/
def checkJoinedRoom (out : Outside) (member : Option EventBase) (userId roomId : String) : Except Error Unit :=
  match member with
  | none => .error (authError ("User " ++ userId ++ " not in room " ++ roomId ++ " (None)"))
  | some member => do
      let membership ← membershipOf member
      if isStr membership "join" then pure ()
      else
        .error (authError ("User " ++ userId ++ " not in room " ++ roomId ++ " (" ++ out.reprEvent member ++ ")"))

/-! ## A room -/

/-- What is printed does not matter here, and no signature verifies. -/
def exampleOutside : Outside where
  str _ := ""
  repr _ := ""
  reprEvent _ := ""
  uni := .ascii
  validIpv6 _ := false
  verifySignedJson _ _ _ _ := .ok false

def exampleEvent (eventId type sender : String) (stateKey : Option String)
    (content : List (String × Json)) (prevEventIds : List String) : EventBase where
  eventId
  roomId := "!room:s"
  roomVersion := RoomVersions.v11
  type
  stateKey
  sender
  originServerTs := 0
  content
  authEventIds := []
  rejected := false
  prevEventIds

/-- A room that has just been created. -/
def exampleCreated : StateMap EventBase :=
  Dict.empty.set createKey (exampleEvent "$create" "m.room.create" "@owner:s" (some "") [] [])

end Setka.EventAuth
