/-
# Setka.Api.RoomVersions — room versions and the rules they switch on.

The attributes that state resolution and the event authorisation rules read, with the values the
room versions give them.
-/

namespace Setka.Api

/-- `StateResolutionVersions`. -/
inductive StateResolutionVersions
  | v1
  | v2
  | v2_1
  deriving DecidableEq

/-- `EventFormatVersions`. -/
inductive EventFormatVersions
  | roomV1V2
  | roomV3
  | roomV4Plus
  | roomV11HydraPlus
  deriving DecidableEq

/-- `RoomVersion`, without the attributes that neither state resolution nor event authorisation
reads. -/
structure RoomVersion where
  identifier : String
  eventFormat : EventFormatVersions
  stateRes : StateResolutionVersions
  specialCaseAliasesAuth : Bool
  limitNotificationsPowerLevels : Bool
  implicitRoomCreator : Bool
  restrictedJoinRule : Bool
  knockJoinRule : Bool
  knockRestrictedJoinRule : Bool
  enforceIntPowerLevels : Bool
  msc3757Enabled : Bool
  msc4289CreatorPowerEnabled : Bool
  msc4291RoomIdsAsHashes : Bool
  deriving DecidableEq

namespace RoomVersions

def v1 : RoomVersion where
  identifier := "1"
  eventFormat := .roomV1V2
  stateRes := .v1
  specialCaseAliasesAuth := true
  limitNotificationsPowerLevels := false
  implicitRoomCreator := false
  restrictedJoinRule := false
  knockJoinRule := false
  knockRestrictedJoinRule := false
  enforceIntPowerLevels := false
  msc3757Enabled := false
  msc4289CreatorPowerEnabled := false
  msc4291RoomIdsAsHashes := false

def v2 : RoomVersion := { v1 with identifier := "2", stateRes := .v2 }

def v3 : RoomVersion := { v2 with identifier := "3", eventFormat := .roomV3 }

def v4 : RoomVersion := { v3 with identifier := "4", eventFormat := .roomV4Plus }

def v5 : RoomVersion := { v4 with identifier := "5" }

def v6 : RoomVersion :=
  { v5 with
    identifier := "6"
    specialCaseAliasesAuth := false
    limitNotificationsPowerLevels := true }

def v7 : RoomVersion := { v6 with identifier := "7", knockJoinRule := true }

def v8 : RoomVersion := { v7 with identifier := "8", restrictedJoinRule := true }

def v9 : RoomVersion := { v8 with identifier := "9" }

def v10 : RoomVersion :=
  { v9 with
    identifier := "10"
    knockRestrictedJoinRule := true
    enforceIntPowerLevels := true }

def msc3757v10 : RoomVersion :=
  { v10 with identifier := "org.matrix.msc3757.10", msc3757Enabled := true }

def v11 : RoomVersion := { v10 with identifier := "11", implicitRoomCreator := true }

def msc3757v11 : RoomVersion :=
  { v11 with identifier := "org.matrix.msc3757.11", msc3757Enabled := true }

def hydraV11 : RoomVersion :=
  { v11 with
    identifier := "org.matrix.hydra.11"
    eventFormat := .roomV11HydraPlus
    stateRes := .v2_1
    msc4289CreatorPowerEnabled := true
    msc4291RoomIdsAsHashes := true }

def v12 : RoomVersion := { hydraV11 with identifier := "12" }

end RoomVersions

/-- The values of `KNOWN_ROOM_VERSIONS`. -/
def knownRoomVersions : List RoomVersion :=
  [RoomVersions.v1, RoomVersions.v2, RoomVersions.v3, RoomVersions.v4, RoomVersions.v5,
    RoomVersions.v6, RoomVersions.v7, RoomVersions.v8, RoomVersions.v9, RoomVersions.v10,
    RoomVersions.v11, RoomVersions.v12, RoomVersions.msc3757v10, RoomVersions.msc3757v11,
    RoomVersions.hydraV11]

end Setka.Api
