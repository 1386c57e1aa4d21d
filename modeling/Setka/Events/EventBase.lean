/-
# Setka.Events.EventBase — events.

An event as state resolution and the authorisation rules see it.
-/
import Setka.Api.RoomVersions
import Setka.Lib.Dict
import Setka.Lib.Json

namespace Setka.Events

open Setka.Api Setka.Lib

/-- `EventBase`. `stateKey` is `none` for an event that is not a state event, `rejected` says that
`rejected_reason` is set, `redacts` is the key of that name beside the content. -/
structure EventBase where
  eventId : String
  roomId : String
  roomVersion : RoomVersion
  type : String
  stateKey : Option String
  sender : String
  originServerTs : Int
  content : List (String × Json)
  authEventIds : List String
  rejected : Bool
  prevEventIds : List String := []
  redacts : Option Json := none

/-- `StateMap`: a map from event type and state key. -/
abbrev StateMap (ν : Type) := Dict (String × String) ν

/-- An event object in memory. Once it is frozen, its content is an `immutabledict`: a mapping, but not
a `dict`. -/
structure EventObject where
  event : EventBase
  frozen : Bool

/-- `event.freeze()`. -/
def EventObject.freeze (o : EventObject) : EventObject := { o with frozen := true }

end Setka.Events
