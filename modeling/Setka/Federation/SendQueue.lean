/-
# Setka.Federation.SendQueue — the queue between the main process and the federation senders.

Outgoing EDUs and presence updates get consecutive positions. Sender processes fetch the rows between
two positions, acknowledge what they have sent, and the queue forgets rows that were acknowledged or
have grown old. A keyed EDU is stored once for its destination and key, and the row of every earlier
position shows the newest version.
-/
import Setka.Api.Errors
import Setka.Lib.Action
import Setka.Lib.Json
import Setka.Lib.SortedDict

namespace Setka.Federation

open Setka.Api Setka.Lib

/-! ## §1 The queue -/

/-- `Edu`. -/
structure Edu where
  eduType : String
  content : Json
  origin : String
  destination : String
  deriving Inhabited

/-- `UserPresenceState`. -/
structure UserPresenceState where
  userId : String
  state : String
  lastActiveTs : ℤ
  lastFederationUpdateTs : ℤ
  lastUserSyncTs : ℤ
  statusMsg : Option String
  currentlyActive : Bool
  deriving Inhabited

/-- Destination and key of a keyed EDU. -/
abbrev EduKey := String × List String

/-- What the queue is configured with: `hs.hostname` and the names of the sender processes. -/
structure SendQueueConfig where
  serverName : String
  senderInstances : List String

/-- `FederationRemoteSendQueue`. -/
structure FederationRemoteSendQueue where
  senderPositions : Dict String ℤ
  presenceMap : Dict String UserPresenceState
  presenceDestinations : Dict ℤ (String × List String)
  keyedEdu : Dict EduKey Edu
  keyedEduChanged : Dict ℤ EduKey
  edus : Dict ℤ Edu
  pos : ℤ
  posTime : Dict ℤ ℤ

namespace FederationRemoteSendQueue

/-- `__init__`. -/
def init : FederationRemoteSendQueue where
  senderPositions := Dict.empty
  presenceMap := Dict.empty
  presenceDestinations := Dict.empty
  keyedEdu := Dict.empty
  keyedEduChanged := Dict.empty
  edus := Dict.empty
  pos := 1
  posTime := Dict.empty

/-- The state after `_next_pos`, which returns the `pos` of the state before. -/
def nextPos (now : ℤ) (q : FederationRemoteSendQueue) : FederationRemoteSendQueue :=
  { q with pos := q.pos + 1, posTime := q.posTime.set now q.pos }

/-- `build_and_send_edu`. The empty tuple is no key. -/
def buildAndSendEdu (cfg : SendQueueConfig) (now : ℤ) (destination eduType : String) (content : Json)
    (key : Option (List String)) (q : FederationRemoteSendQueue) : FederationRemoteSendQueue :=
  if destination = cfg.serverName then q
  else
    let edu : Edu := ⟨eduType, content, cfg.serverName, destination⟩
    match key.filter fun k => k ≠ [] with
    | some key =>
      { q.nextPos now with
        keyedEdu := q.keyedEdu.set (destination, key) edu
        keyedEduChanged := q.keyedEduChanged.set q.pos (destination, key) }
    | none => { q.nextPos now with edus := q.edus.set q.pos edu }

/-- `{state.user_id: state for state in states}`, put into the presence map. -/
def updatePresence (states : List UserPresenceState) (presenceMap : Dict String UserPresenceState) :
    Dict String UserPresenceState :=
  states.foldl (fun d state => d.set state.userId state) presenceMap

/-- One turn of the loop in `send_presence_to_destinations`. -/
def sendPresence (states : List UserPresenceState) (destinations : List String)
    (q : FederationRemoteSendQueue) (turn : ℤ × UserPresenceState) : FederationRemoteSendQueue :=
  { q.nextPos turn.1 with
    presenceMap := updatePresence states q.presenceMap
    presenceDestinations := q.presenceDestinations.set q.pos (turn.2.userId, destinations) }

/-- `send_presence_to_destinations`. Each state comes with the time its turn of the loop reads. -/
def sendPresenceToDestinations (states : List (ℤ × UserPresenceState)) (destinations : List String)
    (q : FederationRemoteSendQueue) : FederationRemoteSendQueue :=
  states.foldl (sendPresence (states.map Prod.snd) destinations) q

/-- `get_current_token`. -/
def getCurrentToken (q : FederationRemoteSendQueue) : ℤ := q.pos - 1

/-- The entries `del d[key]` leaves: those from a position on. -/
def fromPos {ν : Type} (position : ℤ) (d : Dict ℤ ν) : Dict ℤ ν :=
  ((Dict.slice d.sortedItems 0 (d.bisectLeft position)).map Prod.fst).foldl Dict.erase d

/-- `_clear_queue_before_pos`. -/
def clearQueueBeforePos (positionToDelete : ℤ) (q : FederationRemoteSendQueue) : FederationRemoteSendQueue :=
  let presenceDestinations := fromPos positionToDelete q.presenceDestinations
  let userIds := presenceDestinations.values.map Prod.fst
  let keyedEduChanged := fromPos positionToDelete q.keyedEduChanged
  let liveKeys := keyedEduChanged.values
  { q with
    presenceDestinations
    presenceMap := q.presenceMap.filter fun userId _ => userId ∈ userIds
    keyedEduChanged
    keyedEdu := q.keyedEdu.filter fun eduKey _ => eduKey ∈ liveKeys
    edus := fromPos positionToDelete q.edus }

/-- `5 * 60 * 1000`. -/
def fiveMinutes : ℤ := 5 * 60 * 1000

/-- The keys of `pos_time` that `_clear_queue` finds: the times more than five minutes ago. -/
def overdueTimes (now : ℤ) (q : FederationRemoteSendQueue) : List ℤ :=
  (Dict.slice q.posTime.sortedItems 0 (q.posTime.bisectLeft (now - fiveMinutes))).map Prod.fst

/-- `_clear_queue`. `position_to_delete` is the largest of the *keys*, which are times. -/
def clearQueue (now : ℤ) (q : FederationRemoteSendQueue) : FederationRemoteSendQueue :=
  match (q.overdueTimes now).max? with
  | none => q
  | some positionToDelete =>
    clearQueueBeforePos positionToDelete { q with posTime := (q.overdueTimes now).foldl Dict.erase q.posTime }

/-- `federation_ack`. -/
def federationAck (cfg : SendQueueConfig) (instanceName : String) (token : ℤ)
    (q : FederationRemoteSendQueue) : FederationRemoteSendQueue :=
  if cfg.senderInstances ≠ [] then
    let senderPositions := q.senderPositions.set instanceName token
    -- the map has just got an entry, so `min` finds one
    clearQueueBeforePos (senderPositions.values.min?.getD token) { q with senderPositions }
  else clearQueueBeforePos token q

/-! ## §2 Replication -/

/-- The rows of the federation stream. -/
inductive BaseFederationRow
  | presenceDestinations (state : UserPresenceState) (destinations : List String)
  | keyedEdu (key : List String) (edu : Edu)
  | edu (edu : Edu)

/-- `TypeId` of a row's class. -/
def BaseFederationRow.typeId : BaseFederationRow → String
  | presenceDestinations .. => "pd"
  | keyedEdu .. => "k"
  | edu .. => "e"

/-- `d[k]`. -/
def item {κ ν : Type} [DecidableEq κ] (d : Dict κ ν) (k : κ) : Except Error ν :=
  match d.get? k with
  | some v => .ok v
  | none => .error .keyError

/-- The entries of a sorted map that a poll for `(fromToken, toToken]` looks at. -/
def polled {ν : Type} (d : Dict ℤ ν) (fromToken toToken : ℤ) : List (ℤ × ν) :=
  Dict.slice d.sortedItems (d.bisectRight fromToken) (d.bisectRight toToken + 1)

/-- `{v: k for k, v in …}`: of the positions of a key the last one stays. -/
def lastPositions (entries : List (ℤ × EduKey)) : Dict EduKey ℤ :=
  entries.foldl (fun d e => d.set e.2 e.1) Dict.empty

/-- The rows of a poll, in the order of the three maps. -/
def collectRows (fromToken toToken : ℤ) (q : FederationRemoteSendQueue) :
    Except Error (List (ℤ × BaseFederationRow)) := do
  let presence ← (polled q.presenceDestinations fromToken toToken).mapM fun e => do
    let state ← item q.presenceMap e.2.1
    return (e.1, BaseFederationRow.presenceDestinations state e.2.2)
  let keyed ← (lastPositions (polled q.keyedEduChanged fromToken toToken)).items.mapM fun e => do
    let edu ← item q.keyedEdu e.1
    return (e.2, BaseFederationRow.keyedEdu e.1.2 edu)
  let edus := (polled q.edus fromToken toToken).map fun e => (e.1, BaseFederationRow.edu e.2)
  return presence ++ keyed ++ edus

/-- `get_replication_rows`: the rows by position, the new last token and whether there are more. -/
def getReplicationRows (fromToken toToken : ℤ) (q : FederationRemoteSendQueue) :
    Except Error (List (ℤ × String × BaseFederationRow) × ℤ × Bool) := do
  let fromToken := if fromToken > q.pos then -1 else fromToken
  let rows ← collectRows fromToken toToken q
  let rows := rows.insertionSort fun a b => a.1 ≤ b.1
  return (rows.map fun r => (r.1, r.2.typeId, r.2), toToken, false)

end FederationRemoteSendQueue

end Setka.Federation
