/-
# Setka.Storage.SlidingSync — what a sliding sync connection was sent, by position.

Each response has a position, and the tables say what the client that received it has been sent. A new
position starts with the rows of the one it continues from. When a position is used, the server knows that the
client has it, and deletes all other positions of the connection. Members that were sent lazily are rows of the
connection: of one position at first, and of all that follow once that position is used.
-/
import Setka.Lib.Rows
import Setka.Types.StreamTokenCodec

namespace Setka.Storage.SlidingSync

open Setka.Api Setka.Lib Setka.Types

/-! ## §1 The state of a connection -/

inductive HaveSentRoomFlag
  | never
  | previously
  | live
deriving DecidableEq

/-- `status.value`. -/
def HaveSentRoomFlag.value : HaveSentRoomFlag → String
  | never => "never"
  | previously => "previously"
  | live => "live"

/-- `HaveSentRoomFlag(value)`. -/
def HaveSentRoomFlag.ofValue (value : String) : Except Error HaveSentRoomFlag :=
  if value = "never" then .ok never
  else if value = "previously" then .ok previously
  else if value = "live" then .ok live
  else .error .valueError

structure HaveSentRoom (τ : Type) where
  status : HaveSentRoomFlag
  lastToken : Option τ

/-- The status with its token printed or parsed. -/
def HaveSentRoom.mapToken {τ υ : Type} (f : τ → Except Error υ) (s : HaveSentRoom τ) :
    Except Error (HaveSentRoom υ) :=
  match s.lastToken with
  | none => .ok ⟨s.status, none⟩
  | some token => (f token).map fun token => ⟨s.status, some token⟩

abbrev RoomStatusMap (τ : Type) := Dict String (HaveSentRoom τ)

structure RoomSyncConfig where
  timelineLimit : ℤ
  requiredStateMap : Dict String (Finset String)

structure RoomLazyMembershipChanges where
  returnedUserIdToLastSeenTsMap : Dict String (Option ℤ)
  invalidatedUserIds : Finset String

/-- `LAZY_MEMBERS_UPDATE_INTERVAL.as_millis()`. -/
def lazyMembersUpdateInterval : ℤ := 60 * 60 * 1000

def RoomLazyMembershipChanges.getReturnedUserIdsToUpdate (c : RoomLazyMembershipChanges) (now : ℤ) : List String :=
  (c.returnedUserIdToLastSeenTsMap.items.filter fun item =>
    match item.2 with
    | none => true
    | some lastSeenTs => decide (lazyMembersUpdateInterval ≤ now - lastSeenTs)).map Prod.fst

/-- `PerConnectionState`. -/
structure PerConnectionState where
  lastUsedTs : Option ℤ
  rooms : RoomStatusMap RoomStreamToken
  receipts : RoomStatusMap MultiWriterStreamToken
  accountData : RoomStatusMap ℤ
  roomConfigs : Dict String RoomSyncConfig

/-- The updates in a `MutablePerConnectionState`. -/
structure Updates where
  rooms : RoomStatusMap RoomStreamToken
  receipts : RoomStatusMap MultiWriterStreamToken
  accountData : RoomStatusMap ℤ
  roomConfigs : Dict String RoomSyncConfig
  roomLazyMembership : Dict String RoomLazyMembershipChanges

/-- The streams that the rows of `sliding_sync_connection_streams` are about. -/
inductive Stream
  | rooms
  | receipts
  | accountData
deriving DecidableEq

def Stream.name : Stream → String
  | rooms => "rooms"
  | receipts => "receipts"
  | accountData => "account_data"

/-- `PerConnectionStateDB`: its `rooms`, `receipts` and `account_data` are `statuses`. -/
structure PerConnectionStateDB where
  lastUsedTs : Option ℤ
  statuses : Stream → RoomStatusMap String
  roomConfigs : Dict String RoomSyncConfig
  roomLazyMembership : Dict String RoomLazyMembershipChanges

/-- What the code takes from the language and the database: how tokens are printed and parsed, the order of
pairs, and JSON texts of lists of pairs. -/
structure SyncEnv where
  py : Python
  store : InstanceStore
  pairOrder : IterOrder (String × String)
  encode : List (String × String) → String
  decode : String → Except Error (List (String × String))
  decode_encode : ∀ l, decode (encode l) = .ok l

/-- `from_state`. -/
def fromState (env : SyncEnv) (u : Updates) : Except Error PerConnectionStateDB := do
  let rooms ← u.rooms.traverse fun _ s => s.mapToken (RoomStreamToken.toString env.store)
  let receipts ← u.receipts.traverse fun _ s => s.mapToken (MultiWriterStreamToken.toString env.store)
  let accountData ← u.accountData.traverse fun _ s => s.mapToken fmt
  pure
    { lastUsedTs := none
      statuses := fun
        | .rooms => rooms
        | .receipts => receipts
        | .accountData => accountData
      roomConfigs := u.roomConfigs
      roomLazyMembership := u.roomLazyMembership }

/-- `to_state`. -/
def toState (env : SyncEnv) (d : PerConnectionStateDB) : Except Error PerConnectionState := do
  let rooms ← (d.statuses .rooms).traverse fun _ s => s.mapToken (RoomStreamToken.parse env.py env.store)
  let receipts ← (d.statuses .receipts).traverse fun _ s => s.mapToken (MultiWriterStreamToken.parse env.py env.store)
  let accountData ← (d.statuses .accountData).traverse fun _ s => s.mapToken env.py.int
  pure { lastUsedTs := d.lastUsedTs, rooms, receipts, accountData, roomConfigs := d.roomConfigs }

/-! ## §2 The tables -/

/-- Whose connection it is. -/
structure Owner where
  userId : String
  effectiveDeviceId : String
  connId : String
deriving DecidableEq

structure Connection where
  owner : Owner
  lastUsedTs : Option ℤ

/-- The six tables, each by what makes its rows unique, and the sequences of their ids. -/
structure Tables where
  connections : Dict ℕ Connection
  positions : Dict ℕ ℕ
  requiredState : Dict ℕ (ℕ × String)
  roomConfigs : Dict (ℕ × String) (ℤ × ℕ)
  streams : Dict (ℕ × String × String) (String × Option String)
  lazyMembers : Dict (ℕ × String × String) (Option ℕ × ℤ)
  nextConnectionKey : ℕ
  nextPosition : ℕ
  nextRequiredStateId : ℕ

namespace Tables

def empty : Tables := ⟨∅, ∅, ∅, ∅, ∅, ∅, 1, 1, 1⟩

/-- Positions are deleted, and with them all rows that refer to them. -/
def deletePositions (gone : ℕ → ℕ → Bool) (t : Tables) : Tables :=
  let isGone := fun position => (t.positions.get? position).any (gone position)
  { t with
    positions := t.positions.filter fun position key => !gone position key
    roomConfigs := t.roomConfigs.filter fun row _ => !isGone row.1
    streams := t.streams.filter fun row _ => !isGone row.1
    lazyMembers := t.lazyMembers.filter fun _ row => !row.1.any isGone }

/-- Connections are deleted, and with them all rows that refer to them. -/
def deleteConnections (gone : Connection → Bool) (t : Tables) : Tables :=
  let isGone := fun key => (t.connections.get? key).any gone
  let t := t.deletePositions fun _ key => isGone key
  { t with
    connections := t.connections.filter fun _ c => !gone c
    requiredState := t.requiredState.filter fun _ row => !isGone row.1
    lazyMembers := t.lazyMembers.filter fun row _ => !isGone row.1 }

/-- The connection of a position, if it is the owner's. -/
def connectionOf (t : Tables) (owner : Owner) (position : ℕ) : Option (ℕ × Connection) :=
  (t.positions.get? position).bind fun key =>
    (t.connections.get? key).bind fun c => if c.owner = owner then some (key, c) else none

end Tables

/-- `SlidingSyncUnknownPosition()`. -/
def unknownPosition : Error := .synapseError 400 "Unknown position" "M_UNKNOWN_POS"

/-! ## §3 A position is persisted -/

/-- The connection of a new position: that of the previous one, or a new one in the place of all others. -/
def openConnection (now : ℤ) (owner : Owner) (previous : Option ℕ) (t : Tables) : Except Error (ℕ × Tables) :=
  match previous with
  | some previous =>
    match t.connectionOf owner previous with
    | some (key, _) => .ok (key, t)
    | none => .error unknownPosition
  | none =>
    let t := t.deleteConnections fun c => c.owner = owner
    .ok (t.nextConnectionKey, { t with
        connections := t.connections.set t.nextConnectionKey ⟨owner, some now⟩
        nextConnectionKey := t.nextConnectionKey + 1 })

/-- The pairs of event types and state keys in a map. -/
def pairs (m : Dict String (Finset String)) : Finset (String × String) :=
  (m.items.map fun item => item.2.image (Prod.mk item.1)).foldr (· ∪ ·) ∅

/-- `serialized_state`. -/
def SyncEnv.serialize (env : SyncEnv) (m : Dict String (Finset String)) : String :=
  env.encode (env.pairOrder.list (pairs m))

/-- `required_state_to_id`, which is empty for a new connection. -/
def requiredStateToId (key : ℕ) (previous : Option ℕ) (t : Tables) : Dict String ℕ :=
  if previous = none then ∅
  else t.requiredState.items.foldl (fun d row => if row.2.1 = key then d.set row.2.2 row.1 else d) ∅

/-- The loop over `room_configs`: a room with a required state that is known, or one to insert. -/
def splitConfig (env : SyncEnv) (known : Dict String ℕ) (acc : Dict String ℕ × Dict String (List String))
    (item : String × RoomSyncConfig) : Dict String ℕ × Dict String (List String) :=
  match known.get? (env.serialize item.2.requiredStateMap) with
  | some id => (acc.1.set item.1 id, acc.2)
  | none => (acc.1, acc.2.appendTo (env.serialize item.2.requiredStateMap) item.1)

/-- `room_to_state_ids` and `unique_required_state`. -/
def splitConfigs (env : SyncEnv) (known : Dict String ℕ) (configs : Dict String RoomSyncConfig) :
    Dict String ℕ × Dict String (List String) :=
  configs.items.foldl (splitConfig env known) (∅, ∅)

/-- A new required state gets an id, for all its rooms. -/
def insertOneRequiredState (key : ℕ) (acc : Dict String ℕ × Tables) (item : String × List String) :
    Dict String ℕ × Tables :=
  (item.2.foldl (fun ids room => ids.set room acc.2.nextRequiredStateId) acc.1, { acc.2 with
      requiredState := acc.2.requiredState.set acc.2.nextRequiredStateId (key, item.1)
      nextRequiredStateId := acc.2.nextRequiredStateId + 1 })

def insertRequiredState (key : ℕ) (unique : Dict String (List String)) (ids : Dict String ℕ) (t : Tables) :
    Dict String ℕ × Tables :=
  unique.items.foldl (insertOneRequiredState key) (ids, t)

/-- The rows of the previous position are copied. -/
def copyRows (previous : Option ℕ) (position : ℕ) (t : Tables) : Tables :=
  match previous with
  | none => t
  | some previous =>
    { t with
      streams := (t.streams.column previous).upsertRows (Prod.mk position) (fun _ row => row) t.streams
      roomConfigs := (t.roomConfigs.column previous).upsertRows (Prod.mk position) (fun _ row => row) t.roomConfigs }

/-- The rows of one stream are upserted. -/
def upsertStream (position : ℕ) (d : PerConnectionStateDB)
    (streams : Dict (ℕ × String × String) (String × Option String)) (stream : Stream) :
    Dict (ℕ × String × String) (String × Option String) :=
  (d.statuses stream).upsertRows (fun room => (position, stream.name, room))
    (fun _ s => (s.status.value, s.lastToken)) streams

/-- The rows of room configs, with the ids of their required states. -/
def configRows (ids : Dict String ℕ) (configs : Dict String RoomSyncConfig) : Except Error (Dict String (ℤ × ℕ)) :=
  configs.traverse fun room config =>
    match ids.get? room with
    | some id => .ok (config.timelineLimit, id)
    | none => .error .keyError

/-- `ON CONFLICT … DO UPDATE … WHERE`: a row of another position stays as it is. -/
def upsertLazyMember (now : ℤ) (key position : ℕ) (lazyMembers : Dict (ℕ × String × String) (Option ℕ × ℤ))
    (member : String × String) : Dict (ℕ × String × String) (Option ℕ × ℤ) :=
  match lazyMembers.get? (key, member) with
  | none => lazyMembers.set (key, member) (some position, now)
  | some row =>
    if row.1 = none ∨ row.1 = some position then lazyMembers.set (key, member) (row.1, now) else lazyMembers

/-- Whether the changes invalidate a user of a room. -/
def invalidates (changes : Dict String RoomLazyMembershipChanges) (room user : String) : Bool :=
  (changes.get? room).any fun c => user ∈ c.invalidatedUserIds

/-- `_persist_sliding_sync_connection_lazy_members_txn`. -/
def persistLazyMembers (now : ℤ) (key position : ℕ) (changes : Dict String RoomLazyMembershipChanges) (t : Tables) :
    Tables :=
  let toUpdate := changes.items.flatMap fun item => (item.2.getReturnedUserIdsToUpdate now).map (Prod.mk item.1)
  { t with
    lazyMembers := (toUpdate.foldl (upsertLazyMember now key position) t.lazyMembers).filter fun row _ =>
      !(decide (row.1 = key) && invalidates changes row.2.1 row.2.2) }

/-- A new position of a connection, with its rows. -/
def persistPosition (env : SyncEnv) (now : ℤ) (key : ℕ) (previous : Option ℕ) (d : PerConnectionStateDB) (t : Tables) :
    Except Error (ℕ × Tables) :=
  let position := t.nextPosition
  let t := { t with positions := t.positions.set position key, nextPosition := position + 1 }
  let split := splitConfigs env (requiredStateToId key previous t) d.roomConfigs
  let (ids, t) := insertRequiredState key split.2 split.1 t
  let t := copyRows previous position t
  let t := { t with streams := [Stream.rooms, .receipts, .accountData].foldl (upsertStream position d) t.streams }
  match configRows ids d.roomConfigs with
  | .error e => .error e
  | .ok rows =>
    let t := { t with roomConfigs := rows.upsertRows (Prod.mk position) (fun _ row => row) t.roomConfigs }
    .ok (position, persistLazyMembers now key position d.roomLazyMembership t)

/-- `persist_per_connection_state_txn`. -/
def persistPerConnectionStateTxn (env : SyncEnv) (now : ℤ) (owner : Owner) (previous : Option ℕ)
    (d : PerConnectionStateDB) (t : Tables) : Except Error (ℕ × Tables) :=
  match openConnection now owner previous t with
  | .error e => .error e
  | .ok (key, t) => persistPosition env now key previous d t

/-- `persist_per_connection_state`. -/
def persistPerConnectionState (env : SyncEnv) (now : ℤ) (owner : Owner) (previous : Option ℕ) (u : Updates)
    (t : Tables) : Except Error (ℕ × Tables) :=
  match fromState env u with
  | .error e => .error e
  | .ok d => persistPerConnectionStateTxn env now owner previous d t

/-! ## §4 A position is used -/

/-- `UPDATE_INTERVAL_LAST_USED_TS.as_millis()`. -/
def updateIntervalLastUsedTs : ℤ := 5 * 60 * 1000

/-- `last_used_ts` is updated if it is due. -/
def touch (now : ℤ) (key : ℕ) (c : Connection) (t : Tables) : Tables :=
  if c.lastUsedTs.all fun lastUsedTs => updateIntervalLastUsedTs < now - lastUsedTs then
    { t with connections := t.connections.set key { c with lastUsedTs := some now } }
  else t

/-- `state.setdefault(event_type, set()).add(state_key)` for each pair. -/
def collectPairs (l : List (String × String)) : Dict String (Finset String) :=
  l.foldl (fun state pair => state.set pair.1 (insert pair.2 (state.getD pair.1 ∅))) ∅

/-- One row of `sliding_sync_connection_streams`; streams that are not known are ignored. -/
def readStreamRow (statuses : Stream → RoomStatusMap String)
    (row : (String × String) × (String × Option String)) : Except Error (Stream → RoomStatusMap String) :=
  match HaveSentRoomFlag.ofValue row.2.1 with
  | .error e => .error e
  | .ok status =>
    let add := fun stream => Function.update statuses stream ((statuses stream).set row.1.2 ⟨status, row.2.2⟩)
    if row.1.1 = "rooms" then .ok (add .rooms)
    else if row.1.1 = "receipts" then .ok (add .receipts)
    else if row.1.1 = "account_data" then .ok (add .accountData)
    else .ok statuses

/-- `required_state_map`. -/
def readRequiredState (env : SyncEnv) (key : ℕ) (t : Tables) : Except Error (Dict ℕ (Dict String (Finset String))) :=
  (t.requiredState.filter fun _ row => row.1 = key).traverse fun _ row => (env.decode row.2).map collectPairs

/-- `RoomSyncConfig(timeline_limit, required_state_map[required_state_id])`. -/
def readRoomConfig (requiredStateMap : Dict ℕ (Dict String (Finset String))) (row : ℤ × ℕ) :
    Except Error RoomSyncConfig :=
  match requiredStateMap.get? row.2 with
  | some requiredState => .ok ⟨row.1, requiredState⟩
  | none => .error .keyError

/-- `room_configs`. -/
def readRoomConfigs (requiredStateMap : Dict ℕ (Dict String (Finset String))) (position : ℕ) (t : Tables) :
    Except Error (Dict String RoomSyncConfig) :=
  (t.roomConfigs.column position).traverse fun _ row => readRoomConfig requiredStateMap row

/-- The client has the position: the others go, and its lazy members are those of the connection. -/
def usePosition (key position : ℕ) (t : Tables) : Tables :=
  let t := t.deletePositions fun other key' => key' = key && other ≠ position
  { t with
    lazyMembers := t.lazyMembers.updateWhere (fun row v => row.1 = key && v.1 = some position)
      fun v => (none, v.2) }

/-- `_get_and_clear_connection_positions_txn`. -/
def getAndClearConnectionPositionsTxn (env : SyncEnv) (now : ℤ) (owner : Owner) (position : ℕ) (t : Tables) :
    Except Error (PerConnectionStateDB × Tables) :=
  match t.connectionOf owner position with
  | none => .error unknownPosition
  | some (key, c) =>
    let t := usePosition key position (touch now key c t)
    match readRequiredState env key t with
    | .error e => .error e
    | .ok requiredStateMap =>
      match readRoomConfigs requiredStateMap position t with
      | .error e => .error e
      | .ok roomConfigs =>
        match (t.streams.column position).items.foldlM readStreamRow fun _ => ∅ with
        | .error e => .error e
        | .ok statuses => .ok (⟨c.lastUsedTs, statuses, roomConfigs, ∅⟩, t)

/-- `get_and_clear_connection_positions`, when its result is not cached. The transaction is committed before its
rows are parsed. -/
def getAndClearConnectionPositions (env : SyncEnv) (now : ℤ) (owner : Owner) (position : ℕ) (t : Tables) :
    Except Error PerConnectionState × Tables :=
  match getAndClearConnectionPositionsTxn env now owner position t with
  | .error e => (.error e, t)
  | .ok (d, t) => (toState env d, t)

/-- `get_sliding_sync_connection_lazy_members`. -/
def getLazyMembers (position : ℕ) (room : String) (userIds : Finset String) (t : Tables) : Dict String ℤ :=
  match t.positions.get? position with
  | none => ∅
  | some key =>
    (((t.lazyMembers.column key).column room).filter fun user row =>
      user ∈ userIds && (row.1 = some position || row.1 = none)).mapValues Prod.snd

/-- `CONNECTION_EXPIRY.as_millis()`. -/
def connectionExpiry : ℤ := 7 * 24 * 60 * 60 * 1000

/-- A connection that `delete_old_sliding_sync_connections` deletes. -/
def expired (now : ℤ) (c : Connection) : Bool := c.lastUsedTs.any fun lastUsedTs => lastUsedTs < now - connectionExpiry

/-- `delete_old_sliding_sync_connections`. -/
def deleteOldSlidingSyncConnections (now : ℤ) (t : Tables) : Tables := t.deleteConnections (expired now)

end Setka.Storage.SlidingSync
