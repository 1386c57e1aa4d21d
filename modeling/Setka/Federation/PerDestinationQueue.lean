/-
# Setka.Federation.PerDestinationQueue — sending events to one destination.

One loop sends the events that are queued for a destination. What it has sent last is stored, and for each room
the newest event that the destination should get. A queue that is lost, by a restart or a long outage, is made up
for room by room, in the order of these newest events. The loop is modelled by what it waits for, so that events
may be recorded and queued at any of these points.
-/
import Setka.Lib.Dict
import Setka.Lib.Transition
import Mathlib.Data.List.Sort

namespace Setka.Federation

open Setka.Lib

/-- `EventBase`. -/
structure Pdu where
  eventId : String
  roomId : String
  streamOrdering : ℕ
deriving DecidableEq

namespace PerDestinationQueue

/-! ## §1 What is stored -/

/-- The row of the destination, its rows in `destination_rooms`, and `events` by stream ordering. -/
structure Tables where
  lastSuccessfulStreamOrdering : Option ℕ
  destinationRooms : Dict String ℕ
  events : Dict ℕ Pdu

/-- `store_destination_rooms_entries`, for an event that was persisted. -/
def storeDestinationRoomsEntries (pdu : Pdu) (t : Tables) : Tables :=
  { t with
    destinationRooms := t.destinationRooms.set pdu.roomId pdu.streamOrdering
    events := t.events.set pdu.streamOrdering pdu }

/-- `get_catch_up_room_event_ids`, and the events with these ids. -/
def getCatchUpRoomEvents (last : ℕ) (t : Tables) : List Pdu :=
  let orderings := t.destinationRooms.values.filter fun n => decide (last < n) && (t.events.get? n).isSome
  ((orderings.insertionSort (· ≤ ·)).take 50).filterMap t.events.get?

/-! ## §2 The queue and its loop -/

/-- A transaction that is sent: events from the queue, or for one room in catch-up its newest event or its
extremities. The extremities stand with the last stream ordering when they were read. -/
inductive Transaction
  | queue (pdus : List Pdu)
  | newest (pdu : Pdu)
  | extremities (roomId : String) (recordedUpTo : ℕ) (extrems pdus : List Pdu)
deriving DecidableEq

/-- `pdus` of `send_new_transaction`. -/
def Transaction.pdus : Transaction → List Pdu
  | queue pdus => pdus
  | newest pdu => [pdu]
  | extremities _ _ _ pdus => pdus

/-- What the loop waits for, with its variables. -/
inductive Loop
  | idle
  | retryLimiter
  | loadLastSuccessful
  | catchUpQuery (first : Bool) (last : ℕ)
  | catchUpFound (first : Bool) (last : ℕ) (pdus : List Pdu)
  | catchUpRooms (first : Bool) (last : ℕ) (pdus : List Pdu)
  | catchUpTransaction (first : Bool) (last : ℕ) (pdu : Pdu) (rest : List Pdu) (transaction : Transaction)
  | catchUpStore (first : Bool) (last : ℕ) (rest : List Pdu)
  | enter
  | transaction (pdus : List Pdu)
  | store (last : ℕ)

/-- `PerDestinationQueue`, without its EDUs. -/
structure Queue where
  shouldSendOnThisInstance : Bool
  transmissionLoopEnabled : Bool
  newDataToSend : Bool
  catchingUp : Bool
  catchupLastSkipped : ℕ
  lastSuccessfulStreamOrdering : Option ℕ
  pendingPdus : List Pdu
  loop : Loop

/-- `__init__`. -/
def Queue.init (shouldSendOnThisInstance : Bool) : Queue where
  shouldSendOnThisInstance := shouldSendOnThisInstance
  transmissionLoopEnabled := true
  newDataToSend := false
  catchingUp := true
  catchupLastSkipped := 0
  lastSuccessfulStreamOrdering := none
  pendingPdus := []
  loop := .idle

/-- The exceptions that the loop handles. -/
inductive LoopError
  | notRetryingDestination (retryInterval : ℕ)
  | federationDenied
  | httpResponse
  | requestSendFailed
  | exception

def catchupRetryInterval : ℕ := 60 * 60 * 1000

/-- What is waited for raises, or returns; then there may be EDUs to send, the room may be partially stated, and
some extremities may be seen by the destination. -/
structure Turn where
  raises : Option LoopError
  pendingEdus : Bool
  isPartialStateRoom : Bool
  filterEventsForServer : Pdu → Bool

/-! ## §3 The server -/

/-- The server with one destination. Beside what the code has stand the last event that was recorded, those that
were queued, the transactions that succeeded, and the events that were thrown away while no position was stored. -/
structure World where
  tables : Tables
  queue : Queue
  extremities : Dict String (List Pdu)
  recordedUpTo : ℕ
  queued : List Pdu
  queuedUpTo : ℕ
  sent : List Transaction
  lost : List Pdu

namespace World

def start (shouldSendOnThisInstance : Bool) : World where
  tables := ⟨none, ∅, ∅⟩
  queue := .init shouldSendOnThisInstance
  extremities := ∅
  recordedUpTo := 0
  queued := []
  queuedUpTo := 0
  sent := []
  lost := []

/-- The queue is thrown away. -/
def dropPending (w : World) : World :=
  { w with lost := if w.tables.lastSuccessfulStreamOrdering = none then w.queue.pendingPdus ++ w.lost else w.lost }

/-- `_start_catching_up`. -/
def startCatchingUp (w : World) : World :=
  { w.dropPending with queue := { w.queue with catchingUp := true, pendingPdus := [] } }

def setLoop (loop : Loop) (w : World) : World := { w with queue := { w.queue with loop := loop } }

/-- The loop is started, if none is running. -/
def startLoop (w : World) : World :=
  match w.queue.loop with
  | .idle => if w.queue.shouldSendOnThisInstance && w.queue.transmissionLoopEnabled then w.setLoop .retryLimiter else w
  | _ => w

/-- `attempt_new_transaction`. -/
def attemptNewTransaction (w : World) : World :=
  ({ w with queue := { w.queue with newDataToSend := true } } : World).startLoop

/-- An event is recorded as the newest one of its room for the destination. -/
def record (pdu : Pdu) (w : World) : World :=
  { w with tables := storeDestinationRoomsEntries pdu w.tables, recordedUpTo := pdu.streamOrdering }

/-- `send_pdu`. -/
def sendPdu (pdu : Pdu) (w : World) : World :=
  let queue :=
    if w.queue.catchingUp = false ∨ w.queue.lastSuccessfulStreamOrdering = none then
      { w.queue with pendingPdus := w.queue.pendingPdus ++ [pdu] }
    else { w.queue with catchupLastSkipped := pdu.streamOrdering }
  ({ w with queue := queue, queued := pdu :: w.queued, queuedUpTo := pdu.streamOrdering } : World).attemptNewTransaction

/-- The loop of `_transaction_transmission_loop`, at its top. -/
def transmit (w : World) : World :=
  if w.queue.transmissionLoopEnabled then
    { w with queue := { w.queue with newDataToSend := false, loop := .enter } }
  else w.setLoop .idle

/-- The loop of `_catch_up_transmission_loop`, at its top. -/
def catchUp (first : Bool) (last : ℕ) (w : World) : World :=
  if w.queue.transmissionLoopEnabled then w.setLoop (.catchUpQuery first last)
  else if w.queue.catchingUp then w.setLoop .idle
  else w.transmit

/-- The events that are sent for a room in catch-up. -/
def roomCatchupPdus (turn : Turn) (last : ℕ) (pdu : Pdu) (w : World) : Transaction :=
  let extrems := w.extremities.getD pdu.roomId []
  if pdu.eventId ∈ extrems.map Pdu.eventId then .newest pdu
  else if turn.isPartialStateRoom then .newest pdu
  else
    let newPdus := (extrems.filter fun p => !decide (p.streamOrdering < last)).filter turn.filterEventsForServer
    if newPdus ≠ [] then .extremities pdu.roomId w.recordedUpTo extrems newPdus else .newest pdu

/-- The loop goes on, when what it waited for returns. -/
def resume (turn : Turn) (w : World) : World :=
  match w.queue.loop with
  | .idle => w
  | .retryLimiter =>
    if w.queue.catchingUp then
      match w.queue.lastSuccessfulStreamOrdering with
      | none => w.setLoop .loadLastSuccessful
      | some last => w.catchUp false last
    else w.transmit
  | .loadLastSuccessful =>
    match w.tables.lastSuccessfulStreamOrdering with
    | none => ({ w with queue := { w.queue with catchingUp := false } } : World).transmit
    | some last =>
      ({ w with queue := { w.queue with lastSuccessfulStreamOrdering := some last } } : World).catchUp true last
  | .catchUpQuery first last => w.setLoop (.catchUpFound first last (getCatchUpRoomEvents last w.tables))
  | .catchUpFound first last [] =>
    if w.queue.catchupLastSkipped ≠ 0 ∧ last < w.queue.catchupLastSkipped then
      ({ w with queue := { w.queue with catchupLastSkipped := 0 } } : World).catchUp first last
    else ({ w with queue := { w.queue with catchingUp := false } } : World).transmit
  | .catchUpFound first last (pdu :: pdus) =>
    (if first then w.startCatchingUp else w).setLoop (.catchUpRooms first last (pdu :: pdus))
  | .catchUpRooms first last [] => w.catchUp first last
  | .catchUpRooms first last (pdu :: rest) =>
    w.setLoop (.catchUpTransaction first last pdu rest (w.roomCatchupPdus turn last pdu))
  | .catchUpTransaction first _ pdu rest transaction =>
    { w with
      sent := transaction :: w.sent
      queue := { w.queue with
        lastSuccessfulStreamOrdering := some pdu.streamOrdering
        loop := .catchUpStore first pdu.streamOrdering rest } }
  | .catchUpStore first last rest =>
    ({ w with tables := { w.tables with lastSuccessfulStreamOrdering := some last } } : World).setLoop
      (.catchUpRooms first last rest)
  | .enter =>
    let pdus := w.queue.pendingPdus.take 50
    if pdus = [] ∧ turn.pendingEdus = false then
      if w.queue.newDataToSend then w.transmit else w.setLoop .idle
    else w.setLoop (.transaction pdus)
  | .transaction pdus =>
    let w := { w with
      sent := .queue pdus :: w.sent
      queue := { w.queue with pendingPdus := w.queue.pendingPdus.drop pdus.length } }
    match pdus.getLast? with
    | none => w.transmit
    | some pdu => w.setLoop (.store pdu.streamOrdering)
  | .store last =>
    ({ w with tables := { w.tables with lastSuccessfulStreamOrdering := some last } } : World).transmit

/-- What the loop waits for raises: it ends, and after a long outage the queue is thrown away. -/
def fail (error : LoopError) (w : World) : World :=
  match w.queue.loop with
  | .idle => w
  | _ =>
    match error with
    | .notRetryingDestination retryInterval =>
      (if catchupRetryInterval < retryInterval then w.startCatchingUp else w).setLoop .idle
    | _ => w.setLoop .idle

/-- `shutdown` cancels what the loop waits for. -/
def shutdown (w : World) : World :=
  ({ w with queue := { w.queue with transmissionLoopEnabled := false } } : World).fail .exception

/-- The process starts anew. -/
def restart (w : World) : World :=
  { w.dropPending with queue := .init w.queue.shouldSendOnThisInstance }

end World

inductive Op
  | record (pdu : Pdu)
  | sendPdu (pdu : Pdu)
  | attemptNewTransaction
  | setExtremities (roomId : String) (extrems : List Pdu)
  | turn (turn : Turn)
  | shutdown
  | restart

namespace World

def apply (w : World) : Op → World
  | .record pdu => w.record pdu
  | .sendPdu pdu => w.sendPdu pdu
  | .attemptNewTransaction => w.attemptNewTransaction
  | .setExtremities roomId extrems => { w with extremities := w.extremities.set roomId extrems }
  | .turn turn =>
    match turn.raises with
    | some error => w.fail error
    | none => w.resume turn
  | .shutdown => w.shutdown
  | .restart => w.restart

/-- Events are recorded and queued in stream order, each recorded before it is queued. -/
def Ordered (w : World) : Op → Prop
  | .record pdu => w.recordedUpTo < pdu.streamOrdering
  | .sendPdu pdu => w.tables.events.get? pdu.streamOrdering = some pdu ∧ w.queuedUpTo < pdu.streamOrdering
  | _ => True

def Step (w w' : World) : Prop := ∃ op, w.Ordered op ∧ w' = w.apply op

end World

end PerDestinationQueue

end Setka.Federation
