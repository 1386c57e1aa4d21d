/-
# Setka.Storage.DelayedEvents — the table of delayed events.

One transaction each. What a row says about the event beside its room, type and state key is left out: it is
only handed on. So is the send time that most of the transactions return for the timer: a time-out looks up by
itself which events are due.
-/
import Setka.Lib.Rows
import Mathlib.Data.List.Sort

namespace Setka.Storage.DelayedEvents

open Setka.Lib Dict

/-- The room, the type and the state key that a state event is about. -/
abbrev StateInfo := String × String × String

/-- A row of `delayed_events`, beside its `delay_id`. -/
structure DelayedEvent where
  userLocalpart : String
  roomId : String
  eventType : String
  stateKey : Option String
  delay : ℤ
  sendTs : ℤ
  isProcessed : Bool
  deriving DecidableEq

/-- What a delayed state event is about. -/
def DelayedEvent.stateInfo? (e : DelayedEvent) : Option StateInfo :=
  e.stateKey.map fun stateKey => (e.roomId, e.eventType, stateKey)

abbrev Table := Dict String DelayedEvent

/-- `DelayedEventDetails`: a row as a transaction returns it. -/
abbrev Details := String × DelayedEvent

def DelayedEvent.markProcessed (e : DelayedEvent) : DelayedEvent := { e with isProcessed := true }

/-- `add_delayed_event`. -/
def addDelayedEvent (delayId : String) (creationTs : ℤ) (e : DelayedEvent) (table : Table) : Table :=
  table.set delayId { e with sendTs := creationTs + e.delay, isProcessed := false }

/-- `restart_delayed_event`, or `none` for its `NotFoundError`. -/
def restartDelayedEvent (delayId : String) (currentTs : ℤ) (table : Table) : Option Table :=
  match table.get? delayId with
  | some e => if e.isProcessed then none else some (table.set delayId { e with sendTs := currentTs + e.delay })
  | none => none

/-- The condition of `process_timeout_delayed_events`. -/
def isDue (currentTs : ℤ) (reprocessEvents : Bool) (e : DelayedEvent) : Bool :=
  e.sendTs ≤ currentTs && (reprocessEvents || !e.isProcessed)

/-- `process_timeout_delayed_events`: the events that are due, by their send times, and the table with all of
them marked. -/
def processTimeoutDelayedEvents (currentTs : ℤ) (reprocessEvents : Bool) (table : Table) : List Details × Table :=
  ((table.items.filter fun row => isDue currentTs reprocessEvents row.2).insertionSort
      fun row row' => row.2.sendTs ≤ row'.2.sendTs,
    table.updateWhere (fun _ e => isDue currentTs reprocessEvents e) DelayedEvent.markProcessed)

/-- `process_target_delayed_event`, or `none` for its `NotFoundError`. -/
def processTargetDelayedEvent (delayId : String) (table : Table) : Option (Details × Table) :=
  match table.get? delayId with
  | some e => if e.isProcessed then none else some ((delayId, e), table.set delayId e.markProcessed)
  | none => none

/-- `cancel_delayed_event`, or `none` for its `NotFoundError`. -/
def cancelDelayedEvent (delayId : String) (table : Table) : Option Table :=
  match table.get? delayId with
  | some e => if e.isProcessed then none else some (table.erase delayId)
  | none => none

/-- The condition of `cancel_delayed_state_events`. -/
def isCancelledBy (info : StateInfo) (notFromLocalpart : String) (e : DelayedEvent) : Bool :=
  e.stateInfo? = some info && e.userLocalpart != notFromLocalpart && !e.isProcessed

/-- `cancel_delayed_state_events`. -/
def cancelDelayedStateEvents (info : StateInfo) (notFromLocalpart : String) (table : Table) : Table :=
  table.filter fun _ e => !isCancelledBy info notFromLocalpart e

/-- `delete_processed_delayed_event`. Where there is no such row it raises, and the caller logs that. -/
def deleteProcessedDelayedEvent (delayId : String) (table : Table) : Table :=
  table.filter fun id e => !(id = delayId && e.isProcessed)

/-- `delete_processed_delayed_state_events`. -/
def deleteProcessedDelayedStateEvents (info : StateInfo) (table : Table) : Table :=
  table.filter fun _ e => !(e.stateInfo? = some info && e.isProcessed)

/-! ## What the transactions leave -/

/-- Rows are only taken away. -/
def Shrinks (table table' : Table) : Prop := ∀ id e, table'.get? id = some e → table.get? id = some e

theorem shrinks_filter (p : String → DelayedEvent → Bool) (table : Table) : Shrinks table (table.filter p) :=
  fun _ _ h => (get?_filter.mp h).1

variable {table : Table}

theorem mem_processTimeoutDelayedEvents {currentTs : ℤ} {reprocessEvents : Bool} {row : Details} :
    row ∈ (processTimeoutDelayedEvents currentTs reprocessEvents table).1 ↔
      table.get? row.1 = some row.2 ∧ isDue currentTs reprocessEvents row.2 = true := by
  rw [processTimeoutDelayedEvents, List.mem_insertionSort, List.mem_filter, get?_eq_some_iff]

theorem nodup_processTimeoutDelayedEvents (currentTs : ℤ) (reprocessEvents : Bool) (table : Table) :
    ((processTimeoutDelayedEvents currentTs reprocessEvents table).1.map Prod.fst).Nodup := by
  have hperm := (List.perm_insertionSort (fun row row' : Details => row.2.sendTs ≤ row'.2.sendTs)
    (table.items.filter fun row => isDue currentTs reprocessEvents row.2)).map Prod.fst
  exact hperm.nodup_iff.mpr (table.nodup.sublist (List.filter_sublist.map _))

theorem get?_deleteProcessedDelayedEvent {delayId : String} {e : DelayedEvent}
    (h : (deleteProcessedDelayedEvent delayId table).get? delayId = some e) : e.isProcessed = false := by
  have hkept := (get?_filter.mp h).2
  simpa using hkept

theorem get?_deleteProcessedDelayedStateEvents {info : StateInfo} {id : String} {e : DelayedEvent}
    (h : (deleteProcessedDelayedStateEvents info table).get? id = some e) (hinfo : e.stateInfo? = some info) :
    e.isProcessed = false := by
  have hkept := (get?_filter.mp h).2
  simpa [hinfo] using hkept

end Setka.Storage.DelayedEvents
