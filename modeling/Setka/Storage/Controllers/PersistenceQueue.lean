/-
# Setka.Storage.Controllers.PersistenceQueue — the queue of events to persist.

Events are persisted in batches, one batch of a room at a time. A call of `add_to_queue` merges its task
into the last one that waits, or appends it, and starts a process for the room if there is none. A step
below is what runs between two awaits: a call, a process that takes the next item or ends, a callback
that returns or raises. So every interleaving of calls, processes and callbacks is a run.
-/
import Setka.Lib.Dict
import Setka.Lib.Transition
import Mathlib.Data.Finset.Insert
import Mathlib.Data.Finset.Erase

namespace Setka.Storage.Controllers

open Setka.Lib Dict
open List (mem_append mem_append_left not_mem_nil append_nil flatMap_append pairwise_append map_append filter_append
  append_assoc)
open Multiset (mem_cons map_cons nodup_cons mem_cons_self)

/-! ## §1 The queue -/

/-- `_PersistEventsTask` and `_UpdateCurrentStateTask`. -/
inductive Task (α : Type)
  | persistEvents (eventsAndContexts : List α) (backfilled : Bool)
  | updateCurrentState

variable {α ε ρ : Type}

def Task.events : Task α → List α
  | .persistEvents eventsAndContexts _ => eventsAndContexts
  | .updateCurrentState => []

/-- `try_merge`: what the task becomes when the other is merged into it. -/
def Task.tryMerge : Task α → Task α → Option (Task α)
  | .persistEvents events backfilled, .persistEvents events' backfilled' =>
    if backfilled = backfilled' then some (.persistEvents (events ++ events') backfilled) else none
  | .updateCurrentState, .updateCurrentState => some .updateCurrentState
  | _, _ => none

theorem Task.tryMerge_events {task other merged : Task α} (h : task.tryMerge other = some merged) :
    merged.events = task.events ++ other.events := by
  cases task with
  | persistEvents events backfilled =>
    cases other with
    | persistEvents events' backfilled' =>
      rw [Task.tryMerge] at h
      split at h
      · cases h
        rfl
      · cases h
    | updateCurrentState => cases h
  | updateCurrentState =>
    cases other with
    | persistEvents events' backfilled' => cases h
    | updateCurrentState =>
      cases h
      rfl

/-- `_EventPersistQueueItem`, with the deferred that the callers wait on. -/
structure Item (α : Type) where
  task : Task α
  deferred : ℕ

/-- Where `handle_queue_loop` is: about to take the next item, or waiting for the callback. -/
inductive Position (α : Type)
  | between
  | persisting (item : Item α)

structure Process (α : Type) where
  room : String
  position : Position α

/-- A call of `add_to_queue`, with the deferred that it waits on. -/
structure Submission (α : Type) where
  room : String
  task : Task α
  deferred : ℕ

/-- A call of the callback. -/
structure Batch (α : Type) where
  room : String
  item : Item α

/-- `_EventPeristenceQueue`. `results` has the deferreds that have fired and `created` counts the
deferreds there are; what was submitted and what the callback was called with is recorded in order. -/
structure PersistenceQueue (α ε ρ : Type) where
  eventPersistQueues : Dict String (List (Item α))
  currentlyPersistingRooms : Finset String
  results : Dict ℕ (Except ε ρ)
  created : ℕ
  processes : Multiset (Process α)
  submissions : List (Submission α)
  batches : List (Batch α)
  completions : List (Batch α × Except ε ρ)

namespace PersistenceQueue

/-- `__init__`. -/
def new : PersistenceQueue α ε ρ where
  eventPersistQueues := .empty
  currentlyPersistingRooms := ∅
  results := .empty
  created := 0
  processes := 0
  submissions := []
  batches := []
  completions := []

/-- What waits in a room. -/
def queueOf (q : PersistenceQueue α ε ρ) (room : String) : List (Item α) :=
  q.eventPersistQueues.getD room []

/-- The queue with one more task, and the deferred of the item that has it. -/
def enqueue (queue : List (Item α)) (task : Task α) (created : ℕ) : List (Item α) × ℕ :=
  match queue.getLast? with
  | none => (queue ++ [⟨task, created⟩], created)
  | some last =>
    match last.task.tryMerge task with
    | some merged => (queue.dropLast ++ [⟨merged, last.deferred⟩], last.deferred)
    | none => (queue ++ [⟨task, created⟩], created)

/-- `_handle_queue`. -/
def handleQueue (q : PersistenceQueue α ε ρ) (room : String) : PersistenceQueue α ε ρ :=
  if room ∈ q.currentlyPersistingRooms then q
  else
    { q with
      currentlyPersistingRooms := insert room q.currentlyPersistingRooms
      processes := ⟨room, .between⟩ ::ₘ q.processes }

/-- `add_to_queue`, up to where it waits. -/
def addToQueue (q : PersistenceQueue α ε ρ) (room : String) (task : Task α) : PersistenceQueue α ε ρ :=
  let queued := enqueue (q.queueOf room) task q.created
  handleQueue { q with
      eventPersistQueues := q.eventPersistQueues.set room queued.1
      created := max q.created (queued.2 + 1)
      submissions := q.submissions ++ [⟨room, task, queued.2⟩] } room

/-- The `finally` of `handle_queue_loop`. -/
def exit (q : PersistenceQueue α ε ρ) (room : String) : PersistenceQueue α ε ρ :=
  { q with
    eventPersistQueues :=
      match q.queueOf room with
      | [] => q.eventPersistQueues.erase room
      | remaining => (q.eventPersistQueues.erase room).set room remaining
    currentlyPersistingRooms := q.currentlyPersistingRooms.erase room }

/-- A process takes the next item and calls the callback with it, or finds the queue drained. -/
def takeNext (q : PersistenceQueue α ε ρ) (room : String) (others : Multiset (Process α)) :
    PersistenceQueue α ε ρ :=
  match q.queueOf room with
  | [] =>
    exit { q with
        eventPersistQueues := q.eventPersistQueues.setDefault room []
        processes := others } room
  | item :: items =>
    { q with
      eventPersistQueues := q.eventPersistQueues.set room items
      processes := ⟨room, .persisting item⟩ ::ₘ others
      batches := q.batches ++ [⟨room, item⟩] }

/-- The callback has returned or raised: the deferred fires. If it had fired before, that would raise
and end the process. -/
def complete (q : PersistenceQueue α ε ρ) (room : String) (item : Item α) (outcome : Except ε ρ)
    (others : Multiset (Process α)) : PersistenceQueue α ε ρ :=
  match q.results.get? item.deferred with
  | some _ => exit { q with processes := others } room
  | none =>
    { q with
      results := q.results.set item.deferred outcome
      processes := ⟨room, .between⟩ ::ₘ others
      completions := q.completions ++ [(⟨room, item⟩, outcome)] }

end PersistenceQueue

/-- What a step does, and in which room. -/
inductive Label
  | added (room : String)
  | taken (room : String)
  | completed (room : String)
  deriving DecidableEq

/-- One step. A callback ends with a result or with an `Exception`. -/
inductive Step : PersistenceQueue α ε ρ → Label → PersistenceQueue α ε ρ → Prop
  | add (q : PersistenceQueue α ε ρ) (room : String) (task : Task α) : Step q (.added room) (q.addToQueue room task)
  | take {q : PersistenceQueue α ε ρ} {room : String} {others : Multiset (Process α)} :
      q.processes = ⟨room, .between⟩ ::ₘ others → Step q (.taken room) (q.takeNext room others)
  | complete {q : PersistenceQueue α ε ρ} {room : String} {item : Item α}
      {others : Multiset (Process α)} (outcome : Except ε ρ) :
      q.processes = ⟨room, .persisting item⟩ ::ₘ others →
      Step q (.completed room) (q.complete room item outcome others)

/-- A run, with the labels of its steps. -/
inductive Steps : PersistenceQueue α ε ρ → List Label → PersistenceQueue α ε ρ → Prop
  | refl (q : PersistenceQueue α ε ρ) : Steps q [] q
  | snoc {q q' q'' : PersistenceQueue α ε ρ} {labels : List Label} {label : Label} :
      Steps q labels q' → Step q' label q'' → Steps q (labels ++ [label]) q''

/-! ## §2 What a step does -/

namespace PersistenceQueue

/-- The items that the callback was called with in a room, in this order. -/
def batchesOf (q : PersistenceQueue α ε ρ) (room : String) : List (Item α) :=
  (q.batches.filter fun batch => batch.room = room).map Batch.item

/-- All items of a room, the waiting ones last. -/
def itemsOf (q : PersistenceQueue α ε ρ) (room : String) : List (Item α) :=
  q.batchesOf room ++ q.queueOf room

/-- The calls for a room. -/
def submissionsOf (q : PersistenceQueue α ε ρ) (room : String) : List (Submission α) :=
  q.submissions.filter fun submission => submission.room = room

/-- **A task is merged into the last item that waits, or appended.** -/
theorem enqueue_cases (queue : List (Item α)) (task : Task α) (created : ℕ) :
    enqueue queue task created = (queue ++ [⟨task, created⟩], created) ∨
      ∃ front last merged, queue = front ++ [last] ∧ last.task.tryMerge task = some merged ∧
        enqueue queue task created = (front ++ [⟨merged, last.deferred⟩], last.deferred) := by
  unfold enqueue
  cases hlast : queue.getLast? with
  | none => exact Or.inl rfl
  | some last =>
    obtain ⟨front, hfront⟩ := List.getLast?_eq_some_iff.mp hlast
    cases hmerge : last.task.tryMerge task with
    | none =>
      dsimp only
      rw [hmerge]
      exact Or.inl rfl
    | some merged =>
      refine Or.inr ⟨front, last, merged, hfront, hmerge, ?_⟩
      dsimp only
      rw [hmerge, hfront, List.dropLast_concat]

section Views

variable (q : PersistenceQueue α ε ρ) (room : String)

theorem queueOf_addToQueue (task : Task α) (other : String) : (q.addToQueue room task).queueOf other =
      if other = room then (enqueue (q.queueOf room) task q.created).1 else q.queueOf other := by
  have hset : ∀ q' : PersistenceQueue α ε ρ, (q'.handleQueue room).queueOf other = q'.queueOf other := by
    intro q'
    unfold handleQueue
    split
    · rfl
    · rfl
  rw [addToQueue, hset]
  unfold queueOf Dict.getD
  rw [get?_set]
  split
  · rfl
  · rfl

/-- A call changes the queue, the submissions and the number of deferreds; it starts a process where
none is. -/
theorem addToQueue_frame (task : Task α) : (q.addToQueue room task).batches = q.batches ∧
    (q.addToQueue room task).results = q.results ∧
    (q.addToQueue room task).completions = q.completions ∧
    (q.addToQueue room task).submissions =
      q.submissions ++ [⟨room, task, (enqueue (q.queueOf room) task q.created).2⟩] ∧
    (q.addToQueue room task).created = max q.created ((enqueue (q.queueOf room) task q.created).2 + 1) ∧
    ((room ∈ q.currentlyPersistingRooms ∧ (q.addToQueue room task).processes = q.processes ∧
        (q.addToQueue room task).currentlyPersistingRooms = q.currentlyPersistingRooms) ∨
      room ∉ q.currentlyPersistingRooms ∧
        (q.addToQueue room task).processes = ⟨room, .between⟩ ::ₘ q.processes ∧
        (q.addToQueue room task).currentlyPersistingRooms = insert room q.currentlyPersistingRooms) := by
  unfold addToQueue handleQueue
  dsimp only
  split
  · rename_i hin
    exact ⟨rfl, rfl, rfl, rfl, rfl, Or.inl ⟨hin, rfl, rfl⟩⟩
  · rename_i hout
    exact ⟨rfl, rfl, rfl, rfl, rfl, Or.inr ⟨hout, rfl, rfl⟩⟩

/-- Ending a process leaves what waits as it is. -/
theorem queueOf_exit (other : String) : (q.exit room).queueOf other = q.queueOf other := by
  show (match q.queueOf room with
      | [] => q.eventPersistQueues.erase room
      | remaining => (q.eventPersistQueues.erase room).set room remaining).getD other [] = _
  unfold queueOf Dict.getD
  by_cases hother : other = room
  · subst hother
    cases hqueue : (q.eventPersistQueues.get? other).getD [] with
    | nil =>
      rw [get?_erase, if_pos rfl]
      rfl
    | cons item items =>
      rw [get?_set, if_pos rfl]
      rfl
  · cases hqueue : (q.eventPersistQueues.get? room).getD [] with
    | nil =>
      rw [get?_erase, if_neg hother]
    | cons item items =>
      rw [get?_set, if_neg hother, get?_erase, if_neg hother]

/-- What a process does that ends. -/
structure Ended (q q' : PersistenceQueue α ε ρ) (room : String) (others : Multiset (Process α)) : Prop where
  queues : ∀ other, q'.queueOf other = q.queueOf other
  batches : q'.batches = q.batches
  results : q'.results = q.results
  completions : q'.completions = q.completions
  submissions : q'.submissions = q.submissions
  created : q'.created = q.created
  processes : q'.processes = others
  persisting : q'.currentlyPersistingRooms = q.currentlyPersistingRooms.erase room

/-- A process that looks for the next item ends, or calls the callback with it. -/
theorem takeNext_cases (others : Multiset (Process α)) :
    (q.queueOf room = [] ∧ Ended q (q.takeNext room others) room others) ∨
      ∃ item items, q.queueOf room = item :: items ∧
        (∀ other, (q.takeNext room others).queueOf other = if other = room then items else q.queueOf other) ∧
        q.takeNext room others = { q with
            eventPersistQueues := q.eventPersistQueues.set room items
            processes := ⟨room, .persisting item⟩ ::ₘ others
            batches := q.batches ++ [⟨room, item⟩] } := by
  unfold takeNext
  cases hqueue : q.queueOf room with
  | nil =>
    refine Or.inl ⟨rfl, fun other => ?_, rfl, rfl, rfl, rfl, rfl, rfl, rfl⟩
    rw [queueOf_exit]
    unfold queueOf Dict.getD at hqueue ⊢
    rw [get?_setDefault]
    split
    · rename_i hother
      rw [Dict.getD, hother, hqueue]
      rfl
    · rfl
  | cons item items =>
    refine Or.inr ⟨item, items, rfl, fun other => ?_, rfl⟩
    unfold queueOf Dict.getD
    rw [get?_set]
    split
    · rfl
    · rfl

end Views

/-! ## §3 The invariant -/

/-- The deferreds of the items of a room. -/
def deferredsOf (q : PersistenceQueue α ε ρ) (room : String) : List ℕ :=
  (q.itemsOf room).map Item.deferred

/-- The events of the calls that wait on a deferred. -/
def submittedOn (q : PersistenceQueue α ε ρ) (room : String) (deferred : ℕ) : List α :=
  ((q.submissionsOf room).filter fun submission => submission.deferred = deferred).flatMap
    fun submission => submission.task.events

/-- **Items and calls.** The items of a room have the events of its calls, in the same order and each
item those of the calls that wait on it; no deferred belongs to two items. -/
structure Accounted (q : PersistenceQueue α ε ρ) : Prop where
  increasing : ∀ room, (q.deferredsOf room).Pairwise (· < ·)
  fresh : ∀ room, ∀ d ∈ q.deferredsOf room, d < q.created
  separate : ∀ room room' d, d ∈ q.deferredsOf room → d ∈ q.deferredsOf room' → room = room'
  waits : ∀ submission ∈ q.submissions, submission.deferred ∈ q.deferredsOf submission.room
  events : ∀ room, (q.itemsOf room).flatMap (fun item => item.task.events) =
    (q.submissionsOf room).flatMap fun submission => submission.task.events
  contents : ∀ room, ∀ item ∈ q.itemsOf room, item.task.events = q.submittedOn room item.deferred

/-- **Processes and results.** A room with items that wait has a process, and only one; the last batch
of a room may be running, those before it have their results. -/
structure Attended (q : PersistenceQueue α ε ρ) : Prop where
  single : (q.processes.map Process.room).Nodup
  persisting : ∀ room, room ∈ q.currentlyPersistingRooms ↔ room ∈ q.processes.map Process.room
  awake : ∀ room, q.queueOf room ≠ [] → room ∈ q.currentlyPersistingRooms
  running : ∀ room item, ⟨room, .persisting item⟩ ∈ q.processes → ∃ before, q.batchesOf room = before ++ [item]
  pending : ∀ room, ∀ item ∈ q.batchesOf room, q.results.get? item.deferred = none ↔
    ⟨room, .persisting item⟩ ∈ q.processes
  waiting : ∀ room, ∀ item ∈ q.queueOf room, q.results.get? item.deferred = none
  completed : ∀ batch outcome, (batch, outcome) ∈ q.completions ↔
    batch ∈ q.batches ∧ q.results.get? batch.item.deferred = some outcome
  fired : ∀ d outcome, q.results.get? d = some outcome → d < q.created

variable {q : PersistenceQueue α ε ρ} {room : String} {item : Item α}

theorem mem_batchesOf : item ∈ q.batchesOf room ↔ ⟨room, item⟩ ∈ q.batches := by
  unfold batchesOf
  rw [List.mem_map]
  constructor
  · rintro ⟨batch, hbatch, rfl⟩
    obtain ⟨hmem, hroom⟩ := List.mem_filter.mp hbatch
    obtain rfl : batch.room = room := by simpa using hroom
    exact hmem
  · intro hmem
    exact ⟨_, List.mem_filter.mpr ⟨hmem, by simp⟩, rfl⟩

theorem mem_deferredsOf (h : item ∈ q.itemsOf room) : item.deferred ∈ q.deferredsOf room :=
  List.mem_map.mpr ⟨item, h, rfl⟩

theorem accounted_new : Accounted (new : PersistenceQueue α ε ρ) := by
  refine ⟨?_, ?_, ?_, ?_, ?_, ?_⟩
  · exact fun room => List.Pairwise.nil
  · exact fun room d hd => absurd hd not_mem_nil
  · exact fun room room' d hd => absurd hd not_mem_nil
  · exact fun submission hmem => absurd hmem not_mem_nil
  · exact fun room => rfl
  · exact fun room item hmem => absurd hmem not_mem_nil

theorem attended_new : Attended (new : PersistenceQueue α ε ρ) := by
  refine ⟨Multiset.nodup_zero, fun room => ?_, fun room hqueue => absurd rfl hqueue, ?_, ?_, ?_, ?_, ?_⟩
  · simp [new]
  · exact fun room item hmem => absurd hmem (Multiset.notMem_zero _)
  · exact fun room item hmem => absurd hmem not_mem_nil
  · exact fun room item hmem => absurd hmem not_mem_nil
  · exact fun batch outcome => iff_of_false not_mem_nil (by simp [new])
  · exact fun d outcome hfired => by cases hfired

/-! ## §4 A call keeps it -/

section Add

variable (q : PersistenceQueue α ε ρ) (room : String) (task : Task α)

theorem itemsOf_addToQueue (other : String) : (q.addToQueue room task).itemsOf other = q.batchesOf other ++
      if other = room then (enqueue (q.queueOf room) task q.created).1 else q.queueOf other := by
  unfold itemsOf batchesOf
  rw [(addToQueue_frame q room task).1, queueOf_addToQueue]

theorem submissionsOf_addToQueue (other : String) :
    (q.addToQueue room task).submissionsOf other = q.submissionsOf other ++
      if other = room then [⟨room, task, (enqueue (q.queueOf room) task q.created).2⟩] else [] := by
  unfold submissionsOf
  rw [(addToQueue_frame q room task).2.2.2.1, filter_append]
  congr 1
  by_cases hother : other = room
  · rw [if_pos hother, List.filter_cons_of_pos (by simp [hother])]
    rfl
  · rw [if_neg hother, List.filter_cons_of_neg (by simpa using Ne.symm hother)]
    rfl

/-- The new call waits on an item that was there, or on a fresh one. -/
theorem deferredsOf_addToQueue : ((∀ other, (q.addToQueue room task).deferredsOf other = q.deferredsOf other) ∧
      (enqueue (q.queueOf room) task q.created).2 ∈ q.deferredsOf room) ∨
    (∀ other, (q.addToQueue room task).deferredsOf other =
      q.deferredsOf other ++ if other = room then [q.created] else []) ∧
      (enqueue (q.queueOf room) task q.created).2 = q.created := by
  rcases enqueue_cases (q.queueOf room) task q.created with heq | ⟨front, last, merged, hqueue, -, heq⟩
  · refine Or.inr ⟨fun other => ?_, by rw [heq]⟩
    unfold deferredsOf
    rw [itemsOf_addToQueue, heq]
    by_cases hother : other = room
    · rw [if_pos hother, if_pos hother, hother, itemsOf]
      simp
    · rw [if_neg hother, if_neg hother, itemsOf, append_nil]
  refine Or.inl ⟨fun other => ?_, ?_⟩
  · unfold deferredsOf
    rw [itemsOf_addToQueue, heq]
    by_cases hother : other = room
    · rw [if_pos hother, hother, itemsOf, hqueue]
      simp
    · rw [if_neg hother, itemsOf]
  · rw [heq, deferredsOf, itemsOf, hqueue]
    simp

theorem submittedOn_addToQueue (other : String) (d : ℕ) :
    (q.addToQueue room task).submittedOn other d = q.submittedOn other d ++
      if other = room ∧ (enqueue (q.queueOf room) task q.created).2 = d then task.events
      else [] := by
  unfold submittedOn
  rw [submissionsOf_addToQueue, filter_append, flatMap_append]
  congr 1
  by_cases hother : other = room
  · by_cases hd : (enqueue (q.queueOf room) task q.created).2 = d
    · rw [if_pos hother, if_pos ⟨hother, hd⟩, List.filter_cons_of_pos (by simpa using hd)]
      simp
    · rw [if_pos hother, if_neg fun h => hd h.2, List.filter_cons_of_neg (by simpa using hd)]
      rfl
  · rw [if_neg hother, if_neg fun h => hother h.1]
    rfl

end Add

/-- Nothing waits on a deferred that is yet to be created. -/
theorem Accounted.submittedOn_created (h : Accounted q) (room : String) : q.submittedOn room q.created = [] := by
  unfold submittedOn
  rw [List.flatMap_eq_nil_iff]
  intro submission hmem
  obtain ⟨hmem, hd⟩ := List.mem_filter.mp hmem
  obtain ⟨hmem, -⟩ := List.mem_filter.mp hmem
  have hlt := h.fresh _ _ (h.waits submission hmem)
  have heq : submission.deferred = q.created := by simpa using hd
  omega

/-- **A call** keeps items and calls accounted for: its events join those of the last item, or make a
new one. -/
theorem Accounted.addToQueue (h : Accounted q) (room : String)
    (task : Task α) : Accounted (q.addToQueue room task) := by
  obtain ⟨-, -, -, hsubmissions, hcreated, -⟩ := addToQueue_frame q room task
  have hdeferreds := deferredsOf_addToQueue q room task
  have hmem : ∀ other d, d ∈ (q.addToQueue room task).deferredsOf other →
      d ∈ q.deferredsOf other ∨ other = room ∧ d = q.created := by
    intro other d hd
    rcases hdeferreds with ⟨hsame, -⟩ | ⟨happend, -⟩
    · rw [hsame] at hd
      exact Or.inl hd
    rw [happend, mem_append] at hd
    refine hd.imp id fun hd => ?_
    by_cases hother : other = room
    · rw [if_pos hother] at hd
      exact ⟨hother, List.mem_singleton.mp hd⟩
    · rw [if_neg hother] at hd
      cases hd
  have hkeep : ∀ other d, d ∈ q.deferredsOf other → d ∈ (q.addToQueue room task).deferredsOf other := by
    intro other d hd
    rcases hdeferreds with ⟨hsame, -⟩ | ⟨happend, -⟩
    · rw [hsame]
      exact hd
    · rw [happend]
      exact mem_append_left _ hd
  refine ⟨fun other => ?_, fun other d hd => ?_, fun other other' d hd hd' => ?_,
    fun submission hsubmission => ?_, fun other => ?_, fun other item hitem => ?_⟩
  · rcases hdeferreds with ⟨hsame, -⟩ | ⟨happend, -⟩
    · rw [hsame]
      exact h.increasing other
    · rw [happend]
      split
      · rw [pairwise_append]
        refine ⟨h.increasing other, List.pairwise_singleton _ _, fun d hd d' hd' => ?_⟩
        rw [List.mem_singleton.mp hd']
        exact h.fresh other d hd
      · rw [append_nil]
        exact h.increasing other
  · rw [hcreated]
    rcases hmem other d hd with hold | ⟨-, rfl⟩
    · have hlt := h.fresh other d hold
      omega
    rcases hdeferreds with ⟨hsame, -⟩ | ⟨-, hfresh⟩
    · rw [hsame] at hd
      have hlt := h.fresh other _ hd
      omega
    · rw [hfresh]
      omega
  · rcases hmem other d hd with hold | ⟨hother, rfl⟩
    · rcases hmem other' d hd' with hold' | ⟨-, rfl⟩
      · exact h.separate other other' d hold hold'
      · have hlt := h.fresh other _ hold
        omega
    · rcases hmem other' _ hd' with hold' | ⟨hother', -⟩
      · have hlt := h.fresh other' _ hold'
        omega
      · rw [hother, hother']
  · rw [hsubmissions, mem_append] at hsubmission
    rcases hsubmission with hold | hnew
    · exact hkeep _ _ (h.waits submission hold)
    obtain rfl := List.mem_singleton.mp hnew
    rcases hdeferreds with ⟨-, hin⟩ | ⟨happend, hfresh⟩
    · exact hkeep _ _ hin
    show (enqueue (q.queueOf room) task q.created).2 ∈ (q.addToQueue room task).deferredsOf room
    rw [happend, if_pos rfl, hfresh]
    exact List.mem_append_right _ (List.mem_singleton_self _)
  · rw [itemsOf_addToQueue, submissionsOf_addToQueue, flatMap_append, flatMap_append,
      ← h.events other, itemsOf, flatMap_append]
    by_cases hother : other = room
    · rw [if_pos hother, if_pos hother, hother]
      rcases enqueue_cases (q.queueOf room) task q.created with heq | ⟨front, last, merged, hqueue, hmerge, heq⟩
      · rw [heq]
        simp
      · rw [heq, hqueue]
        simp [Task.tryMerge_events hmerge]
    · rw [if_neg hother, if_neg hother, List.flatMap_nil, append_nil]
  · rw [submittedOn_addToQueue]
    rw [itemsOf_addToQueue] at hitem
    by_cases hother : other = room
    · rw [if_pos hother] at hitem
      subst hother
      have hold : ∀ item ∈ q.itemsOf other, item.deferred ≠ (enqueue (q.queueOf other) task q.created).2 →
          item.task.events = q.submittedOn other item.deferred ++
            if other = other ∧ (enqueue (q.queueOf other) task q.created).2 = item.deferred then
              task.events else [] := by
        intro item hitem hne
        rw [if_neg fun h => hne h.2.symm, append_nil]
        exact h.contents other item hitem
      rcases enqueue_cases (q.queueOf other) task q.created with heq | ⟨front, last, merged, hqueue, hmerge, heq⟩
      · rw [heq] at hitem hold ⊢
        rw [← append_assoc, mem_append] at hitem
        rcases hitem with hitem | hitem
        · refine hold item hitem (ne_of_lt ?_)
          exact h.fresh other _ (mem_deferredsOf hitem)
        · obtain rfl := List.mem_singleton.mp hitem
          rw [if_pos ⟨rfl, rfl⟩, h.submittedOn_created, List.nil_append]
      rw [heq] at hitem hold ⊢
      rw [← append_assoc, mem_append] at hitem
      have hitems : q.itemsOf other = q.batchesOf other ++ front ++ [last] := by
        rw [itemsOf, hqueue, append_assoc]
      rcases hitem with hitem | hitem
      · -- the other items stand before the last one
        refine hold item ?_ (ne_of_lt ?_)
        · rw [hitems]
          exact mem_append_left _ hitem
        have hincreasing := h.increasing other
        rw [deferredsOf, hitems, map_append, pairwise_append] at hincreasing
        exact hincreasing.2.2 _ (List.mem_map.mpr ⟨item, hitem, rfl⟩) _ (by simp)
      · obtain rfl := List.mem_singleton.mp hitem
        have hlast := h.contents other last (by rw [hitems]; simp)
        rw [if_pos ⟨rfl, rfl⟩, ← hlast, Task.tryMerge_events hmerge]
    · rw [if_neg hother] at hitem
      rw [if_neg fun h => hother h.1, append_nil]
      exact h.contents other item hitem

theorem Attended.addToQueue (h : Attended q) (room : String)
    (task : Task α) : Attended (q.addToQueue room task) := by
  obtain ⟨hbatches, hresults, hcompletions, -, hcreated, hprocess⟩ := addToQueue_frame q room task
  have hbatchesOf : ∀ other, (q.addToQueue room task).batchesOf other = q.batchesOf other := by
    intro other
    unfold batchesOf
    rw [hbatches]
  have hrunning : ∀ other item, (⟨other, .persisting item⟩ : Process α) ∈
      (q.addToQueue room task).processes ↔ ⟨other, .persisting item⟩ ∈ q.processes := by
    intro other item
    rcases hprocess with ⟨-, hsame, -⟩ | ⟨-, hcons, -⟩
    · rw [hsame]
    · rw [hcons, mem_cons]
      simp
  have hpersisting : ∀ other, other ∈ (q.addToQueue room task).currentlyPersistingRooms ↔
      other = room ∨ other ∈ q.currentlyPersistingRooms := by
    intro other
    rcases hprocess with ⟨hin, -, hsame⟩ | ⟨-, -, hinsert⟩
    · rw [hsame]
      constructor
      · exact Or.inr
      rintro (rfl | hother)
      · exact hin
      · exact hother
    · rw [hinsert, Finset.mem_insert]
  refine ⟨?_, fun other => ?_, fun other hqueue => ?_, fun other item hmem => ?_,
    fun other item hmem => ?_, fun other item hmem => ?_, fun batch outcome => ?_,
    fun d outcome hfired => ?_⟩
  · rcases hprocess with ⟨-, hsame, -⟩ | ⟨hout, hcons, -⟩
    · rw [hsame]
      exact h.single
    · rw [hcons, map_cons, nodup_cons]
      exact ⟨fun hmem => hout ((h.persisting room).mpr hmem), h.single⟩
  · rw [hpersisting, h.persisting]
    rcases hprocess with ⟨hin, hsame, -⟩ | ⟨-, hcons, -⟩
    · rw [hsame]
      constructor
      · rintro (rfl | hother)
        · exact (h.persisting _).mp hin
        · exact hother
      · exact Or.inr
    · rw [hcons, map_cons, mem_cons]
  · rw [hpersisting]
    rw [queueOf_addToQueue] at hqueue
    by_cases hother : other = room
    · exact Or.inl hother
    · rw [if_neg hother] at hqueue
      exact Or.inr (h.awake other hqueue)
  · rw [hbatchesOf]
    exact h.running other item ((hrunning other item).mp hmem)
  · rw [hbatchesOf] at hmem
    rw [hresults, hrunning]
    exact h.pending other item hmem
  · rw [queueOf_addToQueue] at hmem
    rw [hresults]
    have hunfired : q.results.get? q.created = none := by
      rw [Option.eq_none_iff_forall_ne_some]
      intro outcome hfired
      have hlt := h.fired _ _ hfired
      omega
    by_cases hother : other = room
    · rw [if_pos hother] at hmem
      rcases enqueue_cases (q.queueOf room) task q.created with heq | ⟨front, last, merged, hqueue, -, heq⟩
      · rw [heq, mem_append] at hmem
        rcases hmem with hold | hnew
        · exact h.waiting room item hold
        · rw [List.mem_singleton.mp hnew]
          exact hunfired
      · rw [heq, mem_append] at hmem
        rcases hmem with hold | hnew
        · exact h.waiting room item (by rw [hqueue]; exact mem_append_left _ hold)
        · rw [List.mem_singleton.mp hnew]
          exact h.waiting room last (by rw [hqueue]; simp)
    · rw [if_neg hother] at hmem
      exact h.waiting other item hmem
  · rw [hcompletions, hbatches, hresults]
    exact h.completed batch outcome
  · rw [hresults] at hfired
    have hlt := h.fired d outcome hfired
    omega

/-! ## §5 A process keeps it -/

variable {q' : PersistenceQueue α ε ρ}

theorem Accounted.congr (h : Accounted q) (hitems : ∀ room, q'.itemsOf room = q.itemsOf room)
    (hsubmissions : q'.submissions = q.submissions) (hcreated : q'.created = q.created) : Accounted q' := by
  have hdeferreds : ∀ room, q'.deferredsOf room = q.deferredsOf room := by
    intro room
    unfold deferredsOf
    rw [hitems]
  have hsubmissionsOf : ∀ room, q'.submissionsOf room = q.submissionsOf room := by
    intro room
    unfold submissionsOf
    rw [hsubmissions]
  refine ⟨fun room => ?_, fun room => ?_, fun room room' d => ?_, ?_, fun room => ?_, fun room item hitem => ?_⟩
  · rw [hdeferreds]
    exact h.increasing room
  · rw [hdeferreds, hcreated]
    exact h.fresh room
  · rw [hdeferreds, hdeferreds]
    exact h.separate room room' d
  · rw [hsubmissions]
    simp only [hdeferreds]
    exact h.waits
  · rw [hitems, hsubmissionsOf]
    exact h.events room
  · rw [hitems] at hitem
    unfold submittedOn
    rw [hsubmissionsOf]
    exact h.contents room item hitem

/-- Two items with one deferred are one item. -/
theorem Accounted.item_inj (h : Accounted q) {room' : String} {item' : Item α} (hitem : item ∈ q.itemsOf room)
    (hitem' : item' ∈ q.itemsOf room')
    (hdeferred : item.deferred = item'.deferred) : room = room' ∧ item = item' := by
  have hroom := h.separate room room' item.deferred (mem_deferredsOf hitem) (hdeferred ▸ mem_deferredsOf hitem')
  subst hroom
  have hnodup : ((q.itemsOf room).map Item.deferred).Nodup :=
    (h.increasing room).imp ne_of_lt
  exact ⟨rfl, List.inj_on_of_nodup_map hnodup hitem hitem' hdeferred⟩

variable {others : Multiset (Process α)}

theorem Ended.itemsOf (h : Ended q q' room others) (other : String) : q'.itemsOf other = q.itemsOf other := by
  unfold PersistenceQueue.itemsOf batchesOf
  rw [h.batches, h.queues]

/-- A process that ends had drained its queue. -/
theorem Attended.ended (h : Attended q) (hprocesses : q.processes = ⟨room, .between⟩ ::ₘ others)
    (hqueue : q.queueOf room = []) (hended : Ended q q' room others) : Attended q' := by
  have hsingle := h.single
  rw [hprocesses, map_cons, nodup_cons] at hsingle
  have hrunning : ∀ other item, (⟨other, .persisting item⟩ : Process α) ∈ q'.processes ↔
      ⟨other, .persisting item⟩ ∈ q.processes := by
    intro other item
    rw [hended.processes, hprocesses, mem_cons]
    simp
  have hbatchesOf : ∀ other, q'.batchesOf other = q.batchesOf other := by
    intro other
    unfold batchesOf
    rw [hended.batches]
  refine ⟨?_, fun other => ?_, fun other hnonempty => ?_, fun other item hmem => ?_,
    fun other item hmem => ?_, fun other item hmem => ?_, fun batch outcome => ?_,
    fun d outcome hfired => ?_⟩
  · rw [hended.processes]
    exact hsingle.2
  · rw [hended.persisting, hended.processes, Finset.mem_erase, h.persisting, hprocesses,
      map_cons, mem_cons]
    constructor
    · rintro ⟨hne, hroom | hother⟩
      · exact absurd hroom hne
      · exact hother
    · intro hother
      exact ⟨fun heq => hsingle.1 (heq ▸ hother), Or.inr hother⟩
  · rw [hended.queues] at hnonempty
    rw [hended.persisting, Finset.mem_erase]
    exact ⟨fun heq => hnonempty (heq ▸ hqueue), h.awake other hnonempty⟩
  · rw [hbatchesOf]
    exact h.running other item ((hrunning other item).mp hmem)
  · rw [hbatchesOf] at hmem
    rw [hended.results, hrunning]
    exact h.pending other item hmem
  · rw [hended.queues] at hmem
    rw [hended.results]
    exact h.waiting other item hmem
  · rw [hended.completions, hended.batches, hended.results]
    exact h.completed batch outcome
  · rw [hended.results] at hfired
    rw [hended.created]
    exact h.fired d outcome hfired

/-- The callback is called with the item that waits first. -/
theorem batchesOf_taken (q : PersistenceQueue α ε ρ) {queues : Dict String (List (Item α))}
    {processes : Multiset (Process α)} (other : String) : batchesOf { q with
        eventPersistQueues := queues
        processes := processes
        batches := q.batches ++ [⟨room, item⟩] } other =
      q.batchesOf other ++ if other = room then [item] else [] := by
  unfold batchesOf
  rw [filter_append, map_append]
  congr 1
  by_cases hother : other = room
  · rw [if_pos hother, List.filter_cons_of_pos (by simp [hother])]
    rfl
  · rw [if_neg hother, List.filter_cons_of_neg (by simpa using Ne.symm hother)]
    rfl

/-- **Taking the next item** keeps both invariants. -/
theorem invariant_takeNext (haccounted : Accounted q) (h : Attended q)
    (hprocesses : q.processes = ⟨room, .between⟩ ::ₘ others) :
    (∀ other, (q.takeNext room others).itemsOf other = q.itemsOf other) ∧
      Accounted (q.takeNext room others) ∧ Attended (q.takeNext room others) := by
  rcases takeNext_cases q room others with ⟨hqueue, hended⟩ | ⟨item, items, hqueue, hqueues, htaken⟩
  · exact ⟨hended.itemsOf, haccounted.congr hended.itemsOf hended.submissions hended.created,
      h.ended hprocesses hqueue hended⟩
  have hbatchesOf : ∀ other, (q.takeNext room others).batchesOf other =
      q.batchesOf other ++ if other = room then [item] else [] := by
    intro other
    rw [htaken]
    exact batchesOf_taken q other
  have hitems : ∀ other, (q.takeNext room others).itemsOf other = q.itemsOf other := by
    intro other
    unfold itemsOf
    rw [hbatchesOf, hqueues]
    by_cases hother : other = room
    · rw [if_pos hother, if_pos hother, hother, hqueue]
      simp
    · rw [if_neg hother, if_neg hother, append_nil]
  have hframe : (q.takeNext room others).processes = ⟨room, .persisting item⟩ ::ₘ others ∧
      (q.takeNext room others).currentlyPersistingRooms = q.currentlyPersistingRooms ∧
      (q.takeNext room others).results = q.results ∧
      (q.takeNext room others).completions = q.completions ∧
      (q.takeNext room others).batches = q.batches ++ [⟨room, item⟩] ∧
      (q.takeNext room others).submissions = q.submissions ∧
      (q.takeNext room others).created = q.created := by
    rw [htaken]
    exact ⟨rfl, rfl, rfl, rfl, rfl, rfl, rfl⟩
  obtain ⟨hafter, hpersisting, hresults, hcompletions, hbatches, hsubmissions, hcreated⟩ := hframe
  have hsingle := h.single
  rw [hprocesses, map_cons, nodup_cons] at hsingle
  have hwaiting : q.results.get? item.deferred = none :=
    h.waiting room item (by rw [hqueue]; exact List.mem_cons_self)
  have hrooms : ∀ other, other ∈ (q.takeNext room others).processes.map Process.room ↔
      other ∈ q.processes.map Process.room := by
    intro other
    rw [hafter, hprocesses]
    simp
  have hidle : ∀ item', (⟨room, .persisting item'⟩ : Process α) ∉ others :=
    fun item' hmem => hsingle.1 (Multiset.mem_map.mpr ⟨_, hmem, rfl⟩)
  refine ⟨hitems, haccounted.congr hitems hsubmissions hcreated, ?_, fun other => ?_,
    fun other hnonempty => ?_, fun other item' hmem => ?_, fun other item' hmem => ?_,
    fun other item' hmem => ?_, fun batch outcome => ?_, fun d outcome hfired => ?_⟩
  · rw [hafter, map_cons, nodup_cons]
    exact hsingle
  · rw [hpersisting, hrooms]
    exact h.persisting other
  · rw [hpersisting]
    rw [hqueues] at hnonempty
    by_cases hother : other = room
    · rw [hother]
      exact h.awake room (by simp [hqueue])
    · rw [if_neg hother] at hnonempty
      exact h.awake other hnonempty
  · rw [hbatchesOf]
    rw [hafter, mem_cons] at hmem
    rcases hmem with heq | hmem
    · cases heq
      exact ⟨q.batchesOf room, by rw [if_pos rfl]⟩
    have hother : other ≠ room := fun heq => hidle item' (heq ▸ hmem)
    rw [if_neg hother, append_nil]
    exact h.running other item' (by rw [hprocesses]; exact Multiset.mem_cons_of_mem hmem)
  · rw [hresults, hafter, mem_cons]
    rw [hbatchesOf, mem_append] at hmem
    rcases hmem with hold | hnew
    · rw [h.pending other item' hold, hprocesses, mem_cons]
      constructor
      · rintro (heq | hmem)
        · cases heq
        · exact Or.inr hmem
      rintro (heq | hmem)
      · -- the item that is taken was not taken before
        cases heq
        have hrunning := (h.pending room _ hold).mp hwaiting
        rw [hprocesses, mem_cons] at hrunning
        exact hrunning
      · exact Or.inr hmem
    · by_cases hother : other = room
      · rw [if_pos hother] at hnew
        rw [List.mem_singleton.mp hnew, hother]
        exact iff_of_true hwaiting (Or.inl rfl)
      · rw [if_neg hother] at hnew
        cases hnew
  · rw [hresults]
    rw [hqueues] at hmem
    by_cases hother : other = room
    · rw [if_pos hother] at hmem
      exact h.waiting room item' (by rw [hqueue]; exact List.mem_cons_of_mem _ hmem)
    · rw [if_neg hother] at hmem
      exact h.waiting other item' hmem
  · rw [hcompletions, hbatches, hresults, h.completed, mem_append]
    constructor
    · rintro ⟨hmem, hfired⟩
      exact ⟨Or.inl hmem, hfired⟩
    rintro ⟨hold | hnew, hfired⟩
    · exact ⟨hold, hfired⟩
    · rw [List.mem_singleton.mp hnew, hwaiting] at hfired
      cases hfired
  · rw [hresults] at hfired
    rw [hcreated]
    exact h.fired d outcome hfired

/-- **The end of a batch** keeps both invariants. -/
theorem invariant_complete (haccounted : Accounted q) (h : Attended q)
    (hprocesses : q.processes = ⟨room, .persisting item⟩ ::ₘ others) (outcome : Except ε ρ) :
    q.complete room item outcome others = { q with
        results := q.results.set item.deferred outcome
        processes := ⟨room, .between⟩ ::ₘ others
        completions := q.completions ++ [(⟨room, item⟩, outcome)] } ∧
      Accounted (q.complete room item outcome others) ∧
      Attended (q.complete room item outcome others) := by
  have hrunning : (⟨room, .persisting item⟩ : Process α) ∈ q.processes := by
    rw [hprocesses]
    exact mem_cons_self _ _
  obtain ⟨before, hbefore⟩ := h.running room item hrunning
  have hitem : item ∈ q.batchesOf room := by
    rw [hbefore]
    simp
  have hin : item ∈ q.itemsOf room := mem_append_left _ hitem
  have hnone : q.results.get? item.deferred = none := (h.pending room item hitem).mpr hrunning
  have heq : q.complete room item outcome others = { q with
        results := q.results.set item.deferred outcome
        processes := ⟨room, .between⟩ ::ₘ others
        completions := q.completions ++ [(⟨room, item⟩, outcome)] } := by
    rw [complete, hnone]
  have hsingle := h.single
  rw [hprocesses, map_cons, nodup_cons] at hsingle
  have hidle : ∀ item', (⟨room, .persisting item'⟩ : Process α) ∉ others :=
    fun item' hmem => hsingle.1 (Multiset.mem_map.mpr ⟨_, hmem, rfl⟩)
  rw [heq]
  refine ⟨rfl, haccounted.congr (fun _ => rfl) rfl rfl, ?_, fun other => ?_,
    fun other hnonempty => h.awake other hnonempty, fun other item' hmem => ?_,
    fun other item' hmem => ?_, fun other item' hmem => ?_, fun batch outcome' => ?_,
    fun d outcome' hfired => ?_⟩
  · show (Multiset.map Process.room (⟨room, .between⟩ ::ₘ others)).Nodup
    rw [map_cons, nodup_cons]
    exact hsingle
  · show other ∈ q.currentlyPersistingRooms ↔
      other ∈ Multiset.map Process.room (⟨room, .between⟩ ::ₘ others)
    rw [h.persisting, hprocesses]
    simp
  · refine h.running other item' ?_
    rw [hprocesses]
    rcases Multiset.mem_cons.mp hmem with hcons | hmem
    · cases hcons
    · exact Multiset.mem_cons_of_mem hmem
  · show (q.results.set item.deferred outcome).get? item'.deferred = none ↔
      (⟨other, .persisting item'⟩ : Process α) ∈ ⟨room, .between⟩ ::ₘ others
    rw [get?_set, mem_cons]
    have hpending := h.pending other item' hmem
    rw [hprocesses, mem_cons] at hpending
    by_cases hdeferred : item'.deferred = item.deferred
    · obtain ⟨rfl, rfl⟩ := haccounted.item_inj (mem_append_left _ hmem) hin hdeferred
      exact iff_of_false (by simp) (by simp [hidle])
    rw [if_neg hdeferred, hpending]
    constructor
    · rintro (hcons | hmem)
      · cases hcons
        exact absurd rfl hdeferred
      · exact Or.inr hmem
    · rintro (hcons | hmem)
      · cases hcons
      · exact Or.inr hmem
  · show (q.results.set item.deferred outcome).get? item'.deferred = none
    rw [get?_set, if_neg]
    · exact h.waiting other item' hmem
    intro hdeferred
    obtain ⟨rfl, hsame⟩ := haccounted.item_inj (List.mem_append_right _ hmem) hin hdeferred
    rw [hsame] at hmem
    have hincreasing := haccounted.increasing other
    rw [deferredsOf, itemsOf, map_append, pairwise_append] at hincreasing
    have hlt := hincreasing.2.2 _ (List.mem_map.mpr ⟨_, hitem, rfl⟩) _ (List.mem_map.mpr ⟨_, hmem, rfl⟩)
    exact lt_irrefl _ hlt
  · show (batch, outcome') ∈ q.completions ++ [(⟨room, item⟩, outcome)] ↔ batch ∈ q.batches ∧
      (q.results.set item.deferred outcome).get? batch.item.deferred = some outcome'
    rw [mem_append, h.completed, get?_set, List.mem_singleton, Prod.mk.injEq]
    by_cases hdeferred : batch.item.deferred = item.deferred
    · rw [if_pos hdeferred, hdeferred, hnone]
      constructor
      · rintro (⟨-, hnever⟩ | ⟨rfl, rfl⟩)
        · cases hnever
        · exact ⟨mem_batchesOf.mp hitem, rfl⟩
      rintro ⟨hbatch, houtcome⟩
      have hmem : batch.item ∈ q.batchesOf batch.room := mem_batchesOf.mpr hbatch
      obtain ⟨hroom, hitems⟩ := haccounted.item_inj (mem_append_left _ hmem) hin hdeferred
      refine Or.inr ⟨?_, (Option.some.inj houtcome).symm⟩
      rw [← hroom, ← hitems]
    · rw [if_neg hdeferred]
      constructor
      · rintro (hold | ⟨rfl, -⟩)
        · exact hold
        · exact absurd rfl hdeferred
      · exact Or.inl
  · have hfired' : (q.results.set item.deferred outcome).get? d = some outcome' := hfired
    rcases of_get?_set hfired' with ⟨hd, -⟩ | ⟨-, hfired'⟩
    · rw [hd]
      exact haccounted.fresh room _ (mem_deferredsOf hin)
    · exact h.fired d outcome' hfired'

/-! ## §6 Runs -/

/-- Both invariants. -/
structure Invariant (q : PersistenceQueue α ε ρ) : Prop where
  accounted : Accounted q
  attended : Attended q

theorem Invariant.step {label : Label} (h : Invariant q) (hstep : Step q label q') : Invariant q' := by
  cases hstep with
  | add room task => exact ⟨h.accounted.addToQueue room task, h.attended.addToQueue room task⟩
  | take hprocesses =>
    obtain ⟨-, haccounted, hattended⟩ :=
      invariant_takeNext h.accounted h.attended hprocesses
    exact ⟨haccounted, hattended⟩
  | complete outcome hprocesses =>
    obtain ⟨-, haccounted, hattended⟩ :=
      invariant_complete h.accounted h.attended hprocesses outcome
    exact ⟨haccounted, hattended⟩

theorem Invariant.steps {labels : List Label} (h : Invariant q) (hsteps : Steps q labels q') : Invariant q' := by
  induction hsteps with
  | refl => exact h
  | snoc _ hstep ih => exact ih.step hstep

/-- How many items of a room are to be completed until the one with this deferred is. -/
def ahead (q : PersistenceQueue α ε ρ) (room : String) (deferred : ℕ) : ℕ :=
  ((q.deferredsOf room).filter fun d => (q.results.get? d).isNone && decide (d ≤ deferred)).length

variable {deferred : ℕ}

/-- An item that has no result is itself ahead. -/
theorem ahead_pos (hmem : deferred ∈ q.deferredsOf room) (hnone : q.results.get? deferred = none) :
    0 < q.ahead room deferred := by
  unfold ahead
  rw [List.length_pos_iff_exists_mem]
  exact ⟨deferred, List.mem_filter.mpr ⟨hmem, by simp [hnone]⟩⟩

/-- **The batch that runs is the first without a result.** -/
theorem Invariant.running_first (h : Invariant q)
    (hprocesses : q.processes = ⟨room, .persisting item⟩ ::ₘ others) (hmem : deferred ∈ q.deferredsOf room)
    (hnone : q.results.get? deferred = none) :
    item.deferred ∈ q.deferredsOf room ∧ q.results.get? item.deferred = none ∧
      item.deferred ≤ deferred := by
  have hrunning : (⟨room, .persisting item⟩ : Process α) ∈ q.processes := by
    rw [hprocesses]
    exact mem_cons_self _ _
  obtain ⟨before, hbefore⟩ := h.attended.running room item hrunning
  have hitem : item ∈ q.batchesOf room := by
    rw [hbefore]
    simp
  refine ⟨mem_deferredsOf (mem_append_left _ hitem), (h.attended.pending room item hitem).mpr hrunning, ?_⟩
  obtain ⟨other, hother, rfl⟩ := List.mem_map.mp hmem
  rcases List.mem_append.mp hother with hbatch | hqueued
  · -- two batches of a room do not run at once
    have hpersisting := (h.attended.pending room other hbatch).mp hnone
    obtain ⟨before', hbefore'⟩ := h.attended.running room other hpersisting
    have hsame := List.append_inj' (hbefore.symm.trans hbefore') rfl
    have heq : item = other := by simpa using hsame.2
    rw [heq]
  · have hincreasing := h.accounted.increasing room
    rw [deferredsOf, itemsOf, map_append, pairwise_append] at hincreasing
    exact le_of_lt (hincreasing.2.2 _ (List.mem_map.mpr ⟨item, hitem, rfl⟩) _
      (List.mem_map.mpr ⟨other, hqueued, rfl⟩))

/-- **One step** does not lose an item and puts none ahead of it; each completion in its room brings it
nearer. -/
theorem Invariant.progress {label : Label} (h : Invariant q) (hstep : Step q label q')
    (hmem : deferred ∈ q.deferredsOf room) : deferred ∈ q'.deferredsOf room ∧
      ((q'.results.get? deferred).isSome = true ∨ q.results.get? deferred = none ∧
        q'.ahead room deferred + [label].count (.completed room) ≤ q.ahead room deferred) := by
  have hsame : q'.deferredsOf room = q.deferredsOf room → q'.results = q.results →
      label ≠ .completed room → deferred ∈ q'.deferredsOf room ∧
        ((q'.results.get? deferred).isSome = true ∨ q.results.get? deferred = none ∧
          q'.ahead room deferred + [label].count (.completed room) ≤ q.ahead room deferred) := by
    intro hdeferreds hresults hlabel
    refine ⟨hdeferreds ▸ hmem, ?_⟩
    unfold ahead
    rw [hdeferreds, hresults, List.count_singleton]
    cases q.results.get? deferred with
    | some outcome => exact Or.inl rfl
    | none => exact Or.inr ⟨rfl, by simp [hlabel]⟩
  cases hstep with
  | add room' task =>
    obtain ⟨-, hresults, -⟩ := addToQueue_frame q room' task
    rcases deferredsOf_addToQueue q room' task with ⟨hdeferreds, -⟩ | ⟨happend, -⟩
    · exact hsame (hdeferreds room) hresults (by simp)
    refine ⟨by rw [happend]; exact mem_append_left _ hmem, ?_⟩
    unfold ahead
    rw [happend, hresults, filter_append, List.length_append]
    have hlt := h.accounted.fresh room deferred hmem
    cases q.results.get? deferred with
    | some outcome => exact Or.inl rfl
    | none =>
      refine Or.inr ⟨rfl, ?_⟩
      split
      · rw [List.filter_cons_of_neg (by simp; omega)]
        simp
      · simp
  | @take room' others hprocesses =>
    obtain ⟨hitems, -, -⟩ := invariant_takeNext h.accounted h.attended hprocesses
    have hresults : (q.takeNext room' others).results = q.results := by
      rcases takeNext_cases q room' others with ⟨-, hended⟩ | ⟨item, items, -, -, htaken⟩
      · exact hended.results
      · rw [htaken]
    refine hsame ?_ hresults (by simp)
    unfold deferredsOf
    rw [hitems]
  | @complete room' item others outcome hprocesses =>
    obtain ⟨heq, -, -⟩ := invariant_complete h.accounted h.attended hprocesses outcome
    rw [heq]
    refine ⟨hmem, ?_⟩
    show ((q.results.set item.deferred outcome).get? deferred).isSome = true ∨ _ ∧
      ((q.deferredsOf room).filter fun d => ((q.results.set item.deferred outcome).get? d).isNone &&
        decide (d ≤ deferred)).length + _ ≤ q.ahead room deferred
    have hfilter : ((q.deferredsOf room).filter fun d =>
        ((q.results.set item.deferred outcome).get? d).isNone && decide (d ≤ deferred)) =
        ((q.deferredsOf room).filter fun d =>
          (q.results.get? d).isNone && decide (d ≤ deferred)).filter fun d => d != item.deferred := by
      rw [List.filter_filter]
      refine List.filter_congr fun d _ => ?_
      by_cases hd : d = item.deferred
      · simp [hd]
      · simp [hd]
    rw [hfilter]
    cases hfired : q.results.get? deferred with
    | some before =>
      refine Or.inl ?_
      rw [get?_set]
      split
      · rfl
      · rw [hfired]
        rfl
    | none =>
      refine Or.inr ⟨rfl, ?_⟩
      by_cases hroom : room = room'
      · subst hroom
        -- the batch that ends was ahead of the item, or is the item
        obtain ⟨hin, hnone, hle⟩ := h.running_first hprocesses hmem hfired
        have hahead : item.deferred ∈ (q.deferredsOf room).filter fun d =>
            (q.results.get? d).isNone && decide (d ≤ deferred) :=
          List.mem_filter.mpr ⟨hin, by simp [hnone, hle]⟩
        have hnodup : ((q.deferredsOf room).filter fun d =>
            (q.results.get? d).isNone && decide (d ≤ deferred)).Nodup :=
          ((h.accounted.increasing room).imp ne_of_lt).filter _
        rw [← hnodup.erase_eq_filter, List.length_erase_of_mem hahead, List.count_singleton_self]
        have hpos := ahead_pos hmem hfired
        unfold ahead at hpos ⊢
        omega
      · have hcount : [Label.completed room'].count (.completed room) = 0 := by
          simp [Ne.symm hroom]
        rw [hcount]
        exact List.length_filter_le _ _

/-- **No submission is lost.** In any run that goes on, after as many completions in its room as there
are items ahead of it, an item has its result. -/
theorem Invariant.answered {labels : List Label} (h : Invariant q) (hsteps : Steps q labels q')
    (hmem : deferred ∈ q.deferredsOf room) : deferred ∈ q'.deferredsOf room ∧
      ((q'.results.get? deferred).isSome = true ∨
        q'.ahead room deferred + labels.count (.completed room) ≤ q.ahead room deferred) := by
  induction hsteps with
  | refl => exact ⟨hmem, Or.inr (by simp)⟩
  | snoc hsteps hstep ih =>
    obtain ⟨hmem', hbefore⟩ := ih
    obtain ⟨hmem'', hafter⟩ := (h.steps hsteps).progress hstep hmem'
    refine ⟨hmem'', ?_⟩
    rw [List.count_append]
    rcases hafter with hsome | ⟨hnone, hle'⟩
    · exact Or.inl hsome
    rcases hbefore with hsome | hle
    · rw [hnone] at hsome
      cases hsome
    · exact Or.inr (by omega)

/-- **What the queue promises** in a state. -/
structure Exact (q : PersistenceQueue α ε ρ) : Prop where
  /-- The events of a room have been passed to the callback or wait to be, each once, in the order of
  the calls. -/
  once : ∀ room, (q.batchesOf room).flatMap (fun item => item.task.events) ++
      (q.queueOf room).flatMap (fun item => item.task.events) =
    (q.submissionsOf room).flatMap fun submission => submission.task.events
  /-- A call waits on one item of its room, which has the events of the calls that wait on it. -/
  waits : ∀ submission ∈ q.submissions, ∃ item ∈ q.itemsOf submission.room, item.deferred = submission.deferred ∧
    item.task.events = q.submittedOn submission.room submission.deferred ∧
    ∀ room, ∀ other ∈ q.itemsOf room, other.deferred = submission.deferred → room = submission.room ∧ other = item
  /-- A batch starts when the ones before it have ended. -/
  oneAtATime : ∀ room before item after, q.batchesOf room = before ++ item :: after → after ≠ [] →
    ∃ outcome, (⟨room, item⟩, outcome) ∈ q.completions
  /-- A call is answered with what its batch ended with. -/
  answers : ∀ submission ∈ q.submissions, ∀ outcome, q.results.get? submission.deferred = some outcome ↔
      ∃ item, (⟨submission.room, item⟩, outcome) ∈ q.completions ∧
        item.deferred = submission.deferred
  /-- While a call has no answer, its room has a process that can go on, or that waits for nothing but
  the callback. -/
  awake : ∀ submission ∈ q.submissions, q.results.get? submission.deferred = none →
    (∃ q', Step q (.taken submission.room) q') ∨
      ∀ outcome, ∃ item others, Step q (.completed submission.room) (q.complete submission.room item outcome others)

theorem Invariant.exact (h : Invariant q) : Exact q := by
  refine ⟨fun room => ?_, fun submission hsubmission => ?_,
    fun room before item after hbatches hafter => ?_, fun submission hsubmission outcome => ?_,
    fun submission hsubmission hnone => ?_⟩
  · rw [← h.accounted.events, itemsOf, flatMap_append]
  · obtain ⟨item, hitem, hdeferred⟩ := List.mem_map.mp (h.accounted.waits submission hsubmission)
    refine ⟨item, hitem, hdeferred, ?_, fun room other hother heq => ?_⟩
    · rw [← hdeferred]
      exact h.accounted.contents _ item hitem
    · exact h.accounted.item_inj hother hitem (heq.trans hdeferred.symm)
  · have hitem : item ∈ q.batchesOf room := by
      rw [hbatches]
      simp
    cases hresult : q.results.get? item.deferred with
    | some outcome =>
      exact ⟨outcome, (h.attended.completed _ _).mpr ⟨mem_batchesOf.mp hitem, hresult⟩⟩
    | none =>
      -- only the last batch of a room can be running
      obtain ⟨front, hfront⟩ :=
        h.attended.running room item ((h.attended.pending room item hitem).mp hresult)
      obtain ⟨middle, last, rfl⟩ := (List.eq_nil_or_concat after).resolve_left hafter
      rw [hbatches, List.concat_eq_append, ← List.cons_append, ← append_assoc] at hfront
      have hlast : last = item := by simpa using (List.append_inj' hfront rfl).2
      have hincreasing := h.accounted.increasing room
      rw [deferredsOf, itemsOf, hbatches, hlast] at hincreasing
      simp only [pairwise_append, List.concat_eq_append, map_append, List.map_cons,
        List.pairwise_cons, mem_append, List.mem_cons] at hincreasing
      exact absurd (hincreasing.1.2.1.1 item.deferred (Or.inr (Or.inl rfl))) (lt_irrefl _)
  · constructor
    · intro hresult
      obtain ⟨item, hitem, hdeferred⟩ := List.mem_map.mp (h.accounted.waits submission hsubmission)
      rw [← hdeferred] at hresult
      refine ⟨item, (h.attended.completed _ _).mpr ⟨?_, hresult⟩, hdeferred⟩
      rcases List.mem_append.mp hitem with hbatch | hqueued
      · exact mem_batchesOf.mp hbatch
      · rw [h.attended.waiting _ item hqueued] at hresult
        cases hresult
    · rintro ⟨item, hcompleted, hdeferred⟩
      rw [← hdeferred]
      exact ((h.attended.completed _ _).mp hcompleted).2
  · have hprocess : submission.room ∈ q.processes.map Process.room := by
      obtain ⟨item, hitem, hdeferred⟩ := List.mem_map.mp (h.accounted.waits submission hsubmission)
      rw [← hdeferred] at hnone
      rcases List.mem_append.mp hitem with hbatch | hqueued
      · have hrunning := (h.attended.pending _ item hbatch).mp hnone
        exact Multiset.mem_map.mpr ⟨_, hrunning, rfl⟩
      · exact (h.attended.persisting _).mp (h.attended.awake _ (List.ne_nil_of_mem hqueued))
    obtain ⟨process, hprocess, hroom⟩ := Multiset.mem_map.mp hprocess
    obtain ⟨others, hothers⟩ := Multiset.exists_cons_of_mem hprocess
    obtain ⟨room, position⟩ := process
    obtain rfl : room = submission.room := hroom
    cases position with
    | between => exact Or.inl ⟨_, .take hothers⟩
    | persisting item => exact Or.inr fun outcome => ⟨item, others, .complete outcome hothers⟩

/-- **The queue neither loses nor repeats work.** In every state of every run it keeps its promise, and
however the run goes on from there, a call has its answer after as many completions in its room as there
were items ahead of its own. -/
theorem persistenceQueue_exact {q : PersistenceQueue α ε ρ} {labels : List Label} (h : Steps new labels q) :
    Exact q ∧ ∀ labels' q', Steps q labels' q' → ∀ submission ∈ q.submissions,
      q.ahead submission.room submission.deferred ≤ labels'.count (.completed submission.room) →
      ∃ outcome, q'.results.get? submission.deferred = some outcome := by
  have hinvariant := Invariant.steps ⟨accounted_new, attended_new⟩ h
  refine ⟨hinvariant.exact, fun labels' q' hsteps submission hsubmission hcount => ?_⟩
  have hwaits := hinvariant.accounted.waits submission hsubmission
  obtain ⟨hmem, hanswered⟩ := hinvariant.answered hsteps hwaits
  rw [← Option.isSome_iff_exists]
  by_contra hnot
  have hpos := ahead_pos hmem (Option.not_isSome_iff_eq_none.mp hnot)
  have hle := hanswered.resolve_left hnot
  omega

/-- Two calls, the second merged into the first while nothing runs yet. -/
theorem persistenceQueue_exact_example : Exact (((new : PersistenceQueue ℕ String ℕ).addToQueue "!room:s"
      (.persistEvents [1] false)).addToQueue "!room:s" (.persistEvents [2, 3] false)) :=
  (persistenceQueue_exact (.snoc (.snoc (.refl _) (.add _ _ _)) (.add _ _ _))).1

end PersistenceQueue

end Setka.Storage.Controllers
