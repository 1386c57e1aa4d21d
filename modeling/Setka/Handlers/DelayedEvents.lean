/-
# Setka.Handlers.DelayedEvents — delayed events, sent once or cancelled.

Every operation on a delayed event is one transaction on its row, and `is_processed` decides between them:
whoever marks a row has the event to send. Batches that time out and single events that a client asks for
are sent concurrently, one `await` at a time, while the process may stop at any moment; after that only the
table is left, and start-up selects what is due once more, marked or not.

The timer is left open: a time-out may come at any moment. It reads the clock and looks up what is due by
itself. Nor is it said what the state deltas are that cancel delayed events for the same state.
-/
import Setka.Lib.Transition
import Setka.Storage.DelayedEvents

namespace Setka.Handlers.DelayedEvents

open Setka.Lib Setka.Storage.DelayedEvents Dict
open List (mem_of_getElem? not_mem_nil mem_cons_self mem_cons_of_mem)

/-! ## §1 Tasks -/

/-- Where the sending of events stands: between two of them, with states still to delete the rows of; in the
attempt to send one; or before its row is deleted. -/
inductive Phase
  | cleaning (todo : List StateInfo)
  | sending (e : Details)
  | deleting (e : Details) (succeeded : Bool)
  deriving DecidableEq

/-- The event that is with `_send_event`. -/
def Phase.current : Phase → Option String
  | .cleaning _ => none
  | .sending e => some e.1
  | .deleting e _ => some e.1

/-- The states whose rows are still to be deleted. -/
def Phase.todo : Phase → List StateInfo
  | .cleaning todo => todo
  | _ => []

/-- A call of `_send_events`, which has the time that its batch was looked up with, or of `send`. -/
structure Task where
  dueAt : Option ℤ
  rest : List Details
  phase : Phase
  sentState : List StateInfo
  deriving DecidableEq

/-- The event is in the batch and not sent yet, or being sent. -/
def Task.Holds (t : Task) (delayId : String) : Prop :=
  delayId ∈ t.rest.map Prod.fst ∨ t.phase.current = some delayId

instance (t : Task) (delayId : String) : Decidable (t.Holds delayId) :=
  inferInstanceAs (Decidable (_ ∨ _))

/-- An event that was handed to `_send_event`. -/
structure Handing where
  delayId : String
  dueAt : Option ℤ
  deriving DecidableEq

/-- The table, the tasks of the process that is running, and whether its start-up has finished. What has
happened is recorded: `used` and `cancelled` since ever, `deadline` as last restarted, `handed` by this
process. -/
structure World where
  table : Table
  initialized : Bool
  tasks : List Task
  used : List String
  cancelled : List String
  deadline : Dict String ℤ
  handed : List Handing

/-- A request, a state delta, a time-out, a step of a task, or the end of the process. -/
inductive Action
  | add (delayId : String) (creationTs : ℤ) (e : DelayedEvent)
  | restart (delayId : String) (currentTs : ℤ)
  | cancel (delayId : String)
  | cancelState (info : StateInfo) (notFromLocalpart : String)
  | send (delayId : String)
  | timeout (currentTs : ℤ)
  | startUp (currentTs : ℤ)
  | next (task : ℕ)
  | sent (task : ℕ) (succeeds : Bool)
  | deleteRow (task : ℕ)
  | cleanState (task : ℕ)
  | stop

namespace World

/-- `restart` and `cancel` answer with an error when there is no such event that is pending. -/
def restart (delayId : String) (currentTs : ℤ) (w : World) : World :=
  match restartDelayedEvent delayId currentTs w.table, w.table.get? delayId with
  | some table, some e => { w with table, deadline := w.deadline.set delayId (currentTs + e.delay) }
  | _, _ => w

def add (delayId : String) (creationTs : ℤ) (e : DelayedEvent) (w : World) : World :=
  { w with
    table := addDelayedEvent delayId creationTs e w.table
    used := delayId :: w.used
    deadline := w.deadline.set delayId (creationTs + e.delay) }

def cancel (delayId : String) (w : World) : World :=
  match cancelDelayedEvent delayId w.table with
  | some table => { w with table, cancelled := delayId :: w.cancelled }
  | none => w

def cancelState (info : StateInfo) (notFromLocalpart : String) (w : World) : World :=
  { w with
    table := cancelDelayedStateEvents info notFromLocalpart w.table
    cancelled := (w.table.items.filter fun row => isCancelledBy info notFromLocalpart row.2).map Prod.fst ++
      w.cancelled }

/-- Rows have been marked, and a task has the events. -/
def start (dueAt : Option ℤ) (marked : List Details × Table) (w : World) : World :=
  { w with table := marked.2, tasks := w.tasks ++ [⟨dueAt, marked.1, .cleaning [], []⟩] }

def send (delayId : String) (w : World) : World :=
  match processTargetDelayedEvent delayId w.table with
  | some (e, table) => w.start none ([e], table)
  | none => w

def timeout (currentTs : ℤ) (w : World) : World :=
  w.start (some currentTs) (processTimeoutDelayedEvents currentTs false w.table)

def startUp (currentTs : ℤ) (w : World) : World :=
  { w.start (some currentTs) (processTimeoutDelayedEvents currentTs true w.table) with initialized := true }

def setTask (i : ℕ) (t : Task) (w : World) : World := { w with tasks := w.tasks.set i t }

/-- The loop of `_send_events` comes to an event: it is skipped when one for the same state was sent, else
handed to `_send_event`. -/
def next (i : ℕ) (t : Task) (e : Details) (rest : List Details) (w : World) : World :=
  if ∃ info, e.2.stateInfo? = some info ∧ info ∈ t.sentState then w.setTask i { t with rest }
  else { w.setTask i { t with rest, phase := .sending e } with handed := ⟨e.1, t.dueAt⟩ :: w.handed }

/-- The states sent once the row of an event is deleted. -/
def sentAfter (t : Task) (e : Details) (succeeded : Bool) : List StateInfo :=
  match e.2.stateInfo?, t.dueAt with
  | some info, some _ => if succeeded then t.sentState.insert info else t.sentState
  | _, _ => t.sentState

def deleteRow (i : ℕ) (t : Task) (e : Details) (succeeded : Bool) (w : World) : World :=
  { w.setTask i { t with
      phase := .cleaning (sentAfter t e succeeded)
      sentState := sentAfter t e succeeded } with
    table := deleteProcessedDelayedEvent e.1 w.table }

def cleanState (i : ℕ) (t : Task) (info : StateInfo) (todo : List StateInfo) (w : World) : World :=
  { w.setTask i { t with phase := .cleaning todo } with
    table := deleteProcessedDelayedStateEvents info w.table }

/-- The process stops, and another one starts. -/
def stop (w : World) : World := { w with initialized := false, tasks := [], handed := [] }

/-- One step. `cancel` and `send` wait until start-up has finished. -/
def step (w : World) : Action → Option World
  | .add delayId creationTs e => if delayId ∈ w.used then none else some (w.add delayId creationTs e)
  | .restart delayId currentTs => some (w.restart delayId currentTs)
  | .cancel delayId => if w.initialized then some (w.cancel delayId) else none
  | .cancelState info notFromLocalpart => some (w.cancelState info notFromLocalpart)
  | .send delayId => if w.initialized then some (w.send delayId) else none
  | .timeout currentTs => some (w.timeout currentTs)
  | .startUp currentTs => if w.initialized then none else some (w.startUp currentTs)
  | .next i =>
    match w.tasks[i]? with
    | some ⟨dueAt, e :: rest, .cleaning [], sentState⟩ =>
      some (w.next i ⟨dueAt, e :: rest, .cleaning [], sentState⟩ e rest)
    | _ => none
  | .sent i succeeds =>
    match w.tasks[i]? with
    | some ⟨dueAt, rest, .sending e, sentState⟩ =>
      some (w.setTask i ⟨dueAt, rest, .deleting e succeeds, sentState⟩)
    | _ => none
  | .deleteRow i =>
    match w.tasks[i]? with
    | some ⟨dueAt, rest, .deleting e succeeded, sentState⟩ =>
      some (w.deleteRow i ⟨dueAt, rest, .deleting e succeeded, sentState⟩ e succeeded)
    | _ => none
  | .cleanState i =>
    match w.tasks[i]? with
    | some ⟨dueAt, rest, .cleaning (info :: todo), sentState⟩ =>
      some (w.cleanState i ⟨dueAt, rest, .cleaning (info :: todo), sentState⟩ info todo)
    | _ => none
  | .stop => some w.stop

def run (w : World) (actions : List Action) : Option World := actions.foldlM step w

/-- The process has just started: it has no tasks, and the table is what others left. -/
structure Start (w : World) : Prop where
  starting : w.initialized = false ∧ w.tasks = [] ∧ w.handed = []
  known : ∀ id e, w.table.get? id = some e → id ∈ w.used
  deadline : ∀ id e, w.table.get? id = some e → w.deadline.get? id = some e.sendTs
  present : ∀ id e, w.table.get? id = some e → id ∉ w.cancelled
  gone : ∀ id ∈ w.cancelled, id ∈ w.used

/-- **What is asked of every state**: no event was handed out twice or after it was cancelled, or by a
time-out before its send time; and once start-up has finished, a row that is marked is being sent. -/
structure Safe (w : World) : Prop where
  once : (w.handed.map Handing.delayId).Nodup
  notCancelled : ∀ h ∈ w.handed, h.delayId ∉ w.cancelled
  notEarly : ∀ h ∈ w.handed, ∀ dueAt, h.dueAt = some dueAt → ∀ d, w.deadline.get? h.delayId = some d → d ≤ dueAt
  notLost : w.initialized = true → ∀ id e, w.table.get? id = some e → e.isProcessed = true →
    ∃ t ∈ w.tasks, t.Holds id

/-- **Start-up selects what nobody has**: of the rows that are marked, it finds due exactly those that no task
of this process has. -/
def SelectsOrphans (w : World) : Action → Prop
  | .startUp currentTs => ∀ row ∈ w.table.items, row.2.isProcessed = true →
      (row.2.sendTs ≤ currentTs ↔ ¬ ∃ t ∈ w.tasks, t.Holds row.1)
  | _ => True

/-! ## §2 Who has an event -/

/-- A task of this process has the event, or had it. -/
def Taken (w : World) (id : String) : Prop :=
  (∃ h ∈ w.handed, h.delayId = id) ∨ ∃ t ∈ w.tasks, t.Holds id

/-- How often an event is, or is still to be, handed to `_send_event`. -/
def tickets (w : World) (id : String) : ℕ :=
  (w.tasks.flatMap fun t => t.rest.map Prod.fst).count id + (w.handed.map Handing.delayId).count id

/-- **The row decides**: an event that a task has or had is marked in its row, if the row is still there, and
is with `_send_event` once it was handed over; each event is handed over at most once. -/
structure Inv (w : World) : Prop where
  known : ∀ id e, w.table.get? id = some e → id ∈ w.used
  deadline : ∀ id e, w.table.get? id = some e → w.deadline.get? id = some e.sendTs
  present : ∀ id e, w.table.get? id = some e → id ∉ w.cancelled
  gone : ∀ id ∈ w.cancelled, id ∈ w.used
  tickets : ∀ id, w.tickets id ≤ 1
  taken : ∀ id, w.Taken id → id ∈ w.used ∧ id ∉ w.cancelled ∧
    ∀ e, w.table.get? id = some e → e.isProcessed = true
  sending : ∀ h ∈ w.handed, ∀ e, w.table.get? h.delayId = some e → ∃ t ∈ w.tasks, t.phase.current = some h.delayId
  onTime : ∀ t ∈ w.tasks, ∀ dueAt, t.dueAt = some dueAt → ∀ e ∈ t.rest, ∀ d,
    w.deadline.get? e.1 = some d → d ≤ dueAt
  handedOnTime : ∀ h ∈ w.handed, ∀ dueAt, h.dueAt = some dueAt → ∀ d, w.deadline.get? h.delayId = some d → d ≤ dueAt
  details : ∀ t ∈ w.tasks, ∀ e ∈ t.rest, ∀ e', w.table.get? e.1 = some e' → e'.stateInfo? = e.2.stateInfo?
  cleaned : ∀ t ∈ w.tasks, ∀ e ∈ t.rest, ∀ info ∈ t.sentState, info ∉ t.phase.todo →
    e.2.stateInfo? = some info → w.table.get? e.1 = none
  notLost : w.initialized = true → ∀ id e, w.table.get? id = some e → e.isProcessed = true →
    ∃ t ∈ w.tasks, t.Holds id

variable {w : World}

theorem Inv.safe (h : Inv w) : Safe w where
  once := by
    refine List.nodup_iff_count_le_one.mpr fun id => ?_
    have hid := h.tickets id
    unfold World.tickets at hid
    omega
  notCancelled := fun x hx => (h.taken x.delayId (.inl ⟨x, hx, rfl⟩)).2.1
  notEarly := h.handedOnTime
  notLost := h.notLost

theorem Start.inv (h : Start w) : Inv w := by
  obtain ⟨hnot, htasks, hhanded⟩ := h.starting
  refine ⟨h.known, h.deadline, h.present, h.gone, fun id => ?_, fun id htaken => ?_, ?_, ?_, ?_, ?_, ?_, ?_⟩
  · rw [World.tickets, htasks, hhanded]
    exact Nat.zero_le 1
  · rcases htaken with ⟨x, hx, -⟩ | ⟨t, ht, -⟩
    · rw [hhanded] at hx
      cases hx
    · rw [htasks] at ht
      cases ht
  · rw [hhanded]
    exact fun x hx => absurd hx not_mem_nil
  · rw [htasks]
    exact fun t ht => absurd ht not_mem_nil
  · rw [hhanded]
    exact fun x hx => absurd hx not_mem_nil
  · rw [htasks]
    exact fun t ht => absurd ht not_mem_nil
  · rw [htasks]
    exact fun t ht => absurd ht not_mem_nil
  · intro hinit
    rw [hnot] at hinit
    cases hinit

variable {id : String} {e : DelayedEvent}

/-- An event that is pending is free. -/
theorem Inv.not_taken (h : Inv w) (he : w.table.get? id = some e)
    (hpending : e.isProcessed = false) : ¬ w.Taken id := fun htaken => by
  rw [(h.taken id htaken).2.2 e he] at hpending
  cases hpending

/-- An event in the table that nobody has is free, marked or not. -/
theorem Inv.not_taken_of_not_holds (h : Inv w) (he : w.table.get? id = some e)
    (hnot : ¬ ∃ t ∈ w.tasks, t.Holds id) : ¬ w.Taken id := by
  rintro (⟨x, hx, rfl⟩ | hholds)
  · obtain ⟨t, ht, hcurrent⟩ := h.sending x hx e he
    exact hnot ⟨t, ht, .inr hcurrent⟩
  · exact hnot hholds

theorem tickets_eq_zero (h : ¬ w.Taken id) : w.tickets id = 0 := by
  rw [World.tickets, Nat.add_eq_zero_iff]
  constructor
  · refine List.count_eq_zero.mpr fun hin => ?_
    obtain ⟨t, ht, hrest⟩ := List.mem_flatMap.mp hin
    exact h (.inr ⟨t, ht, .inl hrest⟩)
  refine List.count_eq_zero.mpr fun hin => ?_
  obtain ⟨x, hx, hid⟩ := List.mem_map.mp hin
  exact h (.inl ⟨x, hx, hid⟩)

variable {i : ℕ} {t : Task}

/-- What the tasks have together, when one of them is replaced. -/
theorem count_flatMap_set {l : List Task} (f : Task → List String) (h : l[i]? = some t) (t' : Task) (id : String) :
    ((l.set i t').flatMap f).count id + (f t).count id = (l.flatMap f).count id + (f t').count id := by
  induction l generalizing i with
  | nil => cases h
  | cons x l ih =>
    cases i with
    | zero =>
      obtain rfl : x = t := Option.some.inj h
      simp only [List.set_cons_zero, List.flatMap_cons, List.count_append]
      omega
    | succ i =>
      have hrest := ih (i := i) h
      simp only [List.set_cons_succ, List.flatMap_cons, List.count_append]
      omega

/-- Among the tasks, the one that replaces another may stand in for it. -/
theorem exists_mem_set {l : List Task} {t' : Task} {P : Task → Prop} (h : l[i]? = some t) (hP : ∃ x ∈ l, P x)
    (htt' : P t → P t') : ∃ x ∈ l.set i t', P x := by
  obtain ⟨x, hx, hPx⟩ := hP
  obtain ⟨j, hj⟩ := List.getElem?_of_mem hx
  by_cases hij : i = j
  · subst hij
    obtain rfl : t = x := Option.some.inj (h.symm.trans hj)
    refine ⟨t', mem_of_getElem? (i := i) ?_, htt' hPx⟩
    rw [List.getElem?_set_self (List.getElem?_eq_some_iff.mp h).1]
  · refine ⟨x, mem_of_getElem? (i := j) ?_, hPx⟩
    rw [List.getElem?_set_ne hij]
    exact hj

/-! ## §3 Steps on the table -/

/-- A row is written that is pending: a new one, or one that is restarted. -/
theorem Inv.write (h : Inv w) (hfree : ¬ w.Taken id) (hcancelled : id ∉ w.cancelled)
    (hpending : e.isProcessed = false) {used : List String} (hid : id ∈ used) (hused : ∀ x ∈ w.used, x ∈ used) :
    Inv { w with table := w.table.set id e, used, deadline := w.deadline.set id e.sendTs } := by
  have hne : ∀ x, w.Taken x → x ≠ id := fun x hx heq => hfree (heq ▸ hx)
  have hheld : ∀ t ∈ w.tasks, ∀ e ∈ t.rest, e.1 ≠ id := fun t ht e he =>
    hne e.1 (.inr ⟨t, ht, .inl (List.mem_map_of_mem he)⟩)
  have hhanded : ∀ x ∈ w.handed, x.delayId ≠ id := fun x hx => hne x.delayId (.inl ⟨x, hx, rfl⟩)
  refine ⟨fun x e' he' => ?_, fun x e' he' => ?_, fun x e' he' => ?_, fun x hx => hused x (h.gone x hx),
    h.tickets, fun x hx => ?_, fun x hx e' he' => ?_, fun t ht dueAt hdue e' he' d hd => ?_,
    fun x hx dueAt hdue d hd => ?_, fun t ht e' he' e'' he'' => ?_, fun t ht e' he' info hinfo htodo hof => ?_,
    fun hinit x e' he' hp => ?_⟩
  · rcases of_get?_set he' with ⟨heq, -⟩ | ⟨-, he'⟩
    · rw [heq]
      exact hid
    · exact hused x (h.known x e' he')
  · show (w.deadline.set id e.sendTs).get? x = some e'.sendTs
    rw [get?_set] at he' ⊢
    split at he'
    · rename_i heq
      rw [if_pos heq, ← Option.some.inj he']
    rename_i hother
    rw [if_neg hother]
    exact h.deadline x e' he'
  · rcases of_get?_set he' with ⟨heq, -⟩ | ⟨-, he'⟩
    · rw [heq]
      exact hcancelled
    · exact h.present x e' he'
  · obtain ⟨hxused, hxcancelled, hmarked⟩ := h.taken x hx
    refine ⟨hused x hxused, hxcancelled, fun e' he' => ?_⟩
    rw [get?_set, if_neg (hne x hx)] at he'
    exact hmarked e' he'
  · rw [get?_set, if_neg (hhanded x hx)] at he'
    exact h.sending x hx e' he'
  · rw [get?_set, if_neg (hheld t ht e' he')] at hd
    exact h.onTime t ht dueAt hdue e' he' d hd
  · rw [get?_set, if_neg (hhanded x hx)] at hd
    exact h.handedOnTime x hx dueAt hdue d hd
  · rw [get?_set, if_neg (hheld t ht e' he')] at he''
    exact h.details t ht e' he' e'' he''
  · rw [get?_set, if_neg (hheld t ht e' he')]
    exact h.cleaned t ht e' he' info hinfo htodo hof
  · rw [get?_set] at he'
    split at he'
    · rw [← Option.some.inj he', hpending] at hp
      cases hp
    · exact h.notLost hinit x e' he' hp

variable {table : Table}

/-- Rows are deleted; those that are cancelled were pending. -/
theorem Inv.shrink (h : Inv w) (hshrinks : Shrinks w.table table) {cancelled : List String}
    (hold : ∀ id ∈ cancelled, id ∉ w.cancelled → ∃ e, w.table.get? id = some e ∧ e.isProcessed = false)
    (hgone : ∀ id ∈ cancelled, id ∉ w.cancelled → table.get? id = none) : Inv { w with table, cancelled } := by
  have hpending : ∀ id, w.Taken id → id ∉ cancelled := fun id htaken hin => by
    by_cases hbefore : id ∈ w.cancelled
    · exact (h.taken id htaken).2.1 hbefore
    · obtain ⟨e, he, hp⟩ := hold id hin hbefore
      exact h.not_taken he hp htaken
  refine ⟨fun id e he => h.known id e (hshrinks id e he), fun id e he => h.deadline id e (hshrinks id e he),
    fun id e he hin => ?_, fun id hin => ?_, h.tickets, fun id htaken => ?_,
    fun x hx e he => h.sending x hx e (hshrinks _ e he), h.onTime, h.handedOnTime,
    fun t ht e he e' he' => h.details t ht e he e' (hshrinks _ e' he'),
    fun t ht e he info hinfo htodo hof => ?_,
    fun hinit id e he hp => h.notLost hinit id e (hshrinks id e he) hp⟩
  · by_cases hbefore : id ∈ w.cancelled
    · exact h.present id e (hshrinks id e he) hbefore
    · have hnone := hgone id hin hbefore
      rw [show table.get? id = some e from he] at hnone
      cases hnone
  · by_cases hbefore : id ∈ w.cancelled
    · exact h.gone id hbefore
    · obtain ⟨e, he, -⟩ := hold id hin hbefore
      exact h.known id e he
  · obtain ⟨hused, -, hmarked⟩ := h.taken id htaken
    exact ⟨hused, hpending id htaken, fun e he => hmarked e (hshrinks id e he)⟩
  · have hnone := h.cleaned t ht e he info hinfo htodo hof
    cases hget : table.get? e.1 with
    | none => rfl
    | some e' =>
      rw [hshrinks _ e' hget] at hnone
      cases hnone

variable {dueAt : Option ℤ}

/-- **Marking**: events that are free are marked and given to a new task. -/
theorem Inv.mark (h : Inv w) {batch : List Details} {initialized : Bool}
    (hbatch : ∀ row ∈ batch, w.table.get? row.1 = some row.2 ∧ ¬ w.Taken row.1)
    (hnodup : (batch.map Prod.fst).Nodup) (hdue : ∀ now, dueAt = some now → ∀ row ∈ batch, row.2.sendTs ≤ now)
    (htable : ∀ id e', table.get? id = some e' → ∃ e, w.table.get? id = some e ∧
      e'.sendTs = e.sendTs ∧ e'.stateInfo? = e.stateInfo? ∧
      (e'.isProcessed = true ↔ e.isProcessed = true ∨ id ∈ batch.map Prod.fst))
    (hnotLost : initialized = true → ∀ id e, w.table.get? id = some e → e.isProcessed = true →
      id ∈ batch.map Prod.fst ∨ ∃ t ∈ w.tasks, t.Holds id) :
    Inv { w with table, initialized, tasks := w.tasks ++ [⟨dueAt, batch, .cleaning [], []⟩] } := by
  have hmem : ∀ t, t ∈ w.tasks ++ [⟨dueAt, batch, .cleaning [], []⟩] ↔
      t ∈ w.tasks ∨ t = ⟨dueAt, batch, .cleaning [], []⟩ := fun t => by
    rw [List.mem_append, List.mem_singleton]
  have hin : ∀ id, id ∈ batch.map Prod.fst → ∃ e, w.table.get? id = some e ∧ ¬ w.Taken id := fun id hid => by
    obtain ⟨row, hrow, rfl⟩ := List.mem_map.mp hid
    exact ⟨row.2, hbatch row hrow⟩
  have hnone : ∀ id, w.table.get? id = none → table.get? id = none := fun id hid => by
    cases hget : table.get? id with
    | none => rfl
    | some e' =>
      obtain ⟨e, he, -⟩ := htable id e' hget
      rw [hid] at he
      cases he
  refine ⟨fun id e' he' => ?_, fun id e' he' => ?_, fun id e' he' => ?_, h.gone, fun id => ?_,
    fun id htaken => ?_, fun x hx e' he' => ?_, fun t ht now hnow row hrow d hd => ?_, h.handedOnTime,
    fun t ht row hrow e' he' => ?_, fun t ht row hrow info hinfo htodo hof => ?_,
    fun hinit id e' he' hp => ?_⟩
  · obtain ⟨e, he, -⟩ := htable id e' he'
    exact h.known id e he
  · obtain ⟨e, he, hts, -⟩ := htable id e' he'
    rw [hts]
    exact h.deadline id e he
  · obtain ⟨e, he, -⟩ := htable id e' he'
    exact h.present id e he
  · -- the batch has an event at most once, and nobody else has it
    show ((w.tasks ++ [(⟨dueAt, batch, .cleaning [], []⟩ : Task)]).flatMap fun t => t.rest.map Prod.fst).count id +
      (w.handed.map Handing.delayId).count id ≤ 1
    rw [List.flatMap_append, List.count_append, List.flatMap_singleton]
    dsimp only
    have hold := h.tickets id
    have hone := List.nodup_iff_count_le_one.mp hnodup id
    by_cases hid : id ∈ batch.map Prod.fst
    · obtain ⟨e, -, hfree⟩ := hin id hid
      have hzero := tickets_eq_zero hfree
      unfold World.tickets at hzero
      omega
    · have hzero := List.count_eq_zero.mpr hid
      unfold World.tickets at hold
      omega
  · by_cases hid : id ∈ batch.map Prod.fst
    · obtain ⟨e, he, -⟩ := hin id hid
      refine ⟨h.known id e he, h.present id e he, fun e' he' => ?_⟩
      obtain ⟨e₀, -, -, -, hiff⟩ := htable id e' he'
      exact hiff.mpr (.inr hid)
    · have hbefore : w.Taken id := by
        rcases htaken with hhanded | ⟨t, ht, hholds⟩
        · exact .inl hhanded
        rcases (hmem t).mp ht with ht | rfl
        · exact .inr ⟨t, ht, hholds⟩
        rcases hholds with hrest | hcurrent
        · exact absurd hrest hid
        · cases hcurrent
      obtain ⟨hused, hcancelled, hmarked⟩ := h.taken id hbefore
      refine ⟨hused, hcancelled, fun e' he' => ?_⟩
      obtain ⟨e, he, -, -, hiff⟩ := htable id e' he'
      exact hiff.mpr (.inl (hmarked e he))
  · obtain ⟨e, he, -⟩ := htable x.delayId e' he'
    obtain ⟨t, ht, hcurrent⟩ := h.sending x hx e he
    exact ⟨t, (hmem t).mpr (.inl ht), hcurrent⟩
  · rcases (hmem t).mp ht with ht | rfl
    · exact h.onTime t ht now hnow row hrow d hd
    · obtain ⟨he, -⟩ := hbatch row hrow
      obtain rfl : row.2.sendTs = d := Option.some.inj ((h.deadline row.1 row.2 he).symm.trans hd)
      exact hdue now hnow row hrow
  · obtain ⟨e, he, -, hinfo, -⟩ := htable row.1 e' he'
    rw [hinfo]
    rcases (hmem t).mp ht with ht | rfl
    · exact h.details t ht row hrow e he
    · obtain rfl : row.2 = e := Option.some.inj ((hbatch row hrow).1.symm.trans he)
      rfl
  · rcases (hmem t).mp ht with ht | rfl
    · exact hnone row.1 (h.cleaned t ht row hrow info hinfo htodo hof)
    · exact absurd hinfo not_mem_nil
  · obtain ⟨e, he, -, -, hiff⟩ := htable id e' he'
    have hhas : id ∈ batch.map Prod.fst ∨ ∃ t ∈ w.tasks, t.Holds id := by
      rcases hiff.mp hp with hprocessed | hid
      · exact hnotLost hinit id e he hprocessed
      · exact .inl hid
    rcases hhas with hid | ⟨t, ht, hholds⟩
    · exact ⟨_, (hmem _).mpr (.inr rfl), .inl hid⟩
    · exact ⟨t, (hmem t).mpr (.inl ht), hholds⟩

/-! ## §4 Steps of a task -/

/-- A task goes on without handing anything over. -/
theorem Inv.setTask (h : Inv w) {t' : Task} (hi : w.tasks[i]? = some t) (hdue : t'.dueAt = t.dueAt)
    (hrest : t'.rest.Sublist t.rest) (hholds : ∀ id, t'.Holds id → t.Holds id)
    (hreleased : ∀ id e, w.table.get? id = some e → t.Holds id → t'.Holds id)
    (hcurrent : ∀ id e, w.table.get? id = some e → t.phase.current = some id → t'.phase.current = some id)
    (hcleaned : ∀ e ∈ t'.rest, ∀ info ∈ t'.sentState, info ∉ t'.phase.todo → e.2.stateInfo? = some info →
      w.table.get? e.1 = none) : Inv (w.setTask i t') := by
  have ht := mem_of_getElem? hi
  have hmem : ∀ x ∈ w.tasks.set i t', x ∈ w.tasks ∨ x = t' := fun x hx => List.mem_or_eq_of_mem_set hx
  refine ⟨h.known, h.deadline, h.present, h.gone, fun id => ?_, fun id htaken => ?_, fun x hx e he => ?_,
    fun x hx dueAt hdueAt e he d hd => ?_, h.handedOnTime, fun x hx e he e' he' => ?_,
    fun x hx e he info hinfo htodo hof => ?_, fun hinit id e he hp => ?_⟩
  · show ((w.tasks.set i t').flatMap fun t => t.rest.map Prod.fst).count id +
      (w.handed.map Handing.delayId).count id ≤ 1
    have hset := count_flatMap_set (fun t => t.rest.map Prod.fst) hi t' id
    have hless := (hrest.map Prod.fst).count_le id
    have hold := h.tickets id
    unfold World.tickets at hold
    omega
  · refine h.taken id (htaken.imp_right ?_)
    rintro ⟨x, hx, hxholds⟩
    rcases hmem x hx with hx | rfl
    · exact ⟨x, hx, hxholds⟩
    · exact ⟨t, ht, hholds id hxholds⟩
  · exact exists_mem_set hi (h.sending x hx e he) (hcurrent x.delayId e he)
  · rcases hmem x hx with hx | rfl
    · exact h.onTime x hx dueAt hdueAt e he d hd
    · rw [hdue] at hdueAt
      exact h.onTime t ht dueAt hdueAt e (hrest.subset he) d hd
  · rcases hmem x hx with hx | rfl
    · exact h.details x hx e he e' he'
    · exact h.details t ht e (hrest.subset he) e' he'
  · rcases hmem x hx with hx | rfl
    · exact h.cleaned x hx e he info hinfo htodo hof
    · exact hcleaned e he info hinfo htodo hof
  · exact exists_mem_set hi (h.notLost hinit id e he hp) (hreleased id e he)

variable {rest : List Details}

/-- **Handing over**: the next event of a batch goes to `_send_event`. -/
theorem Inv.hand (h : Inv w) {e : Details} (hi : w.tasks[i]? = some t) (hrest : t.rest = e :: rest)
    (hphase : t.phase = .cleaning []) : Inv { w.setTask i { t with rest, phase := .sending e } with
      handed := ⟨e.1, t.dueAt⟩ :: w.handed } := by
  have ht := mem_of_getElem? hi
  have he : e ∈ t.rest := by rw [hrest]; exact mem_cons_self
  have htail : ∀ x ∈ rest, x ∈ t.rest := fun x hx => by rw [hrest]; exact mem_cons_of_mem e hx
  have htaken : w.Taken e.1 := .inr ⟨t, ht, .inl (List.mem_map_of_mem he)⟩
  have hholds : ∀ id, ({ t with rest, phase := .sending e } : Task).Holds id ↔ t.Holds id := fun id => by
    simp only [Task.Holds, Phase.current, hrest, hphase, List.map_cons, List.mem_cons, Option.some.injEq]
    grind
  have hmem : ∀ x ∈ w.tasks.set i { t with rest, phase := .sending e }, x ∈ w.tasks ∨ x = _ :=
    fun x hx => List.mem_or_eq_of_mem_set hx
  refine ⟨h.known, h.deadline, h.present, h.gone, fun id => ?_, fun id hid => ?_, fun x hx e' he' => ?_,
    fun x hx dueAt hdueAt e' he' d hd => ?_, fun x hx dueAt hdueAt d hd => ?_, fun x hx e' he' e'' he'' => ?_,
    fun x hx e' he' info hinfo htodo hof => ?_, fun hinit id e' he' hp => ?_⟩
  · -- the event leaves the batch, and is handed
    show ((w.tasks.set i { t with rest, phase := .sending e }).flatMap fun t => t.rest.map Prod.fst).count id +
      (e.1 :: w.handed.map Handing.delayId).count id ≤ 1
    have hset := count_flatMap_set (fun t => t.rest.map Prod.fst) hi { t with rest, phase := .sending e } id
    have hold := h.tickets id
    unfold World.tickets at hold
    simp only [hrest, List.map_cons, List.count_cons] at hset
    rw [List.count_cons]
    omega
  · refine h.taken id ?_
    rcases hid with ⟨x, hx, hxid⟩ | ⟨x, hx, hxholds⟩
    · rcases List.mem_cons.mp hx with rfl | hx
      · exact hxid ▸ htaken
      · exact .inl ⟨x, hx, hxid⟩
    rcases hmem x hx with hx | rfl
    · exact .inr ⟨x, hx, hxholds⟩
    · exact .inr ⟨t, ht, (hholds id).mp hxholds⟩
  · rcases List.mem_cons.mp hx with rfl | hx
    · refine ⟨{ t with rest, phase := .sending e }, mem_of_getElem? (i := i) ?_, rfl⟩
      exact List.getElem?_set_self (List.getElem?_eq_some_iff.mp hi).1
    · refine exists_mem_set hi (h.sending x hx e' he') fun hcurrent => ?_
      rw [hphase] at hcurrent
      cases hcurrent
  · rcases hmem x hx with hx | rfl
    · exact h.onTime x hx dueAt hdueAt e' he' d hd
    · exact h.onTime t ht dueAt hdueAt e' (htail e' he') d hd
  · rcases List.mem_cons.mp hx with rfl | hx
    · exact h.onTime t ht dueAt hdueAt e he d hd
    · exact h.handedOnTime x hx dueAt hdueAt d hd
  · rcases hmem x hx with hx | rfl
    · exact h.details x hx e' he' e'' he''
    · exact h.details t ht e' (htail e' he') e'' he''
  · rcases hmem x hx with hx | rfl
    · exact h.cleaned x hx e' he' info hinfo htodo hof
    · refine h.cleaned t ht e' (htail e' he') info hinfo ?_ hof
      rw [hphase]
      exact not_mem_nil
  · exact exists_mem_set hi (h.notLost hinit id e' he' hp) (hholds id).mpr

/-! ## §5 Steps and runs -/

theorem Inv.add (h : Inv w) {delayId : String} (hnew : delayId ∉ w.used) (creationTs : ℤ) (e : DelayedEvent) :
    Inv (w.add delayId creationTs e) :=
  h.write (fun htaken => hnew (h.taken delayId htaken).1) (fun hin => hnew (h.gone delayId hin)) rfl
    mem_cons_self fun _ hx => mem_cons_of_mem delayId hx

theorem Inv.restart (h : Inv w) (delayId : String) (currentTs : ℤ) : Inv (w.restart delayId currentTs) := by
  unfold World.restart restartDelayedEvent
  cases he : w.table.get? delayId with
  | none => exact h
  | some e =>
    cases hp : e.isProcessed with
    | true =>
      simp only [hp]
      exact h
    | false =>
      have hwrite := h.write (h.not_taken he hp) (h.present delayId e he)
        (e := { e with sendTs := currentTs + e.delay }) hp (h.known delayId e he) fun _ hx => hx
      simp only [hp] at hwrite ⊢
      exact hwrite

theorem Inv.cancel (h : Inv w) (delayId : String) : Inv (w.cancel delayId) := by
  unfold World.cancel cancelDelayedEvent
  cases he : w.table.get? delayId with
  | none => exact h
  | some e =>
    cases hp : e.isProcessed with
    | true =>
      simp only [hp]
      exact h
    | false =>
      simp only [hp]
      refine h.shrink (fun id e' he' => ?_) (fun id hid hnot => ?_) (fun id hid hnot => ?_)
      · obtain ⟨-, he'⟩ := of_get?_erase he'
        exact he'
      · obtain rfl := (List.mem_cons.mp hid).resolve_right hnot
        exact ⟨e, he, hp⟩
      · obtain rfl := (List.mem_cons.mp hid).resolve_right hnot
        rw [get?_erase, if_pos rfl]

theorem Inv.cancelState (h : Inv w) (info : StateInfo) (notFromLocalpart : String) :
    Inv (w.cancelState info notFromLocalpart) := by
  have hcancelled : ∀ id ∈ (w.table.items.filter fun row => isCancelledBy info notFromLocalpart row.2).map
      Prod.fst, ∃ e, w.table.get? id = some e ∧ isCancelledBy info notFromLocalpart e = true := fun id hid => by
    obtain ⟨row, hrow, rfl⟩ := List.mem_map.mp hid
    obtain ⟨hitem, hby⟩ := List.mem_filter.mp hrow
    exact ⟨row.2, get?_eq_some_iff.mpr hitem, hby⟩
  refine h.shrink (shrinks_filter _ _) (fun id hid hnot => ?_) (fun id hid hnot => ?_)
  · obtain ⟨e, he, hby⟩ := hcancelled id ((List.mem_append.mp hid).resolve_right hnot)
    exact ⟨e, he, by simpa using (Bool.and_eq_true_iff.mp hby).2⟩
  obtain ⟨e, he, hby⟩ := hcancelled id ((List.mem_append.mp hid).resolve_right hnot)
  cases hget : (cancelDelayedStateEvents info notFromLocalpart w.table).get? id with
  | none => exact hget
  | some e' =>
    obtain ⟨he', hkept⟩ := get?_filter.mp hget
    obtain rfl : e = e' := Option.some.inj (he.symm.trans he')
    rw [hby] at hkept
    cases hkept

theorem Inv.send (h : Inv w) (delayId : String) : Inv (w.send delayId) := by
  unfold World.send processTargetDelayedEvent
  cases he : w.table.get? delayId with
  | none => exact h
  | some e =>
    cases hp : e.isProcessed with
    | true =>
      simp only [hp]
      exact h
    | false =>
      simp only [hp]
      refine h.mark (fun row hrow => ?_) (by simp) (fun now hnow => by cases hnow) (fun id e' he' => ?_)
        fun hinit id e' he' hp' => .inr (h.notLost hinit id e' he' hp')
      · obtain rfl := List.mem_singleton.mp hrow
        exact ⟨he, h.not_taken he hp⟩
      rcases of_get?_set he' with ⟨heq, rfl⟩ | ⟨hne, he'⟩
      · refine ⟨e, heq ▸ he, rfl, rfl, iff_of_true rfl (.inr ?_)⟩
        rw [heq]
        exact mem_cons_self
      · refine ⟨e', he', rfl, rfl, ⟨Or.inl, fun hor => hor.resolve_right fun hin => ?_⟩⟩
        exact hne (by simpa using hin)

/-- The rows that a time-out or start-up finds due, when all of them are free. -/
theorem Inv.process (h : Inv w) (currentTs : ℤ) {reprocessEvents initialized : Bool}
    (hfree : ∀ id e, w.table.get? id = some e → isDue currentTs reprocessEvents e = true → ¬ w.Taken id)
    (hnotLost : initialized = true → ∀ id e, w.table.get? id = some e → e.isProcessed = true →
      isDue currentTs reprocessEvents e = true ∨ ∃ t ∈ w.tasks, t.Holds id) :
    Inv { w.start (some currentTs) (processTimeoutDelayedEvents currentTs reprocessEvents w.table) with
      initialized } := by
  have hbatch : ∀ id e, w.table.get? id = some e →
      (id ∈ (processTimeoutDelayedEvents currentTs reprocessEvents w.table).1.map Prod.fst ↔
        isDue currentTs reprocessEvents e = true) := fun id e he => by
    constructor
    · intro hid
      obtain ⟨row, hrow, rfl⟩ := List.mem_map.mp hid
      obtain ⟨hget, hdue⟩ := mem_processTimeoutDelayedEvents.mp hrow
      obtain rfl : row.2 = e := Option.some.inj (hget.symm.trans he)
      exact hdue
    · exact fun hdue => List.mem_map.mpr ⟨(id, e), mem_processTimeoutDelayedEvents.mpr ⟨he, hdue⟩, rfl⟩
  refine h.mark (fun row hrow => ?_) (nodup_processTimeoutDelayedEvents _ _ _) (fun now hnow row hrow => ?_)
    (fun id e' he' => ?_) fun hinit id e he hp => ?_
  · obtain ⟨he, hdue⟩ := mem_processTimeoutDelayedEvents.mp hrow
    exact ⟨he, hfree row.1 row.2 he hdue⟩
  · obtain rfl := Option.some.inj hnow
    have hdue := (Bool.and_eq_true_iff.mp (mem_processTimeoutDelayedEvents.mp hrow).2).1
    exact of_decide_eq_true hdue
  · have he' : (w.table.updateWhere (fun _ e => isDue currentTs reprocessEvents e)
        DelayedEvent.markProcessed).get? id = some e' := he'
    rw [get?_updateWhere] at he'
    obtain ⟨e, he, hmarked⟩ := Option.map_eq_some_iff.mp he'
    rw [hbatch id e he]
    refine ⟨e, he, ?_⟩
    split at hmarked
    · rename_i hdue
      obtain rfl := hmarked
      exact ⟨rfl, rfl, iff_of_true rfl (.inr hdue)⟩
    rename_i hnot
    obtain rfl := hmarked
    exact ⟨rfl, rfl, ⟨Or.inl, fun hor => hor.resolve_right hnot⟩⟩
  · rw [hbatch id e he]
    exact hnotLost hinit id e he hp

theorem Inv.timeout (h : Inv w) (currentTs : ℤ) : Inv (w.timeout currentTs) := by
  refine h.process currentTs (fun id e he hdue => h.not_taken he ?_)
    fun hinit id e he hp => .inr (h.notLost hinit id e he hp)
  simpa using (Bool.and_eq_true_iff.mp hdue).2

theorem Inv.startUp (h : Inv w) {currentTs : ℤ} (hok : w.SelectsOrphans (.startUp currentTs)) :
    Inv (w.startUp currentTs) := by
  have hiff : ∀ id e, w.table.get? id = some e → e.isProcessed = true →
      (e.sendTs ≤ currentTs ↔ ¬ ∃ t ∈ w.tasks, t.Holds id) :=
    fun id e he hp => hok (id, e) (get?_eq_some_iff.mp he) hp
  refine h.process currentTs (fun id e he hdue => ?_) fun _ id e he hp => ?_
  · have hts : e.sendTs ≤ currentTs := of_decide_eq_true (Bool.and_eq_true_iff.mp hdue).1
    cases hp : e.isProcessed with
    | false => exact h.not_taken he hp
    | true => exact h.not_taken_of_not_holds he ((hiff id e he hp).mp hts)
  · by_cases hholds : ∃ t ∈ w.tasks, t.Holds id
    · exact .inr hholds
    · have hts := (hiff id e he hp).mpr hholds
      exact .inl (by simp [isDue, hts])

theorem Inv.stop (h : Inv w) : Inv w.stop :=
  Start.inv ⟨⟨rfl, rfl, rfl⟩, h.known, h.deadline, h.present, h.gone⟩

variable {sentState : List StateInfo}

/-- The loop comes to the next event: one that is skipped has no row any more. -/
theorem Inv.next (h : Inv w) {e : Details} (hi : w.tasks[i]? = some ⟨dueAt, e :: rest, .cleaning [], sentState⟩) :
    Inv (w.next i ⟨dueAt, e :: rest, .cleaning [], sentState⟩ e rest) := by
  have ht := mem_of_getElem? hi
  unfold World.next
  split
  · rename_i hskip
    obtain ⟨info, hof, hinfo⟩ := hskip
    have hgone := h.cleaned _ ht e mem_cons_self info hinfo not_mem_nil hof
    refine h.setTask hi rfl (List.sublist_cons_self e rest) (fun id hholds => ?_) (fun id e' he' hholds => ?_)
      (fun id e' _ hcurrent => hcurrent) fun e' he' info hinfo htodo hof => ?_
    · exact hholds.imp_left fun hin => mem_cons_of_mem e.1 hin
    · refine hholds.imp_left fun hin => (List.mem_cons.mp hin).resolve_left fun heq => ?_
      rw [heq, hgone] at he'
      cases he'
    · exact h.cleaned _ ht e' (mem_cons_of_mem e he') info hinfo htodo hof
  · exact h.hand hi rfl rfl

theorem Inv.sent (h : Inv w) {i : ℕ} {dueAt : Option ℤ} {e : Details} {rest : List Details}
    {sentState : List StateInfo} (hi : w.tasks[i]? = some ⟨dueAt, rest, .sending e, sentState⟩)
    (succeeds : Bool) : Inv (w.setTask i ⟨dueAt, rest, .deleting e succeeds, sentState⟩) := by
  have hcleaned := h.cleaned _ (mem_of_getElem? hi)
  exact h.setTask hi rfl (List.Sublist.refl rest) (fun _ hholds => hholds) (fun _ _ _ hholds => hholds)
    (fun _ _ _ hcurrent => hcurrent) hcleaned

/-- Deleting marked rows. -/
theorem Inv.deleted (h : Inv w) (hshrinks : Shrinks w.table table) : Inv { w with table } :=
  h.shrink hshrinks (fun _ hin hnot => absurd hin hnot) fun _ hin hnot => absurd hin hnot

theorem Inv.deleteRow (h : Inv w) {e : Details} {succeeded : Bool}
    (hi : w.tasks[i]? = some ⟨dueAt, rest, .deleting e succeeded, sentState⟩) :
    Inv (w.deleteRow i ⟨dueAt, rest, .deleting e succeeded, sentState⟩ e succeeded) := by
  have hmarked := (h.taken e.1 (.inr ⟨_, mem_of_getElem? hi, .inr rfl⟩)).2.2
  -- the event that was sent has no row any more
  have hgone : ∀ e', (deleteProcessedDelayedEvent e.1 w.table).get? e.1 ≠ some e' := fun e' he' => by
    have hpending := get?_deleteProcessedDelayedEvent he'
    rw [hmarked e' (shrinks_filter _ _ _ _ he')] at hpending
    cases hpending
  have hdeleted := h.deleted (shrinks_filter (fun id e' => !(id = e.1 && e'.isProcessed)) w.table)
  refine Inv.setTask (w := { w with table := deleteProcessedDelayedEvent e.1 w.table }) hdeleted hi rfl
    (List.Sublist.refl rest) (fun id hholds => ?_) (fun id e' he' hholds => ?_) (fun id e' he' hcurrent => ?_)
    fun e' _ info hinfo htodo _ => absurd hinfo htodo
  · exact hholds.imp_right fun hcurrent => by cases hcurrent
  · refine hholds.imp_right fun hcurrent => ?_
    obtain rfl := Option.some.inj hcurrent
    exact absurd he' (hgone e')
  · obtain rfl := Option.some.inj hcurrent
    exact absurd he' (hgone e')

theorem Inv.cleanState (h : Inv w) {info : StateInfo} {todo : List StateInfo}
    (hi : w.tasks[i]? = some ⟨dueAt, rest, .cleaning (info :: todo), sentState⟩) :
    Inv (w.cleanState i ⟨dueAt, rest, .cleaning (info :: todo), sentState⟩ info todo) := by
  have ht := mem_of_getElem? hi
  have hdeleted := h.deleted (shrinks_filter (fun _ e => !(e.stateInfo? = some info && e.isProcessed)) w.table)
  refine Inv.setTask (w := { w with table := deleteProcessedDelayedStateEvents info w.table }) hdeleted hi rfl
    (List.Sublist.refl rest) (fun _ hholds => hholds) (fun _ _ _ hholds => hholds)
    (fun _ _ _ hcurrent => by cases hcurrent) fun e he info' hinfo' htodo hof => ?_
  cases hget : (deleteProcessedDelayedStateEvents info w.table).get? e.1 with
  | none => rfl
  | some e' =>
    have he' := shrinks_filter _ _ _ _ hget
    by_cases heq : info' = info
    · -- this state has just been cleaned
      have hmarked := (h.taken e.1 (.inr ⟨_, ht, .inl (List.mem_map_of_mem he)⟩)).2.2 e' he'
      have hsame : e'.stateInfo? = some info := by rw [h.details _ ht e he e' he', hof, heq]
      rw [get?_deleteProcessedDelayedStateEvents hget hsame] at hmarked
      cases hmarked
    · have hnotin : info' ∉ info :: todo := fun hin => htodo ((List.mem_cons.mp hin).resolve_left heq)
      rw [h.cleaned _ ht e he info' hinfo' hnotin hof] at he'
      cases he'

/-- **Step lemma.** -/
theorem Inv.step {w' : World} {a : Action} (h : Inv w) (hok : w.SelectsOrphans a) (hstep : w.step a = some w') :
    Inv w' := by
  cases a <;> simp only [World.step] at hstep
  case add delayId creationTs e =>
    split at hstep
    · cases hstep
    · rename_i hnew
      exact Option.some.inj hstep ▸ h.add hnew creationTs e
  case restart delayId currentTs => exact Option.some.inj hstep ▸ h.restart delayId currentTs
  case cancel delayId =>
    split at hstep
    · exact Option.some.inj hstep ▸ h.cancel delayId
    · cases hstep
  case cancelState info notFromLocalpart =>
    exact Option.some.inj hstep ▸ h.cancelState info notFromLocalpart
  case send delayId =>
    split at hstep
    · exact Option.some.inj hstep ▸ h.send delayId
    · cases hstep
  case timeout currentTs => exact Option.some.inj hstep ▸ h.timeout currentTs
  case startUp currentTs =>
    split at hstep
    · cases hstep
    · exact Option.some.inj hstep ▸ h.startUp hok
  case stop => exact Option.some.inj hstep ▸ h.stop
  case next i =>
    split at hstep
    · rename_i hi
      exact Option.some.inj hstep ▸ h.next hi
    · cases hstep
  case sent i succeeds =>
    split at hstep
    · rename_i hi
      exact Option.some.inj hstep ▸ h.sent hi succeeds
    · cases hstep
  case deleteRow i =>
    split at hstep
    · rename_i hi
      exact Option.some.inj hstep ▸ h.deleteRow hi
    · cases hstep
  case cleanState i =>
    split at hstep
    · rename_i hi
      exact Option.some.inj hstep ▸ h.cleanState hi
    · cases hstep

/-- **Sent at most once, never lost**: in every run in which start-up selects what nobody has, every state is
safe. -/
theorem safe_of_selectsOrphans (start : World) (hstart : Start start) (actions : List Action)
    (hok : Along step SelectsOrphans start actions) (w : World) (hrun : start.run actions = some w) : Safe w :=
  (Along.invariant Inv (fun _ _ _ h hok hstep => h.step hok hstep) hstart.inv hok hrun).safe

instance (w : World) : (a : Action) → Decidable (w.SelectsOrphans a)
  | .startUp _ => inferInstanceAs (Decidable (∀ row ∈ _, _ → (_ ↔ ¬ ∃ t ∈ _, _)))
  | .add .. | .restart .. | .cancel _ | .cancelState .. | .send _ | .timeout _ | .next _ | .sent ..
  | .deleteRow _ | .cleanState _ | .stop => isTrue trivial

/-! ### Runs -/

def empty : World := ⟨.empty, false, [], [], [], .empty, []⟩

theorem empty_start : Start empty where
  starting := ⟨rfl, rfl, rfl⟩
  known := fun _ _ h => by cases h
  deadline := fun _ _ h => by cases h
  present := fun _ _ h => by cases h
  gone := fun _ h => by cases h

/-- A state event that is due ten milliseconds after it was delayed. -/
def hangUp : DelayedEvent := ⟨"alice", "!r:s", "m.call.member", some "@alice:s", 10, 0, false⟩

/-- The event times out after a restart, is sent, and its row is deleted. -/
def sentOnTimeout : List Action :=
  [.startUp 0, .add "d" 1 hangUp, .stop, .startUp 5, .restart "d" 6, .timeout 20, .next 1, .sent 1 true,
    .deleteRow 1, .cleanState 1]

theorem safe_of_selectsOrphans_example : ∃ w, empty.run sentOnTimeout = some w ∧ Safe w :=
  ⟨_, rfl, safe_of_selectsOrphans empty empty_start sentOnTimeout (by decide +kernel) _ rfl⟩

/-- An event that a client sends early, in a process that stops before it deletes the row, is left marked by
the next start-up, which finds it not due; and one that times out before start-up has selected what is due is
selected again, and sent twice. -/
theorem strands_and_repeats :
    (∃ w, empty.run [.startUp 0, .add "d" 1 hangUp, .send "d", .stop, .startUp 5] = some w ∧ ¬ Safe w) ∧
      ∃ w, empty.run [.add "d" 1 hangUp, .timeout 20, .next 0, .startUp 21, .next 1] = some w ∧ ¬ Safe w := by
  refine ⟨⟨_, rfl, fun h => ?_⟩, _, rfl, fun h => ?_⟩
  · obtain ⟨t, ht, hholds⟩ := h.notLost rfl "d" _ rfl rfl
    revert t
    decide +kernel
  · exact absurd h.once (by decide +kernel)

end World

end Setka.Handlers.DelayedEvents
