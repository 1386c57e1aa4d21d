/-
# Setka.Handlers.DelayedEventTimer — the timer for the next delayed event.

Every transaction on the table of delayed events also reads when the next one is to be sent, and the timer is set to
that afterwards, in a step of its own. Between the two other operations come in, so what the timer is set to may be
out of date.
-/
import Setka.Lib.Transition
import Setka.Storage.DelayedEvents

namespace Setka.Handlers.DelayedEventTimer

open Setka.Lib Setka.Storage.DelayedEvents

/-! ## §1 Operations -/

/-- `_get_next_delayed_event_send_ts_txn`. -/
def nextSendTs (table : Table) : Option ℤ :=
  ((table.items.filter fun row => !row.2.isProcessed).map fun row => row.2.sendTs).min?

/-- How an operation sets the timer: to a time that it has; or to none too; or whatever it was, to a time that there
may be. -/
inductive Kind
  | added
  | removed
  | timedOut
  | startUp
  deriving DecidableEq

/-- An operation between its transaction and setting the timer. -/
structure Pending where
  kind : Kind
  nextSendTs : Option ℤ
  deriving DecidableEq

/-- `_schedule_next_at`: not before now. -/
def scheduleNextAt (nextSendTs now : ℤ) : Option ℤ := some (now + max (nextSendTs - now) 0)

/-- The timer that an operation leaves. -/
def Pending.rearm (p : Pending) (now : ℤ) (timer : Option ℤ) : Option ℤ :=
  match p.nextSendTs with
  | some t =>
    let sets := if p.kind = .added || p.kind = .removed then some t ≠ timer else t ≠ 0
    if sets then scheduleNextAt t now else timer
  | none => if p.kind = .removed then none else timer

/-- The table, when the timer fires, the operations that have not set it yet, in the order of their transactions, and
whether start-up has had its one. -/
structure World where
  table : Table
  timer : Option ℤ
  pending : List Pending
  started : Bool

/-- The transaction of an operation; the deletion of what was sent, after one; or an operation sets the timer.
What another process adds is announced by it. -/
inductive Action
  | add (delayId : String) (creationTs : ℤ) (e : DelayedEvent)
  | restart (delayId : String) (currentTs : ℤ)
  | cancel (delayId : String)
  | cancelState (info : StateInfo) (notFromLocalpart : String)
  | send (delayId : String)
  | timeout (currentTs : ℤ)
  | startUp (currentTs : ℤ)
  | deleteRow (delayId : String)
  | deleteState (info : StateInfo)
  | reschedule (i : ℕ) (now : ℤ)

namespace World

/-- `_initialized_from_db`. -/
def initialized (w : World) : Bool := w.started && w.pending.all fun p => p.kind ≠ .startUp

def commit (kind : Kind) (w : World) (table : Table) : World :=
  { w with table, pending := w.pending ++ [⟨kind, nextSendTs table⟩] }

/-- One step. A transaction that raises changes nothing. -/
def step (w : World) : Action → Option World
  | .add delayId creationTs e =>
    if delayId ∈ w.table.keys then none else some (w.commit .added (addDelayedEvent delayId creationTs e w.table))
  | .restart delayId currentTs => (restartDelayedEvent delayId currentTs w.table).map (w.commit .added)
  | .cancel delayId =>
    if w.initialized then (cancelDelayedEvent delayId w.table).map (w.commit .removed) else none
  | .cancelState info notFromLocalpart =>
    some (w.commit .removed (cancelDelayedStateEvents info notFromLocalpart w.table))
  | .send delayId =>
    if w.initialized then (processTargetDelayedEvent delayId w.table).map fun r => w.commit .removed r.2 else none
  | .timeout currentTs =>
    if w.timer.any fun t => t ≤ currentTs then
      some ({ w with timer := none }.commit .timedOut (processTimeoutDelayedEvents currentTs false w.table).2)
    else none
  | .startUp currentTs =>
    if w.started then none
    else some ({ w with started := true }.commit .startUp (processTimeoutDelayedEvents currentTs true w.table).2)
  | .deleteRow delayId => some { w with table := deleteProcessedDelayedEvent delayId w.table }
  | .deleteState info => some { w with table := deleteProcessedDelayedStateEvents info w.table }
  | .reschedule i now =>
    match w.pending[i]? with
    | some p =>
      if 0 < now then some { w with timer := p.rearm now w.timer, pending := w.pending.eraseIdx i } else none
    | none => none

def run (w : World) (actions : List Action) : Option World := actions.foldlM step w

/-- The process has just started. -/
structure Start (w : World) : Prop where
  timer : w.timer = none
  pending : w.pending = []
  started : w.started = false

/-- The timer fires no later than any event is to be sent that is not processed. -/
def Early (w : World) : Prop :=
  ∀ e ∈ w.table.values, e.isProcessed = false → ∃ t, w.timer = some t ∧ t ≤ e.sendTs

/-- **The condition.** The operation with the latest transaction sets the timer last, and before the next event is to
be sent. -/
def InTurn (w : World) : Action → Prop
  | .reschedule i now => i + 1 < w.pending.length ∨
      w.pending.length = 1 ∧ ∀ e ∈ w.table.values, e.isProcessed = false → now ≤ e.sendTs
  | _ => True

/-! ## §2 The timer is early -/

/-- What is pending ends with what is in the table; if nothing is, the timer is early, once start-up had its turn. -/
structure Inv (w : World) : Prop where
  last : ∀ p, w.pending.getLast? = some p → p.nextSendTs = nextSendTs w.table
  early : w.pending = [] → w.started = true → Early w

variable {w w' : World}

theorem nextSendTs_spec {table : Table} {e : DelayedEvent} (he : e ∈ table.values) (hpending : e.isProcessed = false) :
    ∃ e' ∈ table.values, e'.isProcessed = false ∧ nextSendTs table = some e'.sendTs ∧ e'.sendTs ≤ e.sendTs := by
  obtain ⟨row, hrow, rfl⟩ := List.mem_map.mp he
  have hmem := List.mem_map_of_mem (f := fun row : Details => row.2.sendTs)
    (List.mem_filter.mpr ⟨hrow, by rw [hpending]; rfl⟩ : row ∈ table.items.filter fun row => !row.2.isProcessed)
  cases hmin : nextSendTs table with
  | none =>
    rw [nextSendTs, List.min?_eq_none_iff] at hmin
    rw [hmin] at hmem
    cases hmem
  | some t =>
    obtain ⟨ht, hle⟩ := List.min?_eq_some_iff.mp hmin
    obtain ⟨row', hrow', rfl⟩ := List.mem_map.mp ht
    obtain ⟨hin, hnot⟩ := List.mem_filter.mp hrow'
    exact ⟨row'.2, List.mem_map_of_mem hin, by simpa using hnot, rfl, hle _ hmem⟩

theorem nextSendTs_filter {table : Table} {p : String → DelayedEvent → Bool}
    (hp : ∀ id e, e.isProcessed = false → p id e = true) : nextSendTs (table.filter p) = nextSendTs table := by
  unfold nextSendTs Dict.filter
  rw [List.filter_filter]
  congr 2
  refine List.filter_congr fun row _ => ?_
  cases hprocessed : row.2.isProcessed with
  | true => rfl
  | false => rw [hp _ _ hprocessed]; rfl

theorem Inv.commit (kind : Kind) (w : World) (table : Table) : Inv (w.commit kind table) where
  last p hp := by
    rw [World.commit, List.getLast?_concat] at hp
    cases hp
    rfl
  early h := absurd h (by simp [World.commit])

theorem Inv.filter (h : Inv w) {p : String → DelayedEvent → Bool}
    (hp : ∀ id e, e.isProcessed = false → p id e = true) : Inv { w with table := w.table.filter p } where
  last q hq := (h.last q hq).trans (nextSendTs_filter hp).symm
  early hnone hstarted e he := by
    obtain ⟨id, hid⟩ := Dict.mem_values_iff.mp he
    exact h.early hnone hstarted e (Dict.mem_values_iff.mpr ⟨id, (Dict.get?_filter.mp hid).1⟩)

theorem rearm_eq {p : Pending} {t now : ℤ} {timer : Option ℤ} (hp : p.nextSendTs = some t) (ht : now ≤ t)
    (hnow : 0 < now) : p.rearm now timer = some t := by
  have hschedule : scheduleNextAt t now = some t := by
    rw [scheduleNextAt]
    congr 1
    omega
  unfold Pending.rearm
  rw [hp]
  simp only [hschedule]
  split
  · split
    · rfl
    · rename_i hsame
      exact (not_not.mp hsame).symm
  · rw [if_pos (by omega)]

theorem Inv.reschedule (h : Inv w) {i : ℕ} {now : ℤ} {p : Pending} (hturn : w.InTurn (.reschedule i now))
    (hp : w.pending[i]? = some p) (hnow : 0 < now) :
    Inv { w with timer := p.rearm now w.timer, pending := w.pending.eraseIdx i } := by
  obtain ⟨hlt, -⟩ := List.getElem?_eq_some_iff.mp hp
  rcases List.eq_nil_or_concat' w.pending with hnil | ⟨rest, last, hpending⟩
  · rw [hnil] at hlt
    exact absurd hlt (Nat.not_lt_zero i)
  rw [InTurn, hpending, List.length_append, List.length_singleton] at hturn
  rcases hturn with hbefore | ⟨hone, hdue⟩
  · -- the latest transaction stays
    have hstays : w.pending.eraseIdx i = rest.eraseIdx i ++ [last] := by
      rw [hpending, List.eraseIdx_append_of_lt_length (by omega)]
    refine ⟨fun q hq => h.last q ?_, fun hnil _ => ?_⟩
    · rw [hstays, List.getLast?_concat] at hq
      rw [hpending, List.getLast?_concat, hq]
    · rw [hstays] at hnil
      cases (List.append_eq_nil_iff.mp hnil).2
  -- it was the only one, and sets the timer
  obtain rfl : rest = [] := List.eq_nil_of_length_eq_zero (by omega)
  obtain rfl : i = 0 := by rw [hpending] at hlt; exact Nat.lt_one_iff.mp hlt
  rw [hpending] at hp
  cases hp
  have hlast := h.last p (by rw [hpending]; rfl)
  refine ⟨fun q hq => ?_, fun _ _ e he hnot => ?_⟩
  · rw [hpending] at hq
    cases hq
  obtain ⟨e', he', hnot', hnext, hle⟩ := nextSendTs_spec he hnot
  exact ⟨e'.sendTs, rearm_eq (hlast.trans hnext) (hdue e' he' hnot') hnow, hle⟩

/-- **Step lemma.** -/
theorem Inv.step {a : Action} (h : Inv w) (hturn : w.InTurn a) (hstep : w.step a = some w') : Inv w' := by
  cases a <;> simp only [World.step] at hstep
  case add => split at hstep <;> cases hstep; exact .commit ..
  case restart =>
    obtain ⟨table, -, rfl⟩ := Option.map_eq_some_iff.mp hstep
    exact .commit ..
  case cancel =>
    split at hstep
    · obtain ⟨table, -, rfl⟩ := Option.map_eq_some_iff.mp hstep
      exact .commit ..
    · cases hstep
  case cancelState => cases hstep; exact .commit ..
  case send =>
    split at hstep
    · obtain ⟨table, -, rfl⟩ := Option.map_eq_some_iff.mp hstep
      exact .commit ..
    · cases hstep
  case timeout => split at hstep <;> cases hstep; exact .commit ..
  case startUp => split at hstep <;> cases hstep; exact .commit ..
  case deleteRow => cases hstep; exact h.filter fun id e he => by simp [he]
  case deleteState => cases hstep; exact h.filter fun id e he => by simp [he]
  case reschedule i now =>
    split at hstep
    · rename_i p hp
      split at hstep <;> cases hstep
      exact h.reschedule hturn hp ‹_›
    · cases hstep

/-- **The timer is early** in every run in which the latest operation sets it last, and in time. -/
theorem early_of_inTurn (start : World) (hstart : Start start) (actions : List Action)
    (hturn : Along step InTurn start actions) (w : World) (hrun : start.run actions = some w)
    (hready : w.initialized = true) (hnone : w.pending = []) : Early w := by
  have hinv : Inv start := by
    refine ⟨fun p hp => ?_, fun _ hstarted => ?_⟩
    · rw [hstart.pending] at hp
      cases hp
    · rw [hstart.started] at hstarted
      cases hstarted
  exact (Along.invariant Inv (fun _ _ _ h hturn hstep => h.step hturn hstep) hinv hturn hrun).early hnone
    (Bool.and_eq_true_iff.mp hready).1

def idle : World := ⟨.empty, none, [], false⟩

def message (delay : ℤ) : DelayedEvent := ⟨"alice", "!r:s", "m.room.message", none, delay, 0, false⟩

instance (w : World) : (a : Action) → Decidable (w.InTurn a)
  | .reschedule .. => inferInstanceAs (Decidable (_ ∨ _ ∧ ∀ e ∈ _, _ → _))
  | .add .. | .restart .. | .cancel _ | .cancelState .. | .send _ | .timeout _ | .startUp _ | .deleteRow _
  | .deleteState _ => isTrue trivial

def oneAdded : List Action := [.startUp 1, .reschedule 0 1, .add "d" 2 (message 10), .reschedule 0 3]

theorem early_of_inTurn_oneAdded : ∃ w, idle.run oneAdded = some w ∧ Early w :=
  ⟨_, rfl, early_of_inTurn idle ⟨rfl, rfl, rfl⟩ oneAdded (by decide) _ rfl rfl rfl⟩

/-- Two events are added, the second to be sent first. The first sets the timer last, to its own time. -/
theorem set_back : ¬∀ start, Start start → ∀ actions w, start.run actions = some w → w.initialized = true →
    w.pending = [] → Early w := by
  intro h
  obtain ⟨t, ht, hle⟩ := h idle ⟨rfl, rfl, rfl⟩
    [.startUp 1, .reschedule 0 1, .add "d" 2 (message 5000), .add "e" 2 (message 10), .reschedule 1 3, .reschedule 0 4]
    _ rfl rfl rfl ⟨"alice", "!r:s", "m.room.message", none, 10, 12, false⟩ (by decide) rfl
  cases ht
  exact absurd hle (by decide)

end World

end Setka.Handlers.DelayedEventTimer
