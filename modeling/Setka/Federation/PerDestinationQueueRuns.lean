/-
# Setka.Federation.PerDestinationQueueRuns — no event is skipped.

Every event that was queued is sent, or a later one of its room, or extremities of the room at a later time; until
then it is in the queue, or the newest event recorded for its room is beyond the position that is stored, so that
catch-up finds the room. What catch-up goes by is the newest event of each room: while it runs, the position passes
events of rooms that are still to come. Events that are thrown away before any position was stored are lost.
-/
import Setka.Federation.PerDestinationQueue

namespace Setka.Federation.PerDestinationQueue

open Setka.Lib Dict
open List (mem_cons_self mem_cons_of_mem not_mem_nil mem_append_left)

/-! ## §1 What has been sent -/

/-- **A transaction makes up for an event**: it contains the event or a later one of its room, or what the destination
may see of the extremities that the room had at a later time. -/
def Transaction.Covers (t : Transaction) (e : Pdu) : Prop :=
  (∃ p ∈ t.pdus, p.roomId = e.roomId ∧ e.streamOrdering ≤ p.streamOrdering) ∨
    ∃ recordedUpTo extrems pdus, t = .extremities e.roomId recordedUpTo extrems pdus ∧
      e.streamOrdering ≤ recordedUpTo ∧ pdus ≠ [] ∧ ∀ p ∈ pdus, p ∈ extrems

def World.Covered (w : World) (e : Pdu) : Prop := ∃ t ∈ w.sent, t.Covers e

/-- An event that nothing more will be done about. -/
def World.Settled (w : World) (e : Pdu) : Prop := w.Covered e ∨ e ∈ w.lost

/-- The newest event that is recorded for the room of an event is beyond a position. -/
def World.Ahead (w : World) (last : ℕ) (e : Pdu) : Prop :=
  ∃ n, w.tables.destinationRooms.get? e.roomId = some n ∧ last < n

/-- An event that is queued, or may still be. -/
def World.Live (w : World) (e : Pdu) : Prop :=
  w.tables.events.get? e.streamOrdering = some e ∧ (e ∈ w.queued ∨ w.queuedUpTo < e.streamOrdering)

/-- **An honest position**: what is not settled is found by catching up from it. -/
def World.Honest (w : World) (last : ℕ) : Prop :=
  (∃ e, w.tables.events.get? last = some e) ∧ ∀ e, w.Live e → w.Settled e ∨ w.Ahead last e

/-! ### Rooms to catch up -/

/-- The events of a round of catch-up: the next rooms by their newest event. -/
structure Upcoming (t : Tables) (last : ℕ) (pdus : List Pdu) : Prop where
  sorted : pdus.Pairwise fun p q => p.streamOrdering ≤ q.streamOrdering
  recorded : ∀ p ∈ pdus, t.events.get? p.streamOrdering = some p
  beyond : ∀ p ∈ pdus, last ≤ p.streamOrdering
  complete : ∀ room n, t.destinationRooms.get? room = some n → last < n →
    (∃ p ∈ pdus, p.streamOrdering = n) ∨ ∀ p ∈ pdus, p.streamOrdering < n

/-- The first entries of a sorted list, and what is not among them. -/
theorem mem_take_or_lt {l : List ℕ} (h : l.Pairwise (· ≤ ·)) (k : ℕ) {n : ℕ} (hn : n ∈ l) :
    n ∈ l.take k ∨ ∀ m ∈ l.take k, m < n := by
  by_cases hmem : n ∈ l.take k
  · exact Or.inl hmem
  right
  intro m hm
  have hdrop : n ∈ l.drop k := by
    rw [← List.take_append_drop k l] at hn
    exact (List.mem_append.mp hn).resolve_left hmem
  rw [← List.take_append_drop k l] at h
  have hle : m ≤ n := (List.pairwise_append.mp h).2.2 m hm n hdrop
  have hne : m ≠ n := fun heq => hmem (heq ▸ hm)
  omega

/-- Each event is under its stream ordering, and each room's newest one is recorded. -/
structure TablesOk (t : Tables) (recordedUpTo : ℕ) : Prop where
  key : ∀ n e, t.events.get? n = some e → e.streamOrdering = n ∧ n ≤ recordedUpTo ∧ 0 < n
  newest : ∀ room n, t.destinationRooms.get? room = some n → ∃ e, t.events.get? n = some e ∧ e.roomId = room
  latest : ∀ n e, t.events.get? n = some e → ∃ m, t.destinationRooms.get? e.roomId = some m ∧ n ≤ m

section Query

variable {t : Tables} {recordedUpTo last : ℕ}

theorem mem_orderings (ht : TablesOk t recordedUpTo) {room : String} {n : ℕ}
    (hn : t.destinationRooms.get? room = some n) (hlast : last < n) :
    n ∈ (t.destinationRooms.values.filter fun n => decide (last < n) && (t.events.get? n).isSome).insertionSort
      (· ≤ ·) := by
  obtain ⟨e, he, _⟩ := ht.newest room n hn
  rw [List.mem_insertionSort, List.mem_filter]
  refine ⟨mem_values_iff.mpr ⟨room, hn⟩, ?_⟩
  rw [he]
  simpa using hlast

theorem getCatchUpRoomEvents_upcoming (ht : TablesOk t recordedUpTo) :
    Upcoming t last (getCatchUpRoomEvents last t) := by
  have hsorted := (List.sortedLE_insertionSort
    (l := t.destinationRooms.values.filter fun n => decide (last < n) && (t.events.get? n).isSome)).pairwise
  refine ⟨?_, fun p hp => ?_, fun p hp => ?_, fun room n hn hlast => ?_⟩
  · refine List.Pairwise.filterMap t.events.get? ?_ (hsorted.sublist (List.take_sublist 50 _))
    intro m n hmn p hp q hq
    rw [(ht.key m p hp).1, (ht.key n q hq).1]
    exact hmn
  · obtain ⟨n, _, hp⟩ := List.mem_filterMap.mp hp
    rw [(ht.key n p hp).1]
    exact hp
  · obtain ⟨n, hn, hp⟩ := List.mem_filterMap.mp hp
    have hfilter := (List.mem_insertionSort (· ≤ ·)).mp (List.mem_of_mem_take hn)
    have hlt := of_decide_eq_true (Bool.and_eq_true_iff.mp (List.mem_filter.mp hfilter).2).1
    rw [(ht.key n p hp).1]
    omega
  · obtain ⟨e, he, _⟩ := ht.newest room n hn
    rcases mem_take_or_lt hsorted 50 (mem_orderings ht hn hlast) with hmem | hlt
    · exact Or.inl ⟨e, List.mem_filterMap.mpr ⟨n, hmem, he⟩, (ht.key n e he).1⟩
    right
    intro p hp
    obtain ⟨m, hm, hp⟩ := List.mem_filterMap.mp hp
    rw [(ht.key m p hp).1]
    exact hlt m hm

/-- If no room is found, none has a newest event beyond the position. -/
theorem le_of_getCatchUpRoomEvents_eq_nil (ht : TablesOk t recordedUpTo) (hnil : getCatchUpRoomEvents last t = [])
    {room : String} {n : ℕ} (hn : t.destinationRooms.get? room = some n) : n ≤ last := by
  by_contra hlt
  have hmem := mem_orderings ht hn (Nat.lt_of_not_le hlt)
  -- a list that is not empty has a first entry, whose event is found
  obtain ⟨m, l, hl⟩ := List.exists_cons_of_ne_nil (List.ne_nil_of_mem hmem)
  have hm : m ∈ (t.destinationRooms.values.filter fun n => decide (last < n) && (t.events.get? n).isSome) := by
    rw [← List.mem_insertionSort (· ≤ ·), hl]
    exact mem_cons_self
  have hsome := (Bool.and_eq_true_iff.mp (List.mem_filter.mp hm).2).2
  obtain ⟨e, he⟩ := Option.isSome_iff_exists.mp hsome
  have hfound : e ∈ getCatchUpRoomEvents last t := by
    refine List.mem_filterMap.mpr ⟨m, ?_, he⟩
    rw [hl]
    exact mem_cons_self
  rw [hnil] at hfound
  exact absurd hfound not_mem_nil

end Query

/-- The position moves on to the next room. -/
theorem Upcoming.tail {t : Tables} {last : ℕ} {pdu : Pdu} {rest : List Pdu} (h : Upcoming t last (pdu :: rest)) :
    Upcoming t pdu.streamOrdering rest where
  sorted := (List.pairwise_cons.mp h.sorted).2
  recorded p hp := h.recorded p (mem_cons_of_mem pdu hp)
  beyond := (List.pairwise_cons.mp h.sorted).1
  complete room n hn hlt := by
    have hlast := h.beyond pdu mem_cons_self
    rcases h.complete room n hn (by omega) with ⟨p, hp, heq⟩ | hall
    · rcases List.mem_cons.mp hp with rfl | hp
      · omega
      · exact Or.inl ⟨p, hp, heq⟩
    · exact Or.inr fun p hp => hall p (mem_cons_of_mem pdu hp)

variable {last : ℕ} {pdu : Pdu}

/-- An event that is recorded later is beyond all that are to come. -/
theorem Upcoming.record {t : Tables} {recordedUpTo : ℕ} {pdus : List Pdu} (ht : TablesOk t recordedUpTo)
    (h : Upcoming t last pdus) (hpdu : recordedUpTo < pdu.streamOrdering) :
    Upcoming (storeDestinationRoomsEntries pdu t) last pdus where
  sorted := h.sorted
  recorded p hp := by
    have hle := (ht.key _ p (h.recorded p hp)).2.1
    show (t.events.set pdu.streamOrdering pdu).get? p.streamOrdering = some p
    rw [get?_set, if_neg (by omega)]
    exact h.recorded p hp
  beyond := h.beyond
  complete room n hn hlt := by
    rcases of_get?_set hn with ⟨hroom, rfl⟩ | ⟨hroom, hn⟩
    · right
      intro p hp
      have hle := (ht.key _ p (h.recorded p hp)).2.1
      omega
    · exact h.complete room n hn hlt

theorem TablesOk.record {t : Tables} {recordedUpTo : ℕ} (ht : TablesOk t recordedUpTo)
    (hpdu : recordedUpTo < pdu.streamOrdering) : TablesOk (storeDestinationRoomsEntries pdu t) pdu.streamOrdering where
  key n e he := by
    rcases of_get?_set he with ⟨hn, rfl⟩ | ⟨hn, he⟩
    · exact ⟨hn.symm, by omega, by omega⟩
    · obtain ⟨heq, hle, hpos⟩ := ht.key n e he
      exact ⟨heq, by omega, hpos⟩
  newest room n hn := by
    show ∃ e, (t.events.set pdu.streamOrdering pdu).get? n = some e ∧ e.roomId = room
    rcases of_get?_set hn with ⟨hroom, rfl⟩ | ⟨hroom, hn⟩
    · exact ⟨pdu, by rw [get?_set, if_pos rfl], hroom.symm⟩
    obtain ⟨e, he, heq⟩ := ht.newest room n hn
    have hle := (ht.key n e he).2.1
    exact ⟨e, by rw [get?_set, if_neg (by omega)]; exact he, heq⟩
  latest n e he := by
    show ∃ m, (t.destinationRooms.set pdu.roomId pdu.streamOrdering).get? e.roomId = some m ∧ n ≤ m
    rcases of_get?_set he with ⟨hn, rfl⟩ | ⟨hn, he⟩
    · exact ⟨pdu.streamOrdering, by rw [get?_set, if_pos rfl], by omega⟩
    have hle := (ht.key n e he).2.1
    by_cases hroom : e.roomId = pdu.roomId
    · exact ⟨pdu.streamOrdering, by rw [get?_set, if_pos hroom], by omega⟩
    · obtain ⟨m, hm, hnm⟩ := ht.latest n e he
      exact ⟨m, by rw [get?_set, if_neg hroom]; exact hm, hnm⟩

/-! ## §2 The invariant -/

/-- **What the state of the queue says about the events**, whatever the loop waits for. -/
structure Core (w : World) : Prop where
  tables : TablesOk w.tables w.recordedUpTo
  queuedRecorded : ∀ e ∈ w.queued, w.tables.events.get? e.streamOrdering = some e ∧ e.streamOrdering ≤ w.queuedUpTo
  queuedUpTo : w.queuedUpTo ≤ w.recordedUpTo
  stored : ∀ last, w.tables.lastSuccessfulStreamOrdering = some last → w.Honest last
  known : ∀ last, w.queue.lastSuccessfulStreamOrdering = some last →
    w.tables.lastSuccessfulStreamOrdering ≠ none ∧ w.Honest last
  notStored : w.tables.lastSuccessfulStreamOrdering = none → ∀ e ∈ w.queued, w.Settled e ∨ e ∈ w.queue.pendingPdus
  pendingQueued : ∀ e ∈ w.queue.pendingPdus, e ∈ w.queued
  pendingSorted : w.queue.pendingPdus.Pairwise fun p q => p.streamOrdering < q.streamOrdering
  normal : w.queue.catchingUp = false → ∀ e, w.Live e → w.Settled e ∨ ((e ∈ w.queued → e ∈ w.queue.pendingPdus) ∧
    ∀ last, w.tables.lastSuccessfulStreamOrdering = some last → last < e.streamOrdering)

/-- Catch-up goes on from a position. -/
def CatchingUp (w : World) (last : ℕ) : Prop :=
  w.queue.catchingUp = true ∧ w.queue.lastSuccessfulStreamOrdering = some last

/-- Catch-up found nothing to do: all events are settled but for those that were skipped since. -/
structure NothingFound (w : World) (last : ℕ) : Prop where
  stored : ∀ stored, w.tables.lastSuccessfulStreamOrdering = some stored → stored ≤ last
  skipped : ∀ e, w.Live e → w.Settled e ∨
    (last < e.streamOrdering ∧ (e ∈ w.queued → e.streamOrdering ≤ w.queue.catchupLastSkipped))

/-- What holds while the loop waits. -/
def Waiting (w : World) : Loop → Prop
  | .idle => True
  | .retryLimiter => True
  | .loadLastSuccessful => w.queue.catchingUp = true ∧ w.queue.lastSuccessfulStreamOrdering = none
  | .catchUpQuery _ last => CatchingUp w last
  | .catchUpFound _ last pdus => CatchingUp w last ∧ Upcoming w.tables last pdus ∧ (pdus = [] → NothingFound w last)
  | .catchUpRooms _ last pdus => CatchingUp w last ∧ Upcoming w.tables last pdus
  | .catchUpTransaction _ last pdu rest transaction => CatchingUp w last ∧ Upcoming w.tables last (pdu :: rest) ∧
      ∀ e, e.roomId = pdu.roomId → e.streamOrdering ≤ pdu.streamOrdering → transaction.Covers e
  | .catchUpStore _ last rest => CatchingUp w last ∧ Upcoming w.tables last rest
  | .enter => w.queue.catchingUp = false
  | .transaction pdus => w.queue.catchingUp = false ∧ pdus <+: w.queue.pendingPdus
  | .store last => w.queue.catchingUp = false ∧ (∃ e ∈ w.queued, e.streamOrdering = last) ∧
      ∀ e ∈ w.queue.pendingPdus, last < e.streamOrdering

structure Inv (w : World) : Prop where
  core : Core w
  waiting : Waiting w w.queue.loop

/-! ## §3 What keeps it -/

variable {e : Pdu}

theorem settled_mono (w w' : World) (hsent : ∀ t ∈ w.sent, t ∈ w'.sent) (hlost : ∀ e ∈ w.lost, e ∈ w'.lost)
    (h : w.Settled e) : w'.Settled e := by
  rcases h with ⟨t, ht, hcovers⟩ | hlost'
  · exact Or.inl ⟨t, hsent t ht, hcovers⟩
  · exact Or.inr (hlost e hlost')

/-- An honest position stays honest as more is settled. -/
theorem honest_mono (w w' : World) (hevents : w'.tables.events = w.tables.events)
    (hrooms : w'.tables.destinationRooms = w.tables.destinationRooms) (hqueued : w'.queued = w.queued)
    (hqueuedUpTo : w'.queuedUpTo = w.queuedUpTo) (hsettled : ∀ e, w.Settled e → w'.Settled e)
    (h : w.Honest last) : w'.Honest last := by
  obtain ⟨hrecorded, hall⟩ := h
  refine ⟨by rw [hevents]; exact hrecorded, fun e he => ?_⟩
  unfold World.Live at he
  rw [hevents, hqueued, hqueuedUpTo] at he
  rcases hall e he with hs | ⟨n, hn, hlt⟩
  · exact Or.inl (hsettled e hs)
  · exact Or.inr ⟨n, by rw [hrooms]; exact hn, hlt⟩

variable {w : World}

/-- Flags and the loop are changed. -/
theorem Core.withQueue (h : Core w) (q : Queue) (hcatchingUp : q.catchingUp = w.queue.catchingUp)
    (hlast : q.lastSuccessfulStreamOrdering = w.queue.lastSuccessfulStreamOrdering)
    (hpending : q.pendingPdus = w.queue.pendingPdus) : Core { w with queue := q } where
  tables := h.tables
  queuedRecorded := h.queuedRecorded
  queuedUpTo := h.queuedUpTo
  stored := h.stored
  known last hq := h.known last (hlast ▸ hq)
  notStored hnone e he := by
    show w.Settled e ∨ e ∈ q.pendingPdus
    rw [hpending]
    exact h.notStored hnone e he
  pendingQueued e he := h.pendingQueued e (hpending ▸ he)
  pendingSorted := by
    show q.pendingPdus.Pairwise _
    rw [hpending]
    exact h.pendingSorted
  normal hq e he := by
    show w.Settled e ∨ (e ∈ w.queued → e ∈ q.pendingPdus) ∧ _
    rw [hpending]
    exact h.normal (hcatchingUp ▸ hq) e he

theorem Core.setLoop (h : Core w) (loop : Loop) : Core (w.setLoop loop) :=
  h.withQueue { w.queue with loop := loop } rfl rfl rfl

theorem dropPending_settled (w : World) (h : w.Settled e) : w.dropPending.Settled e := by
  refine settled_mono w w.dropPending (fun t ht => ht) (fun e he => ?_) h
  show e ∈ if _ then _ else _
  by_cases hnone : w.tables.lastSuccessfulStreamOrdering = none
  · rw [if_pos hnone]
    exact List.mem_append_right _ he
  · rw [if_neg hnone]
    exact he

/-- **The queue is thrown away**, and what was in it is lost if no position is stored. -/
theorem Core.drop (h : Core w) (q : Queue) (hcatchingUp : q.catchingUp = true) (hpending : q.pendingPdus = [])
    (hlast : ∀ last, q.lastSuccessfulStreamOrdering = some last → w.queue.lastSuccessfulStreamOrdering = some last) :
    Core { w.dropPending with queue := q } where
  tables := h.tables
  queuedRecorded := h.queuedRecorded
  queuedUpTo := h.queuedUpTo
  stored last hs := honest_mono w { w.dropPending with queue := q } rfl rfl rfl rfl (fun e he => dropPending_settled w he) (h.stored last hs)
  known last hq := by
    obtain ⟨hne, hhonest⟩ := h.known last (hlast last hq)
    exact ⟨hne, honest_mono w { w.dropPending with queue := q } rfl rfl rfl rfl (fun e he => dropPending_settled w he) hhonest⟩
  notStored hnone e he := by
    left
    rcases h.notStored hnone e he with hs | hmem
    · exact dropPending_settled w hs
    right
    have hnone : w.tables.lastSuccessfulStreamOrdering = none := hnone
    show e ∈ if _ then _ else _
    rw [if_pos hnone]
    exact mem_append_left _ hmem
  pendingQueued e he := by
    rw [hpending] at he
    exact absurd he not_mem_nil
  pendingSorted := by
    show q.pendingPdus.Pairwise _
    rw [hpending]
    exact List.Pairwise.nil
  normal hq := by
    rw [hcatchingUp] at hq
    cases hq

theorem Core.startCatchingUp (h : Core w) : Core w.startCatchingUp :=
  h.drop { w.queue with catchingUp := true, pendingPdus := [] } rfl rfl fun _ hlast => hlast

/-- The loop starts sending, or ends. -/
theorem Core.transmit (h : Core w) (hcatchingUp : w.queue.catchingUp = false) : Inv w.transmit := by
  unfold World.transmit
  by_cases henabled : w.queue.transmissionLoopEnabled = true
  · rw [if_pos henabled]
    exact ⟨h.withQueue { w.queue with newDataToSend := false, loop := .enter } rfl rfl rfl, hcatchingUp⟩
  · rw [if_neg henabled]
    exact ⟨h.setLoop .idle, trivial⟩

/-- Catch-up asks for more rooms, or the loop ends. -/
theorem Core.catchUp (h : Core w) (hc : CatchingUp w last) (first : Bool) : Inv (w.catchUp first last) := by
  unfold World.catchUp
  by_cases henabled : w.queue.transmissionLoopEnabled = true
  · rw [if_pos henabled]
    exact ⟨h.setLoop (.catchUpQuery first last), hc⟩
  · rw [if_neg henabled, if_pos hc.1]
    exact ⟨h.setLoop .idle, trivial⟩

theorem Core.fail (h : Inv w) (error : LoopError) : Inv (w.fail error) := by
  unfold World.fail
  have hidle : Inv (w.setLoop .idle) := ⟨h.core.setLoop .idle, trivial⟩
  have hdrop : Inv (w.startCatchingUp.setLoop .idle) := ⟨h.core.startCatchingUp.setLoop .idle, trivial⟩
  cases hloop : w.queue.loop with
  | idle => exact h
  | _ =>
    cases error with
    | notRetryingDestination retryInterval =>
      dsimp only
      by_cases hlong : catchupRetryInterval < retryInterval
      · rw [if_pos hlong]
        exact hdrop
      · rw [if_neg hlong]
        exact hidle
    | _ => exact hidle

/-! ### Events are recorded and queued -/

theorem live_record (h : (w.record pdu).Live e) : e = pdu ∨ w.Live e := by
  obtain ⟨hget, hqueued⟩ := h
  have hget : (w.tables.events.set pdu.streamOrdering pdu).get? e.streamOrdering = some e := hget
  rw [get?_set] at hget
  by_cases heq : e.streamOrdering = pdu.streamOrdering
  · rw [if_pos heq] at hget
    exact Or.inl (Option.some.inj hget).symm
  · rw [if_neg heq] at hget
    exact Or.inr ⟨hget, hqueued⟩

theorem honest_record (h : Core w) (hpdu : w.recordedUpTo < pdu.streamOrdering)
    (hhonest : w.Honest last) : (w.record pdu).Honest last := by
  obtain ⟨⟨e, he⟩, hall⟩ := hhonest
  have hle := (h.tables.key last e he).2.1
  have hrooms : ∀ room, (w.record pdu).tables.destinationRooms.get? room =
      if room = pdu.roomId then some pdu.streamOrdering else w.tables.destinationRooms.get? room := fun room =>
    get?_set _ _ _ _
  refine ⟨⟨e, ?_⟩, fun e' he' => ?_⟩
  · show (w.tables.events.set pdu.streamOrdering pdu).get? last = some e
    rw [get?_set, if_neg (by omega)]
    exact he
  by_cases hroom : e'.roomId = pdu.roomId
  · -- the newest event of the room is the one that is recorded
    exact Or.inr ⟨pdu.streamOrdering, by rw [hrooms, if_pos hroom], by omega⟩
  rcases live_record he' with rfl | hlive
  · exact absurd rfl hroom
  · rcases hall e' hlive with hs | ⟨n, hn, hlt⟩
    · exact Or.inl hs
    · exact Or.inr ⟨n, by rw [hrooms, if_neg hroom]; exact hn, hlt⟩

theorem Inv.record (h : Inv w) (hpdu : w.recordedUpTo < pdu.streamOrdering) : Inv (w.record pdu) := by
  obtain ⟨hcore, hwaiting⟩ := h
  have hnew : pdu ∉ w.queued := by
    intro hmem
    have hle := (hcore.queuedRecorded pdu hmem).2
    have hle' := hcore.queuedUpTo
    omega
  have hstoredLt : ∀ last, w.Honest last → last < pdu.streamOrdering := by
    rintro last ⟨⟨e, he⟩, _⟩
    have hle := (hcore.tables.key last e he).2.1
    omega
  refine ⟨?_, ?_⟩
  · exact
      { tables := hcore.tables.record hpdu
        queuedRecorded := fun e he => by
          obtain ⟨hget, hle⟩ := hcore.queuedRecorded e he
          have hle' := (hcore.tables.key _ e hget).2.1
          refine ⟨?_, hle⟩
          show (w.tables.events.set pdu.streamOrdering pdu).get? e.streamOrdering = some e
          rw [get?_set, if_neg (by omega)]
          exact hget
        queuedUpTo := by
          have hle := hcore.queuedUpTo
          show w.queuedUpTo ≤ pdu.streamOrdering
          omega
        stored := fun last hs => honest_record hcore hpdu (hcore.stored last hs)
        known := fun last hl => ⟨(hcore.known last hl).1, honest_record hcore hpdu (hcore.known last hl).2⟩
        notStored := hcore.notStored
        pendingQueued := hcore.pendingQueued
        pendingSorted := hcore.pendingSorted
        normal := fun hnormal e he => by
          rcases live_record he with rfl | hlive
          · exact Or.inr ⟨fun hmem => absurd hmem hnew, fun last hs => hstoredLt last (hcore.stored last hs)⟩
          · exact hcore.normal hnormal e hlive }
  · have hloop : (w.record pdu).queue.loop = w.queue.loop := rfl
    rw [hloop]
    generalize w.queue.loop = loop at hwaiting ⊢
    cases loop with
    | catchUpFound first last pdus =>
      obtain ⟨hc, hupcoming, hnothing⟩ := hwaiting
      refine ⟨hc, hupcoming.record hcore.tables hpdu, fun hnil => ?_⟩
      have hfound := hnothing hnil
      refine ⟨hfound.stored, fun e he => ?_⟩
      rcases live_record he with rfl | hlive
      · exact Or.inr ⟨hstoredLt last (hcore.known last hc.2).2, fun hmem => absurd hmem hnew⟩
      · exact hfound.skipped e hlive
    | catchUpRooms first last pdus =>
      exact ⟨hwaiting.1, hwaiting.2.record hcore.tables hpdu⟩
    | catchUpTransaction first last pdu' rest transaction =>
      exact ⟨hwaiting.1, hwaiting.2.1.record hcore.tables hpdu, hwaiting.2.2⟩
    | catchUpStore first last rest =>
      exact ⟨hwaiting.1, hwaiting.2.record hcore.tables hpdu⟩
    | _ => exact hwaiting

theorem Inv.startLoop (h : Inv w) : Inv w.startLoop := by
  unfold World.startLoop
  cases w.queue.loop with
  | idle =>
    by_cases hstart : (w.queue.shouldSendOnThisInstance && w.queue.transmissionLoopEnabled) = true
    · rw [if_pos hstart]
      exact ⟨h.core.setLoop .retryLimiter, trivial⟩
    · rw [if_neg hstart]
      exact h
  | _ => exact h

theorem Inv.attemptNewTransaction (h : Inv w) : Inv w.attemptNewTransaction := by
  refine Inv.startLoop ⟨h.core.withQueue { w.queue with newDataToSend := true } rfl rfl rfl, ?_⟩
  have hwaiting := h.waiting
  show Waiting _ w.queue.loop
  generalize w.queue.loop = loop at hwaiting ⊢
  cases loop with
  | catchUpFound first last pdus =>
    obtain ⟨hc, hupcoming, hnothing⟩ := hwaiting
    exact ⟨hc, hupcoming, fun hnil => ⟨(hnothing hnil).stored, (hnothing hnil).skipped⟩⟩
  | _ => exact hwaiting

/-- The world in `send_pdu` before a transaction is attempted. -/
def enqueued (pdu : Pdu) (w : World) : World :=
  { w with
    queue :=
      if w.queue.catchingUp = false ∨ w.queue.lastSuccessfulStreamOrdering = none then
        { w.queue with pendingPdus := w.queue.pendingPdus ++ [pdu] }
      else { w.queue with catchupLastSkipped := pdu.streamOrdering }
    queued := pdu :: w.queued
    queuedUpTo := pdu.streamOrdering }

theorem Inv.enqueue (h : Inv w) (hget : w.tables.events.get? pdu.streamOrdering = some pdu)
    (hpdu : w.queuedUpTo < pdu.streamOrdering) : Inv (enqueued pdu w) := by
  obtain ⟨hcore, hwaiting⟩ := h
  have hqueuedLt : ∀ e ∈ w.queued, e.streamOrdering < pdu.streamOrdering := by
    intro e he
    have hle := (hcore.queuedRecorded e he).2
    omega
  -- an event that may be queued later could be so before
  have hlive : ∀ e, (enqueued pdu w).Live e → w.Live e := by
    rintro e ⟨he, hqueued | hlt⟩
    · rcases List.mem_cons.mp hqueued with rfl | hqueued
      · exact ⟨he, Or.inr hpdu⟩
      · exact ⟨he, Or.inl hqueued⟩
    · have hlt : pdu.streamOrdering < e.streamOrdering := hlt
      exact ⟨he, Or.inr (by omega)⟩
  have hhonest : ∀ last, w.Honest last → (enqueued pdu w).Honest last := fun last hh =>
    ⟨hh.1, fun e he => hh.2 e (hlive e he)⟩
  have hqueue : (enqueued pdu w).queue =
      if w.queue.catchingUp = false ∨ w.queue.lastSuccessfulStreamOrdering = none then
        { w.queue with pendingPdus := w.queue.pendingPdus ++ [pdu] }
      else { w.queue with catchupLastSkipped := pdu.streamOrdering } := rfl
  have hloop : (enqueued pdu w).queue.loop = w.queue.loop := by
    rw [hqueue]
    split <;> rfl
  have hcatchingUp : (enqueued pdu w).queue.catchingUp = w.queue.catchingUp := by
    rw [hqueue]
    split <;> rfl
  have hlast : (enqueued pdu w).queue.lastSuccessfulStreamOrdering = w.queue.lastSuccessfulStreamOrdering := by
    rw [hqueue]
    split <;> rfl
  have hpending : (w.queue.catchingUp = false ∨ w.queue.lastSuccessfulStreamOrdering = none) →
      (enqueued pdu w).queue.pendingPdus = w.queue.pendingPdus ++ [pdu] := by
    intro hcond
    rw [hqueue, if_pos hcond]
  have hmemPending : ∀ e ∈ (enqueued pdu w).queue.pendingPdus, e = pdu ∨ e ∈ w.queue.pendingPdus := by
    intro e he
    rw [hqueue] at he
    split at he
    · rcases List.mem_append.mp he with he | he
      · exact Or.inr he
      · exact Or.inl (List.mem_singleton.mp he)
    · exact Or.inr he
  refine ⟨?_, ?_⟩
  · exact
      { tables := hcore.tables
        queuedRecorded := fun e he => by
          rcases List.mem_cons.mp he with rfl | he
          · exact ⟨hget, Nat.le_refl _⟩
          · exact ⟨(hcore.queuedRecorded e he).1, Nat.le_of_lt (hqueuedLt e he)⟩
        queuedUpTo := (hcore.tables.key _ pdu hget).2.1
        stored := fun last hs => hhonest last (hcore.stored last hs)
        known := fun last hl => by
          rw [hlast] at hl
          exact ⟨(hcore.known last hl).1, hhonest last (hcore.known last hl).2⟩
        notStored := fun hnone e he => by
          -- a position in memory is one that is stored
          have hunknown : w.queue.lastSuccessfulStreamOrdering = none := by
            by_contra hne
            obtain ⟨last, hl⟩ := Option.ne_none_iff_exists'.mp hne
            exact (hcore.known last hl).1 hnone
          rw [hpending (Or.inr hunknown)]
          rcases List.mem_cons.mp he with rfl | he
          · exact Or.inr (List.mem_append_right _ (List.mem_singleton.mpr rfl))
          rcases hcore.notStored hnone e he with hs | hmem
          · exact Or.inl hs
          · exact Or.inr (mem_append_left _ hmem)
        pendingQueued := fun e he => by
          rcases hmemPending e he with rfl | he
          · exact mem_cons_self
          · exact mem_cons_of_mem pdu (hcore.pendingQueued e he)
        pendingSorted := by
          rw [hqueue]
          split
          · refine List.pairwise_append.mpr ⟨hcore.pendingSorted, List.pairwise_singleton _ _, ?_⟩
            intro e he e' he'
            rw [List.mem_singleton.mp he']
            exact hqueuedLt e (hcore.pendingQueued e he)
          · exact hcore.pendingSorted
        normal := fun hnormal e he => by
          rw [hcatchingUp] at hnormal
          rw [hpending (Or.inl hnormal)]
          rcases hcore.normal hnormal e (hlive e he) with hs | ⟨hmem, hlt⟩
          · exact Or.inl hs
          refine Or.inr ⟨fun hqueued => ?_, hlt⟩
          rcases List.mem_cons.mp hqueued with rfl | hqueued
          · exact List.mem_append_right _ (List.mem_singleton.mpr rfl)
          · exact mem_append_left _ (hmem hqueued) }
  · rw [hloop]
    have hcatch : ∀ last, CatchingUp w last → CatchingUp (enqueued pdu w) last := fun last hc =>
      ⟨hcatchingUp.trans hc.1, hlast.trans hc.2⟩
    generalize w.queue.loop = loop at hwaiting ⊢
    cases loop with
    | idle => trivial
    | retryLimiter => trivial
    | loadLastSuccessful =>
      exact ⟨hcatchingUp.trans hwaiting.1, hlast.trans hwaiting.2⟩
    | catchUpQuery first last =>
      exact hcatch last hwaiting
    | catchUpFound first last pdus =>
      obtain ⟨hc, hupcoming, hnothing⟩ := hwaiting
      refine ⟨hcatch last hc, hupcoming, fun hnil => ⟨(hnothing hnil).stored, fun e he => ?_⟩⟩
      rcases (hnothing hnil).skipped e (hlive e he) with hs | ⟨hlt, _⟩
      · exact Or.inl hs
      refine Or.inr ⟨hlt, fun hqueued => ?_⟩
      -- in catch-up the event is skipped
      have hskip : ¬ (w.queue.catchingUp = false ∨ w.queue.lastSuccessfulStreamOrdering = none) := by
        rintro (hfalse | hnone)
        · rw [hc.1] at hfalse
          cases hfalse
        · rw [hc.2] at hnone
          cases hnone
      rw [hqueue, if_neg hskip]
      rcases List.mem_cons.mp hqueued with rfl | hqueued
      · exact Nat.le_refl _
      · exact Nat.le_of_lt (hqueuedLt e hqueued)
    | catchUpRooms first last pdus =>
      exact ⟨hcatch last hwaiting.1, hwaiting.2⟩
    | catchUpTransaction first last pdu' rest transaction =>
      exact ⟨hcatch last hwaiting.1, hwaiting.2⟩
    | catchUpStore first last rest =>
      exact ⟨hcatch last hwaiting.1, hwaiting.2⟩
    | enter =>
      exact hcatchingUp.trans hwaiting
    | transaction pdus =>
      refine ⟨hcatchingUp.trans hwaiting.1, ?_⟩
      rw [hpending (Or.inl hwaiting.1)]
      exact hwaiting.2.trans (List.prefix_append _ _)
    | store last =>
      obtain ⟨hnormal, ⟨e, he, heq⟩, hlt⟩ := hwaiting
      refine ⟨hcatchingUp.trans hnormal, ⟨e, mem_cons_of_mem pdu he, heq⟩, fun e' he' => ?_⟩
      rcases hmemPending e' he' with rfl | he'
      · have hle := (hcore.queuedRecorded e he).2
        omega
      · exact hlt e' he'

theorem Inv.sendPdu (h : Inv w) (hget : w.tables.events.get? pdu.streamOrdering = some pdu)
    (hpdu : w.queuedUpTo < pdu.streamOrdering) : Inv (w.sendPdu pdu) :=
  (h.enqueue hget hpdu).attemptNewTransaction

/-! ### The loop goes on -/

/-- What is sent for a room makes up for all its events up to the newest one. -/
theorem roomCatchupPdus_covers (turn : Turn) (last : ℕ) (hpdu : pdu.streamOrdering ≤ w.recordedUpTo)
    (hroom : e.roomId = pdu.roomId)
    (hle : e.streamOrdering ≤ pdu.streamOrdering) : (w.roomCatchupPdus turn last pdu).Covers e := by
  have hnewest : (Transaction.newest pdu).Covers e :=
    Or.inl ⟨pdu, List.mem_singleton.mpr rfl, hroom.symm, hle⟩
  unfold World.roomCatchupPdus
  dsimp only
  split
  · exact hnewest
  split
  · exact hnewest
  split
  · rename_i hne
    refine Or.inr ⟨w.recordedUpTo, _, _, by rw [hroom], by omega, hne, fun p hp => ?_⟩
    exact (List.mem_filter.mp (List.mem_filter.mp hp).1).1
  · exact hnewest

variable {rest : List Pdu}

/-- **A room is caught up**, and the position moves on to its newest event: rooms in between there are none. -/
theorem honest_catchUp (hcore : Core w) {transaction : Transaction} (hlast : w.Honest last)
    (hupcoming : Upcoming w.tables last (pdu :: rest))
    (hcovers : ∀ e, e.roomId = pdu.roomId → e.streamOrdering ≤ pdu.streamOrdering → transaction.Covers e)
    (w' : World) (hevents : w'.tables.events = w.tables.events)
    (hrooms : w'.tables.destinationRooms = w.tables.destinationRooms) (hqueued : w'.queued = w.queued)
    (hqueuedUpTo : w'.queuedUpTo = w.queuedUpTo) (hsent : w'.sent = transaction :: w.sent)
    (hlost : w'.lost = w.lost) : w'.Honest pdu.streamOrdering := by
  have hrecorded := hupcoming.recorded pdu mem_cons_self
  refine ⟨⟨pdu, by rw [hevents]; exact hrecorded⟩, fun e he => ?_⟩
  unfold World.Live at he
  rw [hevents, hqueued, hqueuedUpTo] at he
  rcases hlast.2 e he with hs | ⟨n, hn, hlt⟩
  · left
    refine settled_mono w w' (fun t ht => ?_) (fun e he => ?_) hs
    · rw [hsent]
      exact mem_cons_of_mem transaction ht
    · rw [hlost]
      exact he
  by_cases hbeyond : pdu.streamOrdering < n
  · exact Or.inr ⟨n, by rw [hrooms]; exact hn, hbeyond⟩
  · -- then the newest event of the room is the one that was sent
    have heq : n = pdu.streamOrdering := by
      rcases hupcoming.complete e.roomId n hn hlt with ⟨p, hp, rfl⟩ | hall
      · rcases List.mem_cons.mp hp with rfl | hp
        · rfl
        · have hle := (List.pairwise_cons.mp hupcoming.sorted).1 p hp
          omega
      · have hlt' := hall pdu mem_cons_self
        omega
    subst heq
    obtain ⟨newest, hnewest, hroom⟩ := hcore.tables.newest e.roomId _ hn
    rw [hrecorded] at hnewest
    cases hnewest
    obtain ⟨m, hm, hle⟩ := hcore.tables.latest _ e he.1
    rw [hn] at hm
    cases hm
    exact Or.inl (Or.inl ⟨transaction, by rw [hsent]; exact mem_cons_self, hcovers e hroom.symm hle⟩)

/-- No position is stored: nothing can be caught up. -/
theorem Core.unknown (hcore : Core w) (hstored : w.tables.lastSuccessfulStreamOrdering = none) :
    Core { w with queue := { w.queue with catchingUp := false } } :=
  { hcore with
    normal := fun _ e he => by
      have hnot : ∀ last, w.tables.lastSuccessfulStreamOrdering = some last → last < e.streamOrdering := by
        intro last hs
        rw [hstored] at hs
        cases hs
      rcases he.2 with hqueued | hlt
      · rcases hcore.notStored hstored e hqueued with hs | hmem
        · exact Or.inl hs
        · exact Or.inr ⟨fun _ => hmem, hnot⟩
      have hlt : w.queuedUpTo < e.streamOrdering := hlt
      refine Or.inr ⟨fun hqueued => ?_, hnot⟩
      have hle := (hcore.queuedRecorded e hqueued).2
      omega }

/-- The position that is stored is loaded. -/
theorem Core.loaded (hcore : Core w) (hstored : w.tables.lastSuccessfulStreamOrdering = some last) :
    Core { w with queue := { w.queue with lastSuccessfulStreamOrdering := some last } } :=
  { hcore with
    known := fun last' hl => by
      obtain rfl : last = last' := Option.some.inj hl
      refine ⟨fun hnone => ?_, hcore.stored last hstored⟩
      rw [hstored] at hnone
      cases hnone }

/-- Nothing is found that would have to be caught up. -/
theorem Core.nothingFound (hcore : Core w) (hknown : w.Honest last)
    (hnil : getCatchUpRoomEvents last w.tables = []) : NothingFound w last where
  stored stored hs := by
    obtain ⟨⟨e, he⟩, _⟩ := hcore.stored stored hs
    obtain ⟨m, hm, hle⟩ := hcore.tables.latest stored e he
    have hle' := le_of_getCatchUpRoomEvents_eq_nil hcore.tables hnil hm
    omega
  skipped e he := by
    rcases hknown.2 e he with hs | ⟨n, hn, hlt⟩
    · exact Or.inl hs
    · have hle := le_of_getCatchUpRoomEvents_eq_nil hcore.tables hnil hn
      omega

/-- **Catch-up ends** if no event was skipped since. -/
theorem Core.caughtUp (hcore : Core w) (hfound : NothingFound w last)
    (hskipped : ¬ (w.queue.catchupLastSkipped ≠ 0 ∧ last < w.queue.catchupLastSkipped)) :
    Core { w with queue := { w.queue with catchingUp := false } } :=
  { hcore with
    normal := fun _ e he => by
      rcases hfound.skipped e he with hs | ⟨hlt, hqueued⟩
      · exact Or.inl hs
      refine Or.inr ⟨fun hmem => ?_, fun stored hs => ?_⟩
      · -- an event that was skipped would have been looked for
        have hle := hqueued hmem
        exact absurd ⟨by omega, by omega⟩ hskipped
      · have hle := hfound.stored stored hs
        omega }

theorem settled_sent (w w' : World) (transaction : Transaction) (hsent : w'.sent = transaction :: w.sent)
    (hlost : w'.lost = w.lost) (h : w.Settled e) : w'.Settled e := by
  refine settled_mono w w' (fun t ht => ?_) (fun e he => ?_) h
  · rw [hsent]
    exact mem_cons_of_mem transaction ht
  · rw [hlost]
    exact he

/-- The world after a room was caught up. -/
def sentRoom (first : Bool) (pdu : Pdu) (rest : List Pdu) (transaction : Transaction) (w : World) : World :=
  { w with
    sent := transaction :: w.sent
    queue := { w.queue with
      lastSuccessfulStreamOrdering := some pdu.streamOrdering
      loop := .catchUpStore first pdu.streamOrdering rest } }

theorem Core.sentRoom (hcore : Core w) {transaction : Transaction} (hc : CatchingUp w last)
    (hupcoming : Upcoming w.tables last (pdu :: rest))
    (hcovers : ∀ e, e.roomId = pdu.roomId → e.streamOrdering ≤ pdu.streamOrdering → transaction.Covers e)
    (first : Bool) : Core (sentRoom first pdu rest transaction w) := by
  obtain ⟨hne, hhonest⟩ := hcore.known last hc.2
  exact
    { tables := hcore.tables
      queuedRecorded := hcore.queuedRecorded
      queuedUpTo := hcore.queuedUpTo
      stored := fun stored hs => honest_mono w (PerDestinationQueue.sentRoom first pdu rest transaction w) rfl rfl rfl rfl
        (fun e he => settled_sent w (PerDestinationQueue.sentRoom first pdu rest transaction w) transaction rfl rfl he) (hcore.stored stored hs)
      known := fun last' hl => by
        obtain rfl : pdu.streamOrdering = last' := Option.some.inj hl
        exact ⟨hne, honest_catchUp hcore hhonest hupcoming hcovers _ rfl rfl rfl rfl rfl rfl⟩
      notStored := fun hnone => absurd hnone hne
      pendingQueued := hcore.pendingQueued
      pendingSorted := hcore.pendingSorted
      normal := fun hnormal => by
        have hnormal : w.queue.catchingUp = false := hnormal
        rw [hc.1] at hnormal
        cases hnormal }

/-- A position is stored. -/
def storedPosition (last : ℕ) (w : World) : World :=
  { w with tables := { w.tables with lastSuccessfulStreamOrdering := some last } }

theorem Core.storedPosition (hcore : Core w) (hhonest : w.Honest last)
    (hnormal : w.queue.catchingUp = false → ∀ e, w.Live e → w.Settled e ∨ last < e.streamOrdering) :
    Core (storedPosition last w) where
  tables := ⟨hcore.tables.key, hcore.tables.newest, hcore.tables.latest⟩
  queuedRecorded := hcore.queuedRecorded
  queuedUpTo := hcore.queuedUpTo
  stored last' hs := by
    obtain rfl : last = last' := Option.some.inj hs
    exact hhonest
  known last' hl := by
    refine ⟨fun hnone => ?_, (hcore.known last' hl).2⟩
    cases hnone
  notStored hnone := by
    cases hnone
  pendingQueued := hcore.pendingQueued
  pendingSorted := hcore.pendingSorted
  normal hcatchingUp e he := by
    rcases hcore.normal hcatchingUp e he with hs | ⟨hmem, _⟩
    · exact Or.inl hs
    rcases hnormal hcatchingUp e he with hs | hlt
    · exact Or.inl hs
    refine Or.inr ⟨hmem, fun last' hs => ?_⟩
    obtain rfl : last = last' := Option.some.inj hs
    exact hlt

/-- The world after events of the queue were sent. -/
def sentQueue (pdus : List Pdu) (w : World) : World :=
  { w with
    sent := .queue pdus :: w.sent
    queue := { w.queue with pendingPdus := w.queue.pendingPdus.drop pdus.length } }

theorem Core.sentQueue (hcore : Core w) {pdus : List Pdu} (hrest : pdus ++ rest = w.queue.pendingPdus) :
    Core (sentQueue pdus w) ∧ (PerDestinationQueue.sentQueue pdus w).queue.pendingPdus = rest := by
  have hdrop : (PerDestinationQueue.sentQueue pdus w).queue.pendingPdus = rest := by
    show w.queue.pendingPdus.drop pdus.length = rest
    rw [← hrest, List.drop_left]
  have hsettled : ∀ e, w.Settled e → (PerDestinationQueue.sentQueue pdus w).Settled e := fun e he =>
    settled_sent w (PerDestinationQueue.sentQueue pdus w) (.queue pdus) rfl rfl he
  -- an event of the queue is in the transaction, or stays in the queue
  have hpending : ∀ e ∈ w.queue.pendingPdus, (PerDestinationQueue.sentQueue pdus w).Settled e ∨ e ∈ rest := by
    intro e he
    rw [← hrest] at he
    rcases List.mem_append.mp he with he | he
    · exact Or.inl (Or.inl ⟨.queue pdus, mem_cons_self, Or.inl ⟨e, he, rfl, Nat.le_refl _⟩⟩)
    · exact Or.inr he
  have hsorted := hcore.pendingSorted
  rw [← hrest] at hsorted
  refine ⟨?_, hdrop⟩
  exact
    { tables := hcore.tables
      queuedRecorded := hcore.queuedRecorded
      queuedUpTo := hcore.queuedUpTo
      stored := fun stored hs => honest_mono w (PerDestinationQueue.sentQueue pdus w) rfl rfl rfl rfl hsettled
        (hcore.stored stored hs)
      known := fun last hl => ⟨(hcore.known last hl).1,
        honest_mono w (PerDestinationQueue.sentQueue pdus w) rfl rfl rfl rfl hsettled (hcore.known last hl).2⟩
      notStored := fun hnone e he => by
        rw [hdrop]
        rcases hcore.notStored hnone e he with hs | hmem
        · exact Or.inl (hsettled e hs)
        · exact hpending e hmem
      pendingQueued := fun e he => by
        rw [hdrop] at he
        exact hcore.pendingQueued e (by rw [← hrest]; exact List.mem_append_right _ he)
      pendingSorted := by
        rw [hdrop]
        exact (List.pairwise_append.mp hsorted).2.1
      normal := fun hnormal e he => by
        rw [hdrop]
        rcases hcore.normal hnormal e he with hs | ⟨hmem, hlt⟩
        · exact Or.inl (hsettled e hs)
        by_cases hqueued : e ∈ w.queued
        · rcases hpending e (hmem hqueued) with hs | hstays
          · exact Or.inl hs
          · exact Or.inr ⟨fun _ => hstays, hlt⟩
        · exact Or.inr ⟨fun hmem' => absurd hmem' hqueued, hlt⟩ }

/-- **The loop goes on**, at each point where it waits. -/
theorem Inv.resume (h : Inv w) (turn : Turn) : Inv (w.resume turn) := by
  have ⟨hcore, hwaiting⟩ := h
  unfold World.resume
  generalize w.queue.loop = loop at hwaiting ⊢
  cases loop with
  | idle => exact h
  | retryLimiter =>
    by_cases hcatchingUp : w.queue.catchingUp = true
    · rw [if_pos hcatchingUp]
      cases hlast : w.queue.lastSuccessfulStreamOrdering with
      | none => exact ⟨hcore.setLoop .loadLastSuccessful, hcatchingUp, hlast⟩
      | some last => exact hcore.catchUp ⟨hcatchingUp, hlast⟩ false
    · rw [if_neg hcatchingUp]
      exact hcore.transmit (by simpa using hcatchingUp)
  | loadLastSuccessful =>
    dsimp only
    cases hstored : w.tables.lastSuccessfulStreamOrdering with
    | none => exact (hcore.unknown hstored).transmit rfl
    | some last => exact (hcore.loaded hstored).catchUp ⟨hwaiting.1, rfl⟩ true
  | catchUpQuery first last =>
    have hhonest := (hcore.known last hwaiting.2).2
    exact ⟨hcore.setLoop _, hwaiting, getCatchUpRoomEvents_upcoming hcore.tables, fun hnil =>
      ⟨(hcore.nothingFound hhonest hnil).stored, (hcore.nothingFound hhonest hnil).skipped⟩⟩
  | catchUpFound first last pdus =>
    obtain ⟨hc, hupcoming, hnothing⟩ := hwaiting
    cases pdus with
    | nil =>
      dsimp only
      by_cases hskipped : w.queue.catchupLastSkipped ≠ 0 ∧ last < w.queue.catchupLastSkipped
      · rw [if_pos hskipped]
        exact (hcore.withQueue { w.queue with catchupLastSkipped := 0 } rfl rfl rfl).catchUp hc first
      · rw [if_neg hskipped]
        exact (hcore.caughtUp (hnothing rfl) hskipped).transmit rfl
    | cons pdu pdus =>
      cases first with
      | false => exact ⟨hcore.setLoop _, hc, hupcoming⟩
      | true => exact ⟨hcore.startCatchingUp.setLoop _, ⟨rfl, hc.2⟩, hupcoming⟩
  | catchUpRooms first last pdus =>
    obtain ⟨hc, hupcoming⟩ := hwaiting
    cases pdus with
    | nil => exact hcore.catchUp hc first
    | cons pdu rest =>
      refine ⟨hcore.setLoop _, hc, hupcoming, fun e hroom hle => ?_⟩
      have hpdu := (hcore.tables.key _ pdu (hupcoming.recorded pdu mem_cons_self)).2.1
      exact roomCatchupPdus_covers turn last hpdu hroom hle
  | catchUpTransaction first last pdu rest transaction =>
    obtain ⟨hc, hupcoming, hcovers⟩ := hwaiting
    exact ⟨hcore.sentRoom hc hupcoming hcovers first, ⟨hc.1, rfl⟩, hupcoming.tail⟩
  | catchUpStore first last rest =>
    obtain ⟨hc, hupcoming⟩ := hwaiting
    have hstored : Core (storedPosition last w) := by
      refine hcore.storedPosition (hcore.known last hc.2).2 fun hnormal => ?_
      rw [hc.1] at hnormal
      cases hnormal
    exact ⟨hstored.setLoop _, hc, ⟨hupcoming.sorted, hupcoming.recorded, hupcoming.beyond, hupcoming.complete⟩⟩
  | enter =>
    by_cases hnothing : w.queue.pendingPdus.take 50 = [] ∧ turn.pendingEdus = false
    · rw [if_pos hnothing]
      by_cases hnew : w.queue.newDataToSend = true
      · rw [if_pos hnew]
        exact hcore.transmit hwaiting
      · rw [if_neg hnew]
        exact ⟨hcore.setLoop .idle, trivial⟩
    · rw [if_neg hnothing]
      exact ⟨hcore.setLoop _, hwaiting, List.take_prefix 50 _⟩
  | transaction pdus =>
    obtain ⟨hnormal, rest, hrest⟩ := hwaiting
    obtain ⟨hsent, hpending⟩ := hcore.sentQueue hrest
    dsimp only
    cases hgetLast : pdus.getLast? with
    | none => exact hsent.transmit hnormal
    | some pdu =>
      have hpdu := List.mem_of_getLast? hgetLast
      refine ⟨hsent.setLoop _, hnormal, ⟨pdu, ?_, rfl⟩, fun e he => ?_⟩
      · exact hcore.pendingQueued pdu (by rw [← hrest]; exact mem_append_left _ hpdu)
      -- the queue is in stream order
      have he : e ∈ (PerDestinationQueue.sentQueue pdus w).queue.pendingPdus := he
      rw [hpending] at he
      have hsorted := hcore.pendingSorted
      rw [← hrest] at hsorted
      exact (List.pairwise_append.mp hsorted).2.2 pdu hpdu e he
  | store last =>
    obtain ⟨hnormal, ⟨sentLast, hmemLast, rfl⟩, hlt⟩ := hwaiting
    obtain ⟨hget, hle⟩ := hcore.queuedRecorded sentLast hmemLast
    -- what is not settled is beyond what was sent last
    have hbeyond : ∀ e, w.Live e → w.Settled e ∨ sentLast.streamOrdering < e.streamOrdering := by
      intro e he
      rcases hcore.normal hnormal e he with hs | ⟨hmem, _⟩
      · exact Or.inl hs
      rcases he.2 with hqueued | hlt'
      · exact Or.inr (hlt e (hmem hqueued))
      · exact Or.inr (by omega)
    have hhonest : w.Honest sentLast.streamOrdering := by
      refine ⟨⟨sentLast, hget⟩, fun e he => ?_⟩
      rcases hbeyond e he with hs | hlt'
      · exact Or.inl hs
      · obtain ⟨m, hm, hle'⟩ := hcore.tables.latest _ e he.1
        exact Or.inr ⟨m, hm, by omega⟩
    exact (hcore.storedPosition hhonest fun _ => hbeyond).transmit hnormal

theorem Inv.step {w' : World} (h : Inv w) (hstep : w.Step w') : Inv w' := by
  obtain ⟨op, hordered, rfl⟩ := hstep
  cases op with
  | record pdu => exact h.record hordered
  | sendPdu pdu => exact h.sendPdu hordered.1 hordered.2
  | attemptNewTransaction => exact h.attemptNewTransaction
  | setExtremities roomId extrems =>
    obtain ⟨hcore, hwaiting⟩ := h
    refine ⟨{ hcore with tables := hcore.tables }, ?_⟩
    show Waiting _ w.queue.loop
    generalize w.queue.loop = loop at hwaiting ⊢
    cases loop with
    | catchUpFound first last pdus =>
      obtain ⟨hc, hupcoming, hnothing⟩ := hwaiting
      exact ⟨hc, hupcoming, fun hnil => ⟨(hnothing hnil).stored, (hnothing hnil).skipped⟩⟩
    | _ => exact hwaiting
  | turn turn =>
    unfold World.apply
    dsimp only
    split
    · exact Core.fail h _
    · exact h.resume turn
  | shutdown =>
    refine Core.fail ⟨h.core.withQueue { w.queue with transmissionLoopEnabled := false } rfl rfl rfl, ?_⟩ .exception
    have hwaiting := h.waiting
    show Waiting _ w.queue.loop
    generalize w.queue.loop = loop at hwaiting ⊢
    cases loop with
    | catchUpFound first last pdus =>
      obtain ⟨hc, hupcoming, hnothing⟩ := hwaiting
      exact ⟨hc, hupcoming, fun hnil => ⟨(hnothing hnil).stored, (hnothing hnil).skipped⟩⟩
    | _ => exact hwaiting
  | restart =>
    exact ⟨h.core.drop (.init w.queue.shouldSendOnThisInstance) rfl rfl fun last hl => (by cases hl), trivial⟩

theorem inv_start (shouldSend : Bool) : Inv (.start shouldSend) where
  core :=
    { tables :=
        { key := fun n e he => by cases he
          newest := fun room n hn => by cases hn
          latest := fun n e he => by cases he }
      queuedRecorded := fun e he => absurd he not_mem_nil
      queuedUpTo := Nat.le_refl 0
      stored := fun last hs => by cases hs
      known := fun last hl => by cases hl
      notStored := fun _ e he => absurd he not_mem_nil
      pendingQueued := fun e he => absurd he not_mem_nil
      pendingSorted := List.Pairwise.nil
      normal := fun hnormal => by cases hnormal }
  waiting := trivial

/-! ## §4 No event is skipped -/

/-- **What the stored position says**: every event up to it that was queued has been made up for by a transaction that
succeeded, or will be in catch-up, which finds the room beyond the position; or the event was thrown away before any
position was stored. -/
def World.NoneSkipped (w : World) : Prop :=
  ∀ last, w.tables.lastSuccessfulStreamOrdering = some last → ∀ e ∈ w.queued, e.streamOrdering ≤ last →
    w.Covered e ∨ e ∈ w.lost ∨ (w.queue.catchingUp = true ∧ w.Ahead last e)

theorem Inv.noneSkipped (h : Inv w) : w.NoneSkipped := by
  intro last hs e hqueued hle
  have hlive : w.Live e := ⟨(h.core.queuedRecorded e hqueued).1, Or.inl hqueued⟩
  by_cases hcatchingUp : w.queue.catchingUp = true
  · rcases (h.core.stored last hs).2 e hlive with (hcovered | hlost) | hahead
    · exact Or.inl hcovered
    · exact Or.inr (Or.inl hlost)
    · exact Or.inr (Or.inr ⟨hcatchingUp, hahead⟩)
  · rcases h.core.normal (by simpa using hcatchingUp) e hlive with (hcovered | hlost) | ⟨_, hlt⟩
    · exact Or.inl hcovered
    · exact Or.inr (Or.inl hlost)
    · have hlt' := hlt last hs
      omega

/-- **In every run** of events that are recorded and queued in stream order, with transactions that succeed or fail,
back-offs of any length, catch-up and restarts, no event is skipped silently. -/
theorem perDestinationQueue_noneSkipped (shouldSend : Bool) {w : World}
    (hrun : Reachable (· = World.start shouldSend) World.Step w) : w.NoneSkipped := by
  have hinv : Inv w := by
    refine hrun.invariant (fun s hstart => ?_) fun s t _ hs hstep => hs.step hstep
    rw [hstart]
    exact inv_start shouldSend
  exact hinv.noneSkipped

/-! ### Runs of operations -/

instance (w : World) (op : Op) : Decidable (w.Ordered op) :=
  match op with
  | .record pdu => inferInstanceAs (Decidable (w.recordedUpTo < pdu.streamOrdering))
  | .sendPdu pdu => inferInstanceAs
      (Decidable (w.tables.events.get? pdu.streamOrdering = some pdu ∧ w.queuedUpTo < pdu.streamOrdering))
  | .attemptNewTransaction => inferInstanceAs (Decidable True)
  | .setExtremities _ _ => inferInstanceAs (Decidable True)
  | .turn _ => inferInstanceAs (Decidable True)
  | .shutdown => inferInstanceAs (Decidable True)
  | .restart => inferInstanceAs (Decidable True)

/-- Whether the operations of a run are in order. -/
def orderedRun : World → List Op → Bool
  | _, [] => true
  | w, op :: ops => decide (w.Ordered op) && orderedRun (w.apply op) ops

theorem reachable_run {shouldSend : Bool} (hw : Reachable (· = World.start shouldSend) World.Step w)
    {ops : List Op} (h : orderedRun w ops = true) :
    Reachable (· = World.start shouldSend) World.Step (ops.foldl World.apply w) := by
  induction ops generalizing w with
  | nil => exact hw
  | cons op ops ih =>
    obtain ⟨hop, hops⟩ := Bool.and_eq_true_iff.mp h
    exact ih (hw.next ⟨op, of_decide_eq_true hop, rfl⟩) hops

/-- What is waited for returns. -/
def answered : Op := .turn ⟨none, false, true, fun _ => true⟩

/-- The transaction cannot be sent. -/
def failed : Op := .turn ⟨some .requestSendFailed, false, true, fun _ => true⟩

/-- Two rooms with their events. -/
def examplePdu (roomId : String) (streamOrdering : ℕ) : Pdu := ⟨"$event", roomId, streamOrdering⟩

/-- A first transaction fails, and the process restarts before it is repeated. The next event is sent. -/
def lostRun : List Op :=
  [.record (examplePdu "!a" 1), .sendPdu (examplePdu "!a" 1), answered, answered, answered, failed, .restart,
    .record (examplePdu "!b" 2), .sendPdu (examplePdu "!b" 2), answered, answered, answered, answered, answered]

def lostWorld : World := lostRun.foldl World.apply (.start true)

/-- After a restart two rooms are caught up, the second of which has an older event as well. -/
def catchUpRun : List Op :=
  [.record (examplePdu "!c" 1), .sendPdu (examplePdu "!c" 1), answered, answered, answered, answered, answered,
    .restart, .record (examplePdu "!a" 2), .sendPdu (examplePdu "!a" 2), .record (examplePdu "!b" 3),
    .sendPdu (examplePdu "!b" 3), .record (examplePdu "!a" 4), .sendPdu (examplePdu "!a" 4), answered, answered,
    answered, answered, answered, answered, answered]

def catchUpWorld : World := catchUpRun.foldl World.apply (.start true)

theorem lostWorld_reachable : Reachable (· = World.start true) World.Step lostWorld :=
  reachable_run (.start rfl) (by decide +kernel)

theorem catchUpWorld_reachable : Reachable (· = World.start true) World.Step catchUpWorld :=
  reachable_run (.start rfl) (by decide +kernel)

theorem perDestinationQueue_noneSkipped_example :
    catchUpWorld.tables.lastSuccessfulStreamOrdering = some 3 ∧ catchUpWorld.NoneSkipped :=
  ⟨by decide +kernel, perDestinationQueue_noneSkipped true catchUpWorld_reachable⟩

/-- Every event up to the stored position has been made up for. -/
def World.AllSent (w : World) : Prop :=
  ∀ last, w.tables.lastSuccessfulStreamOrdering = some last → ∀ e ∈ w.queued, e.streamOrdering ≤ last → w.Covered e

/-- What was sent for other rooms makes up for no event. -/
theorem not_covered {sent : List Transaction} (hsent : w.sent = sent)
    (hqueue : ∀ t ∈ sent, ∀ roomId recordedUpTo extrems pdus, t ≠ .extremities roomId recordedUpTo extrems pdus)
    (hrooms : ∀ t ∈ sent, ∀ p ∈ t.pdus, p.roomId ≠ e.roomId) : ¬ w.Covered e := by
  rintro ⟨t, ht, ⟨p, hp, hroom, _⟩ | ⟨recordedUpTo, extrems, pdus, heq, _⟩⟩
  · rw [hsent] at ht
    exact hrooms t ht p hp hroom
  · rw [hsent] at ht
    exact hqueue t ht _ _ _ _ heq

/-- **Events are passed by.** One that was queued before any position was stored is lost by a restart; and in catch-up
the position passes an event of a room that is still to come. -/
theorem events_passed :
    (Reachable (· = World.start true) World.Step lostWorld ∧ lostWorld.queue.catchingUp = false ∧
      ¬ lostWorld.AllSent) ∧
    Reachable (· = World.start true) World.Step catchUpWorld ∧ catchUpWorld.lost = [] ∧ ¬ catchUpWorld.AllSent := by
  refine ⟨⟨lostWorld_reachable, by decide +kernel, fun h => ?_⟩, catchUpWorld_reachable, by decide +kernel, fun h => ?_⟩
  · have hsent : lostWorld.sent = [.queue [examplePdu "!b" 2]] := by decide +kernel
    refine not_covered (e := examplePdu "!a" 1) hsent (by simp) (by decide) ?_
    exact h 2 (by decide +kernel) _ (by decide +kernel) (by decide)
  have hsent : catchUpWorld.sent = [.newest (examplePdu "!b" 3), .queue [examplePdu "!c" 1]] := by decide +kernel
  refine not_covered (e := examplePdu "!a" 2) hsent (by simp) (by decide) ?_
  exact h 3 (by decide +kernel) _ (by decide +kernel) (by decide)

end Setka.Federation.PerDestinationQueue
