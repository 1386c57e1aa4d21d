/-
# Setka.Storage.ForwardExtremities — the events that no later event refers to.

The forward extremities of a room are worked out anew for each batch of events, from the ones before, the
events of the batch and the tables. A soft-failed event is no extremity, and hides the events behind it
from the next event: the walk back through the tables is there for these.
-/
import Setka.Lib.Batches
import Setka.Lib.Reach
import Setka.Storage.EventFederation

namespace Setka.Storage.ForwardExtremities

open Setka.Lib Setka.Storage.EventFederation Relation
open List (flatten_append mem_filter mem_append_left mem_map)

/-! ## §1 The tables and the new extremities -/

/-- An event, with what its internal metadata and its context say of it. -/
structure Event where
  eventId : String
  prevEventIds : List String
  outlier : Bool
  rejected : Bool
  softFailed : Bool

/-- The event is not an outlier, nor rejected, nor soft-failed. -/
def Event.accepted (e : Event) : Bool := !e.outlier && !e.rejected && !e.softFailed

/-- A row of `events`, joined with the internal metadata in `event_json`. -/
structure EventRow where
  eventId : String
  outlier : Bool
  softFailed : Bool

structure Tables where
  events : List EventRow
  rejections : List String
  eventEdges : List (String × String)

/-- `_persist_events_txn`, for events that were not there before. Rejected events are filtered out before
the edges are stored. -/
def Tables.persistEvents (t : Tables) (batch : List Event) : Tables where
  events := t.events ++ batch.map fun e => ⟨e.eventId, e.outlier, e.softFailed⟩
  rejections := t.rejections ++ (batch.filter Event.rejected).map Event.eventId
  eventEdges := t.eventEdges ++ (batch.filter fun e => !e.rejected).flatMap fun e =>
    e.prevEventIds.map fun prevEventId => (e.eventId, prevEventId)

/-- A row of `event_edges`, joined with `events`: whether the event is soft-failed, and whether it is in
`rejections`. -/
structure EdgeRow where
  eventId : String
  prevEventId : String
  softFailed : Bool
  rejected : Bool

/-- The edges of the events that are no outliers. -/
def Tables.edgeRows (t : Tables) : List EdgeRow :=
  t.eventEdges.flatMap fun edge =>
    (t.events.filter fun row => row.eventId = edge.1 ∧ row.outlier = false).map fun row =>
      ⟨edge.1, edge.2, row.softFailed, edge.1 ∈ t.rejections⟩

/-- `_get_events_which_are_prevs`. -/
def Tables.getEventsWhichArePrevs (t : Tables) (eventIds : List String) : List String :=
  (batchIter 100 eventIds).flatMap fun chunk =>
    (t.edgeRows.filter fun row =>
      row.rejected = false ∧ row.prevEventId ∈ chunk ∧ row.softFailed = false).map EdgeRow.prevEventId

/-- One row in `_get_prevs_before_rejected_txn`: the prevs found, and what to check next. -/
def checkRow (found : Finset String × List String) (row : EdgeRow) : Finset String × List String :=
  if row.prevEventId ∈ found.1 then found
  else if row.softFailed ∨ row.rejected then
    (insert row.prevEventId found.1, found.2 ++ [row.prevEventId])
  else found

/-- One turn of its loop. -/
def Tables.checkRound (t : Tables) (existingPrevs : Finset String) (toCheck : List String) :
    Finset String × List String :=
  (t.edgeRows.filter fun row => row.eventId ∈ toCheck).foldl checkRow (existingPrevs, [])

/-- `_get_prevs_before_rejected_txn`, for at most so many turns of its loop. -/
def Tables.walk (t : Tables) : ℕ → Finset String → List String → Finset String
  | 0, existingPrevs, _ => existingPrevs
  | _ + 1, existingPrevs, [] => existingPrevs
  | n + 1, existingPrevs, id :: ids =>
    let found := t.checkRound existingPrevs (id :: ids)
    t.walk n found.1 found.2

/-- `_get_prevs_before_rejected`. Every turn but the last finds the end of another edge. -/
def Tables.getPrevsBeforeRejected (t : Tables) (eventIds : List String) : Finset String :=
  (batchIter 100 eventIds).foldl (fun existingPrevs chunk =>
    t.walk (t.edgeRows.length + 2) existingPrevs chunk) ∅

/-- `_calculate_new_extremities`. -/
def calculateNewExtremities (order : IterOrder String) (t : Tables) (batch : List Event)
    (latestEventIds : Finset String) : Finset String :=
  let newEvents := batch.filter Event.accepted
  let prevs := newEvents.flatMap Event.prevEventIds
  let result := (latestEventIds ∪ (newEvents.map Event.eventId).toFinset) \ prevs.toFinset
  let result := result \ (t.getEventsWhichArePrevs (order.list result)).toFinset
  result \ t.getPrevsBeforeRejected prevs

/-- The tables, and the extremities that were last worked out. -/
structure Room where
  tables : Tables
  latestEventIds : Finset String

def Room.new : Room := ⟨⟨[], [], []⟩, ∅⟩

/-- A batch: the extremities are worked out before the events are stored. -/
def Room.persist (order : IterOrder String) (room : Room) (batch : List Event) : Room where
  tables := room.tables.persistEvents batch
  latestEventIds := calculateNewExtremities order room.tables batch room.latestEventIds

/-- The room after some batches. -/
def after (order : IterOrder String) (batches : List (List Event)) : Room :=
  batches.foldl (Room.persist order) .new

/-! ## §2 The walk -/

theorem flatten_batchIter (n : ℕ) (l : List String) : (batchIter n l).flatten = l := flatten_toChunks n l

theorem mem_checkRow {found : Finset String × List String} {row : EdgeRow} {p : String} :
    (p ∈ (checkRow found row).1 ↔ p ∈ found.1 ∨
      (row.softFailed = true ∨ row.rejected = true) ∧ row.prevEventId = p) ∧
    (p ∈ (checkRow found row).2 ↔
      p ∈ found.2 ∨ p ∈ (checkRow found row).1 ∧ p ∉ found.1) := by
  unfold checkRow
  by_cases hmem : row.prevEventId ∈ found.1
  · rw [if_pos hmem]
    refine ⟨⟨Or.inl, ?_⟩, by tauto⟩
    rintro (hold | ⟨-, rfl⟩)
    · exact hold
    · exact hmem
  rw [if_neg hmem]
  by_cases hflag : row.softFailed = true ∨ row.rejected = true
  · rw [if_pos hflag]
    simp only [Finset.mem_insert, List.mem_append, List.mem_singleton, hflag, true_and]
    refine ⟨?_, ?_⟩
    · rw [or_comm, eq_comm]
    constructor
    · rintro (hold | rfl)
      · exact Or.inl hold
      · exact Or.inr ⟨Or.inl rfl, hmem⟩
    rintro (hold | ⟨rfl | hin, hout⟩)
    · exact Or.inl hold
    · exact Or.inr rfl
    · exact absurd hin hout
  · rw [if_neg hflag]
    tauto

/-- What the rows of a turn find. -/
theorem mem_foldl_checkRow (rows : List EdgeRow) (found : Finset String × List String) (p : String) :
    p ∈ (rows.foldl checkRow found).1 ↔ p ∈ found.1 ∨
      ∃ row ∈ rows, (row.softFailed = true ∨ row.rejected = true) ∧ row.prevEventId = p := by
  induction rows generalizing found with
  | nil => simp
  | cons row rows ih =>
    rw [List.foldl_cons, ih, mem_checkRow.1, List.exists_mem_cons_iff, or_assoc]

/-- What is to be checked in the next turn. -/
theorem mem_foldl_checkRow_next (rows : List EdgeRow) (found : Finset String × List String) (p : String) :
    p ∈ (rows.foldl checkRow found).2 ↔
      p ∈ found.2 ∨ p ∈ (rows.foldl checkRow found).1 ∧ p ∉ found.1 := by
  induction rows generalizing found with
  | nil =>
    tauto
  | cons row rows ih =>
    have hgrow : p ∈ (checkRow found row).1 → p ∈ (rows.foldl checkRow (checkRow found row)).1 := by
      intro hp
      rw [mem_foldl_checkRow]
      exact Or.inl hp
    have hold : p ∈ found.1 → p ∈ (checkRow found row).1 := fun hp => mem_checkRow.1.mpr (Or.inl hp)
    rw [List.foldl_cons, ih, mem_checkRow.2]
    tauto

/-- An edge of an event that a walk goes on from: it is soft-failed or rejected, and no outlier. -/
def Tables.Hidden (t : Tables) (eventId prevEventId : String) : Prop :=
  ∃ row ∈ t.edgeRows, (row.softFailed = true ∨ row.rejected = true) ∧ row.eventId = eventId ∧
    row.prevEventId = prevEventId

theorem Tables.mem_checkRound (t : Tables) (existingPrevs : Finset String) (toCheck : List String) (p : String) :
    (p ∈ (t.checkRound existingPrevs toCheck).1 ↔
      p ∈ existingPrevs ∨ ∃ id ∈ toCheck, t.Hidden id p) ∧
    (p ∈ (t.checkRound existingPrevs toCheck).2 ↔
      p ∈ (t.checkRound existingPrevs toCheck).1 ∧ p ∉ existingPrevs) := by
  unfold Tables.checkRound
  refine ⟨?_, ?_⟩
  · rw [mem_foldl_checkRow]
    refine or_congr_right ⟨?_, ?_⟩
    · rintro ⟨row, hrow, hflag, rfl⟩
      obtain ⟨hmem, hid⟩ := List.mem_filter.mp hrow
      exact ⟨row.eventId, by simpa using hid, row, hmem, hflag, rfl, rfl⟩
    · rintro ⟨_, hid, row, hmem, hflag, rfl, rfl⟩
      exact ⟨row, List.mem_filter.mpr ⟨hmem, by simpa using hid⟩, hflag, rfl⟩
  · rw [mem_foldl_checkRow_next]
    simp

/-- The ends of the edges. -/
def Tables.edgeEnds (t : Tables) : Finset String := (t.edgeRows.map EdgeRow.prevEventId).toFinset

/-- A turn that finds something leaves less to be found. -/
theorem Tables.checkRound_less (t : Tables) {existingPrevs : Finset String} {toCheck : List String}
    (hnext : (t.checkRound existingPrevs toCheck).2 ≠ []) :
    (t.edgeEnds \ (t.checkRound existingPrevs toCheck).1).card < (t.edgeEnds \ existingPrevs).card := by
  obtain ⟨p, hp⟩ := List.exists_mem_of_ne_nil _ hnext
  obtain ⟨hfound, hnew⟩ := (t.mem_checkRound existingPrevs toCheck p).2.mp hp
  have hend : p ∈ t.edgeEnds := by
    rcases (t.mem_checkRound existingPrevs toCheck p).1.mp hfound with hold | ⟨id, -, row, hrow, -, -, rfl⟩
    · exact absurd hold hnew
    · exact List.mem_toFinset.mpr (List.mem_map.mpr ⟨row, hrow, rfl⟩)
  refine Finset.card_lt_card ((Finset.ssubset_iff_of_subset ?_).mpr ⟨p, ?_, ?_⟩)
  · refine Finset.sdiff_subset_sdiff subset_rfl fun q hq => ?_
    exact (t.mem_checkRound existingPrevs toCheck q).1.mpr (Or.inl hq)
  · exact Finset.mem_sdiff.mpr ⟨hend, hnew⟩
  · exact fun hmem => (Finset.mem_sdiff.mp hmem).2 hfound

/-- **The walk of one chunk** goes on from a finished search and finishes it for the chunk. -/
theorem Tables.walk_found (t : Tables) (n : ℕ) {start : Set String} {existingPrevs : Finset String}
    {toCheck : List String}
    (h : Found t.Hidden start {id | id ∈ toCheck} {p | p ∈ existingPrevs})
    (hn : toCheck = [] ∨ (t.edgeEnds \ existingPrevs).card + 1 < n) :
    Found t.Hidden start ∅ {p | p ∈ t.walk n existingPrevs toCheck} := by
  induction n generalizing existingPrevs toCheck with
  | zero =>
    obtain rfl := hn.resolve_right (by omega)
    simpa [Tables.walk] using h
  | succ n ih =>
    cases toCheck with
    | nil => simpa [Tables.walk] using h
    | cons id ids =>
      have hround := t.mem_checkRound existingPrevs (id :: ids)
      refine ih (h.round (fun p => ?_) fun p => ?_) ?_
      · exact (hround p).1
      · exact (hround p).2
      · by_cases hnext : (t.checkRound existingPrevs (id :: ids)).2 = []
        · exact Or.inl hnext
        · have hless := t.checkRound_less hnext
          have hbound := hn.resolve_left (by simp)
          exact Or.inr (by omega)

/-- **The prevs before rejected events** are the ends of the paths through soft-failed and rejected
events. -/
theorem Tables.mem_getPrevsBeforeRejected (t : Tables) (eventIds : List String) (p : String) :
    p ∈ t.getPrevsBeforeRejected eventIds ↔ ∃ id ∈ eventIds, TransGen t.Hidden id p := by
  have hcard : ∀ existingPrevs, (t.edgeEnds \ existingPrevs).card + 1 < t.edgeRows.length + 2 := by
    intro existingPrevs
    have hle : (t.edgeEnds \ existingPrevs).card ≤ t.edgeRows.length :=
      (Finset.card_le_card Finset.sdiff_subset).trans ((List.toFinset_card_le _).trans (by rw [List.length_map]))
    omega
  have hfold : ∀ (chunks : List (List String)) (start : Set String) (existingPrevs : Finset String),
      Found t.Hidden start ∅ {p | p ∈ existingPrevs} →
      Found t.Hidden (start ∪ {id | id ∈ chunks.flatten}) ∅ {p | p ∈ chunks.foldl (fun existingPrevs chunk =>
          t.walk (t.edgeRows.length + 2) existingPrevs chunk) existingPrevs} := by
    intro chunks
    induction chunks with
    | nil =>
      intro start existingPrevs h
      simpa using h
    | cons chunk chunks ih =>
      intro start existingPrevs h
      have hchunk := t.walk_found (t.edgeRows.length + 2) (h.more {id | id ∈ chunk}) (Or.inr (hcard _))
      have hrest := ih _ _ hchunk
      have hunion : start ∪ {id | id ∈ chunk} ∪ {id | id ∈ chunks.flatten} =
          start ∪ {id | id ∈ (chunk :: chunks).flatten} := by
        ext id
        simp [or_assoc]
      rw [hunion] at hrest
      exact hrest
  have hinit : Found t.Hidden ∅ ∅ {p | p ∈ (∅ : Finset String)} := by
    simpa using Found.init t.Hidden
  have hdone := (hfold (batchIter 100 eventIds) ∅ ∅ hinit).done p
  rw [flatten_batchIter] at hdone
  unfold Tables.getPrevsBeforeRejected
  simpa using hdone

/-- It is a prev event of `e`, directly or some steps further. -/
def Event.Reaches (e : Event) (step : String → String → Prop) (id : String) : Prop :=
  ∃ prev ∈ e.prevEventIds, ReflTransGen step prev id

/-- What the accepted events of a batch reach: their prev events, and what is behind these. -/
theorem reaches_iff (batch : List Event) (step : String → String → Prop) (id : String) :
    (∃ e ∈ batch, e.accepted = true ∧ e.Reaches step id) ↔
      id ∈ (batch.filter Event.accepted).flatMap Event.prevEventIds ∨
      ∃ prev ∈ (batch.filter Event.accepted).flatMap Event.prevEventIds, TransGen step prev id := by
  have hprevs : ∀ prev, prev ∈ (batch.filter Event.accepted).flatMap Event.prevEventIds ↔
      ∃ e ∈ batch, e.accepted = true ∧ prev ∈ e.prevEventIds := by
    intro prev
    simp only [List.mem_flatMap, mem_filter, and_assoc]
  constructor
  · rintro ⟨e, he, haccepted, prev, hprev, hpath⟩
    have hin := (hprevs prev).mpr ⟨e, he, haccepted, hprev⟩
    rcases reflTransGen_iff_eq_or_transGen.mp hpath with rfl | hpath
    · exact Or.inl hin
    · exact Or.inr ⟨prev, hin, hpath⟩
  · rintro (hin | ⟨prev, hin, hpath⟩)
    · obtain ⟨e, he, haccepted, hprev⟩ := (hprevs id).mp hin
      exact ⟨e, he, haccepted, id, hprev, .refl⟩
    · obtain ⟨e, he, haccepted, hprev⟩ := (hprevs prev).mp hin
      exact ⟨e, he, haccepted, prev, hprev, hpath.to_reflTransGen⟩

/-- An accepted event that is stored refers to it. -/
def Tables.Referred (t : Tables) (id : String) : Prop :=
  ∃ row ∈ t.edgeRows, row.rejected = false ∧ row.softFailed = false ∧ row.prevEventId = id

theorem Tables.mem_getEventsWhichArePrevs (t : Tables) (eventIds : List String) (id : String) :
    id ∈ t.getEventsWhichArePrevs eventIds ↔ id ∈ eventIds ∧ t.Referred id := by
  have hchunks : id ∈ eventIds ↔ ∃ chunk ∈ batchIter 100 eventIds, id ∈ chunk := by
    rw [← List.mem_flatten, flatten_batchIter]
  rw [hchunks]
  simp only [Tables.getEventsWhichArePrevs, List.mem_flatMap, mem_map, mem_filter, decide_eq_true_eq]
  constructor
  · rintro ⟨chunk, hchunk, row, ⟨hrow, hrejected, hin, hsoft⟩, rfl⟩
    exact ⟨⟨chunk, hchunk, hin⟩, row, hrow, hrejected, hsoft, rfl⟩
  · rintro ⟨⟨chunk, hchunk, hin⟩, row, hrow, hrejected, hsoft, rfl⟩
    exact ⟨chunk, hchunk, row, ⟨hrow, hrejected, hin, hsoft⟩, rfl⟩

/-- **One batch**: what stays an extremity or becomes one. -/
theorem mem_calculateNewExtremities (order : IterOrder String) (t : Tables) (batch : List Event)
    (latestEventIds : Finset String) (id : String) :
    id ∈ calculateNewExtremities order t batch latestEventIds ↔
      (id ∈ latestEventIds ∨ ∃ e ∈ batch, e.accepted = true ∧ e.eventId = id) ∧
      ¬ t.Referred id ∧ ¬ ∃ e ∈ batch, e.accepted = true ∧ e.Reaches t.Hidden id := by
  have hnew : (∃ e ∈ batch, e.accepted = true ∧ e.eventId = id) ↔
      id ∈ (batch.filter Event.accepted).map Event.eventId := by
    simp only [mem_map, mem_filter, and_assoc]
  rw [reaches_iff, hnew]
  simp only [calculateNewExtremities, Finset.mem_sdiff, Finset.mem_union, List.mem_toFinset,
    t.mem_getEventsWhichArePrevs, t.mem_getPrevsBeforeRejected, IterOrder.mem_list, not_or]
  constructor
  · rintro ⟨⟨⟨hin, hprev⟩, hold⟩, hpath⟩
    exact ⟨hin, fun hseen => hold ⟨⟨hin, hprev⟩, hseen⟩, hprev, hpath⟩
  · rintro ⟨hin, hold, hprev, hpath⟩
    exact ⟨⟨⟨hin, hprev⟩, fun hseen => hold hseen.2⟩, hpath⟩

/-! ## §3 The tables of a run -/

/-- The steps to a prev event, through the events that are passed. -/
def Via (passed : Event → Prop) (eventId prevEventId : String) : Prop :=
  ∃ e, passed e ∧ e.eventId = eventId ∧ prevEventId ∈ e.prevEventIds

variable {passed : Event → Prop}

theorem Via.mono {passed' : Event → Prop} (h : ∀ e, passed e → passed' e) {eventId prevEventId : String}
    (hvia : Via passed eventId prevEventId) : Via passed' eventId prevEventId := by
  obtain ⟨e, he, hid, hprev⟩ := hvia
  exact ⟨e, h e he, hid, hprev⟩

/-- The events that the walk goes on from: the edges of the rejected ones are not stored. -/
def Walked (events : List Event) (e : Event) : Prop :=
  e ∈ events ∧ e.softFailed = true ∧ e.rejected = false ∧ e.outlier = false

/-- An event DAG, persisted in batches: no batch refers to a later one. -/
structure InOrder (batches : List (List Event)) : Prop where
  nodup : (batches.flatten.map Event.eventId).Nodup
  acyclic : Acyclic (Via (· ∈ batches.flatten))
  ordered : batches.Pairwise fun batch later =>
    ∀ e ∈ batch, ∀ e' ∈ later, e'.eventId ∉ e.prevEventIds

theorem Tables.persistEvents_append (t : Tables) (earlier later : List Event) :
    (t.persistEvents earlier).persistEvents later = t.persistEvents (earlier ++ later) := by
  simp [Tables.persistEvents, List.append_assoc]

theorem after_append (order : IterOrder String) (batches : List (List Event)) (batch : List Event) :
    after order (batches ++ [batch]) = (after order batches).persist order batch := by
  simp [after]

/-- The tables hold the events of all batches. -/
theorem after_tables (order : IterOrder String) (batches : List (List Event)) :
    (after order batches).tables = Room.new.tables.persistEvents batches.flatten := by
  induction batches using List.reverseRecOn with
  | nil => simp [after, Room.new, Tables.persistEvents]
  | append_singleton batches batch ih =>
    rw [after_append]
    show (after order batches).tables.persistEvents batch = _
    rw [ih, Tables.persistEvents_append, flatten_append, List.flatten_singleton]

variable {events : List Event}

/-- **The rows of edges** are those of the events that are neither outliers nor rejected. -/
theorem mem_edgeRows (hnodup : (events.map Event.eventId).Nodup) (row : EdgeRow) :
    row ∈ (Room.new.tables.persistEvents events).edgeRows ↔
      ∃ e ∈ events, e.outlier = false ∧ e.rejected = false ∧
        ∃ prevEventId ∈ e.prevEventIds, row = ⟨e.eventId, prevEventId, e.softFailed, false⟩ := by
  have hsame : ∀ e ∈ events, ∀ e' ∈ events, e.eventId = e'.eventId → e = e' :=
    fun e he e' he' => List.inj_on_of_nodup_map hnodup he he'
  simp only [Tables.edgeRows, Tables.persistEvents, Room.new, List.nil_append, List.mem_flatMap,
    mem_map, mem_filter]
  constructor
  · rintro ⟨edge, ⟨e, ⟨he, hrejected⟩, prevEventId, hprev, rfl⟩, erow, ⟨⟨e', he', rfl⟩, hrow⟩, rfl⟩
    obtain ⟨hid, houtlier⟩ := of_decide_eq_true hrow
    obtain rfl := hsame e' he' e he hid
    refine ⟨e', he, houtlier, by simpa using hrejected, prevEventId, hprev, ?_⟩
    have hnot : ¬ ∃ x, (x ∈ events ∧ x.rejected = true) ∧ x.eventId = e'.eventId := by
      rintro ⟨x, ⟨hx, hxr⟩, hxid⟩
      rw [hsame x hx e' he hxid] at hxr
      simp [hxr] at hrejected
    simp [hnot]
  · rintro ⟨e, he, houtlier, hrejected, prevEventId, hprev, rfl⟩
    refine ⟨(e.eventId, prevEventId), ⟨e, ⟨he, by simp [hrejected]⟩, prevEventId, hprev, rfl⟩,
      ⟨e.eventId, e.outlier, e.softFailed⟩, ⟨⟨e, he, rfl⟩, by simp [houtlier]⟩, ?_⟩
    have hnot : ¬ ∃ x, (x ∈ events ∧ x.rejected = true) ∧ x.eventId = e.eventId := by
      rintro ⟨x, ⟨hx, hxr⟩, hxid⟩
      rw [hsame x hx e he hxid, hrejected] at hxr
      exact absurd hxr (by decide)
    simp [hnot]

theorem hidden_iff (hnodup : (events.map Event.eventId).Nodup) :
    (Room.new.tables.persistEvents events).Hidden = Via (Walked events) := by
  ext eventId prevEventId
  constructor
  · rintro ⟨row, hrow, hflag, rfl, rfl⟩
    obtain ⟨e, he, houtlier, hrejected, prev, hprev, rfl⟩ := (mem_edgeRows hnodup row).mp hrow
    exact ⟨e, ⟨he, by simpa using hflag, hrejected, houtlier⟩, rfl, hprev⟩
  rintro ⟨e, ⟨he, hsoft, hrejected, houtlier⟩, rfl, hprev⟩
  exact ⟨_, (mem_edgeRows hnodup _).mpr ⟨e, he, houtlier, hrejected, prevEventId, hprev, rfl⟩,
    Or.inl hsoft, rfl, rfl⟩

theorem referred_iff (hnodup : (events.map Event.eventId).Nodup) (id : String) :
    (Room.new.tables.persistEvents events).Referred id ↔
      ∃ e ∈ events, e.accepted = true ∧ id ∈ e.prevEventIds := by
  simp only [Tables.Referred, mem_edgeRows hnodup, Event.accepted]
  constructor
  · rintro ⟨_, ⟨e, he, houtlier, hrejected, prev, hprev, rfl⟩, -, hsoft, rfl⟩
    simp only at hsoft
    exact ⟨e, he, by simp [houtlier, hrejected, hsoft], hprev⟩
  rintro ⟨e, he, haccepted, hprev⟩
  simp only [Bool.and_eq_true, Bool.not_eq_true'] at haccepted
  obtain ⟨⟨houtlier, hrejected⟩, hsoft⟩ := haccepted
  exact ⟨_, ⟨e, he, houtlier, hrejected, id, hprev, rfl⟩, rfl, hsoft, rfl⟩

/-! ## §4 The extremities of a run -/

/-- An accepted event reaches it, directly or through events of earlier batches that its walk goes on
from. -/
def SeenBehind (batches : List (List Event)) (id : String) : Prop :=
  ∃ earlier batch later, batches = earlier ++ batch :: later ∧
    ∃ e ∈ batch, e.accepted = true ∧ e.Reaches (Via (Walked earlier.flatten)) id

theorem seenBehind_append (batches : List (List Event)) (batch : List Event) (id : String) :
    SeenBehind (batches ++ [batch]) id ↔ SeenBehind batches id ∨
      ∃ e ∈ batch, e.accepted = true ∧ e.Reaches (Via (Walked batches.flatten)) id := by
  constructor
  · rintro ⟨earlier, b, later, heq, hseen⟩
    rcases List.eq_nil_or_concat later with rfl | ⟨later, last, rfl⟩
    · obtain ⟨rfl, hb⟩ := List.append_inj' heq rfl
      obtain rfl := List.singleton_inj.mp hb
      exact Or.inr hseen
    rw [List.concat_eq_append, ← List.cons_append, ← List.append_assoc] at heq
    obtain ⟨rfl, -⟩ := List.append_inj' heq rfl
    exact Or.inl ⟨earlier, b, later, rfl, hseen⟩
  · rintro (⟨earlier, b, later, rfl, hseen⟩ | hseen)
    · exact ⟨earlier, b, later ++ [batch], by simp, hseen⟩
    · exact ⟨batches, batch, [], rfl, hseen⟩

variable {batches : List (List Event)}

/-- A part of a run that is in order. -/
theorem InOrder.init {batch : List Event} (h : InOrder (batches ++ [batch])) : InOrder batches := by
  have hsub : batches.Sublist (batches ++ [batch]) := List.sublist_append_left _ _
  refine ⟨?_, ?_, h.ordered.sublist hsub⟩
  · have hnodup := h.nodup
    rw [flatten_append, List.map_append] at hnodup
    exact hnodup.of_append_left
  refine fun eventId hid => h.acyclic eventId (TransGen.mono (fun a b => Via.mono fun e he => ?_) _ _ hid)
  rw [flatten_append]
  exact mem_append_left _ he

theorem InOrder.of_prefix {done : List (List Event)} (h : InOrder batches)
    (hdone : done <+: batches) : InOrder done := by
  obtain ⟨rest, rfl⟩ := hdone
  induction rest using List.reverseRecOn with
  | nil => simpa using h
  | append_singleton rest batch ih =>
    rw [← List.append_assoc] at h
    exact ih h.init

/-- **The extremities after a run** are the accepted events that are not seen to be behind another. -/
theorem mem_latestEventIds (order : IterOrder String) (h : InOrder batches) (id : String) :
    id ∈ (after order batches).latestEventIds ↔
      (∃ e ∈ batches.flatten, e.accepted = true ∧ e.eventId = id) ∧ ¬ SeenBehind batches id := by
  induction batches using List.reverseRecOn with
  | nil => simp [after, Room.new]
  | append_singleton batches batch ih =>
    rw [after_append, seenBehind_append]
    show id ∈ calculateNewExtremities order (after order batches).tables batch
      (after order batches).latestEventIds ↔ _
    rw [after_tables, mem_calculateNewExtremities, hidden_iff h.init.nodup, referred_iff h.init.nodup, ih h.init]
    -- what an earlier accepted event refers to has been seen
    have hprev : ∀ e ∈ batches.flatten, e.accepted = true → id ∈ e.prevEventIds → SeenBehind batches id := by
      intro e he haccepted hid
      obtain ⟨b, hb, heb⟩ := List.mem_flatten.mp he
      obtain ⟨earlier, later, rfl⟩ := List.append_of_mem hb
      exact ⟨earlier, b, later, rfl, e, heb, haccepted, id, hid, .refl⟩
    -- a new event has not been seen before
    have hnew : ∀ e ∈ batch, e.eventId = id → ¬ SeenBehind batches id := by
      rintro e he rfl ⟨earlier, b, later, rfl, e', he', -, prev, hprev, hpath⟩
      have hflat : ∀ x ∈ earlier.flatten, ∃ b' ∈ earlier ++ b :: later, x ∈ b' := by
        intro x hx
        obtain ⟨b', hb', hxb⟩ := List.mem_flatten.mp hx
        exact ⟨b', mem_append_left _ hb', hxb⟩
      have hstep : ∃ x, ∃ b' ∈ earlier ++ b :: later, x ∈ b' ∧ e.eventId ∈ x.prevEventIds := by
        rcases ReflTransGen.cases_tail hpath with heq | ⟨mid, -, x, ⟨hx, -⟩, -, hid⟩
        · refine ⟨e', b, List.mem_append_right _ (List.mem_cons_self ..), he', ?_⟩
          rw [heq]
          exact hprev
        · obtain ⟨b', hb', hxb⟩ := hflat x hx
          exact ⟨x, b', hb', hxb, hid⟩
      obtain ⟨x, b', hb', hxb, hid⟩ := hstep
      exact (List.pairwise_append.mp h.ordered).2.2 b' hb' batch (List.mem_singleton_self _) x hxb e he hid
    rw [flatten_append, List.flatten_singleton]
    constructor
    · rintro ⟨(⟨⟨e, he, haccepted, rfl⟩, hseen⟩ | ⟨e, he, haccepted, rfl⟩), -, hreach⟩
      · refine ⟨⟨e, mem_append_left _ he, haccepted, rfl⟩, ?_⟩
        exact fun hor => hor.elim hseen hreach
      · refine ⟨⟨e, List.mem_append_right _ he, haccepted, rfl⟩, ?_⟩
        exact fun hor => hor.elim (hnew e he rfl) hreach
    rintro ⟨⟨e, he, haccepted, rfl⟩, hseen⟩
    refine ⟨?_, ?_, ?_⟩
    · rcases List.mem_append.mp he with he | he
      · exact Or.inl ⟨⟨e, he, haccepted, rfl⟩, fun hold => hseen (Or.inl hold)⟩
      · exact Or.inr ⟨e, he, haccepted, rfl⟩
    · rintro ⟨e', he', haccepted', hid⟩
      exact hseen (Or.inl (hprev e' he' haccepted' hid))
    · exact fun hreach => hseen (Or.inr hreach)

/-! ## §5 What they are to be -/

/-- The event is rejected or soft-failed. -/
def Failed (events : List Event) (e : Event) : Prop :=
  e ∈ events ∧ (e.rejected = true ∨ e.softFailed = true)

/-- An accepted event that no other one reaches, directly or through rejected or soft-failed events. -/
def IsExtremity (events : List Event) (id : String) : Prop :=
  ∃ e ∈ events, e.accepted = true ∧ e.eventId = id ∧
    ¬ ∃ e' ∈ events, e'.accepted = true ∧ e'.eventId ≠ id ∧ e'.Reaches (Via (Failed events)) id

/-- After each batch the extremities are right, and once there are some they are never emptied. -/
def ExtremitiesExact (order : IterOrder String) (batches : List (List Event)) : Prop :=
  (∀ done, done <+: batches → ∀ id, id ∈ (after order done).latestEventIds ↔ IsExtremity done.flatten id) ∧
  ∀ earlier later, earlier <+: later → later <+: batches →
    (after order earlier).latestEventIds.Nonempty → (after order later).latestEventIds.Nonempty

/-- An accepted event that another one reaches is seen to be behind one by the walk. -/
def NoneMissed (batches : List (List Event)) : Prop :=
  ∀ done, done <+: batches → ∀ e ∈ done.flatten, e.accepted = true →
    ∀ e' ∈ done.flatten, e'.accepted = true → e'.Reaches (Via (Failed done.flatten)) e.eventId →
      SeenBehind done e.eventId

variable {id : String}

theorem Event.Reaches.mono {e : Event} {passed' : Event → Prop} (h : e.Reaches (Via passed) id)
    (hpassed : ∀ x, passed x → passed' x) : e.Reaches (Via passed') id := by
  obtain ⟨prev, hprev, hpath⟩ := h
  exact ⟨prev, hprev, ReflTransGen.mono (fun _ _ => Via.mono hpassed) _ _ hpath⟩

theorem Event.Reaches.transGen {e : Event} (h : e.Reaches (Via passed) id) (he : e ∈ events)
    (hpassed : ∀ x, passed x → x ∈ events) : TransGen (Via (· ∈ events)) e.eventId id := by
  obtain ⟨prev, hprev, hpath⟩ := h
  have hfirst : Via (· ∈ events) e.eventId prev := ⟨e, he, rfl, hprev⟩
  exact TransGen.head' hfirst (ReflTransGen.mono (fun _ _ => Via.mono hpassed) _ _ hpath)

/-- What is seen to be behind an event is behind it. -/
theorem SeenBehind.reaches (h : SeenBehind batches id) :
    ∃ e ∈ batches.flatten, e.accepted = true ∧ e.Reaches (Via (Failed batches.flatten)) id := by
  obtain ⟨earlier, batch, later, rfl, e, he, haccepted, hreach⟩ := h
  refine ⟨e, ?_, haccepted, hreach.mono ?_⟩
  · rw [flatten_append, List.flatten_cons]
    exact List.mem_append_right _ (mem_append_left _ he)
  rintro x ⟨hx, hsoft, -, -⟩
  refine ⟨?_, Or.inr hsoft⟩
  rw [flatten_append]
  exact mem_append_left _ hx

/-- There is an extremity as soon as there is an accepted event: one that no accepted event reaches. -/
theorem latestEventIds_nonempty_iff (order : IterOrder String) (h : InOrder batches) :
    (after order batches).latestEventIds.Nonempty ↔ ∃ e ∈ batches.flatten, e.accepted = true := by
  constructor
  · rintro ⟨id, hid⟩
    obtain ⟨⟨e, he, haccepted, -⟩, -⟩ := (mem_latestEventIds order h id).mp hid
    exact ⟨e, he, haccepted⟩
  rintro ⟨e, he, haccepted⟩
  let ids : Finset String := ((batches.flatten.filter Event.accepted).map Event.eventId).toFinset
  have hids : ∀ id, id ∈ ids ↔ ∃ e ∈ batches.flatten, e.accepted = true ∧ e.eventId = id := by
    intro id
    simp only [ids, List.mem_toFinset, mem_map, mem_filter, and_assoc]
  have hacyclic : Acyclic (TransGen (Via (· ∈ batches.flatten))) := by
    intro id hid
    rw [transGen_eq_self] at hid
    exact h.acyclic id hid
  obtain ⟨id, hid, hmin⟩ := (hacyclic.wellFounded_into ids).has_min (ids : Set String)
    ⟨e.eventId, (hids _).mpr ⟨e, he, haccepted, rfl⟩⟩
  refine ⟨id, (mem_latestEventIds order h id).mpr ⟨(hids id).mp hid, fun hseen => ?_⟩⟩
  obtain ⟨e', he', haccepted', hreach⟩ := hseen.reaches
  have hin : e'.eventId ∈ ids := (hids _).mpr ⟨e', he', haccepted', rfl⟩
  exact hmin _ hin ⟨hin, hreach.transGen he' fun _ hx => hx.1⟩

/-- **The extremities are right** as long as the walk misses no event. -/
theorem extremitiesExact_iff (order : IterOrder String) {batches : List (List Event)}
    (h : InOrder batches) : ExtremitiesExact order batches ↔ NoneMissed batches := by
  constructor
  · intro hexact done hdone e he haccepted e' he' haccepted' hreach
    have hacyclic := (h.of_prefix hdone).acyclic
    by_contra hseen
    have hlatest := (mem_latestEventIds order (h.of_prefix hdone) e.eventId).mpr ⟨⟨e, he, haccepted, rfl⟩, hseen⟩
    obtain ⟨_, -, -, -, hnone⟩ := (hexact.1 done hdone e.eventId).mp hlatest
    refine hnone ⟨e', he', haccepted', fun hid => ?_, hreach⟩
    have hpath := hreach.transGen he' fun _ hx => hx.1
    rw [hid] at hpath
    exact hacyclic _ hpath
  · intro hnone
    refine ⟨fun done hdone id => ?_, fun earlier later hearlier hlater hne => ?_⟩
    · rw [mem_latestEventIds order (h.of_prefix hdone)]
      constructor
      · rintro ⟨⟨e, he, haccepted, rfl⟩, hseen⟩
        refine ⟨e, he, haccepted, rfl, ?_⟩
        rintro ⟨e', he', haccepted', -, hreach⟩
        exact hseen (hnone done hdone e he haccepted e' he' haccepted' hreach)
      · rintro ⟨e, he, haccepted, rfl, hnot⟩
        refine ⟨⟨e, he, haccepted, rfl⟩, fun hseen => ?_⟩
        obtain ⟨e', he', haccepted', hreach⟩ := hseen.reaches
        refine hnot ⟨e', he', haccepted', fun hid => ?_, hreach⟩
        have hpath := hreach.transGen he' fun _ hx => hx.1
        rw [hid] at hpath
        exact (h.of_prefix hdone).acyclic _ hpath
    · have horder := h.of_prefix hlater
      rw [latestEventIds_nonempty_iff order horder]
      obtain ⟨e, he, haccepted⟩ :=
        (latestEventIds_nonempty_iff order (horder.of_prefix hearlier)).mp hne
      obtain ⟨rest, rfl⟩ := hearlier
      refine ⟨e, ?_, haccepted⟩
      rw [List.flatten_append]
      exact List.mem_append_left _ he

/-! ## §6 A soft-failed event and the next one in one batch -/

/-- The second batch holds a soft-failed event and one that refers to it. -/
def missedRun : List (List Event) :=
  [[⟨"$A", [], false, false, false⟩], [⟨"$S", ["$A"], false, false, true⟩, ⟨"$B", ["$S"], false, false, false⟩]]

theorem missedRun_inOrder : InOrder missedRun := by
  refine ⟨by decide, ?_, by simp [missedRun]⟩
  refine Acyclic.of_rank (fun id => ["$A", "$S", "$B"].idxOf id) fun id prev h => ?_
  obtain ⟨e, he, rfl, hprev⟩ := h
  simp only [missedRun, List.flatten_cons, List.flatten_nil, List.append_nil, List.cons_append,
    List.nil_append, List.mem_cons, List.not_mem_nil, or_false] at he
  rcases he with rfl | rfl | rfl
  · exact absurd hprev (List.not_mem_nil)
  · obtain rfl := List.mem_singleton.mp hprev
    decide
  · obtain rfl := List.mem_singleton.mp hprev
    decide

theorem extremitiesExact_iff_example : ExtremitiesExact (.sorted String) missedRun ↔ NoneMissed missedRun :=
  extremitiesExact_iff (.sorted String) missedRun_inOrder

/-- The walk starts before the batch is stored: `$A` stays an extremity behind `$B`. -/
theorem extremity_dangles : InOrder missedRun ∧ ¬ ExtremitiesExact (.sorted String) missedRun := by
  refine ⟨missedRun_inOrder, fun hexact => ?_⟩
  have hstays : "$A" ∈ (after (.sorted String) missedRun).latestEventIds := by decide +kernel
  obtain ⟨_, -, -, -, hnone⟩ := (hexact.1 missedRun (List.prefix_refl _) "$A").mp hstays
  refine hnone ⟨⟨"$B", ["$S"], false, false, false⟩, by simp [missedRun], rfl, by decide, ?_⟩
  refine ⟨"$S", List.mem_singleton_self _, .single ?_⟩
  exact ⟨⟨"$S", ["$A"], false, false, true⟩, ⟨by simp [missedRun], Or.inr rfl⟩, rfl, List.mem_singleton_self _⟩

end Setka.Storage.ForwardExtremities
