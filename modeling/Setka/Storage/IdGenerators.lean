/-
# Setka.Storage.IdGenerators — the multi-writer stream id generator (`storage/util/id_generators.py`).

The state of `MultiWriterIdGenerator` and its operations, one definition for each critical section:
everything the code does under one acquisition of `_lock` is one function here, and what happens
between two acquisitions (the fetch from the database sequence) belongs to the worlds built over
this module. Ids are stored positive also for streams that count backwards; `returnFactor` negates
them at the interface.

`SortedSet`s and `set`s are `Finset`s, the `SortedList` of in-flight fetches is a `Multiset` (the
code only reads its least element), and the heap of known persisted positions is a sorted list.
-/
import Setka.Lib.Dict
import Mathlib.Data.Finset.Max
import Mathlib.Data.List.Sort
import Mathlib.Data.String.Basic

namespace Setka.Storage.IdGenerators

open Setka.Lib

/-! ## §1 The state -/

/-- The fields of `MultiWriterIdGenerator` that its operations read or write. -/
structure MultiWriterIdGenerator where
  instanceName : String
  writers : List String
  positive : Bool
  currentPositions : Dict String Int
  unfinishedIds : Finset Int
  inFlightFetches : Multiset Int
  finishedIds : Finset Int
  persistedUptoPosition : Int
  knownPersistedPositions : List Int
  maxSeenAllocatedStreamId : Int
  maxPositionOfLocalInstance : Int

/-- `min(xs, default=d)`. -/
def minD (xs : List Int) (d : Int) : Int := xs.min?.getD d

/-- `max(xs, default=d)`. -/
def maxD (xs : List Int) (d : Int) : Int := xs.max?.getD d

/-- The least element of a sorted container, `None` when it is empty. -/
def least (s : Finset Int) : Option Int := if h : s.Nonempty then some (s.min' h) else none

/-- The greatest element of a container, `None` when it is empty. -/
def greatest (s : Finset Int) : Option Int := if h : s.Nonempty then some (s.max' h) else none

namespace MultiWriterIdGenerator

/-- `_return_factor`: `-1` for a stream that counts backwards. -/
def returnFactor (g : MultiWriterIdGenerator) : Int := if g.positive then 1 else -1

/-- Some id is being persisted, or may be allocated at any moment. -/
def Busy (g : MultiWriterIdGenerator) : Prop := g.unfinishedIds ≠ ∅ ∨ g.inFlightFetches ≠ 0

instance (g : MultiWriterIdGenerator) : Decidable g.Busy :=
  inferInstanceAs (Decidable (g.unfinishedIds ≠ ∅ ∨ g.inFlightFetches ≠ 0))

/-! ## §2 `_add_persisted_position` -/

/-- The final loop of `_add_persisted_position`: pop the known positions at or below the persisted
position, and move it up by one whenever the least one left is exactly one above it. -/
def drain : List Int → Int → List Int × Int
  | [], upto => ([], upto)
  | p :: ps, upto =>
    if p ≤ upto then drain ps upto
    else if p = upto + 1 then drain ps (upto + 1)
    else (p :: ps, upto)

/-- The tokens of all the other instances. -/
def otherTokens (g : MultiWriterIdGenerator) : List Int :=
  (g.currentPositions.items.filter fun e => e.1 ≠ g.instanceName).map Prod.snd

/-- The lower bound `min_curr` that `_add_persisted_position` takes from the current positions. -/
def minCurr (g : MultiWriterIdGenerator) : Int :=
  let ourCurrentPosition := g.currentPositions.getD g.instanceName 0
  let minCurr := minD g.otherTokens ourCurrentPosition
  if ourCurrentPosition ≠ 0 ∧ g.Busy then min minCurr ourCurrentPosition else minCurr

/-- `_add_persisted_position(new_id)`. -/
def addPersistedPosition (g : MultiWriterIdGenerator) (newId : Int) : MultiWriterIdGenerator :=
  let heap := g.knownPersistedPositions.orderedInsert (· ≤ ·) newId
  let upto := max g.minCurr g.persistedUptoPosition
  let localMax := max g.maxPositionOfLocalInstance upto
  let localMax := if g.Busy then localMax else max g.maxSeenAllocatedStreamId localMax
  let drained := drain heap upto
  { g with
    persistedUptoPosition := drained.2
    knownPersistedPositions := drained.1
    maxPositionOfLocalInstance := localMax }

/-! ## §3 The critical sections of `_load_next_mult_id_txn` -/

/-- First section: remember the highest id seen so far as an in-flight fetch. The value added is
the `current_max` that the call removes again at its end. -/
def enterFetch (g : MultiWriterIdGenerator) : MultiWriterIdGenerator :=
  { g with inFlightFetches := g.maxSeenAllocatedStreamId ::ₘ g.inFlightFetches }

/-- Second section: the ids that came back from the sequence become unfinished ids. `None` is the
`IndexError` of `_unfinished_ids[-1]` on an empty set. -/
def addFetchedIds (g : MultiWriterIdGenerator) (streamIds : List Int) : Option MultiWriterIdGenerator :=
  let unfinished := g.unfinishedIds ∪ streamIds.toFinset
  match greatest unfinished with
  | none => none
  | some top =>
    some { g with
      unfinishedIds := unfinished
      maxSeenAllocatedStreamId := max g.maxSeenAllocatedStreamId top }

/-- Third section, in the `finally` branch: drop this call's entry from the in-flight fetches. -/
def leaveFetch (g : MultiWriterIdGenerator) (currentMax : Int) : MultiWriterIdGenerator :=
  { g with inFlightFetches := g.inFlightFetches.erase currentMax }

/-! ## §4 `_mark_ids_as_finished` -/

/-- The least id that may still be unfinished, counting the in-flight fetches as one above the
position they recorded. -/
def minUnfinished (unfinished : Finset Int) (inFlight : Multiset Int) : Option Int :=
  match least unfinished, least inFlight.toFinset with
  | some u, some f => some (min u (f + 1))
  | none, some f => some (f + 1)
  | some u, none => some u
  | none, none => none

/-- The new position and the finished ids that stay above it. The outer `None` is the `ValueError`
of `max()` on an empty set. -/
def finishedSplit (finished : Finset Int) : Option Int → Option (Option Int × Finset Int)
  | some bound => some (greatest (finished.filter (· < bound)), finished.filter (¬ · < bound))
  | none =>
    match greatest finished with
    | none => none
    | some top => some (some top, ∅)

/-- `if new_cur: ...`: record the new position of this instance. -/
def moveLocalPosition (g : MultiWriterIdGenerator) : Option Int → MultiWriterIdGenerator
  | none => g
  | some newCur =>
    if newCur = 0 then g
    else
      let curr := g.currentPositions.getD g.instanceName 0
      { g with
        currentPositions := g.currentPositions.set g.instanceName (max curr newCur)
        maxPositionOfLocalInstance := max (max curr newCur) g.maxPositionOfLocalInstance }

/-- `_mark_ids_as_finished(next_ids)`. -/
def markIdsAsFinished (g : MultiWriterIdGenerator) (nextIds : List Int) : Option MultiWriterIdGenerator :=
  let unfinished := g.unfinishedIds \ nextIds.toFinset
  let finished := g.finishedIds ∪ nextIds.toFinset
  match finishedSplit finished (minUnfinished unfinished g.inFlightFetches) with
  | none => none
  | some (newCur, remaining) =>
    let g := { g with unfinishedIds := unfinished, finishedIds := remaining }
    some (nextIds.foldl addPersistedPosition (g.moveLocalPosition newCur))

/-! ## §5 Tokens -/

/-- `advance(instance_name, new_id)`. -/
def advance (g : MultiWriterIdGenerator) (name : String) (newId : Int) : MultiWriterIdGenerator :=
  let newId := newId * g.returnFactor
  let g := { g with
    currentPositions := g.currentPositions.set name (max newId (g.currentPositions.getD name 0))
    maxSeenAllocatedStreamId := max g.maxSeenAllocatedStreamId newId }
  g.addPersistedPosition newId

/-- `get_persisted_upto_position()`. -/
def getPersistedUptoPosition (g : MultiWriterIdGenerator) : Int :=
  g.returnFactor * g.persistedUptoPosition

/-- `get_current_token_for_writer(instance_name)`. -/
def getCurrentTokenForWriter (g : MultiWriterIdGenerator) (name : String) : Int :=
  if g.instanceName = name then g.returnFactor * g.maxPositionOfLocalInstance
  else
    let pos := g.currentPositions.getD name g.persistedUptoPosition
    g.returnFactor * max pos g.persistedUptoPosition

/-- `get_minimal_local_current_token()`. -/
def getMinimalLocalCurrentToken (g : MultiWriterIdGenerator) : Int :=
  g.returnFactor * g.currentPositions.getD g.instanceName g.persistedUptoPosition

end MultiWriterIdGenerator

/-! ## §6 Start-up -/

/-- What the constructor reads from the database: the `stream_positions` rows of the stream, the
last value of the sequence (on PostgreSQL), the extreme id of each table (already `1` for an empty
table) and the `(instance, id)` pairs of the rows of the tables. -/
structure StartupRows where
  streamPositions : List (String × Int)
  sequenceLastValue : Option Int
  tableMaxima : List Int
  tableRows : List (String × Int)

open MultiWriterIdGenerator in
/-- The constructor's state before it has read anything. -/
def blank (instanceName : String) (writers : List String) (positive : Bool) : MultiWriterIdGenerator where
  instanceName := instanceName
  writers := writers
  positive := positive
  currentPositions := .empty
  unfinishedIds := ∅
  inFlightFetches := 0
  finishedIds := ∅
  persistedUptoPosition := 1
  knownPersistedPositions := []
  maxSeenAllocatedStreamId := 1
  maxPositionOfLocalInstance := 1

/-- The positions `_load_current_ids` starts from. -/
def loadPositions (g : MultiWriterIdGenerator) (db : StartupRows) : Dict String Int :=
  let rows := db.streamPositions.filter fun r => r.1 ∈ g.writers
  let positions := rows.foldl (fun d r => d.set r.1 (r.2 * g.returnFactor)) .empty
  match db.sequenceLastValue with
  | some v => if g.instanceName ∈ g.writers then positions.set g.instanceName v else positions
  | none => positions

/-- One row of the tables at or past the least position. -/
def loadRow (g : MultiWriterIdGenerator) (row : String × Int) : MultiWriterIdGenerator :=
  let streamId := g.returnFactor * row.2
  let g := g.addPersistedPosition streamId
  if row.1 = g.instanceName then
    { g with currentPositions := g.currentPositions.set row.1 streamId }
  else g

/-- The middle of `_load_current_ids`: the persisted position, from the tables when no position was
loaded, else from the least position and the rows at or past it. -/
def loadPersisted (g : MultiWriterIdGenerator) (db : StartupRows) : MultiWriterIdGenerator :=
  match (g.currentPositions.items.map Prod.snd).min? with
  | none => { g with persistedUptoPosition := db.tableMaxima.foldl max 1 }
  | some minStreamId =>
    let rows : List (String × Int) :=
      db.tableRows.filter fun r => minStreamId ≤ g.returnFactor * r.2
    let rows := rows.insertionSort fun a b => a.2 ≤ b.2
    rows.foldl loadRow { g with persistedUptoPosition := minStreamId }

/-- The end of `_load_current_ids`: every explicit writer has a position. -/
def ensureWriters (g : MultiWriterIdGenerator) : MultiWriterIdGenerator :=
  { g with
    currentPositions := g.writers.foldl (fun d w => d.setDefault w g.persistedUptoPosition) g.currentPositions }

/-- `_load_current_ids`. -/
def loadCurrentIds (g : MultiWriterIdGenerator) (db : StartupRows) : MultiWriterIdGenerator :=
  ensureWriters (loadPersisted { g with currentPositions := loadPositions g db } db)

/-- `__init__`. -/
def init (instanceName : String) (writers : List String) (positive : Bool) (db : StartupRows) :
    MultiWriterIdGenerator :=
  let g := loadCurrentIds (blank instanceName writers positive) db
  let seen := max (maxD (g.currentPositions.items.map Prod.snd) 1) g.persistedUptoPosition
  { g with
    maxSeenAllocatedStreamId := seen
    maxPositionOfLocalInstance := seen
    currentPositions :=
      if writers = [] then g.currentPositions.set instanceName g.persistedUptoPosition
      else g.currentPositions }

end Setka.Storage.IdGenerators
