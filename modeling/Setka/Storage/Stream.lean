/-
# Setka.Storage.Stream — the events of a room between two tokens, page by page.

A page is read in one of two orders: by depth and then by stream position, or by stream position alone. A token is
a point in one of them, or a position for every writer. The database is asked for rows within bounds that contain
the range, for twice as many as are wanted, and those out of the range are dropped afterwards. The token for the
next page is made from the last row.

The events behind the rows are left out, except for whether `get_events_as_list` gives them: it withholds
rejected events and redactions that are not to be seen.
-/
import Mathlib.Data.Prod.Lex
import Setka.Lib.OldestFirst
import Setka.Lib.Paging
import Setka.Storage.EventFilter
import Setka.Types.StreamToken
import Setka.Util.StreamChangeCache

namespace Setka.Storage.Stream

open Setka.Lib Setka.Types Setka.Util Setka.Storage.EventFilter

/-! ## §1 Bounds -/

inductive Direction
  | forwards
  | backwards
  deriving DecidableEq

/-- The operators of `_make_generic_sql_bound`, with values on the left and columns on the right. -/
inductive Bound
  | greater
  | less
  | greaterEqual
  | lessEqual

/-- A comparison of two numbers. -/
def Bound.holds : Bound → ℤ → ℤ → Bool
  | .greater, a, b => a > b
  | .less, a, b => a < b
  | .greaterEqual, a, b => a ≥ b
  | .lessEqual, a, b => a ≤ b

/-- `bound[0]`. -/
def Bound.strict : Bound → Bound
  | .greater | .greaterEqual => .greater
  | .less | .lessEqual => .less

/-- A comparison of two rows of numbers, by the database. -/
def Bound.holdsRow (bound : Bound) (a b : ℤ × ℤ) : Bool :=
  match bound with
  | .greater => b.1 < a.1 || (b.1 = a.1 && b.2 < a.2)
  | .less => a.1 < b.1 || (a.1 = b.1 && a.2 < b.2)
  | .greaterEqual => b.1 < a.1 || (b.1 = a.1 && b.2 ≤ a.2)
  | .lessEqual => a.1 < b.1 || (a.1 = b.1 && a.2 ≤ b.2)

/-- `_make_generic_sql_bound`. -/
def makeGenericSqlBound (engine : Engine) (bound : Bound) (values : Option ℤ × ℤ) (columns : ℤ × ℤ) : Bool :=
  match values with
  | (none, val2) => bound.holds val2 columns.2
  | (some val1, val2) =>
    match engine with
    | .postgres => bound.holdsRow (val1, val2) columns
    | .sqlite => bound.strict.holds val1 columns.1 || (val1 = columns.1 && bound.holds val2 columns.2)

/-- `generate_pagination_where_clause`. -/
def generatePaginationWhereClause (engine : Engine) (direction : Direction)
    (fromBound toBound : Option (Option ℤ × ℤ)) (columns : ℤ × ℤ) : Bool :=
  (fromBound.all fun values =>
      makeGenericSqlBound engine (if direction = .backwards then .greaterEqual else .less) values columns) &&
    toBound.all fun values =>
      makeGenericSqlBound engine (if direction = .backwards then .less else .greaterEqual) values columns

/-- `generate_pagination_bounds`, without the name of the order. -/
def generatePaginationBounds (direction : Direction) (fromToken toToken : Option RoomStreamToken) :
    Option (Option ℤ × ℤ) × Option (Option ℤ × ℤ) :=
  (fromToken.map fun t =>
      match t.topological with
      | some topological => (some topological, t.stream)
      | none => if direction = .backwards then (none, t.getMaxStreamPos) else (none, t.stream),
    toToken.map fun t =>
      match t.topological with
      | some topological => (some topological, t.stream)
      | none => if direction = .backwards then (none, t.stream) else (none, t.getMaxStreamPos))

/-- `generate_next_token`. -/
def generateNextToken (direction : Direction) (lastTopoOrdering : Option ℤ) (lastStreamOrdering : ℤ) :
    RoomStreamToken where
  stream := if direction = .backwards then lastStreamOrdering - 1 else lastStreamOrdering
  instanceMap := .empty
  above := fun i v hv => by
    rw [Dict.get?_empty] at hv
    cases hv
  topological := lastTopoOrdering
  exclusive := Or.inl rfl

/-- The events up to a lower token are not between it and an upper one. -/
def notAfter (lower : RoomStreamToken) (instanceName : String) (topologicalOrdering streamOrdering : ℤ) : Bool :=
  match lower.topological with
  | some topological => Bound.lessEqual.holdsRow (topologicalOrdering, streamOrdering) (topological, lower.stream)
  | none => streamOrdering ≤ lower.getStreamPosForInstance instanceName

/-- The events after an upper token are not between a lower one and it. -/
def isAfter (upper : RoomStreamToken) (instanceName : String) (topologicalOrdering streamOrdering : ℤ) : Bool :=
  match upper.topological with
  | some topological => Bound.less.holdsRow (topological, upper.stream) (topologicalOrdering, streamOrdering)
  | none => upper.getStreamPosForInstance instanceName < streamOrdering

/-- `_filter_results`. -/
def filterResults (lowerToken upperToken : Option RoomStreamToken) (instanceName : Option String)
    (topologicalOrdering streamOrdering : ℤ) : Bool :=
  let instanceName := instanceName.getD "master"
  if lowerToken.any fun t => notAfter t instanceName topologicalOrdering streamOrdering then false
  else if upperToken.any fun t => isAfter t instanceName topologicalOrdering streamOrdering then false
  else true

/-- `_filter_results_by_stream`, on live tokens. -/
def filterResultsByStream (lowerToken upperToken : Option RoomStreamToken) (instanceName : Option String)
    (streamOrdering : ℤ) : Bool :=
  let instanceName := instanceName.getD "master"
  if lowerToken.any fun t => streamOrdering ≤ t.getStreamPosForInstance instanceName then false
  else if upperToken.any fun t => t.getStreamPosForInstance instanceName < streamOrdering then false
  else true

/-! ## §2 Pages -/

/-- The store: its database, the change cache for rooms, and which events `get_events_as_list` gives. -/
structure StreamStore where
  engine : Engine
  like : String → String → Bool
  order : IterOrder String
  tables : EventTables
  eventsStreamCache : StreamChangeCache
  served : String → Bool

/-- The columns of a row that a page is ordered by, such that the order of the page is increasing. -/
def topologicalKey (direction : Direction) (row : EventRow) : ℤ ×ₗ ℤ :=
  if direction = .backwards then toLex (-row.topologicalOrdering, -row.streamOrdering)
  else toLex (row.topologicalOrdering, row.streamOrdering)

def streamKey (direction : Direction) (row : EventRow) : ℤ :=
  if direction = .backwards then -row.streamOrdering else row.streamOrdering

/-- `ORDER BY`. No two rows have the same stream position. -/
def orderBy {κ : Type} [LinearOrder κ] (key : EventRow → κ) (rows : List EventRow) : List EventRow :=
  rows.insertionSort fun a b => key a ≤ key b

section Pages

variable (store : StreamStore) (roomId : String) (direction : Direction) (limit : ℕ)

/-- The early exit: one token is not after the other. -/
def isEmptyRange (fromKey : RoomStreamToken) (toKey : Option RoomStreamToken) : Bool :=
  toKey.any fun t =>
    if direction = .forwards then
      AbstractMultiWriterStreamToken.isBeforeOrEq store.order t.toAbstractMultiWriterStreamToken
        fromKey.toAbstractMultiWriterStreamToken
    else
      AbstractMultiWriterStreamToken.isBeforeOrEq store.order fromKey.toAbstractMultiWriterStreamToken
        t.toAbstractMultiWriterStreamToken

/-- `_paginate_room_events_by_topological_ordering_txn`. -/
def paginateRoomEventsByTopologicalOrderingTxn (eventFilter : Option Filter) (fromToken : RoomStreamToken)
    (toToken : Option RoomStreamToken) : Option (List EventRow × RoomStreamToken × Bool) :=
  if isEmptyRange store direction fromToken toToken then some ([], toToken.getD fromToken, false)
  else if refused store.engine eventFilter then none
  else
    let (fromBound, toBound) := generatePaginationBounds direction (some fromToken) toToken
    let fetchedRows := (orderBy (topologicalKey direction) (selected store.like eventFilter store.tables roomId
      fun row => generatePaginationWhereClause store.engine direction fromBound toBound
        (row.topologicalOrdering, row.streamOrdering))).take (2 * limit)
    let limited := decide (2 * limit ≤ fetchedRows.length)
    let rows := fetchedRows.filter fun row =>
      filterResults (if direction = .backwards then toToken else some fromToken)
        (if direction = .backwards then some fromToken else toToken) row.instanceName row.topologicalOrdering
        row.streamOrdering
    let limited := limited || limit < rows.length
    let rows := rows.take limit
    let nextToken := (rows.getLast?.map fun last =>
      generateNextToken direction (some last.topologicalOrdering) last.streamOrdering).getD (toToken.getD fromToken)
    some (rows, nextToken, limited)

/-- `paginate_room_events_by_topological_ordering`. -/
def paginateRoomEventsByTopologicalOrdering (eventFilter : Option Filter) (fromKey : RoomStreamToken)
    (toKey : Option RoomStreamToken) : Option (List EventRow × RoomStreamToken × Bool) :=
  if isEmptyRange store direction fromKey toKey then some ([], toKey.getD fromKey, false)
  else
    (paginateRoomEventsByTopologicalOrderingTxn store roomId direction limit eventFilter fromKey toKey).map
      fun (rows, token, limited) => (rows.filter fun row => store.served row.eventId, token, limited)

/-- The quick check whether there are events since the earlier token. -/
def hasChanged (fromKey : RoomStreamToken) (toKey : Option RoomStreamToken) : Bool :=
  match direction with
  | .forwards => store.eventsStreamCache.hasEntityChanged roomId fromKey.stream
  | .backwards => toKey.all fun t => store.eventsStreamCache.hasEntityChanged roomId t.stream

/-- `paginate_room_events_by_stream_ordering`. -/
def paginateRoomEventsByStreamOrdering (fromKey : RoomStreamToken) (toKey : Option RoomStreamToken) :
    Option (List EventRow × RoomStreamToken × Bool) :=
  if fromKey.topological.isSome || toKey.any fun t => t.topological.isSome then none
  else if isEmptyRange store direction fromKey toKey then some ([], toKey.getD fromKey, false)
  else if !hasChanged store roomId direction fromKey toKey then some ([], toKey.getD fromKey, false)
  else
    let (fromBound, toBound) := generatePaginationBounds direction (some fromKey) toKey
    let fetchedRows := (orderBy (streamKey direction) (selected store.like none store.tables roomId
      fun row => generatePaginationWhereClause store.engine direction fromBound toBound
        (row.topologicalOrdering, row.streamOrdering))).take (2 * limit)
    let limited := decide (2 * limit ≤ fetchedRows.length)
    let rows := fetchedRows.filter fun row =>
      filterResultsByStream (if direction = .backwards then toKey else some fromKey)
        (if direction = .backwards then some fromKey else toKey) row.instanceName row.streamOrdering
    let limited := limited || limit < rows.length
    let rows := rows.take limit
    let nextKey := (rows.getLast?.map fun last => generateNextToken direction none last.streamOrdering).getD
      (toKey.getD fromKey)
    some (rows.filter fun row => store.served row.eventId, nextKey, limited)

end Pages

/-! ## §3 Bounds contain the range -/

/-- Both engines compare the same. -/
theorem makeGenericSqlBound_some (engine : Engine) (bound : Bound) (val1 val2 : ℤ) (columns : ℤ × ℤ) :
    makeGenericSqlBound engine bound (some val1, val2) columns = bound.holdsRow (val1, val2) columns := by
  cases engine with
  | postgres => rfl
  | sqlite =>
    refine Bool.eq_iff_iff.mpr ?_
    cases bound <;>
      simp only [makeGenericSqlBound, Bound.strict, Bound.holds, Bound.holdsRow, Bool.or_eq_true, Bool.and_eq_true,
        decide_eq_true_eq]
    all_goals omega

/-- The bound of a token as the lower one. -/
def lowerBound (t : RoomStreamToken) : Option ℤ × ℤ :=
  match t.topological with
  | some topological => (some topological, t.stream)
  | none => (none, t.stream)

/-- The bound of a token as the upper one. -/
def upperBound (t : RoomStreamToken) : Option ℤ × ℤ :=
  match t.topological with
  | some topological => (some topological, t.stream)
  | none => (none, t.getMaxStreamPos)

theorem generatePaginationBounds_forwards (fromToken toToken : Option RoomStreamToken) :
    generatePaginationBounds .forwards fromToken toToken = (fromToken.map lowerBound, toToken.map upperBound) := rfl

theorem generatePaginationBounds_backwards (fromToken toToken : Option RoomStreamToken) :
    generatePaginationBounds .backwards fromToken toToken = (fromToken.map upperBound, toToken.map lowerBound) := rfl

variable {t : RoomStreamToken} {topologicalOrdering streamOrdering : ℤ}

/-- What is after a lower token is within its bound. -/
theorem lowerBound_of_notAfter (engine : Engine) {instanceName : String}
    (h : notAfter t instanceName topologicalOrdering streamOrdering = false) :
    makeGenericSqlBound engine .less (lowerBound t) (topologicalOrdering, streamOrdering) = true := by
  unfold notAfter at h
  unfold lowerBound
  cases ht : t.topological with
  | none =>
    have hle := t.stream_le instanceName
    rw [ht] at h
    have hlt := of_decide_eq_false h
    unfold AbstractMultiWriterStreamToken.getStreamPosForInstance at hlt
    show decide (t.stream < streamOrdering) = true
    rw [decide_eq_true_eq]
    omega
  | some topological =>
    show makeGenericSqlBound engine .less (some topological, t.stream) _ = true
    rw [makeGenericSqlBound_some]
    simp only [ht, Bound.holdsRow, Bool.or_eq_false_iff, Bool.and_eq_false_iff, decide_eq_false_iff_not] at h
    simp only [Bound.holdsRow, Bool.or_eq_true, Bool.and_eq_true, decide_eq_true_eq]
    omega

/-- What is not after an upper token is within its bound. -/
theorem upperBound_of_isAfter (engine : Engine) {instanceName : String}
    (h : isAfter t instanceName topologicalOrdering streamOrdering = false) :
    makeGenericSqlBound engine .greaterEqual (upperBound t) (topologicalOrdering, streamOrdering) = true := by
  unfold isAfter at h
  unfold upperBound
  cases ht : t.topological with
  | none =>
    have hle := t.le_getMaxStreamPos instanceName
    rw [ht] at h
    have hlt := of_decide_eq_false h
    unfold AbstractMultiWriterStreamToken.getStreamPosForInstance at hlt
    show decide (t.getMaxStreamPos ≥ streamOrdering) = true
    rw [decide_eq_true_eq]
    omega
  | some topological =>
    show makeGenericSqlBound engine .greaterEqual (some topological, t.stream) _ = true
    rw [makeGenericSqlBound_some]
    simp only [ht, Bound.holdsRow, Bool.or_eq_false_iff, Bool.and_eq_false_iff, decide_eq_false_iff_not] at h
    simp only [Bound.holdsRow, Bool.or_eq_true, Bool.and_eq_true, decide_eq_true_eq]
    omega

theorem filterResults_iff {lowerToken upperToken : Option RoomStreamToken} {instanceName : Option String} :
    filterResults lowerToken upperToken instanceName topologicalOrdering streamOrdering = true ↔
      (∀ t ∈ lowerToken, notAfter t (instanceName.getD "master") topologicalOrdering streamOrdering = false) ∧
        ∀ t ∈ upperToken, isAfter t (instanceName.getD "master") topologicalOrdering streamOrdering = false := by
  unfold filterResults
  cases lowerToken <;> cases upperToken <;> simp

/-! ## §4 Rows in order -/

variable {κ : Type} {rows : List EventRow}

theorem mem_orderBy [LinearOrder κ] {key : EventRow → κ} {x : EventRow} :
    x ∈ orderBy key rows ↔ x ∈ rows := List.mem_insertionSort _

/-- Rows with different keys are ordered strictly. -/
theorem pairwise_orderBy [LinearOrder κ] {key : EventRow → κ}
    (h : (rows.map key).Nodup) : (orderBy key rows).Pairwise fun a b => key a < key b := by
  have hperm := List.perm_insertionSort (fun a b => key a ≤ key b) rows
  have hdistinct := List.pairwise_map.mp ((hperm.map key).nodup_iff.mpr h)
  exact ((List.pairwise_insertionSort _ rows).and hdistinct).imp fun h => lt_of_le_of_ne h.1 h.2

/-- Conditions may be checked before or after ordering. -/
theorem orderBy_eq_filter [LinearOrder κ] {key : EventRow → κ} {some : List EventRow} {p : EventRow → Bool}
    (h : (rows.map key).Nodup) (hsome : some.Perm (rows.filter p)) :
    orderBy key some = (orderBy key rows).filter p := by
  have hsorted := pairwise_orderBy h
  have hdistinct : (some.map key).Nodup :=
    (hsome.map key).nodup_iff.mpr (h.sublist (List.filter_sublist.map key))
  have hperm : (orderBy key some).Perm ((orderBy key rows).filter p) :=
    ((List.perm_insertionSort _ some).trans hsome).trans ((List.perm_insertionSort _ rows).symm.filter p)
  exact hperm.eq_of_pairwise (fun _ _ _ _ hab hba => absurd hba (lt_asymm hab)) (pairwise_orderBy hdistinct)
    (hsorted.sublist List.filter_sublist)

section Selection

variable {like : String → String → Bool} {f : Option Filter} {tables : EventTables} {roomId : String}

theorem selected_perm_filter (like : String → String → Bool) (f : Option Filter) (tables : EventTables)
    (roomId : String) (bounds : EventRow → Bool) :
    (selected like f tables roomId bounds).Perm ((selected like f tables roomId fun _ => true).filter bounds) := by
  refine (List.perm_ext_iff_of_nodup (nodup_selected f) ((nodup_selected f).filter _)).mpr fun x => ?_
  rw [List.mem_filter, mem_selected, mem_selected]
  simp only [isSelected, Bool.and_eq_true, Bool.and_true]
  constructor
  · rintro ⟨e, he, ⟨⟨hroom, hbounds⟩, hsatisfies⟩, rfl⟩
    exact ⟨⟨e, he, ⟨hroom, hsatisfies⟩, rfl⟩, hbounds⟩
  · rintro ⟨⟨e, he, ⟨hroom, hsatisfies⟩, rfl⟩, hbounds⟩
    exact ⟨e, he, ⟨⟨hroom, hbounds⟩, hsatisfies⟩, rfl⟩

/-- What has the stream position of a row is the row. -/
theorem nodup_map_selected {κ : Type} {key : EventRow → κ}
    (hkey : ∀ x y, key x = key y → x.streamOrdering = y.streamOrdering) :
    ((selected like f tables roomId fun _ => true).map key).Nodup := by
  refine List.Nodup.map_on (fun x hx y hy heq => ?_) (nodup_selected f)
  obtain ⟨e, he, -, rfl⟩ := mem_selected.mp hx
  obtain ⟨e', he', -, rfl⟩ := mem_selected.mp hy
  rw [List.inj_on_of_nodup_map tables.streamOrderings he he' (hkey _ _ heq)]

theorem streamOrdering_of_topologicalKey (direction : Direction) (x y : EventRow)
    (h : topologicalKey direction x = topologicalKey direction y) : x.streamOrdering = y.streamOrdering := by
  unfold topologicalKey at h
  split at h
  · exact Int.neg_inj.mp (Prod.mk.inj (toLex.injective h)).2
  · exact (Prod.mk.inj (toLex.injective h)).2

theorem streamOrdering_of_streamKey (direction : Direction) (x y : EventRow)
    (h : streamKey direction x = streamKey direction y) : x.streamOrdering = y.streamOrdering := by
  unfold streamKey at h
  split at h
  · exact Int.neg_inj.mp h
  · exact h

end Selection

/-! ## §5 Pages by depth -/

/-- The tokens of a direction as the lower and the upper one. -/
def lowerToken (direction : Direction) (fromToken toToken : Option RoomStreamToken) : Option RoomStreamToken :=
  if direction = .backwards then toToken else fromToken

def upperToken (direction : Direction) (fromToken toToken : Option RoomStreamToken) : Option RoomStreamToken :=
  if direction = .backwards then fromToken else toToken

/-- `_filter_results` of a row for the tokens of a direction. -/
def isBetween (direction : Direction) (fromToken toToken : Option RoomStreamToken) (row : EventRow) : Bool :=
  filterResults (lowerToken direction fromToken toToken) (upperToken direction fromToken toToken) row.instanceName
    row.topologicalOrdering row.streamOrdering

/-- Each token is checked on its own. -/
theorem isBetween_eq (direction : Direction) (fromToken toToken : Option RoomStreamToken) (row : EventRow) :
    isBetween direction fromToken toToken row =
      (isBetween direction fromToken none row && isBetween direction none toToken row) := by
  refine Bool.eq_iff_iff.mpr ?_
  rw [Bool.and_eq_true]
  unfold isBetween
  rw [filterResults_iff, filterResults_iff, filterResults_iff]
  cases direction <;> simp [lowerToken, upperToken, and_comm]

variable {direction : Direction} {toToken : Option RoomStreamToken}

/-- What is between the tokens is within the bounds. -/
theorem whereClause_of_isBetween (engine : Engine) {fromToken : Option RoomStreamToken} {row : EventRow}
    (h : isBetween direction fromToken toToken row = true) :
    generatePaginationWhereClause engine direction (generatePaginationBounds direction fromToken toToken).1
      (generatePaginationBounds direction fromToken toToken).2 (row.topologicalOrdering, row.streamOrdering) = true := by
  obtain ⟨hlower, hupper⟩ := filterResults_iff.mp h
  unfold generatePaginationWhereClause
  rw [Bool.and_eq_true, Option.all_eq_true, Option.all_eq_true]
  cases direction with
  | forwards =>
    exact ⟨Option.forall_mem_map.mpr fun t ht => lowerBound_of_notAfter engine (hlower t ht),
      Option.forall_mem_map.mpr fun t ht => upperBound_of_isAfter engine (hupper t ht)⟩
  | backwards =>
    exact ⟨Option.forall_mem_map.mpr fun t ht => upperBound_of_isAfter engine (hupper t ht),
      Option.forall_mem_map.mpr fun t ht => lowerBound_of_notAfter engine (hlower t ht)⟩

/-- What a call keeps of the rows of a room, as the query has them. -/
theorem kept_eq [LinearOrder κ] {key : EventRow → κ} {P : Paging RoomStreamToken EventRow κ}
    {like : String → String → Bool} {f : Option Filter} {tables : EventTables} {roomId : String}
    (hkey : ∀ x y, key x = key y → x.streamOrdering = y.streamOrdering)
    (hrows : P.rows = orderBy key (selected like f tables roomId fun _ => true))
    (hbetween : ∀ row, (P.starts t row && P.inside row) =
      (isBetween direction (some t) none row && isBetween direction none toToken row)) :
    P.kept t = (((orderBy key (selected like f tables roomId (P.fetched t))).take (2 * P.limit)).filter
      (isBetween direction (some t) toToken)).take P.limit := by
  have hwanted : (fun row => P.starts t row && P.inside row) = isBetween direction (some t) toToken :=
    funext fun row => (hbetween row).trans (isBetween_eq direction (some t) toToken row).symm
  rw [orderBy_eq_filter (nodup_map_selected hkey) (selected_perm_filter like f tables roomId (P.fetched t)),
    Paging.kept, hwanted, hrows]

/-- What is left and inside is within the bounds. -/
theorem whereClause_of_starts (engine : Engine) {row : EventRow}
    (hstarts : isBetween direction (some t) none row = true)
    (hinside : isBetween direction none toToken row = true) :
    generatePaginationWhereClause engine direction (generatePaginationBounds direction (some t) toToken).1
      (generatePaginationBounds direction (some t) toToken).2 (row.topologicalOrdering, row.streamOrdering) = true := by
  refine whereClause_of_isBetween engine ?_
  rw [isBetween_eq, hstarts, hinside]
  rfl

section ByDepth

variable (store : StreamStore) (roomId : String) (direction : Direction) (limit : ℕ) (eventFilter : Option Filter)
  (toToken : Option RoomStreamToken)

/-- The calls of `paginate_room_events_by_topological_ordering`. -/
def byDepth : Paging RoomStreamToken EventRow (ℤ ×ₗ ℤ) where
  limit
  rows := orderBy (topologicalKey direction) (selected store.like eventFilter store.tables roomId fun _ => true)
  key := topologicalKey direction
  inside := isBetween direction none toToken
  starts t := isBetween direction (some t) none
  fetched t row :=
    let (fromBound, toBound) := generatePaginationBounds direction (some t) toToken
    generatePaginationWhereClause store.engine direction fromBound toBound
      (row.topologicalOrdering, row.streamOrdering)
  stops t := isEmptyRange store direction t toToken
  refused _ := refused store.engine eventFilter
  served row := store.served row.eventId
  cursor row := generateNextToken direction (some row.topologicalOrdering) row.streamOrdering
  fallback t := toToken.getD t

/-- A page and the token for the next one. -/
def pageByDepth (fromToken : RoomStreamToken) : Option (List EventRow × RoomStreamToken) :=
  (paginateRoomEventsByTopologicalOrdering store roomId direction limit eventFilter fromToken toToken).map
    fun result => (result.1, result.2.1)

/-- **What the pages are to give**: the events that satisfy the filter, none of them an outlier, and are between
the tokens, in order of depth and stream position. -/
def eventsByDepth (fromToken : RoomStreamToken) : List EventRow :=
  orderBy (topologicalKey direction) ((selected store.like eventFilter store.tables roomId fun _ => true).filter
    (isBetween direction (some fromToken) toToken))

variable {store roomId direction limit eventFilter toToken}

theorem nodup_topologicalKey : ((selected store.like eventFilter store.tables roomId fun _ => true).map
    (topologicalKey direction)).Nodup :=
  nodup_map_selected (streamOrdering_of_topologicalKey direction)

theorem left_byDepth (fromToken : RoomStreamToken) :
    (byDepth store roomId direction limit eventFilter toToken).left fromToken =
      eventsByDepth store roomId direction eventFilter toToken fromToken := by
  rw [eventsByDepth, orderBy_eq_filter nodup_topologicalKey (.refl _)]
  exact List.filter_congr fun row _ => (isBetween_eq direction (some fromToken) toToken row).symm

theorem call_byDepth : (byDepth store roomId direction limit eventFilter toToken).call =
    pageByDepth store roomId direction limit eventFilter toToken := by
  funext t
  have hkept : (byDepth store roomId direction limit eventFilter toToken).kept t = _ :=
    kept_eq (streamOrdering_of_topologicalKey direction) rfl fun _ => rfl
  unfold Paging.call pageByDepth paginateRoomEventsByTopologicalOrdering paginateRoomEventsByTopologicalOrderingTxn
  rw [hkept]
  cases hstops : isEmptyRange store direction t toToken with
  | true => simp [byDepth, hstops]
  | false =>
    cases hrefused : refused store.engine eventFilter with
    | true => simp [byDepth, hstops, hrefused]
    | false =>
      simp only [byDepth, hstops, hrefused]
      rfl

theorem lawful_byDepth : (byDepth store roomId direction limit eventFilter toToken).Lawful where
  sorted := pairwise_orderBy nodup_topologicalKey
  fetched _ _ hstarts hinside := whereClause_of_starts store.engine hstarts hinside
  cursor := by
    intro x _ y _
    show isBetween direction (some (generateNextToken direction (some x.topologicalOrdering) x.streamOrdering)) none y
      = true ↔ topologicalKey direction x < topologicalKey direction y
    unfold isBetween
    rw [filterResults_iff]
    cases direction with
    | forwards =>
      simp [lowerToken, upperToken, notAfter, generateNextToken, topologicalKey, Bound.holdsRow,
        Prod.Lex.toLex_lt_toLex]
      omega
    | backwards =>
      simp [lowerToken, upperToken, isAfter, generateNextToken, topologicalKey, Bound.holdsRow,
        Prod.Lex.toLex_lt_toLex]
      omega

end ByDepth

/-! ## §6 Pages by stream position -/

/-- On live tokens the depth makes no difference. -/
theorem filterResultsByStream_eq {lowerToken upperToken : Option RoomStreamToken} {instanceName : Option String}
    (topologicalOrdering : ℤ) (hlower : ∀ t ∈ lowerToken, t.topological = none)
    (hupper : ∀ t ∈ upperToken, t.topological = none) :
    filterResultsByStream lowerToken upperToken instanceName streamOrdering =
      filterResults lowerToken upperToken instanceName topologicalOrdering streamOrdering := by
  refine Bool.eq_iff_iff.mpr (Iff.trans ?_ filterResults_iff.symm)
  have hl : ∀ t ∈ lowerToken, notAfter t (instanceName.getD "master") topologicalOrdering streamOrdering =
      decide (streamOrdering ≤ t.getStreamPosForInstance (instanceName.getD "master")) := by
    intro t ht
    rw [notAfter, hlower t ht]
  have hu : ∀ t ∈ upperToken, isAfter t (instanceName.getD "master") topologicalOrdering streamOrdering =
      decide (t.getStreamPosForInstance (instanceName.getD "master") < streamOrdering) := by
    intro t ht
    rw [isAfter, hupper t ht]
  unfold filterResultsByStream
  cases lowerToken <;> cases upperToken <;> simp_all

section ByStream

variable (store : StreamStore) (roomId : String) (direction : Direction) (limit : ℕ)
  (toToken : Option RoomStreamToken)

/-- The assertions: both tokens are live. -/
def notLive (fromToken : RoomStreamToken) : Bool :=
  fromToken.topological.isSome || toToken.any fun t => t.topological.isSome

/-- The calls of `paginate_room_events_by_stream_ordering`. -/
def byStream : Paging RoomStreamToken EventRow ℤ where
  limit
  rows := orderBy (streamKey direction) (selected store.like none store.tables roomId fun _ => true)
  key := streamKey direction
  inside := isBetween direction none toToken
  starts t := isBetween direction (some t) none
  fetched t row :=
    let (fromBound, toBound) := generatePaginationBounds direction (some t) toToken
    generatePaginationWhereClause store.engine direction fromBound toBound
      (row.topologicalOrdering, row.streamOrdering)
  stops t := !notLive toToken t &&
    (isEmptyRange store direction t toToken || !hasChanged store roomId direction t toToken)
  refused := notLive toToken
  served row := store.served row.eventId
  cursor row := generateNextToken direction none row.streamOrdering
  fallback t := toToken.getD t

/-- A page and the token for the next one. -/
def pageByStream (fromToken : RoomStreamToken) : Option (List EventRow × RoomStreamToken) :=
  (paginateRoomEventsByStreamOrdering store roomId direction limit fromToken toToken).map
    fun result => (result.1, result.2.1)

/-- The events between the tokens, in order of stream position. -/
def eventsByStream (fromToken : RoomStreamToken) : List EventRow :=
  orderBy (streamKey direction) ((selected store.like none store.tables roomId fun _ => true).filter
    (isBetween direction (some fromToken) toToken))

variable {store roomId direction limit toToken}

theorem nodup_streamKey : ((selected store.like none store.tables roomId fun _ => true).map
    (streamKey direction)).Nodup :=
  nodup_map_selected (streamOrdering_of_streamKey direction)

theorem left_byStream (fromToken : RoomStreamToken) :
    (byStream store roomId direction limit toToken).left fromToken =
      eventsByStream store roomId direction toToken fromToken := by
  rw [eventsByStream, orderBy_eq_filter nodup_streamKey (.refl _)]
  exact List.filter_congr fun row _ => (isBetween_eq direction (some fromToken) toToken row).symm

theorem call_byStream : (byStream store roomId direction limit toToken).call =
    pageByStream store roomId direction limit toToken := by
  funext t
  have hkept : (byStream store roomId direction limit toToken).kept t = _ :=
    kept_eq (streamOrdering_of_streamKey direction) rfl fun _ => rfl
  unfold Paging.call pageByStream paginateRoomEventsByStreamOrdering
  rw [hkept]
  show _ = Option.map _ (if notLive toToken t = true then _ else _)
  cases hlive : notLive toToken t with
  | true => simp [byStream, hlive]
  | false =>
    have hboth := hlive
    rw [notLive, Bool.or_eq_false_iff, Option.any_eq_false] at hboth
    have hfilter : (fun row : EventRow => filterResultsByStream (if direction = .backwards then toToken else some t)
        (if direction = .backwards then some t else toToken) row.instanceName row.streamOrdering) =
          isBetween direction (some t) toToken := by
      funext row
      refine filterResultsByStream_eq row.topologicalOrdering ?_ ?_ <;> split <;> simp_all
    rw [hfilter]
    cases hempty : isEmptyRange store direction t toToken with
    | true => simp [byStream, hlive, hempty]
    | false =>
      cases hchanged : hasChanged store roomId direction t toToken with
      | false => simp [byStream, hlive, hempty, hchanged]
      | true =>
        simp only [byStream, hlive, hempty, hchanged]
        rfl

theorem lawful_byStream : (byStream store roomId direction limit toToken).Lawful where
  sorted := pairwise_orderBy nodup_streamKey
  fetched _ _ hstarts hinside := whereClause_of_starts store.engine hstarts hinside
  cursor := by
    intro x _ y _
    show isBetween direction (some (generateNextToken direction none x.streamOrdering)) none y = true ↔
      streamKey direction x < streamKey direction y
    have hmap : ∀ i (m : ℤ), (Dict.empty : Dict String ℤ).getD i m = m := fun i m => rfl
    unfold isBetween
    rw [filterResults_iff]
    cases direction with
    | forwards =>
      simp [lowerToken, upperToken, notAfter, generateNextToken, streamKey,
        AbstractMultiWriterStreamToken.getStreamPosForInstance, hmap]
    | backwards =>
      -- both sides compare the orderings, negated on the right
      show _ ↔ -(x.streamOrdering : ℤ) < -(y.streamOrdering : ℤ)
      simp [lowerToken, upperToken, isAfter, generateNextToken, Int.le_sub_one_iff,
        AbstractMultiWriterStreamToken.getStreamPosForInstance, hmap]

end ByStream

/-! ## §7 When the pages are what lies between the tokens -/

/-- **Pages are complete exactly when no call leaves something behind**, unless two defects cancel out. A call
leaves something behind when its early exit fires, or twice the limit of rows are fetched of which none is between
its tokens, while events are left; or when events that its token leaves out come after its last row. -/
theorem through_iff_complete (store : StreamStore) (roomId : String) (direction : Direction) (limit : ℕ) :
    (∀ eventFilter toToken fromToken, (byDepth store roomId direction limit eventFilter toToken).Through fromToken ↔
        Paged (pageByDepth store roomId direction limit eventFilter toToken) fromToken
          (eventsByDepth store roomId direction eventFilter toToken fromToken) ∧
        ¬(byDepth store roomId direction limit eventFilter toToken).Cancels fromToken) ∧
    ∀ toToken fromToken, (byStream store roomId direction limit toToken).Through fromToken ↔
        Paged (pageByStream store roomId direction limit toToken) fromToken
          (eventsByStream store roomId direction toToken fromToken) ∧
        ¬(byStream store roomId direction limit toToken).Cancels fromToken := by
  refine ⟨fun eventFilter toToken fromToken => ?_, fun toToken fromToken => ?_⟩
  · rw [← call_byDepth, ← left_byDepth]
    exact Paging.through_iff lawful_byDepth fromToken
  · rw [← call_byStream, ← left_byStream]
    exact Paging.through_iff lawful_byStream fromToken

/-- A room with three events, of which the one with the least depth came last. -/
def lateTables : EventTables where
  events := [⟨"$c", "!r", "m.room.message", some "@a:x", none, false, some "w1", 8, 11⟩,
    ⟨"$a", "!r", "m.room.message", some "@a:x", none, false, some "w1", 7, 12⟩,
    ⟨"$b", "!r", "m.room.message", some "@a:x", none, false, some "w2", 4, 15⟩]
  labels := []
  relations := []
  eventIds := by decide
  streamOrderings := by decide
  labelKeys := .nil
  relationKeys := .nil

def lateStore : StreamStore :=
  ⟨.postgres, fun pattern type => pattern = type, .sorted String, lateTables, .new 100 10, fun _ => true⟩

def lateRow (eventId writer : String) (topologicalOrdering streamOrdering : ℤ) : EventRow :=
  ⟨eventId, some writer, topologicalOrdering, streamOrdering⟩

/-- A token of one position. -/
def plainToken (topological : Option ℤ) (stream : ℤ) : RoomStreamToken :=
  ⟨⟨stream, .empty, fun i v hv => absurd hv (by simp)⟩, topological, Or.inl rfl⟩

/-- A live token at position 5, with one writer at 15. -/
def aheadToken : RoomStreamToken :=
  .live ⟨5, Dict.empty.set "w2" 15, fun i v hv => by
    rcases Dict.of_get?_set hv with ⟨-, rfl⟩ | ⟨-, hv⟩
    · decide
    · cases hv⟩

/-- Backwards from depth 5 and position 10 to depth 3 and position 20, the early exit leaves out an event at depth 4.
Backwards from position 13, the last page has the event that came later. Backwards from position 5 with one writer
at 15, the rows that are fetched are those of the other writer; and in order of positions the second page has one
of them. -/
theorem pages_incomplete :
    ¬Paged (pageByDepth lateStore "!r" .backwards 10 none (some (plainToken (some 3) 20))) (plainToken (some 5) 10)
        (eventsByDepth lateStore "!r" .backwards none (some (plainToken (some 3) 20)) (plainToken (some 5) 10)) ∧
    ¬Paged (pageByDepth lateStore "!r" .backwards 1 none none) (plainToken none 13)
        (eventsByDepth lateStore "!r" .backwards none none (plainToken none 13)) ∧
    ¬Paged (pageByDepth lateStore "!r" .backwards 1 none none) aheadToken
        (eventsByDepth lateStore "!r" .backwards none none aheadToken) ∧
    ¬Paged (pageByStream lateStore "!r" .backwards 1 none) aheadToken
        (eventsByStream lateStore "!r" .backwards none aheadToken) := by
  refine ⟨fun h => ?_, fun h => ?_, fun h => ?_, fun h => ?_⟩
  · have hpages : Paged (pageByDepth lateStore "!r" .backwards 10 none (some (plainToken (some 3) 20)))
        (plainToken (some 5) 10) [] := .done rfl
    exact absurd (hpages.unique h) (by decide +kernel)
  · have h1 : pageByDepth lateStore "!r" .backwards 1 none none (plainToken none 13) =
        some ([lateRow "$c" "w1" 8 11], plainToken (some 8) 10) := rfl
    have h2 : pageByDepth lateStore "!r" .backwards 1 none none (plainToken (some 8) 10) =
        some ([lateRow "$a" "w1" 7 12], plainToken (some 7) 11) := rfl
    have h3 : pageByDepth lateStore "!r" .backwards 1 none none (plainToken (some 7) 11) =
        some ([lateRow "$b" "w2" 4 15], plainToken (some 4) 14) := rfl
    have hpages := Paged.more h1 (by simp) (.more h2 (by simp) (.more h3 (by simp) (.done rfl)))
    exact absurd (hpages.unique h) (by decide +kernel)
  · have hpages : Paged (pageByDepth lateStore "!r" .backwards 1 none none) aheadToken [] := .done rfl
    exact absurd (hpages.unique h) (by decide +kernel)
  · have h1 : pageByStream lateStore "!r" .backwards 1 none aheadToken =
        some ([lateRow "$b" "w2" 4 15], plainToken none 14) := rfl
    have h2 : pageByStream lateStore "!r" .backwards 1 none (plainToken none 14) =
        some ([lateRow "$a" "w1" 7 12], plainToken none 11) := rfl
    have h3 : pageByStream lateStore "!r" .backwards 1 none (plainToken none 11) =
        some ([lateRow "$c" "w1" 8 11], plainToken none 10) := rfl
    have hpages := Paged.more h1 (by simp) (.more h2 (by simp) (.more h3 (by simp) (.done rfl)))
    exact absurd (hpages.unique h) (by decide +kernel)

end Setka.Storage.Stream
