/-
# Setka.Storage.EventFilter — which events a filter makes the database select.

A filter becomes conditions of a `WHERE` clause, on the event and on rows that are joined to it: its labels, the
relations that other events have to it, and its own relation. An event may be joined to several rows and is still
selected once.

A filter that asks for both kinds of relations makes the query ambiguous, and the database refuses it.
-/
import Mathlib.Data.Int.Notation
import Mathlib.Data.List.Dedup

namespace Setka.Storage.EventFilter

/-! ## §1 Tables -/

/-- The columns of `events` that are looked at. -/
structure StoredEvent where
  eventId : String
  roomId : String
  type : String
  sender : Option String
  containsUrl : Option Bool
  outlier : Bool
  instanceName : Option String
  topologicalOrdering : ℤ
  streamOrdering : ℤ
  deriving DecidableEq

/-- A row of `event_labels`. -/
structure EventLabel where
  eventId : String
  label : String
  roomId : String
  topologicalOrdering : ℤ

/-- A row of `event_relations`. -/
structure EventRelation where
  eventId : String
  relatesToId : String
  relationType : String

/-- The tables, with their unique columns. -/
structure EventTables where
  events : List StoredEvent
  labels : List EventLabel
  relations : List EventRelation
  eventIds : (events.map StoredEvent.eventId).Nodup
  streamOrderings : (events.map StoredEvent.streamOrdering).Nodup
  labelKeys : (labels.map fun l => (l.eventId, l.label)).Nodup
  relationKeys : (relations.map EventRelation.eventId).Nodup

/-- The columns that are selected. -/
structure EventRow where
  eventId : String
  instanceName : Option String
  topologicalOrdering : ℤ
  streamOrdering : ℤ
  deriving DecidableEq

def StoredEvent.row (e : StoredEvent) : EventRow :=
  ⟨e.eventId, e.instanceName, e.topologicalOrdering, e.streamOrdering⟩

/-! ## §2 Filters -/

/-- The fields of `Filter` that the database is asked about. A list that is missing asks for nothing, and so does
an empty one. -/
structure Filter where
  types : Option (List String)
  notTypes : List String
  senders : Option (List String)
  notSenders : List String
  rooms : Option (List String)
  notRooms : List String
  containsUrl : Option Bool
  labels : Option (List String)
  relatedBySenders : Option (List String)
  relatedByRelTypes : Option (List String)
  relTypes : Option (List String)
  notRelTypes : List String

/-- `if xs:` of a list that may be missing. -/
def asked (xs : Option (List String)) : Bool := xs.any fun xs => !xs.isEmpty

/-- `(x = ? OR x = ? OR …)` for the entries of a list, which is left out when there are none. A missing value is
equal to nothing. -/
def oneOf (xs : Option (List String)) (holds : String → Bool) : Bool := !asked xs || xs.any fun xs => xs.any holds

/-- `event_labels` is joined. -/
def Filter.joinsLabels (f : Filter) : Bool := asked f.labels

/-- `event_relations AS relation` is joined. -/
def Filter.joinsRelation (f : Filter) : Bool := asked f.relatedBySenders || asked f.relatedByRelTypes

/-- `event_relations AS event_relation` is joined. -/
def Filter.joinsEventRelation (f : Filter) : Bool := asked f.relTypes || !f.notRelTypes.isEmpty

/-- `needs_distinct`. -/
def Filter.needsDistinct (f : Filter) : Bool := f.labels.any (fun labels => 1 < labels.length) || f.joinsRelation

/-- An event with one row of each table that is joined to it; what is missing is null. -/
structure JoinedRow where
  event : StoredEvent
  label : Option EventLabel
  relation : Option EventRelation
  relatedEvent : Option StoredEvent
  eventRelation : Option EventRelation

/-- A `LEFT JOIN`, if there is one: the rows that match, or null if none do. -/
def leftJoin {α : Type} (joins : Bool) (found : List α) : List (Option α) :=
  if joins && !found.isEmpty then found.map some else [none]

/-- The rows that an event is joined to. -/
def joined (f : Filter) (tables : EventTables) (e : StoredEvent) : List JoinedRow :=
  (leftJoin f.joinsLabels (tables.labels.filter fun l =>
      l.eventId = e.eventId && l.roomId = e.roomId && l.topologicalOrdering = e.topologicalOrdering)).flatMap
    fun label => (leftJoin f.joinsRelation (tables.relations.filter fun r => r.relatesToId = e.eventId)).flatMap
    fun relation => (leftJoin (asked f.relatedBySenders)
      (tables.events.filter fun e' => relation.any fun r => r.eventId = e'.eventId)).flatMap
    fun relatedEvent => (leftJoin f.joinsEventRelation (tables.relations.filter fun r => r.eventId = e.eventId)).map
    fun eventRelation => ⟨e, label, relation, relatedEvent, eventRelation⟩

section Clause

-- `LIKE` of the database, with the pattern first
variable (like : String → String → Bool)

/-- A condition on the type, in which `*` stands for anything. -/
def matchesType (pattern type : String) : Bool :=
  if pattern.toList.contains '*' then like (pattern.map fun c => if c = '*' then '%' else c) type
  else type = pattern

/-- `filter_to_clause`. A comparison with null does not hold. -/
def filterToClause (f : Filter) (row : JoinedRow) : Bool :=
  oneOf f.types (fun pattern => matchesType like pattern row.event.type) &&
    (f.notTypes.all fun pattern => !matchesType like pattern row.event.type) &&
    oneOf f.senders (fun sender => row.event.sender = some sender) &&
    (f.notSenders.all fun sender => row.event.sender.any fun s => s ≠ sender) &&
    oneOf f.rooms (fun roomId => row.event.roomId = roomId) &&
    (f.notRooms.all fun roomId => row.event.roomId ≠ roomId) &&
    (f.containsUrl ≠ some true || row.event.containsUrl = some true) &&
    oneOf f.labels (fun label => row.label.any fun l => l.label = label) &&
    oneOf f.relatedBySenders (fun sender => row.relatedEvent.any fun e => e.sender = some sender) &&
    oneOf f.relatedByRelTypes (fun relType => row.relation.any fun r => r.relationType = relType) &&
    oneOf f.relTypes (fun relType => row.eventRelation.any fun r => r.relationType = relType) &&
    (f.notRelTypes.isEmpty || row.eventRelation.all fun r => f.notRelTypes.all fun t => r.relationType ≠ t)

/-- The rows that a query selects within some bounds, in no order yet: without a filter from `events` alone, else
from the joined rows, and with `DISTINCT` where an event may come several times. -/
def selected (f : Option Filter) (tables : EventTables) (roomId : String) (bounds : EventRow → Bool) : List EventRow :=
  match f with
  | none => (tables.events.filter fun e => !e.outlier && e.roomId = roomId && bounds e.row).map StoredEvent.row
  | some f =>
    let rows := ((tables.events.flatMap (joined f tables)).filter fun row =>
      !row.event.outlier && row.event.roomId = roomId && bounds row.event.row &&
        filterToClause like f row).map fun row => row.event.row
    if f.needsDistinct then rows.dedup else rows

end Clause

inductive Engine
  | postgres
  | sqlite
  deriving DecidableEq

/-- The database refuses a query in which a column is ambiguous: to Postgres `event_id`, which the own relation is
joined by, when other relations are joined too; and to both `relation_type`, when it is asked for without saying
of which relation. -/
def refused (engine : Engine) (f : Option Filter) : Bool :=
  f.any fun f => f.joinsEventRelation && match engine with
    | .postgres => f.joinsRelation
    | .sqlite => asked f.relatedByRelTypes

/-! ## §3 An event is selected once -/

section Selected

variable {like : String → String → Bool} {tables : EventTables} {roomId : String} {bounds : EventRow → Bool}

/-- The event satisfies the filter: one of the rows that it is joined to does. -/
def satisfies (like : String → String → Bool) (f : Option Filter) (tables : EventTables) (e : StoredEvent) : Bool :=
  f.all fun f => (joined f tables e).any (filterToClause like f)

/-- The event is in the room, satisfies the filter and lies within the bounds. -/
def isSelected (like : String → String → Bool) (f : Option Filter) (tables : EventTables) (roomId : String)
    (bounds : EventRow → Bool) (e : StoredEvent) : Bool :=
  !e.outlier && e.roomId = roomId && bounds e.row && satisfies like f tables e

theorem event_of_mem_joined {f : Filter} {e : StoredEvent} {row : JoinedRow} (h : row ∈ joined f tables e) :
    row.event = e := by
  simp only [joined, List.mem_flatMap, List.mem_map] at h
  obtain ⟨_, _, _, _, _, _, _, _, rfl⟩ := h
  rfl

/-- **What is selected.** -/
theorem mem_selected {f : Option Filter} {x : EventRow} : x ∈ selected like f tables roomId bounds ↔
      ∃ e ∈ tables.events, isSelected like f tables roomId bounds e = true ∧ e.row = x := by
  cases f with
  | none => simp [selected, isSelected, satisfies, and_assoc]
  | some f =>
    have hrows : x ∈ selected like (some f) tables roomId bounds ↔
        x ∈ ((tables.events.flatMap (joined f tables)).filter fun row =>
          !row.event.outlier && row.event.roomId = roomId && bounds row.event.row &&
            filterToClause like f row).map fun row => row.event.row := by
      unfold selected
      dsimp only
      split
      · exact List.mem_dedup
      · rfl
    rw [hrows]
    simp only [List.mem_map, List.mem_filter, List.mem_flatMap, isSelected, satisfies, Option.all_some,
      List.any_eq_true, Bool.and_eq_true]
    constructor
    · rintro ⟨row, ⟨⟨e, he, hrow⟩, hin, hclause⟩, rfl⟩
      obtain rfl := event_of_mem_joined hrow
      exact ⟨row.event, he, ⟨hin, row, hrow, hclause⟩, rfl⟩
    rintro ⟨e, he, ⟨hin, row, hrow, hclause⟩, rfl⟩
    obtain rfl := event_of_mem_joined hrow
    exact ⟨row, ⟨⟨row.event, he, hrow⟩, hin, hclause⟩, rfl⟩

variable {α : Type}

/-- Of entries with distinct keys, at most one has a given key. -/
theorem length_filter_le_one {β : Type} {l : List α} {key : α → β} {p : α → Bool} {c : β}
    (hdistinct : (l.map key).Nodup) (hkey : ∀ a ∈ l, p a = true → key a = c) : (l.filter p).length ≤ 1 := by
  have hsame : (l.filter p).map key = List.replicate (l.filter p).length c := by
    rw [List.eq_replicate_iff]
    refine ⟨List.length_map _, fun b hb => ?_⟩
    obtain ⟨a, ha, rfl⟩ := List.mem_map.mp hb
    obtain ⟨ha, hp⟩ := List.mem_filter.mp ha
    exact hkey a ha hp
  have hnodup := hdistinct.sublist ((List.filter_sublist (p := p)).map key)
  rw [hsame] at hnodup
  exact List.nodup_replicate.mp hnodup

/-- A join that finds at most one row gives one. -/
theorem length_leftJoin (joins : Bool) {found : List α} (h : found.length ≤ 1) :
    (leftJoin joins found).length = 1 := by
  unfold leftJoin
  split
  · rename_i hjoins
    rw [Bool.and_eq_true, Bool.not_eq_true', List.isEmpty_eq_false_iff_exists_mem] at hjoins
    obtain ⟨a, ha⟩ := hjoins.2
    have hpos := List.length_pos_of_mem ha
    rw [List.length_map]
    omega
  · rfl

/-- The label of an event that a filter with one label asks for is joined once. -/
theorem length_labels_le {f : Filter} (hdistinct : f.needsDistinct = false) (e : StoredEvent) :
    ((leftJoin f.joinsLabels (tables.labels.filter fun l =>
      l.eventId = e.eventId && l.roomId = e.roomId && l.topologicalOrdering = e.topologicalOrdering)).filter
        fun label => oneOf f.labels fun asked => label.any fun l => l.label = asked).length ≤ 1 := by
  unfold leftJoin
  split
  · rename_i hjoins
    obtain ⟨label, hlabels⟩ : ∃ label, f.labels = some [label] := by
      rw [Filter.needsDistinct, Bool.or_eq_false_iff] at hdistinct
      rw [Bool.and_eq_true, Filter.joinsLabels, asked] at hjoins
      cases hf : f.labels with
      | none => simp [hf] at hjoins
      | some labels =>
        rw [hf] at hdistinct hjoins
        have hlength : ¬ 1 < labels.length := by simpa using hdistinct.1
        cases labels with
        | nil => simp at hjoins
        | cons label rest =>
          cases rest with
          | nil => exact ⟨label, rfl⟩
          | cons _ _ =>
            simp only [List.length_cons] at hlength
            omega
    rw [List.filter_map, List.length_map, List.filter_filter, hlabels]
    refine length_filter_le_one (c := (e.eventId, label)) tables.labelKeys fun l _ hl => ?_
    simp [oneOf, asked] at hl
    rw [hl.1, hl.2.1.1]
  · exact List.length_filter_le _ [none]

/-- Without `DISTINCT` an event has at most one row that satisfies the filter. -/
theorem length_filter_joined_le (like : String → String → Bool) (tables : EventTables) {f : Filter}
    (hdistinct : f.needsDistinct = false) (e : StoredEvent) (p : JoinedRow → Bool) :
    ((joined f tables e).filter fun row => p row && filterToClause like f row).length ≤ 1 := by
  have hrelation : f.joinsRelation = false := by
    rw [Filter.needsDistinct, Bool.or_eq_false_iff] at hdistinct
    exact hdistinct.2
  have hsenders : asked f.relatedBySenders = false := by
    rw [Filter.joinsRelation, Bool.or_eq_false_iff] at hrelation
    exact hrelation.1
  obtain ⟨eventRelation, hown⟩ := List.length_eq_one_iff.mp (length_leftJoin f.joinsEventRelation
    (length_filter_le_one (c := e.eventId) (p := fun r => decide (r.eventId = e.eventId)) tables.relationKeys
      fun r _ hr => of_decide_eq_true hr))
  have hjoined : joined f tables e = (leftJoin f.joinsLabels (tables.labels.filter fun l =>
      l.eventId = e.eventId && l.roomId = e.roomId && l.topologicalOrdering = e.topologicalOrdering)).map
        fun label => ⟨e, label, none, none, eventRelation⟩ := by
    rw [joined, hown, hrelation, hsenders]
    simp [leftJoin, List.map_eq_flatMap]
  have hlabels := @length_labels_le tables f hdistinct e
  rw [hjoined, List.filter_map, List.length_map]
  refine Nat.le_trans (List.Sublist.length_le ?_) (hlabels)
  refine List.monotone_filter_right _ fun label hlabel => ?_
  simp only [Function.comp, Bool.and_eq_true, filterToClause] at hlabel
  exact hlabel.2.1.1.1.1.2

/-- A list with at most one entry for each entry of another. -/
theorem flatMap_sublist_map {β : Type} {l : List α} {g : α → List β} {f : α → β}
    (h : ∀ a ∈ l, (g a).Sublist [f a]) : (l.flatMap g).Sublist (l.map f) := by
  induction l with
  | nil => exact .slnil
  | cons a l ih =>
    exact (h a List.mem_cons_self).append (ih fun b hb => h b (List.mem_cons_of_mem a hb))

/-- **An event is selected once**, by its unique columns or by `DISTINCT`. -/
theorem nodup_selected (f : Option Filter) : (selected like f tables roomId bounds).Nodup := by
  have hrows : (tables.events.map StoredEvent.row).Nodup := by
    refine List.Nodup.of_map EventRow.eventId ?_
    rw [List.map_map]
    exact tables.eventIds
  cases f with
  | none => exact hrows.sublist (List.filter_sublist.map _)
  | some f =>
    unfold selected
    dsimp only
    split
    · exact List.nodup_dedup _
    rename_i hdistinct
    rw [List.filter_flatMap, List.map_flatMap]
    refine hrows.sublist (flatMap_sublist_map fun e _ => ?_)
    have hlength := length_filter_joined_le like tables (Bool.not_eq_true _ ▸ hdistinct) e
      fun row => !row.event.outlier && row.event.roomId = roomId && bounds row.event.row
    have hsame : ∀ x ∈ ((joined f tables e).filter fun row =>
        !row.event.outlier && row.event.roomId = roomId && bounds row.event.row &&
          filterToClause like f row).map fun row => row.event.row, x = e.row := by
      intro x hx
      obtain ⟨row, hrow, rfl⟩ := List.mem_map.mp hx
      rw [event_of_mem_joined (List.mem_filter.mp hrow).1]
    rw [List.eq_replicate_of_mem hsame, List.length_map]
    exact List.replicate_sublist_replicate (m := _) (n := 1) _ |>.mpr hlength

end Selected

end Setka.Storage.EventFilter
