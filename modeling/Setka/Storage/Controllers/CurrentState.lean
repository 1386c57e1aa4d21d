/-
# Setka.Storage.Controllers.CurrentState — when the current state is the resolved one.

The current state of a room is to be the resolution of the state after each of its forward extremities.
A batch is followed from what is stored: which extremities it supersedes, which way its delta is found,
and where the delta leads.
-/
import Setka.Lib.Action
import Setka.Storage.Controllers.PersistEvents

namespace Setka.Storage.Controllers.PersistEvents

open Setka.Events Setka.Lib Setka.State.StateGroups Relation Dict StateGroupStore RoomStore
open Setka.Storage.ForwardExtremities (Event Tables calculateNewExtremities mem_calculateNewExtremities)

/-! ## §1 What a batch is, and what is stored -/

/-- What `compute_event_context` promises of a context: an event that is no outlier has a state group,
and the deltas lead from one group to the other. -/
structure ContextOk (c : Controller) (pair : EventPersistencePair) : Prop where
  hasGroup : pair.event.outlier = false → pair.context.stateGroup ≠ none
  deltas : ∀ old new delta, pair.context.stateGroupDeltas.get? (old, new) = some delta →
    ((c.stateGroups.state old).update delta).Agrees (c.stateGroups.state new)

/-- A task of new events. -/
structure TaskOk (c : Controller) (room : RoomStore) (batch : List EventPersistencePair) : Prop where
  nodup : (batch.map fun pair => pair.event.eventId).Nodup
  notStored : ∀ pair ∈ batch, ∀ row ∈ room.tables.events, row.eventId ≠ pair.event.eventId
  contexts : ∀ pair ∈ batch, ContextOk c pair

/-- The extremities are stored, with their state groups. -/
def Stored (room : RoomStore) : Prop :=
  ∀ id ∈ room.latestEventIds,
    (∃ row ∈ room.tables.events, row.eventId = id) ∧ room.eventToStateGroups.get? id ≠ none

theorem get?_storeStateMapping (eventToStateGroups : Dict String ℕ) (pair : EventPersistencePair) (id : String) :
    (storeStateMapping eventToStateGroups pair).get? id =
      if id = pair.event.eventId then pair.storedGroup.or (eventToStateGroups.get? id)
      else eventToStateGroups.get? id := by
  unfold storeStateMapping
  cases pair.storedGroup with
  | none => simp
  | some stateGroup => simp

/-- The state groups of events that are not in the batch stay. -/
theorem get?_storeEvents_of_notMem (room : RoomStore) (batch : List EventPersistencePair) (id : String)
    (h : ∀ pair ∈ batch, pair.event.eventId ≠ id) :
    (room.storeEvents batch).eventToStateGroups.get? id = room.eventToStateGroups.get? id := by
  show (batch.foldl storeStateMapping room.eventToStateGroups).get? id = _
  generalize room.eventToStateGroups = groups
  induction batch generalizing groups with
  | nil => rfl
  | cons pair batch ih =>
    rw [List.foldl_cons, ih (fun p hp => h p (List.mem_cons_of_mem _ hp)), get?_storeStateMapping,
      if_neg fun heq => h pair (List.mem_cons_self ..) heq.symm]

/-- The state group of an event of the batch is the one of its context. -/
theorem get?_storeEvents_of_mem (room : RoomStore) {batch : List EventPersistencePair}
    (hnodup : (batch.map fun pair => pair.event.eventId).Nodup) {pair : EventPersistencePair}
    (hpair : pair ∈ batch) {stateGroup : ℕ} (h : pair.storedGroup = some stateGroup) :
    (room.storeEvents batch).eventToStateGroups.get? pair.event.eventId = some stateGroup := by
  obtain ⟨before, later, rfl⟩ := List.append_of_mem hpair
  rw [List.map_append, List.map_cons, List.nodup_append, List.nodup_cons] at hnodup
  obtain ⟨-, ⟨hlater, -⟩, -⟩ := hnodup
  have hlast : ∀ groups : Dict String ℕ, (later.foldl storeStateMapping groups).get?
      pair.event.eventId = groups.get? pair.event.eventId := by
    intro groups
    exact get?_storeEvents_of_notMem ⟨⟨[], [], []⟩, ∅, groups, .empty⟩ later _ fun p hp heq =>
      hlater (List.mem_map.mpr ⟨p, hp, heq⟩)
  show ((before ++ pair :: later).foldl storeStateMapping room.eventToStateGroups).get? _ = _
  rw [List.foldl_append, List.foldl_cons, hlast, get?_storeStateMapping, if_pos rfl, h, Option.some_or]

/-- The state groups of some events. -/
def RoomStore.groupsOf (room : RoomStore) (eventIds : Finset String) : Finset ℕ :=
  eventIds.biUnion fun id => (room.eventToStateGroups.get? id).toFinset

theorem RoomStore.mem_groupsOf {room : RoomStore} {eventIds : Finset String} {stateGroup : ℕ} :
    stateGroup ∈ room.groupsOf eventIds ↔
      ∃ id ∈ eventIds, room.eventToStateGroups.get? id = some stateGroup := by
  simp only [RoomStore.groupsOf, Finset.mem_biUnion, Option.mem_toFinset, Option.mem_def]

namespace Controller

variable (c : Controller)

/-- The resolution of the state after each of some events. -/
def stateAfter (room : RoomStore) (eventIds : Finset String) : StateMap String :=
  c.stateGroups.resolution (room.groupsOf eventIds)

/-- The current state is the resolution of the state after each of the extremities. -/
def InSync (room : RoomStore) : Prop :=
  room.currentState.Agrees (c.stateAfter room room.latestEventIds)

/-- The current state with the delta that was returned, if any. -/
def withDelta (currentState : StateMap String) : Option DeltaState → StateMap String
  | none => currentState
  | some delta => delta.applyTo currentState

/-- The call returns extremities and a delta, and the delta leads to the resolution of the state after
each of the extremities. -/
def CurrentStateRight (room : RoomStore) (batch : List EventPersistencePair) : Prop :=
  ∃ newForwardExtremities stateDelta, c.calculateNewForwardExtremitiesAndStateDelta room batch =
      .ok (newForwardExtremities, stateDelta) ∧
    (withDelta room.currentState stateDelta).Agrees
      (c.stateAfter (room.storeEvents batch) (newForwardExtremities.getD room.latestEventIds))

/-- The new forward extremities, as the batch gives them. -/
def newLatestEventIds (room : RoomStore) (batch : List EventPersistencePair) : Finset String :=
  calculateNewExtremities c.order room.tables (batch.map EventPersistencePair.event) room.latestEventIds

end Controller

/-! ## §2 The extremities that a batch supersedes -/

/-- An accepted event refers to it: one that is stored, or one of the batch, directly or through
soft-failed events that are stored. -/
def Superseded (room : RoomStore) (batch : List EventPersistencePair) (id : String) : Prop :=
  room.tables.Referred id ∨
    ∃ pair ∈ batch, pair.event.accepted = true ∧ pair.event.Reaches room.tables.Hidden id

/-- The extremities are not what they were. -/
def Changes (room : RoomStore) (batch : List EventPersistencePair) : Prop :=
  (∃ id ∈ room.latestEventIds, Superseded room batch id) ∨
    ∃ pair ∈ batch, pair.event.accepted = true ∧ ¬ Superseded room batch pair.event.eventId

/-- The only extremity gives way to one event, and the events of the batch have one prev event each and
are no state events: the short cut is taken. -/
structure Replaces (room : RoomStore) (batch : List EventPersistencePair) (extremity : String)
    (pair : EventPersistencePair) : Prop where
  latest : room.latestEventIds = {extremity}
  superseded : Superseded room batch extremity
  mem : pair ∈ batch
  accepted : pair.event.accepted = true
  last : ¬ Superseded room batch pair.event.eventId
  others : ∀ pair' ∈ batch, pair'.event.accepted = true →
    ¬ Superseded room batch pair'.event.eventId → pair'.event.eventId = pair.event.eventId
  plain : Controller.allSinglePrevNotState batch = true

section Extremities

variable {c : Controller} {room : RoomStore} {batch : List EventPersistencePair}

theorem mem_newLatestEventIds (id : String) : id ∈ c.newLatestEventIds room batch ↔
      (id ∈ room.latestEventIds ∨
        ∃ pair ∈ batch, pair.event.accepted = true ∧ pair.event.eventId = id) ∧
      ¬ Superseded room batch id := by
  rw [Controller.newLatestEventIds, mem_calculateNewExtremities, Superseded, not_or]
  simp only [List.mem_map, exists_exists_and_eq_and]

theorem Replaces.newLatestEventIds_eq {extremity : String} {pair : EventPersistencePair}
    (h : Replaces room batch extremity pair) :
    c.newLatestEventIds room batch = {pair.event.eventId} := by
  ext id
  rw [mem_newLatestEventIds, Finset.mem_singleton, h.latest, Finset.mem_singleton]
  constructor
  · rintro ⟨rfl | ⟨pair', hpair', haccepted', rfl⟩, hlast⟩
    · exact absurd h.superseded hlast
    · exact h.others pair' hpair' haccepted' hlast
  · rintro rfl
    exact ⟨Or.inr ⟨pair, h.mem, h.accepted, rfl⟩, h.last⟩

variable (hstored : Stored room) (hok : TaskOk c room batch)

include hstored hok

theorem not_mem_latest {pair : EventPersistencePair} (hpair : pair ∈ batch) :
    pair.event.eventId ∉ room.latestEventIds := by
  intro hmem
  obtain ⟨⟨row, hrow, hid⟩, -⟩ := hstored _ hmem
  exact hok.notStored pair hpair row hrow hid

theorem newLatestEventIds_eq_iff : c.newLatestEventIds room batch = room.latestEventIds ↔ ¬ Changes room batch := by
  constructor
  · rintro heq (⟨id, hid, hgone⟩ | ⟨pair, hpair, haccepted, hlast⟩)
    · rw [← heq] at hid
      exact ((mem_newLatestEventIds id).mp hid).2 hgone
    · have hmem : pair.event.eventId ∈ c.newLatestEventIds room batch :=
        (mem_newLatestEventIds _).mpr ⟨Or.inr ⟨pair, hpair, haccepted, rfl⟩, hlast⟩
      rw [heq] at hmem
      exact not_mem_latest hstored hok hpair hmem
  intro hsame
  ext id
  rw [mem_newLatestEventIds]
  constructor
  · rintro ⟨hold | ⟨pair, hpair, haccepted, rfl⟩, hlast⟩
    · exact hold
    · exact absurd (Or.inr ⟨pair, hpair, haccepted, hlast⟩) hsame
  · exact fun hold => ⟨Or.inl hold, fun hgone => hsame (Or.inl ⟨id, hold, hgone⟩)⟩

/-- **The short cut is taken** where the batch replaces the only extremity. -/
theorem replaces_iff : (∃ extremity pair, Replaces room batch extremity pair) ↔
      c.newLatestEventIds room batch ≠ room.latestEventIds ∧ room.latestEventIds.card = 1 ∧
        (c.newLatestEventIds room batch).card = 1 ∧
        Controller.allSinglePrevNotState batch = true := by
  constructor
  · rintro ⟨extremity, pair, h⟩
    have hnew := h.newLatestEventIds_eq (c := c)
    refine ⟨?_, by rw [h.latest, Finset.card_singleton], by rw [hnew, Finset.card_singleton], h.plain⟩
    rw [Ne, newLatestEventIds_eq_iff hstored hok, not_not]
    exact Or.inr ⟨pair, h.mem, h.accepted, h.last⟩
  rintro ⟨hne, hold, hone, hplain⟩
  obtain ⟨extremity, hlatest⟩ := Finset.card_eq_one.mp hold
  obtain ⟨id, hid⟩ := Finset.card_eq_one.mp hone
  have hnew : ∀ id', id' ∈ c.newLatestEventIds room batch ↔ id' = id := by
    intro id'
    rw [hid, Finset.mem_singleton]
  have hother : id ≠ extremity := by
    rintro rfl
    exact hne (hid.trans hlatest.symm)
  obtain ⟨hin, hlast⟩ := (mem_newLatestEventIds id).mp ((hnew id).mpr rfl)
  rw [hlatest, Finset.mem_singleton] at hin
  obtain ⟨pair, hpair, haccepted, rfl⟩ := hin.resolve_left hother
  refine ⟨extremity, pair, hlatest, ?_, hpair, haccepted, hlast, ?_, hplain⟩
  · by_contra hkept
    have hmem : extremity ∈ c.newLatestEventIds room batch := by
      refine (mem_newLatestEventIds _).mpr ⟨Or.inl ?_, hkept⟩
      rw [hlatest]
      exact Finset.mem_singleton_self _
    exact hother ((hnew _).mp hmem).symm
  · intro pair' hpair' haccepted' hlast'
    exact (hnew _).mp ((mem_newLatestEventIds _).mpr ⟨Or.inr ⟨pair', hpair', haccepted', rfl⟩, hlast'⟩)

end Extremities

/-! ## §3 The delta of the state groups -/

theorem DeltaState.get?_applyTo (delta : DeltaState) (currentState : StateMap String) (key : String × String) :
    (delta.applyTo currentState).get? key = (delta.toInsert.get? key).or
      (if key ∈ delta.toDelete then none else currentState.get? key) := by
  rw [DeltaState.applyTo, get?_update, get?_foldl_erase_eq]
  cases hinsert : delta.toInsert.get? key with
  | some id => rfl
  | none =>
    have hkey : key ∉ delta.toInsert.keys := get?_eq_none_iff.mp hinsert
    simp [hkey]

/-- A delta that was calculated leads to the state it was calculated for. -/
theorem applyTo_calculateStateDelta (existingState currentState : StateMap String) :
    ((Controller.calculateStateDelta existingState currentState).applyTo existingState).Agrees currentState := by
  intro key
  rw [DeltaState.get?_applyTo]
  simp only [Controller.calculateStateDelta, List.mem_filter, decide_eq_true_eq]
  cases hcurrent : currentState.get? key with
  | none =>
    have hkey : key ∉ currentState.keys := get?_eq_none_iff.mp hcurrent
    have hinsert : (currentState.filter fun key eventId =>
        existingState.get? key ≠ some eventId).get? key = none := by
      rw [Option.eq_none_iff_forall_ne_some]
      intro id hid
      rw [get?_filter, hcurrent] at hid
      exact absurd hid.1 (by simp)
    rw [hinsert, Option.none_or]
    split
    · rfl
    · rename_i hexisting
      exact get?_eq_none_iff.mpr fun hin => hexisting ⟨hin, hkey⟩
  | some id =>
    have hkey : key ∈ currentState.keys := mem_keys_iff.mpr ⟨id, hcurrent⟩
    rw [if_neg fun h => h.2 hkey]
    by_cases hsame : existingState.get? key = some id
    · cases hinsert : (currentState.filter fun key eventId =>
          existingState.get? key ≠ some eventId).get? key with
      | none => rw [Option.none_or, hsame]
      | some id' =>
        rw [get?_filter, hcurrent] at hinsert
        rw [Option.some_or, hinsert.1]
    · have hinsert : (currentState.filter fun key eventId =>
          existingState.get? key ≠ some eventId).get? key = some id := by
        rw [get?_filter]
        exact ⟨hcurrent, by simpa using hsame⟩
      rw [hinsert, Option.some_or]

namespace Controller

variable (c : Controller)

/-- The store is in sync, or nothing known of the old state groups is used. -/
def Usable (room : RoomStore) (stateGroupDeltas : Dict (ℕ × ℕ) (StateMap String))
    (oldStateGroups newStateGroups : Finset ℕ) : Prop :=
  room.currentState.Agrees (c.stateGroups.resolution oldStateGroups) ∨
    oldStateGroups ≠ newStateGroups ∧
      ∀ old ∈ oldStateGroups, ∀ new, stateGroupDeltas.get? (old, new) = none

theorem list_eq_singleton {stateGroups : Finset ℕ} {stateGroup : ℕ}
    (h : c.stateGroups.order.list stateGroups = [stateGroup]) : stateGroups = {stateGroup} := by
  rw [← c.stateGroups.order.toFinset_list stateGroups, h]
  rfl

theorem knownDelta_eq_some {stateGroupDeltas : Dict (ℕ × ℕ) (StateMap String)}
    {oldStateGroups newStateGroups : Finset ℕ} {deltaIds : StateMap String}
    (h : c.knownDelta stateGroupDeltas oldStateGroups newStateGroups = some deltaIds) :
    ∃ old new, oldStateGroups = {old} ∧ newStateGroups = {new} ∧
      stateGroupDeltas.get? (old, new) = some deltaIds := by
  unfold knownDelta at h
  split at h
  · rename_i new old hnew hold
    exact ⟨old, new, c.list_eq_singleton hold, c.list_eq_singleton hnew, h⟩
  · exact absurd h (by simp)

section NewState

variable {room : RoomStore} {batch : List EventPersistencePair} {newLatestEventIds : Finset String}
  {stateGroupDeltas : Dict (ℕ × ℕ) (StateMap String)} {oldStateGroups newStateGroups : Finset ℕ}

/-- **The delta leads to the resolution of the new state groups**, whichever way it is found. -/
theorem withDelta_newState (hdeltas : ∀ old new delta, stateGroupDeltas.get? (old, new) = some delta →
      ((c.stateGroups.state old).update delta).Agrees (c.stateGroups.state new))
    (hne : newStateGroups ≠ ∅) (husable : c.Usable room stateGroupDeltas oldStateGroups newStateGroups)
    {newState : Option (StateMap String) × Option (StateMap String) × Finset String}
    (hnew : c.newState room batch newLatestEventIds stateGroupDeltas oldStateGroups newStateGroups = newState) :
    (withDelta room.currentState (stateDelta room newState.1 newState.2.1)).Agrees
      (c.stateGroups.resolution newStateGroups) := by
  subst hnew
  unfold Controller.newState
  by_cases hsame : oldStateGroups = newStateGroups
  · rw [if_pos hsame]
    have hsync := husable.resolve_right fun h => h.1 hsame
    rw [hsame] at hsync
    exact hsync
  rw [if_neg hsame]
  cases hknown : c.knownDelta stateGroupDeltas oldStateGroups newStateGroups with
  | some deltaIds =>
    obtain ⟨old, new, rfl, rfl, hget⟩ := c.knownDelta_eq_some hknown
    have hsync := husable.resolve_right fun h => by
      rw [h.2 old (Finset.mem_singleton_self _) new] at hget
      exact absurd hget (by simp)
    rw [resolution_singleton] at hsync ⊢
    intro key
    have hdelta := hdeltas old new deltaIds hget key
    rw [get?_update] at hdelta
    show ((⟨[], deltaIds, false⟩ : DeltaState).applyTo room.currentState).get? key = _
    rw [DeltaState.get?_applyTo, if_neg List.not_mem_nil, hsync key]
    exact hdelta
  | none =>
    dsimp only
    split
    · rename_i new hlist
      rw [c.list_eq_singleton hlist, resolution_singleton]
      exact applyTo_calculateStateDelta _ _
    rename_i hmany
    rw [resolution_of_several _ hne hmany]
    exact (applyTo_calculateStateDelta _ _).trans (c.stateGroups.getState_resolveStateGroups newStateGroups)

/-- **Pruning keeps the state**: the extremities that are kept have the resolved state group. -/
theorem newState_extremities (hne : newStateGroups ≠ ∅)
    {newState : Option (StateMap String) × Option (StateMap String) × Finset String}
    (hnew : c.newState room batch newLatestEventIds stateGroupDeltas oldStateGroups newStateGroups = newState) :
    newState.2.2 = newLatestEventIds ∨ ∃ stateGroup ∈ newStateGroups,
      newState.2.2 = (newLatestEventIds.filter fun eventId =>
        (room.getStateGroup batch eventId).toOption = some stateGroup) ∧
      (c.stateGroups.state stateGroup).Agrees (c.stateGroups.resolution newStateGroups) := by
  subst hnew
  unfold Controller.newState
  by_cases hsame : oldStateGroups = newStateGroups
  · rw [if_pos hsame]
    exact Or.inl rfl
  rw [if_neg hsame]
  cases c.knownDelta stateGroupDeltas oldStateGroups newStateGroups with
  | some deltaIds => exact Or.inl rfl
  | none =>
    dsimp only
    split
    · exact Or.inl rfl
    rename_i hmany
    have hagrees := c.stateGroups.getState_resolveStateGroups newStateGroups
    rw [← resolution_of_several _ hne hmany] at hagrees
    cases hgroup : (c.stateGroups.resolveStateGroups newStateGroups).stateGroup with
    | none => exact Or.inl rfl
    | some stateGroup =>
      rw [c.stateGroups.getState_of_stateGroup hgroup] at hagrees
      dsimp only
      by_cases hin : stateGroup ≠ 0 ∧ stateGroup ∈ newStateGroups
      · rw [if_pos hin, pruneExtremities]
        split
        · exact Or.inl rfl
        split
        · exact Or.inr ⟨stateGroup, hin.2, rfl, hagrees⟩
        · exact Or.inl rfl
      · rw [if_neg hin]
        exact Or.inl rfl

end NewState

end Controller

/-! ## §4 The state groups of a batch -/

/-- The deltas that are collected are those of the contexts. -/
theorem foldlM_collectDeltas_ok {batch : List EventPersistencePair}
    (hrejected : ∀ pair ∈ batch, pair.event.rejected = false)
    (hgroup : ∀ pair ∈ batch, pair.event.outlier = false → pair.context.stateGroup ≠ none)
    (acc : Dict (ℕ × ℕ) (StateMap String)) :
    ∃ stateGroupDeltas, batch.foldlM collectDeltas acc = .ok stateGroupDeltas ∧
      ∀ key delta, stateGroupDeltas.get? key = some delta → acc.get? key = some delta ∨
        ∃ pair ∈ batch, pair.context.stateGroupDeltas.get? key = some delta := by
  induction batch generalizing acc with
  | nil => exact ⟨acc, rfl, fun key delta h => Or.inl h⟩
  | cons pair batch ih =>
    have hturn : ∃ acc', collectDeltas acc pair = .ok acc' ∧ ∀ key delta,
        acc'.get? key = some delta → acc.get? key = some delta ∨
          pair.context.stateGroupDeltas.get? key = some delta := by
      have hflag := hrejected pair (List.mem_cons_self ..)
      simp only [collectDeltas, EventPersistencePair.stateGroup, hflag, Bool.false_eq_true, if_false,
        except_ok_bind]
      cases hsome : pair.context.stateGroup with
      | some stateGroup =>
        refine ⟨_, rfl, fun key delta h => ?_⟩
        rw [get?_update] at h
        cases hown : pair.context.stateGroupDeltas.get? key with
        | none =>
          rw [hown, Option.none_or] at h
          exact Or.inl h
        | some own =>
          rw [hown, Option.some_or] at h
          exact Or.inr h
      | none =>
        have houtlier : pair.event.outlier = true := by
          by_contra hnot
          exact hgroup pair (List.mem_cons_self ..) (by simpa using hnot) hsome
        simp only [houtlier, if_true]
        exact ⟨acc, rfl, fun key delta h => Or.inl h⟩
    obtain ⟨acc', hacc', hfrom⟩ := hturn
    obtain ⟨deltas, hdeltas, hall⟩ := ih (fun p hp => hrejected p (List.mem_cons_of_mem _ hp))
      (fun p hp => hgroup p (List.mem_cons_of_mem _ hp)) acc'
    refine ⟨deltas, ?_, fun key delta h => ?_⟩
    · rw [List.foldlM_cons, hacc']
      exact hdeltas
    rcases hall key delta h with hacc | ⟨p, hp, hdelta⟩
    · rcases hfrom key delta hacc with hold | hown
      · exact Or.inl hold
      · exact Or.inr ⟨pair, List.mem_cons_self .., hown⟩
    · exact Or.inr ⟨p, List.mem_cons_of_mem _ hp, hdelta⟩

section Groups

variable {c : Controller} {room : RoomStore} {batch : List EventPersistencePair}

/-- A new accepted event has the state group of its context. -/
theorem TaskOk.group_of_accepted (hok : TaskOk c room batch) {pair : EventPersistencePair}
    (hpair : pair ∈ batch) (haccepted : pair.event.accepted = true) :
    ∃ stateGroup, pair.context.stateGroup = some stateGroup ∧
      (room.storeEvents batch).eventToStateGroups.get? pair.event.eventId = some stateGroup := by
  simp only [Event.accepted, Bool.and_eq_true, Bool.not_eq_true'] at haccepted
  obtain ⟨⟨houtlier, hrejected⟩, -⟩ := haccepted
  obtain ⟨stateGroup, hgroup⟩ := Option.ne_none_iff_exists'.mp ((hok.contexts pair hpair).hasGroup houtlier)
  refine ⟨stateGroup, hgroup, get?_storeEvents_of_mem room hok.nodup hpair ?_⟩
  simp [EventPersistencePair.storedGroup, houtlier, hrejected, hgroup]

variable (hstored : Stored room) (hok : TaskOk c room batch)

include hstored hok

/-- An old extremity has the state group that was stored for it. -/
theorem group_of_old {id : String} (hid : id ∈ room.latestEventIds) :
    ∃ stateGroup, room.eventToStateGroups.get? id = some stateGroup ∧
      (room.storeEvents batch).eventToStateGroups.get? id = some stateGroup := by
  obtain ⟨stateGroup, hgroup⟩ := Option.ne_none_iff_exists'.mp (hstored id hid).2
  refine ⟨stateGroup, hgroup, ?_⟩
  rw [get?_storeEvents_of_notMem]
  · exact hgroup
  · rintro pair hpair rfl
    exact not_mem_latest hstored hok hpair hid

/-- A new extremity has the state group that is found for it. -/
theorem group_of_new {id : String} (hid : id ∈ c.newLatestEventIds room batch) :
    ∃ stateGroup, room.getStateGroup batch id = .ok stateGroup ∧
      (room.storeEvents batch).eventToStateGroups.get? id = some stateGroup := by
  rcases ((mem_newLatestEventIds id).mp hid).1 with hold | ⟨pair, hpair, haccepted, rfl⟩
  · obtain ⟨stateGroup, hgroup, hafter⟩ := group_of_old hstored hok hold
    refine ⟨stateGroup, ?_, hafter⟩
    have hnone : (batch.findSome? fun pair =>
        if id = pair.event.eventId then pair.context.stateGroup else none) = none := by
      rw [List.findSome?_eq_none_iff]
      intro pair hpair
      refine if_neg ?_
      rintro rfl
      exact not_mem_latest hstored hok hpair hold
    rw [RoomStore.getStateGroup, hnone]
    show room.getStateGroupForEvent id = _
    rw [RoomStore.getStateGroupForEvent, hgroup]
  · obtain ⟨stateGroup, hgroup, hafter⟩ := hok.group_of_accepted hpair haccepted
    refine ⟨stateGroup, ?_, hafter⟩
    have hsome : (batch.findSome? fun pair' => if pair.event.eventId = pair'.event.eventId then
        pair'.context.stateGroup else none) = some stateGroup := by
      obtain ⟨before, later, hsplit⟩ := List.append_of_mem hpair
      rw [List.findSome?_eq_some_iff]
      refine ⟨before, pair, later, hsplit, by rw [if_pos rfl, hgroup], fun pair' hpair' => if_neg ?_⟩
      intro heq
      have hnodup := hok.nodup
      rw [hsplit, List.map_append, List.map_cons, List.nodup_append] at hnodup
      exact hnodup.2.2 _ (List.mem_map_of_mem hpair') _ (List.mem_cons_self ..) heq.symm
    rw [RoomStore.getStateGroup, hsome]

/-- The groups of the old extremities stay. -/
theorem groupsOf_latestEventIds :
    (room.storeEvents batch).groupsOf room.latestEventIds = room.groupsOf room.latestEventIds := by
  ext stateGroup
  rw [mem_groupsOf, mem_groupsOf]
  refine exists_congr fun id => and_congr_right fun hid => ?_
  obtain ⟨sg, hgroup, hafter⟩ := group_of_old hstored hok hid
  rw [hgroup, hafter]

/-- **The state groups that are resolved** are those of the old and of the new extremities. -/
theorem getNewStateAfterEvents_eq (hrejected : ∀ pair ∈ batch, pair.event.rejected = false) :
    ∃ stateGroupDeltas : Dict (ℕ × ℕ) (StateMap String), (∀ key delta, stateGroupDeltas.get? key = some delta →
        ∃ pair ∈ batch, pair.context.stateGroupDeltas.get? key = some delta) ∧
      c.getNewStateAfterEvents room batch room.latestEventIds (c.newLatestEventIds room batch) =
        .ok (c.newState room batch (c.newLatestEventIds room batch) stateGroupDeltas
          (room.groupsOf room.latestEventIds)
          ((room.storeEvents batch).groupsOf (c.newLatestEventIds room batch))) := by
  obtain ⟨deltas, hdeltas, hfrom⟩ := foldlM_collectDeltas_ok hrejected
    (fun pair hpair houtlier => ((hok.contexts pair hpair).hasGroup houtlier)) .empty
  refine ⟨deltas, fun key delta h => (hfrom key delta h).resolve_left (by simp), ?_⟩
  let groupOf : String → ℕ := fun id =>
    ((room.storeEvents batch).eventToStateGroups.get? id).getD 0
  have hold : (c.order.list room.latestEventIds).mapM room.getStateGroupForEvent =
      .ok ((c.order.list room.latestEventIds).map groupOf) := by
    refine mapM_eq_ok_map fun id hid => ?_
    obtain ⟨stateGroup, hgroup, hafter⟩ := group_of_old hstored hok (by simpa using hid)
    simp [RoomStore.getStateGroupForEvent, groupOf, hgroup, hafter]
  have hnew : (c.order.list (c.newLatestEventIds room batch)).mapM (room.getStateGroup batch) =
      .ok ((c.order.list (c.newLatestEventIds room batch)).map groupOf) := by
    refine mapM_eq_ok_map fun id hid => ?_
    obtain ⟨stateGroup, hgroup, hafter⟩ := group_of_new hstored hok (by simpa using hid)
    simp [groupOf, hgroup, hafter]
  have holdGroups : ((c.order.list room.latestEventIds).map groupOf).toFinset =
      room.groupsOf room.latestEventIds := by
    ext stateGroup
    simp only [List.mem_toFinset, List.mem_map, IterOrder.mem_list, mem_groupsOf]
    refine exists_congr fun id => and_congr_right fun hid => ?_
    obtain ⟨sg, hgroup, hafter⟩ := group_of_old hstored hok hid
    simp [groupOf, hgroup, hafter]
  have hnewGroups : ((c.order.list (c.newLatestEventIds room batch)).map groupOf).toFinset =
      (room.storeEvents batch).groupsOf (c.newLatestEventIds room batch) := by
    ext stateGroup
    simp only [List.mem_toFinset, List.mem_map, IterOrder.mem_list, mem_groupsOf]
    refine exists_congr fun id => and_congr_right fun hid => ?_
    obtain ⟨sg, -, hafter⟩ := group_of_new hstored hok hid
    simp [groupOf, hafter]
  rw [Controller.getNewStateAfterEvents, hdeltas, except_ok_bind, hold, except_ok_bind, hnew,
    except_ok_bind, holdGroups, hnewGroups]
  rfl

end Groups

/-! ## §5 One batch -/

/-- A batch as a remote join gives it: an event of it becomes an extremity, it is not made of plain
events, and no context of it knows the state groups of the extremities. -/
structure StartsAfresh (room : RoomStore) (batch : List EventPersistencePair) : Prop where
  last : ∃ pair ∈ batch, pair.event.accepted = true ∧ ¬ Superseded room batch pair.event.eventId
  notPlain : Controller.allSinglePrevNotState batch = false
  unknown : ∀ pair ∈ batch, ∀ stateGroup ∈ room.groupsOf room.latestEventIds,
    pair.context.stateGroup ≠ some stateGroup ∧
      ∀ new, pair.context.stateGroupDeltas.get? (stateGroup, new) = none

/-- When a batch leads to the right state: an extremity remains, the short cut is taken only where the
state after the new extremity is the one after the old, and no rejected event is on the way in full. -/
structure Sound (c : Controller) (room : RoomStore) (batch : List EventPersistencePair) : Prop where
  remains : room.latestEventIds ≠ ∅ → (∃ id ∈ room.latestEventIds, ¬ Superseded room batch id) ∨
    ∃ pair ∈ batch, pair.event.accepted = true ∧ ¬ Superseded room batch pair.event.eventId
  shortCut : ∀ extremity pair, Replaces room batch extremity pair → ∀ stateGroup,
    pair.context.stateGroup = some stateGroup →
      (c.stateGroups.state stateGroup).Agrees (c.stateAfter room {extremity})
  rejected : Changes room batch → (∃ pair ∈ batch, pair.event.rejected = true) →
    ∃ extremity pair, Replaces room batch extremity pair

theorem withDelta_map (currentState : StateMap String) (delta : Option DeltaState)
    (noLongerInRoom : DeltaState → Bool) :
    Controller.withDelta currentState
        (delta.map fun delta => { delta with noLongerInRoom := noLongerInRoom delta }) =
      Controller.withDelta currentState delta := by
  cases delta with
  | none => rfl
  | some delta => rfl

theorem Controller.calculate_eq (c : Controller) (room : RoomStore) (batch : List EventPersistencePair) :
    c.calculateNewForwardExtremitiesAndStateDelta room batch =
      if c.newLatestEventIds room batch = room.latestEventIds then .ok (none, none)
      else if c.newLatestEventIds room batch = ∅ then .error "No forward extremities left!"
      else if room.latestEventIds.card = 1 ∧ (c.newLatestEventIds room batch).card = 1 ∧
          allSinglePrevNotState batch then
        .ok (some (c.newLatestEventIds room batch), none)
      else c.fullDelta room batch (c.newLatestEventIds room batch) :=
  rfl

section Batch

variable {c : Controller} {room : RoomStore} {batch : List EventPersistencePair}

theorem stateAfter_singleton {id : String} {stateGroup : ℕ}
    (h : room.eventToStateGroups.get? id = some stateGroup) :
    c.stateAfter room {id} = c.stateGroups.state stateGroup := by
  have hgroups : room.groupsOf {id} = {stateGroup} := by
    rw [RoomStore.groupsOf, Finset.singleton_biUnion, h, Option.toFinset_some]
  rw [Controller.stateAfter, hgroups, resolution_singleton]

theorem newLatestEventIds_ne_empty_iff :
    c.newLatestEventIds room batch ≠ ∅ ↔ (∃ id ∈ room.latestEventIds, ¬ Superseded room batch id) ∨
      ∃ pair ∈ batch, pair.event.accepted = true ∧ ¬ Superseded room batch pair.event.eventId := by
  rw [← Finset.nonempty_iff_ne_empty]
  constructor
  · rintro ⟨id, hid⟩
    obtain ⟨hold | ⟨pair, hpair, haccepted, rfl⟩, hkept⟩ := (mem_newLatestEventIds id).mp hid
    · exact Or.inl ⟨id, hold, hkept⟩
    · exact Or.inr ⟨pair, hpair, haccepted, hkept⟩
  · rintro (⟨id, hid, hkept⟩ | ⟨pair, hpair, haccepted, hkept⟩)
    · exact ⟨id, (mem_newLatestEventIds id).mpr ⟨Or.inl hid, hkept⟩⟩
    · exact ⟨_, (mem_newLatestEventIds _).mpr ⟨Or.inr ⟨pair, hpair, haccepted, rfl⟩, hkept⟩⟩

theorem Replaces.stateAfter {extremity : String} {pair : EventPersistencePair}
    (h : Replaces room batch extremity pair) (hok : TaskOk c room batch) :
    ∃ stateGroup, pair.context.stateGroup = some stateGroup ∧
      c.stateAfter (room.storeEvents batch) (c.newLatestEventIds room batch) = c.stateGroups.state stateGroup := by
  obtain ⟨stateGroup, hcontext, hgroup⟩ := hok.group_of_accepted h.mem h.accepted
  exact ⟨stateGroup, hcontext, by rw [h.newLatestEventIds_eq, stateAfter_singleton hgroup]⟩

/-- The short cut starts from the state after the extremity. -/
theorem Replaces.currentState {extremity : String} {pair : EventPersistencePair}
    (h : Replaces room batch extremity pair) (hsync : c.InSync room ∨ StartsAfresh room batch) :
    room.currentState.Agrees (c.stateAfter room {extremity}) := by
  rcases hsync with hin | hafresh
  · rw [← h.latest]
    exact hin
  have hplain := h.plain
  rw [hafresh.notPlain] at hplain
  exact absurd hplain (by simp)

/-- An extremity remains where the extremities change. -/
theorem Sound.newLatestEventIds_ne_empty (hsound : Sound c room batch) (hchanges : Changes room batch) :
    c.newLatestEventIds room batch ≠ ∅ := by
  rw [newLatestEventIds_ne_empty_iff]
  rcases hchanges with ⟨id, hid, -⟩ | hlast
  · exact hsound.remains (Finset.ne_empty_of_mem hid)
  · exact Or.inr hlast

variable (hstored : Stored room) (hok : TaskOk c room batch)

include hstored hok

/-- The extremities that pruning keeps have one state group. -/
theorem groupsOf_kept {stateGroup : ℕ}
    (hmem : stateGroup ∈ (room.storeEvents batch).groupsOf (c.newLatestEventIds room batch)) :
    ((c.newLatestEventIds room batch).filter fun eventId =>
        (room.getStateGroup batch eventId).toOption = some stateGroup) ≠ ∅ ∧
      (room.storeEvents batch).groupsOf ((c.newLatestEventIds room batch).filter fun eventId =>
        (room.getStateGroup batch eventId).toOption = some stateGroup) = {stateGroup} := by
  obtain ⟨id, hid, hgroup⟩ := mem_groupsOf.mp hmem
  have hin : id ∈ (c.newLatestEventIds room batch).filter fun eventId =>
      (room.getStateGroup batch eventId).toOption = some stateGroup := by
    obtain ⟨sg, hget, hafter⟩ := group_of_new hstored hok hid
    obtain rfl := Option.some.inj (hgroup.symm.trans hafter)
    exact Finset.mem_filter.mpr ⟨hid, by rw [hget]; rfl⟩
  refine ⟨Finset.ne_empty_of_mem hin, ?_⟩
  ext sg
  rw [mem_groupsOf, Finset.mem_singleton]
  constructor
  · rintro ⟨id', hid', hgroup'⟩
    obtain ⟨hnew', hsome⟩ := Finset.mem_filter.mp hid'
    obtain ⟨sg', hget, hafter⟩ := group_of_new hstored hok hnew'
    rw [hget] at hsome
    obtain rfl := Option.some.inj hsome
    exact Option.some.inj (hgroup'.symm.trans hafter)
  · rintro rfl
    exact ⟨id, hin, hgroup⟩

/-- The extremities of a batch that is resolved in full, and their state. -/
theorem fullDelta_right (hne : c.newLatestEventIds room batch ≠ ∅)
    (hrejected : ∀ pair ∈ batch, pair.event.rejected = false)
    (hsync : c.InSync room ∨ StartsAfresh room batch) :
    ∃ extremities stateDelta, c.fullDelta room batch (c.newLatestEventIds room batch) =
        .ok (some extremities, stateDelta) ∧
      extremities ⊆ c.newLatestEventIds room batch ∧
      (Controller.withDelta room.currentState stateDelta).Agrees
        (c.stateAfter (room.storeEvents batch) extremities) := by
  obtain ⟨deltas, hfrom, heq⟩ := getNewStateAfterEvents_eq hstored hok hrejected
  have hgroups : (room.storeEvents batch).groupsOf (c.newLatestEventIds room batch) ≠ ∅ := by
    obtain ⟨id, hid⟩ := Finset.nonempty_iff_ne_empty.mpr hne
    obtain ⟨stateGroup, -, hgroup⟩ := group_of_new hstored hok hid
    exact Finset.ne_empty_of_mem (mem_groupsOf.mpr ⟨id, hid, hgroup⟩)
  have husable : c.Usable room deltas (room.groupsOf room.latestEventIds)
      ((room.storeEvents batch).groupsOf (c.newLatestEventIds room batch)) := by
    refine hsync.imp id fun hafresh => ⟨fun hsame => ?_, fun old hold new => ?_⟩
    · obtain ⟨last, hlast, haccepted, hkept⟩ := hafresh.last
      obtain ⟨stateGroup, hcontext, hgroup⟩ := hok.group_of_accepted hlast haccepted
      have hmem := mem_groupsOf.mpr ⟨last.event.eventId, (mem_newLatestEventIds (c := c)
        _).mpr ⟨Or.inr ⟨last, hlast, haccepted, rfl⟩, hkept⟩, hgroup⟩
      rw [← hsame] at hmem
      exact (hafresh.unknown last hlast stateGroup hmem).1 hcontext
    · rw [Option.eq_none_iff_forall_ne_some]
      intro delta hdelta
      obtain ⟨pair, hpair, hown⟩ := hfrom _ _ hdelta
      rw [(hafresh.unknown pair hpair old hold).2 new] at hown
      exact absurd hown (by simp)
  have hdeltas : ∀ old new delta, deltas.get? (old, new) = some delta →
      ((c.stateGroups.state old).update delta).Agrees (c.stateGroups.state new) := by
    intro old new delta hdelta
    obtain ⟨pair, hpair, hown⟩ := hfrom _ _ hdelta
    exact (hok.contexts pair hpair).deltas old new delta hown
  generalize hnew : c.newState room batch (c.newLatestEventIds room batch) deltas
    (room.groupsOf room.latestEventIds)
    ((room.storeEvents batch).groupsOf (c.newLatestEventIds room batch)) = result at heq
  have hstate := c.withDelta_newState hdeltas hgroups husable hnew
  have hext := c.newState_extremities hgroups hnew
  obtain ⟨currentState, deltaIds, extremities⟩ := result
  -- the extremities that are kept have the state of all of them
  have hkept : extremities ⊆ c.newLatestEventIds room batch ∧ extremities ≠ ∅ ∧
      (c.stateGroups.resolution ((room.storeEvents batch).groupsOf (c.newLatestEventIds room batch))).Agrees
        (c.stateAfter (room.storeEvents batch) extremities) := by
    rcases hext with rfl | ⟨stateGroup, hmem, rfl, hagrees⟩
    · exact ⟨subset_rfl, hne, fun _ => rfl⟩
    obtain ⟨hsome, hone⟩ := groupsOf_kept hstored hok hmem
    refine ⟨Finset.filter_subset _ _, hsome, ?_⟩
    rw [Controller.stateAfter, hone, resolution_singleton]
    exact hagrees.symm
  refine ⟨extremities, (Controller.stateDelta room currentState deltaIds).map fun delta =>
    { delta with noLongerInRoom := !c.isServerStillJoined room batch delta }, ?_, hkept.1, ?_⟩
  · rw [Controller.fullDelta, heq, except_ok_bind]
    dsimp only
    rw [if_neg hkept.2.1]
    rfl
  · rw [withDelta_map]
    exact hstate.trans hkept.2.2

/-- As long as the extremities stay, nothing is returned. -/
theorem calculate_of_same (hsame : ¬ Changes room batch) :
    c.calculateNewForwardExtremitiesAndStateDelta room batch = .ok (none, none) := by
  rw [c.calculate_eq, if_pos ((newLatestEventIds_eq_iff hstored hok).mpr hsame)]

/-- The short cut leaves the state as it is. -/
theorem calculate_of_replaces (h : ∃ extremity pair, Replaces room batch extremity pair) :
    c.calculateNewForwardExtremitiesAndStateDelta room batch =
      .ok (some (c.newLatestEventIds room batch), none) := by
  obtain ⟨hne, hold, hnew, hplain⟩ := (replaces_iff hstored hok).mp h
  have hsome : c.newLatestEventIds room batch ≠ ∅ := by
    intro hempty
    rw [hempty, Finset.card_empty] at hnew
    omega
  rw [c.calculate_eq, if_neg hne, if_neg hsome, if_pos ⟨hold, hnew, hplain⟩]

/-- Otherwise the new state is worked out. -/
theorem calculate_of_full (hchanges : Changes room batch) (hne : c.newLatestEventIds room batch ≠ ∅)
    (hreplaces : ¬ ∃ extremity pair, Replaces room batch extremity pair) :
    c.calculateNewForwardExtremitiesAndStateDelta room batch =
      c.fullDelta room batch (c.newLatestEventIds room batch) := by
  have hnew : c.newLatestEventIds room batch ≠ room.latestEventIds :=
    fun heq => (newLatestEventIds_eq_iff hstored hok).mp heq hchanges
  rw [replaces_iff hstored hok] at hreplaces
  rw [c.calculate_eq, if_neg hnew, if_neg hne, if_neg fun h => hreplaces ⟨hnew, h⟩]

/-- **What a batch returns**, where it is sound: a part of the new extremities, and a delta that leads to
their state. -/
theorem Sound.calculate (hsound : Sound c room batch) (hsync : c.InSync room ∨ StartsAfresh room batch) :
    ∃ extremities delta, c.calculateNewForwardExtremitiesAndStateDelta room batch = .ok (extremities, delta) ∧
      extremities.getD room.latestEventIds ⊆ c.newLatestEventIds room batch ∧
      (Controller.withDelta room.currentState delta).Agrees
        (c.stateAfter (room.storeEvents batch) (extremities.getD room.latestEventIds)) := by
  by_cases hchanges : Changes room batch
  · by_cases hreplaces : ∃ extremity pair, Replaces room batch extremity pair
    · refine ⟨_, _, calculate_of_replaces hstored hok hreplaces, subset_rfl, ?_⟩
      obtain ⟨extremity, pair, h⟩ := hreplaces
      obtain ⟨stateGroup, hcontext, hafter⟩ := h.stateAfter hok
      show room.currentState.Agrees (c.stateAfter (room.storeEvents batch) (c.newLatestEventIds room batch))
      rw [hafter]
      exact (h.currentState hsync).trans (hsound.shortCut extremity pair h stateGroup hcontext).symm
    · have hnone : ∀ pair ∈ batch, pair.event.rejected = false := by
        intro pair hpair
        by_contra hflag
        exact hreplaces (hsound.rejected hchanges ⟨pair, hpair, by simpa using hflag⟩)
      have hne := hsound.newLatestEventIds_ne_empty hchanges
      obtain ⟨extremities, delta, heq, hsub, hagrees⟩ :=
        fullDelta_right hstored hok hne hnone hsync
      exact ⟨_, _, (calculate_of_full hstored hok hchanges hne hreplaces).trans heq, hsub, hagrees⟩
  · have hsync := hsync.resolve_right fun hafresh => hchanges (Or.inr hafresh.last)
    refine ⟨none, none, calculate_of_same hstored hok hchanges, ?_, ?_⟩
    · rw [(newLatestEventIds_eq_iff hstored hok).mpr hchanges]
      exact subset_rfl
    show room.currentState.Agrees (c.stateAfter (room.storeEvents batch) room.latestEventIds)
    rw [Controller.stateAfter, groupsOf_latestEventIds hstored hok]
    exact hsync

end Batch

/-! ## §6 Runs -/

/-- What keeps the current state right: the batch is sound, and once the server has left the room and its
current state was cleared, the room starts afresh. -/
structure Reliable (c : Controller) (room : RoomStore) (batch : List EventPersistencePair) : Prop where
  sound : Sound c room batch
  cleared : room.currentState.items = [] → ¬ c.InSync room → StartsAfresh room batch

/-- The extremities are stored, and the current state is right unless it has been cleared. -/
structure Kept (c : Controller) (room : RoomStore) : Prop where
  stored : Stored room
  current : c.InSync room ∨ room.currentState.items = []

theorem kept_new (c : Controller) : Kept c .new :=
  ⟨fun _ h => absurd h (Finset.notMem_empty _), Or.inr rfl⟩

section Steps

variable {c : Controller} {room : RoomStore} {batch : List EventPersistencePair}
  (h : Kept c room) (hok : TaskOk c room batch)

include h hok

/-- Backfilled events leave the extremities and the state alone. -/
theorem Kept.storeEvents : Kept c (room.storeEvents batch) := by
  obtain ⟨hstored, hcurrent⟩ := h
  refine ⟨fun id hid => ?_, hcurrent.imp (fun hsync => ?_) id⟩
  · obtain ⟨⟨row, hrow, hrid⟩, -⟩ := hstored id hid
    obtain ⟨stateGroup, -, hafter⟩ := group_of_old hstored hok hid
    refine ⟨⟨row, List.mem_append_left _ hrow, hrid⟩, ?_⟩
    rw [hafter]
    simp
  · show room.currentState.Agrees (c.stateAfter (room.storeEvents batch) room.latestEventIds)
    rw [Controller.stateAfter, groupsOf_latestEventIds hstored hok]
    exact hsync

/-- **A batch keeps the state right.** -/
theorem Kept.persist (hreliable : Reliable c room batch) :
    c.CurrentStateRight room batch ∧ Kept c (c.persist room batch) := by
  obtain ⟨hstored, hcurrent⟩ := h
  have hsync : c.InSync room ∨ StartsAfresh room batch := by
    by_cases hin : c.InSync room
    · exact Or.inl hin
    · exact Or.inr (hreliable.cleared (hcurrent.resolve_left hin) hin)
  obtain ⟨extremities, delta, heq, hsub, hagrees⟩ := hreliable.sound.calculate hstored hok hsync
  refine ⟨⟨extremities, delta, heq, hagrees⟩, ?_⟩
  rw [Controller.persist, heq]
  refine ⟨fun id hid => ?_, ?_⟩
  · obtain ⟨stateGroup, -, hafter⟩ := group_of_new hstored hok (hsub hid)
    refine ⟨?_, ?_⟩
    · rcases ((mem_newLatestEventIds id).mp (hsub hid)).1 with hold | ⟨pair, hpair, -, rfl⟩
      · obtain ⟨row, hrow, hrid⟩ := (hstored id hold).1
        exact ⟨row, List.mem_append_left _ hrow, hrid⟩
      · exact ⟨_, List.mem_append_right _ (List.mem_map_of_mem (List.mem_map_of_mem hpair)), rfl⟩
    · show (room.storeEvents batch).eventToStateGroups.get? id ≠ none
      rw [hafter]
      simp
  · cases delta with
    | none => exact Or.inl hagrees
    | some delta =>
      by_cases hleft : delta.noLongerInRoom = true
      · refine Or.inr ?_
        simp only [hleft, if_true]
        rfl
      refine Or.inl ?_
      simp only [Controller.InSync, hleft]
      exact hagrees

end Steps

/-- **The current state is right after every batch of a run** whose batches keep it right. -/
theorem currentState_right (c : Controller) (tasks : List Controller.PersistEventsTask)
    (hok : AllSteps (fun before task => TaskOk c (c.after before) task.eventsAndContexts) tasks)
    (hreliable : AllSteps (fun before task => task.backfilled = false →
      Reliable c (c.after before) task.eventsAndContexts) tasks) :
    AllSteps (fun before task => task.backfilled = false →
      c.CurrentStateRight (c.after before) task.eventsAndContexts) tasks := by
  suffices hboth : Kept c (c.after tasks) ∧ AllSteps (fun before task => task.backfilled = false →
      c.CurrentStateRight (c.after before) task.eventsAndContexts) tasks from hboth.2
  induction tasks using List.reverseRecOn with
  | nil => exact ⟨kept_new c, allSteps_nil _⟩
  | append_singleton tasks task ih =>
    obtain ⟨hokBefore, hokLast⟩ := allSteps_concat.mp hok
    obtain ⟨hreliableBefore, hreliableLast⟩ := allSteps_concat.mp hreliable
    obtain ⟨hkept, hright⟩ := ih hokBefore hreliableBefore
    have hafter : c.after (tasks ++ [task]) = c.run (c.after tasks) task := by
      rw [Controller.after, List.foldl_append]
      rfl
    rw [hafter, allSteps_concat]
    obtain ⟨batch, backfilled⟩ := task
    cases backfilled with
    | true => exact ⟨hkept.storeEvents hokLast, hright, fun h => absurd h (by simp)⟩
    | false =>
      obtain ⟨hlast, hnext⟩ := hkept.persist hokLast (hreliableLast rfl)
      exact ⟨hnext, hright, fun _ => hlast⟩

/-! ## §7 A soft-failed state event before the chain -/

/-- No state, the state after `$A`, and the state after `$S`. -/
def exampleState : ℕ → StateMap String
  | 2 => Dict.empty.set ("m.room.create", "") "$A"
  | 3 => (Dict.empty.set ("m.room.create", "") "$A").set ("m.room.topic", "") "$S"
  | _ => .empty

def exampleKeyOf (id : String) : String × String :=
  if id = "$A" then ("m.room.create", "") else ("m.room.topic", "")

theorem exampleState_keyOf (stateGroup : ℕ) (key : String × String) (id : String)
    (h : (exampleState stateGroup).get? key = some id) : exampleKeyOf id = key := by
  unfold exampleState at h
  split at h
  · rw [get?_set] at h
    split at h
    · rename_i hkey
      rw [hkey, ← Option.some.inj h]
      rfl
    · exact absurd h (by simp)
  · rw [get?_set, get?_set] at h
    split at h
    · rename_i hkey
      rw [hkey, ← Option.some.inj h]
      rfl
    split at h
    · rename_i hkey
      rw [hkey, ← Option.some.inj h]
      rfl
    · exact absurd h (by simp)
  · exact absurd h (by simp)

def exampleController : Controller where
  stateGroups :=
    { state := exampleState
      resolveEventsWithStore := fun _ => .empty
      order := .sorted ℕ
      keyOf := exampleKeyOf
      state_keyOf := exampleState_keyOf
      resolve_keyOf := fun _ _ _ h => absurd h (by simp) }
  order := .sorted String
  isServerStillJoined := fun _ _ _ => true
  mayDrop := fun _ _ _ => false

/-- The event that creates the room. -/
def createPair : EventPersistencePair where
  event := ⟨"$A", [], false, false, false⟩
  isState := true
  context := ⟨some 2, some 1, Dict.empty.set (1, 2) (exampleState 2)⟩

/-- A topic that is soft-failed. -/
def topicPair : EventPersistencePair where
  event := ⟨"$S", ["$A"], false, false, true⟩
  isState := true
  context := ⟨some 3, some 2, Dict.empty.set (2, 3) (Dict.empty.set ("m.room.topic", "") "$S")⟩

/-- A message that refers to it. -/
def messagePair : EventPersistencePair where
  event := ⟨"$B", ["$S"], false, false, false⟩
  isState := false
  context := ⟨some 3, some 3, Dict.empty.set (3, 3) .empty⟩

def topicTasks : List Controller.PersistEventsTask := [⟨[createPair], false⟩, ⟨[topicPair], false⟩]

/-- One new event as a task of its own. -/
theorem taskOk_singleton {c : Controller} {room : RoomStore} {pair : EventPersistencePair}
    (hrows : ∀ row ∈ room.tables.events, row.eventId ≠ pair.event.eventId)
    (hcontext : ContextOk c pair) : TaskOk c room [pair] := by
  refine ⟨by simp, ?_, ?_⟩
  · intro p hp
    obtain rfl := List.mem_singleton.mp hp
    exact hrows
  intro p hp
  obtain rfl := List.mem_singleton.mp hp
  exact hcontext

/-- The only delta of a context. -/
theorem deltas_singleton {c : Controller} {key : ℕ × ℕ} {delta : StateMap String}
    (h : ((c.stateGroups.state key.1).update delta).items = (c.stateGroups.state key.2).items)
    (old new : ℕ) (delta' : StateMap String)
    (hdelta : ((Dict.empty : Dict (ℕ × ℕ) (StateMap String)).set key delta).get? (old, new) = some delta') :
    ((c.stateGroups.state old).update delta').Agrees (c.stateGroups.state new) := by
  rcases of_get?_set hdelta with ⟨hkey, rfl⟩ | ⟨-, hdelta⟩
  · obtain ⟨rfl, rfl⟩ : old = key.1 ∧ new = key.2 := by rw [← hkey]; exact ⟨rfl, rfl⟩
    intro k
    rw [Dict.get?, h]
    rfl
  · exact absurd hdelta (by simp)

theorem topicTasks_ok : AllSteps (fun before task =>
    TaskOk exampleController (exampleController.after before) task.eventsAndContexts) topicTasks := by
  refine allSteps_cons.mpr ⟨?_, allSteps_cons.mpr ⟨?_, allSteps_nil _⟩⟩
  · exact taskOk_singleton (by decide) ⟨by decide, deltas_singleton (by decide)⟩
  · exact taskOk_singleton (by decide +kernel) ⟨by decide, deltas_singleton (by decide)⟩

theorem topicTasks_reliable : AllSteps (fun before task => task.backfilled = false →
    Reliable exampleController (exampleController.after before) task.eventsAndContexts)
    topicTasks := by
  refine allSteps_cons.mpr ⟨fun _ => ?_, allSteps_cons.mpr ⟨fun _ => ?_, allSteps_nil _⟩⟩
  · refine ⟨⟨fun hold => absurd rfl hold, fun extremity pair h => ?_, fun _ h => absurd h (by simp [createPair])⟩,
      fun _ hsync => absurd ?_ hsync⟩
    · exact absurd h.latest (Finset.singleton_ne_empty extremity).symm
    · exact fun _ => rfl
  refine ⟨⟨fun _ => ?_, fun extremity pair h => ?_, fun _ h => absurd h (by simp [topicPair])⟩,
    fun hcleared => absurd hcleared ?_⟩
  · refine Or.inl ⟨"$A", by decide +kernel, ?_⟩
    rintro (⟨row, hrow, -⟩ | ⟨pair, hpair, haccepted, -⟩)
    · have hnone : (exampleController.after [⟨[createPair], false⟩]).tables.edgeRows.length = 0 := by
        decide +kernel
      exact absurd hrow List.not_mem_nil
    · obtain rfl := List.mem_singleton.mp hpair
      exact absurd haccepted (by decide)
  · have hmem := h.mem
    obtain rfl := List.mem_singleton.mp hmem
    exact absurd h.accepted (by decide)
  · decide +kernel

theorem currentState_right_example : AllSteps (fun before task => task.backfilled = false →
    exampleController.CurrentStateRight (exampleController.after before) task.eventsAndContexts)
    topicTasks :=
  currentState_right exampleController topicTasks topicTasks_ok topicTasks_reliable

/-- The message replaces `$A` as the extremity, and the state after it has the topic; the current state
does not. -/
theorem topic_missing : AllSteps (fun before task =>
        TaskOk exampleController (exampleController.after before) task.eventsAndContexts)
      (topicTasks ++ [⟨[messagePair], false⟩]) ∧
    ¬ AllSteps (fun before task => task.backfilled = false →
      exampleController.CurrentStateRight (exampleController.after before) task.eventsAndContexts)
      (topicTasks ++ [⟨[messagePair], false⟩]) := by
  refine ⟨allSteps_concat.mpr ⟨topicTasks_ok, ?_⟩, fun hright => ?_⟩
  · exact taskOk_singleton (by decide +kernel) ⟨by decide, deltas_singleton (by decide)⟩
  obtain ⟨extremities, delta, heq, hagrees⟩ := (allSteps_concat.mp hright).2 rfl
  have hreturned : (exampleController.calculateNewForwardExtremitiesAndStateDelta
      (exampleController.after topicTasks) [messagePair]).toOption.map
        (fun returned => (returned.1, returned.2.isNone)) = some (some {"$B"}, true) := by
    decide +kernel
  rw [heq] at hreturned
  obtain ⟨rfl, hnone⟩ := Prod.mk.injEq .. ▸ Option.some.inj hreturned
  obtain rfl := Option.isNone_iff_eq_none.mp hnone
  have htopic := hagrees ("m.room.topic", "")
  have hold : (exampleController.after topicTasks).currentState.get? ("m.room.topic", "") =
      none := by decide +kernel
  have hnew : (exampleController.stateAfter ((exampleController.after topicTasks).storeEvents
      [messagePair]) {"$B"}).get? ("m.room.topic", "") = some "$S" := by decide +kernel
  exact absurd (hold.symm.trans (htopic.trans hnew)) (by decide)

end Setka.Storage.Controllers.PersistEvents
