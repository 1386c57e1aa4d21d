/-
# Setka.State.ResolutionV2Sound — where the entries of the resolved state come from.

The unconflicted state is laid over what the two passes of auth checks leave. Every other entry was put there by one of
them, and what it was checked against is what the pass had resolved in front of it. Lookups only ever extend the event
map by what the store has, so that an event id means the same event throughout.
-/
import Setka.State.ResolutionV2

namespace Setka.State

open Setka.Api Setka.Events Setka.EventAuth Setka.Lib Dict IterOrder Setka.Lib.Action Run

/-! ## §1 Conflicted and unconflicted state -/

/-- The same event under the key in all state sets. -/
def Unconflicted (stateSets : List (StateMap String)) (key : String × String) (eventId : String) : Prop :=
  stateSets ≠ [] ∧ ∀ stateSet ∈ stateSets, stateSet.get? key = some eventId

/-- The event is in a state set, under a key that is not unconflicted. -/
def Conflicted (stateSets : List (StateMap String)) (eventId : String) : Prop :=
  ∃ key, (∃ stateSet ∈ stateSets, stateSet.get? key = some eventId) ∧
    ∀ eventId', ¬ Unconflicted stateSets key eventId'

/-- The only member of a list of options, as a set. -/
theorem head?_join_eq_some_iff (ids : List (Option String)) (id : String) :
    (ids.toFinset.card = 1 ∧ ids.head?.join = some id) ↔ ids ≠ [] ∧ ∀ o ∈ ids, o = some id := by
  constructor
  · rintro ⟨hcard, hhead⟩
    obtain ⟨only, honly⟩ := Finset.card_eq_one.mp hcard
    have hmem : ∀ o ∈ ids, o = only := fun o ho => Finset.mem_singleton.mp (honly ▸ List.mem_toFinset.mpr ho)
    have hfirst := List.mem_of_head? (Option.join_eq_some_iff.mp hhead)
    refine ⟨List.ne_nil_of_mem hfirst, fun o ho => ?_⟩
    rw [hmem o ho, hmem _ hfirst]
  · rintro ⟨hne, hmem⟩
    obtain ⟨first, rest, rfl⟩ := List.exists_cons_of_ne_nil hne
    obtain rfl := hmem first List.mem_cons_self
    refine ⟨Finset.card_eq_one.mpr ⟨some id, ?_⟩, rfl⟩
    ext o
    rw [List.mem_toFinset, Finset.mem_singleton]
    exact ⟨hmem o, fun h => h ▸ List.mem_cons_self⟩

variable {stateSets : List (StateMap String)} {key : String × String} {eventId : String}

theorem agreedId_eq_some_iff : agreedId stateSets key = some eventId ↔ Unconflicted stateSets key eventId := by
  have hsole := head?_join_eq_some_iff (stateSets.map fun stateSet => stateSet.get? key) eventId
  rw [ne_eq, List.map_eq_nil_iff, List.forall_mem_map] at hsole
  rw [Unconflicted, ne_eq, ← hsole, agreedId]
  by_cases hcard : (stateSets.map fun stateSet => stateSet.get? key).toFinset.card = 1
  · simp only [hcard, if_true, true_and]
  · simp only [hcard, if_false, false_and, reduceCtorEq]

/-- The two maps after some keys: a key goes into the one or the other. -/
theorem foldl_add (stateSets : List (StateMap String)) (keys : List (String × String)) (s : Separated)
    (key : String × String) :
    (keys.foldl (Separated.add stateSets) s).unconflictedState.get? key =
        (if key ∈ keys then (agreedId stateSets key).or (s.unconflictedState.get? key)
          else s.unconflictedState.get? key) ∧
      (keys.foldl (Separated.add stateSets) s).conflictedState.get? key =
        (if key ∈ keys ∧ agreedId stateSets key = none then
            some (stateSets.map fun stateSet => stateSet.get? key).toFinset.eraseNone
          else s.conflictedState.get? key) := by
  induction keys generalizing s with
  | nil => simp
  | cons first rest ih =>
    rw [List.foldl_cons, (ih _).1, (ih _).2, Separated.add]
    by_cases hkey : key = first
    · subst hkey
      cases hagreed : agreedId stateSets key with
      | none => simp
      | some eventId => simp
    · cases hfirst : agreedId stateSets first with
      | none => simp [hkey, get?_set]
      | some eventId => simp [hkey, get?_set]

variable {order : IterOrder (String × String)}

theorem mem_list_keys : key ∈ order.list (stateSets.flatMap Dict.keys).toFinset ↔
      ∃ stateSet ∈ stateSets, ∃ eventId, stateSet.get? key = some eventId := by
  simp only [mem_list, List.mem_toFinset, List.mem_flatMap, mem_keys_iff]

/-- **`_seperate`, the unconflicted part.** -/
theorem get?_unconflictedState :
    (seperate order stateSets).unconflictedState.get? key = some eventId ↔ Unconflicted stateSets key eventId := by
  rw [seperate, (foldl_add _ _ _ _).1, ← agreedId_eq_some_iff, get?_empty, Option.or_none]
  split
  · rfl
  next hnone =>
    refine ⟨nofun, fun hagreed => ?_⟩
    obtain ⟨hne, hall⟩ := agreedId_eq_some_iff.mp hagreed
    obtain ⟨stateSet, hstateSet⟩ := List.exists_mem_of_ne_nil _ hne
    exact absurd (mem_list_keys.mpr ⟨stateSet, hstateSet, eventId, hall stateSet hstateSet⟩) hnone

/-- **`_seperate`, the conflicted part.** -/
theorem mem_conflictedIds :
    eventId ∈ conflictedIds (seperate order stateSets).conflictedState ↔ Conflicted stateSets eventId := by
  have hfold : ∀ sets : List (Finset String), eventId ∈ sets.foldr (· ∪ ·) ∅ ↔ ∃ s ∈ sets, eventId ∈ s := by
    intro sets
    induction sets with
    | nil => simp
    | cons s sets ih => simp [ih]
  have hget : ∀ key ids, (seperate order stateSets).conflictedState.get? key = some ids ↔
      (∃ stateSet ∈ stateSets, ∃ id, stateSet.get? key = some id) ∧ agreedId stateSets key = none ∧
        (stateSets.map fun stateSet => stateSet.get? key).toFinset.eraseNone = ids := by
    intro key ids
    rw [seperate, (foldl_add _ _ _ _).2, get?_empty, ← mem_list_keys ]
    split
    · next h => rw [Option.some.injEq, and_iff_right h.1, and_iff_right h.2]
    · next h => exact ⟨nofun, fun h' => absurd ⟨h'.1, h'.2.1⟩ h⟩
  have hagreed : ∀ key, agreedId stateSets key = none ↔ ∀ id, ¬ Unconflicted stateSets key id := by
    intro key
    simp only [← agreedId_eq_some_iff, Option.eq_none_iff_forall_ne_some, ne_eq]
  rw [conflictedIds, hfold, Conflicted]
  simp only [mem_values_iff, hget, hagreed]
  constructor
  · rintro ⟨_, ⟨key, -, hconflicted, rfl⟩, hmem⟩
    rw [Finset.mem_eraseNone, List.mem_toFinset, List.mem_map] at hmem
    exact ⟨key, hmem, hconflicted⟩
  rintro ⟨key, ⟨stateSet, hstateSet, hget⟩, hconflicted⟩
  refine ⟨_, ⟨key, ⟨stateSet, hstateSet, eventId, hget⟩, hconflicted, rfl⟩, ?_⟩
  rw [Finset.mem_eraseNone, List.mem_toFinset, List.mem_map]
  exact ⟨stateSet, hstateSet, hget⟩

/-! ## §2 What a lookup leaves as it was -/

/-- The event of an id: what the event map has, or else the store. -/
def eventOf (store : StateResolutionStore) (eventMap : EventMap) (eventId : String) : Option EventObject :=
  (eventMap.get? eventId).or (store.event eventId)

/-- Every id has the same event as before. -/
def SameEvents (store : StateResolutionStore) (eventMap eventMap' : EventMap) : Prop :=
  ∀ eventId, eventOf store eventMap' eventId = eventOf store eventMap eventId

theorem SameEvents.refl (store : StateResolutionStore) (eventMap : EventMap) : SameEvents store eventMap eventMap :=
  fun _ => rfl

theorem SameEvents.trans {store : StateResolutionStore} {m m' m'' : EventMap} (h : SameEvents store m m')
    (h' : SameEvents store m' m'') : SameEvents store m m'' :=
  fun eventId => (h' eventId).trans (h eventId)

/-- What is asked of the store is not in the event map. -/
theorem sameEvents_update (store : StateResolutionStore) {eventMap : EventMap} {eventIds : List String}
    (hnew : ∀ eventId ∈ eventIds, eventMap.get? eventId = none) :
    SameEvents store eventMap (eventMap.update (store.getEvents eventIds)) := by
  intro eventId
  rw [eventOf, eventOf, get?_update, store.get?_getEvents]
  split
  · next hmem =>
      rw [hnew eventId hmem, Option.or_none, Option.none_or, Option.or_self]
  · rw [Option.none_or]

/-- A lookup keeps the event of every id. -/
def Looks (r : Resolver) {α : Type} (m : Action EventMap Error α) : Prop := m.Keeps (SameEvents r.store)

section Lookups

variable {r : Resolver} {α β : Type}

theorem looks_pure (a : α) : Looks r (pure a : Action EventMap Error α) := SameEvents.refl r.store

theorem looks_raise (e : Error) : Looks r (Action.raise e : Action EventMap Error α) := SameEvents.refl r.store

theorem looks_lift (x : Except Error α) : Looks r (Action.lift x) := SameEvents.refl r.store

theorem Looks.bind {m : Action EventMap Error α} {f : α → Action EventMap Error β} (hm : Looks r m)
    (hf : ∀ a, Looks r (f a)) : Looks r (m >>= f) :=
  Action.Keeps.bind (SameEvents.refl r.store) (fun _ _ _ h h' => h.trans h') hm hf

theorem Looks.foldlM {f : β → α → Action EventMap Error β} (hf : ∀ b a, Looks r (f b a)) (l : List α) (b : β) :
    Looks r (l.foldlM f b) :=
  Action.Keeps.foldlM (SameEvents.refl r.store) (fun _ _ _ h h' => h.trans h') hf l b

theorem Looks.sameEvents {m : Action EventMap Error α} (h : Looks r m) {eventMap eventMap' : EventMap} {a : α}
    (hrun : m.run eventMap = (.ok a, eventMap')) : SameEvents r.store eventMap eventMap' := by
  have hkeeps := h eventMap
  rwa [hrun] at hkeeps

theorem looks_mapped (eventId : String) : Looks r (mapped eventId) := SameEvents.refl r.store

theorem looks_getEvent? (eventId : String) : Looks r (getEvent? r eventId) := by
  have hload : Looks r (Action.modify fun eventMap : EventMap =>
      if eventMap.get? eventId = none then eventMap.update (r.store.getEvents [eventId]) else eventMap) := by
    refine keeps_modify fun eventMap => ?_
    split
    · next hnone => exact sameEvents_update r.store fun id hid => List.mem_singleton.mp hid ▸ hnone
    · exact SameEvents.refl r.store eventMap
  have hread : Looks r (Action.reads fun eventMap : EventMap => .ok (eventMap.get? eventId)) := SameEvents.refl r.store
  refine hload.bind fun _ => hread.bind fun o => ?_
  cases o with
  | none => exact looks_pure none
  | some o =>
    dsimp only
    split
    · exact looks_raise _
    · exact looks_pure _

theorem looks_getEvent (eventId : String) : Looks r (getEvent r eventId) := by
  refine (looks_getEvent? eventId).bind fun o => ?_
  cases o with
  | none => exact looks_raise _
  | some o => exact looks_pure o

theorem looks_firstAuthEvent (key : String × String) (aids : List String) : Looks r (firstAuthEvent r key aids) := by
  induction aids with
  | nil => exact looks_pure none
  | cons aid rest ih =>
    refine (looks_getEvent? aid).bind fun o => ?_
    cases o with
    | none => exact ih
    | some aev =>
      refine (looks_lift _).bind fun aevKey => ?_
      split
      · exact looks_pure _
      · exact ih

theorem looks_noteAuthEvent (noted : Option EventObject × Option EventObject) (aid : String) :
    Looks r (noteAuthEvent r noted aid) := by
  refine (looks_getEvent? aid).bind fun o => ?_
  cases o with
  | none => exact looks_pure noted
  | some aev => exact (looks_lift _).bind fun key => looks_pure _

theorem looks_levelOfCreator (event : EventBase) : Looks r (levelOfCreator r event) := by
  refine (looks_firstAuthEvent createKey _).bind fun found => ?_
  cases found with
  | none => exact looks_pure 0
  | some found => exact looks_pure _

theorem looks_getPowerLevelForSender (eventId : String) : Looks r (getPowerLevelForSender r eventId) := by
  refine (looks_getEvent eventId).bind fun o => ?_
  refine (Looks.foldlM looks_noteAuthEvent _ _).bind fun noted => ?_
  dsimp only
  split
  · exact looks_raise _
  refine (looks_lift _).bind fun creator => ?_
  split
  · exact looks_pure _
  split
  · exact looks_lift _
  · exact looks_levelOfCreator o.event

theorem looks_addPowerLevel (eventToPl : Dict String ℤ) (eventId : String) :
    Looks r (addPowerLevel r eventToPl eventId) :=
  (looks_getPowerLevelForSender eventId).bind fun _ => looks_pure _

theorem looks_addOwnAuthEvent (authEvents : StateMap EventBase) (aid : String) :
    Looks r (addOwnAuthEvent r authEvents aid) := by
  refine (looks_getEvent? aid).bind fun o => ?_
  cases o with
  | none => exact looks_pure authEvents
  | some ev =>
    dsimp only
    split
    · exact looks_pure authEvents
    · exact (looks_lift _).bind fun key => looks_pure _

theorem looks_addResolvedEvent (resolvedState : StateMap String) (authEvents : StateMap EventBase)
    (key : String × String) : Looks r (addResolvedEvent r resolvedState authEvents key) := by
  rw [addResolvedEvent]
  split
  · exact looks_pure authEvents
  refine (looks_getEvent _).bind fun ev => ?_
  split
  · exact looks_pure authEvents
  · exact (looks_mapped _).bind fun ev => looks_pure _

theorem looks_authEventsFor (resolvedState : StateMap String) (eventId : String) (o : EventObject) :
    Looks r (authEventsFor r resolvedState eventId o) := by
  refine (Looks.foldlM looks_addOwnAuthEvent _ _).bind fun authEvents => ?_
  exact (looks_lift _).bind fun authTypes => Looks.foldlM (looks_addResolvedEvent resolvedState) _ _

end Lookups

/-! ## §3 The auth checks -/

/-- At this point of a pass the event goes into the state: it was not rejected, and it passes the checks against its own
auth events and what is resolved so far. -/
structure Applies (r : Resolver) (resolvedState : StateMap String) (eventMap : EventMap) (key : String × String)
    (eventId : String) (o : EventObject) : Prop where
  mapped : eventMap.get? eventId = some o
  keyed : eventKey o.event = .ok key
  notRejected : o.event.rejected = false
  passed : ∃ authEvents eventMap',
    (authEventsFor r resolvedState eventId o).run eventMap = (.ok authEvents, eventMap') ∧
      checkStateDependentAuthRules r.out o authEvents.values = .ok ()

/-- A pass over the events, from this state and event map, puts the event under the key. -/
def AppliedBy (r : Resolver) (eventIds : List String) (baseState : StateMap String) (eventMap : EventMap)
    (key : String × String) (eventId : String) (o : EventObject) : Prop :=
  ∃ before after resolvedState eventMap', eventIds = before ++ eventId :: after ∧
    (iterativeAuthChecks r before baseState).run eventMap = (.ok resolvedState, eventMap') ∧
    Applies r resolvedState eventMap' key eventId o

section Passes

variable {r : Resolver} {eventMap eventMap' : EventMap}

variable {eventId : String}

theorem run_mapped {o : EventObject} (h : (mapped eventId).run eventMap = (.ok o, eventMap')) :
    eventMap.get? eventId = some o ∧ eventMap = eventMap' := by
  rw [mapped, run_reads, Prod.mk.injEq] at h
  obtain ⟨ho, rfl⟩ := h
  split at ho
  · next hget => exact ⟨hget.trans (congrArg some (Except.ok.inj ho)), rfl⟩
  · cases ho

theorem looks_applyEvent (resolvedState : StateMap String) (eventId : String) :
    Looks r (applyEvent r resolvedState eventId) := by
  refine (looks_mapped eventId).bind fun o => (looks_authEventsFor _ _ _).bind fun authEvents => ?_
  split
  · exact looks_pure resolvedState
  split
  · exact (looks_lift _).bind fun key => looks_pure _
  split
  · exact looks_pure resolvedState
  · exact looks_raise _

theorem looks_iterativeAuthChecks (eventIds : List String) (baseState : StateMap String) :
    Looks r (iterativeAuthChecks r eventIds baseState) := Looks.foldlM looks_applyEvent eventIds baseState

/-- **What one turn can do**: nothing, or put an event under its key. -/
theorem applyEvent_cases {resolvedState resolvedState' : StateMap String}
    (h : (applyEvent r resolvedState eventId).run eventMap = (.ok resolvedState', eventMap')) :
    resolvedState' = resolvedState ∨
      ∃ key o, Applies r resolvedState eventMap key eventId o ∧ resolvedState' = resolvedState.set key eventId := by
  obtain ⟨o, m, hmapped, h⟩ := exists_of_run_bind_eq_ok h
  obtain ⟨hget, rfl⟩ := run_mapped hmapped
  obtain ⟨authEvents, m, hauth, h⟩ := exists_of_run_bind_eq_ok h
  have hpure : ∀ {s : StateMap String}, (pure s : Action EventMap Error (StateMap String)).run m =
      (.ok resolvedState', eventMap') → resolvedState' = s := by
    intro s hrun
    exact (Except.ok.inj (Prod.mk.inj hrun).1).symm
  split at h
  · exact Or.inl (hpure h)
  next hrejected =>
    split at h
    · next hpassed =>
        obtain ⟨key, m', hlift, h⟩ := exists_of_run_bind_eq_ok h
        have hkey : eventKey o.event = .ok key := (Prod.mk.inj hlift).1
        obtain rfl := (Prod.mk.inj hlift).2
        refine Or.inr ⟨key, o, ⟨hget, hkey, ?_, authEvents, _, hauth, hpassed⟩, hpure h⟩
        exact Bool.eq_false_of_not_eq_true hrejected
    · split at h
      · exact Or.inl (hpure h)
      · cases (Prod.mk.inj h).1

/-- **Provenance**: an entry was there before the pass, or the pass has put it there. -/
theorem iterativeAuthChecks_provenance {eventIds : List String} {base resolvedState : StateMap String}
    (h : (iterativeAuthChecks r eventIds base).run eventMap = (.ok resolvedState, eventMap'))
    {key : String × String} (hentry : resolvedState.get? key = some eventId) :
    base.get? key = some eventId ∨ ∃ o, AppliedBy r eventIds base eventMap key eventId o := by
  have hturn := exists_turn_of_foldlM (P := fun state => state.get? key = some eventId) h hentry
  refine hturn.imp_right ?_
  rintro ⟨before, id, after, state, m, state', m', rfl, hbefore, happly, hnot, hnow⟩
  rcases applyEvent_cases happly with rfl | ⟨key', o, happlies, rfl⟩
  · exact absurd hnow hnot
  -- the entry is the one that this turn has set
  rcases of_get?_set hnow with ⟨heq, rfl⟩ | ⟨-, hnow⟩
  · subst heq
    exact ⟨o, before, after, state, m, rfl, hbefore, happlies⟩
  · exact absurd hnow hnot

end Passes

/-! ## §4 The events that are sorted -/

section Sorts

variable {r : Resolver} {full : Finset String} {eventMap eventMap' : EventMap}

/-- What the loops that build the graph keep: its nodes are in the full conflicted set. -/
structure GraphInv (r : Resolver) (full : Finset String) (eventMap : EventMap) (graph : Dict String (Finset String))
    (eventMap' : EventMap) : Prop where
  nodes : ∀ n, graph.get? n ≠ none → n ∈ full
  same : SameEvents r.store eventMap eventMap'

theorem GraphInv.foldl_visit {eid : String} (heid : eid ∈ full) {s : GraphSearch}
    (h : GraphInv r full eventMap s.graph s.eventMap) (hstate : ∀ n ∈ s.state, n ∈ full) (aids : List String) :
    let s' := aids.foldl (GraphSearch.visit full eid) s
    GraphInv r full eventMap s'.graph s'.eventMap ∧ ∀ n ∈ s'.state, n ∈ full := by
  induction aids generalizing s with
  | nil => exact ⟨h, hstate⟩
  | cons aid rest ih =>
    rw [List.foldl_cons, GraphSearch.visit]
    by_cases haid : aid ∈ full
    · rw [if_pos haid]
      refine ih ⟨fun n hn => ?_, h.same⟩ fun n hn => ?_
      · rw [get?_set] at hn
        split at hn
        · next heq => exact heq ▸ heid
        · exact h.nodes n hn
      · dsimp only at hn
        split at hn
        · exact (List.mem_cons.mp hn).elim (fun heq => heq ▸ haid) (hstate n)
        · exact hstate n hn
    · rw [if_neg haid]
      exact ih h hstate

theorem GraphInv.turn {s s' : GraphSearch}
    (h : GraphInv r full eventMap s.graph s.eventMap ∧ ∀ n ∈ s.state, n ∈ full)
    (hends : Run.Ends (GraphSearch.turn r full s) (some s')) :
    GraphInv r full eventMap s'.graph s'.eventMap ∧ ∀ n ∈ s'.state, n ∈ full := by
  obtain ⟨hinv, hstate⟩ := h
  rw [GraphSearch.turn] at hends
  split at hends
  · cases ends_pure_iff.mp hends
  next eid state heq =>
    obtain ⟨⟨o, m⟩, hget, hends⟩ := hends.of_bind
    obtain rfl := Option.some.inj (ends_pure_iff.mp hends)
    have heid : eid ∈ full := hstate eid (heq ▸ List.mem_cons_self)
    have hsame := (looks_getEvent eid).sameEvents (ends_ofAction_iff.mp hget)
    refine GraphInv.foldl_visit heid ⟨fun n hn => ?_, hinv.same.trans hsame⟩ (fun n hn => ?_) _
    · rw [get?_setDefault] at hn
      split at hn
      · next hn' => exact hn' ▸ heid
      · exact hinv.nodes n hn
    · exact hstate n (heq ▸ List.mem_cons_of_mem eid hn)

theorem GraphInv.addIfPowerEvent {s s' : Dict String (Finset String) × EventMap} (h : GraphInv r full eventMap s.1 s.2)
    {eventId : String} (hmem : eventId ∈ full) (hends : Run.Ends (addIfPowerEvent r full s eventId) s') :
    GraphInv r full eventMap s'.1 s'.2 := by
  obtain ⟨⟨isPower, m⟩, hpower, hends⟩ := hends.of_bind
  have hlooks : Looks r (do
      let o ← mapped eventId
      Action.lift (isPowerEvent o.event)) := (looks_mapped eventId).bind fun o => looks_lift _
  have hsame := h.same.trans (hlooks.sameEvents (ends_ofAction_iff.mp hpower))
  dsimp only at hends
  split at hends
  · obtain ⟨t, hloop, hends⟩ := hends.of_bind
    have hstart : GraphInv r full eventMap s.1 m ∧ ∀ n ∈ [eventId], n ∈ full :=
      ⟨⟨h.nodes, hsame⟩, List.forall_mem_singleton.mpr hmem⟩
    have hloop' := hloop.loop hstart fun _ _ => GraphInv.turn
    exact ends_pure_iff.mp hends ▸ hloop'.1.1
  · exact ends_pure_iff.mp hends ▸ ⟨h.nodes, hsame⟩

theorem stable_lexicographicalTopologicalSort {κ : Type} [LinearOrder κ] (orders : SortOrders String)
    (graph : Dict String (Finset String)) (key : String → κ) :
    Run.Stable (lexicographicalTopologicalSort orders graph key) := by
  refine (Run.Stable.loop (fun s => ?_) _).bind fun s => stable_pure _
  rw [SortState.turn]
  split
  · exact stable_pure none
  refine (stable_ofOption _ _).bind fun parents => ?_
  refine (Run.Stable.foldlM (fun s parent => ?_) _ _).bind fun s => stable_pure _
  exact (stable_ofOption _ _).bind fun out => stable_pure _

/-- **The power events that are sorted** are in the full conflicted set. -/
theorem reverseTopologicalPowerSort_spec {sortedEvents : List String}
    (hends : Run.Ends (reverseTopologicalPowerSort r full eventMap) (sortedEvents, eventMap')) :
    (∀ eventId ∈ sortedEvents, eventId ∈ full) ∧ SameEvents r.store eventMap eventMap' := by
  obtain ⟨⟨graph, m⟩, hgraph, hends⟩ := hends.of_bind
  obtain ⟨⟨eventToPl, m'⟩, hpl, hends⟩ := hends.of_bind
  obtain ⟨sorted, hsort, hends⟩ := hends.of_bind
  obtain ⟨rfl, rfl⟩ := Prod.mk.inj (ends_pure_iff.mp hends)
  have hstart : GraphInv r full eventMap Dict.empty eventMap := ⟨fun n hn => absurd rfl hn, SameEvents.refl _ _⟩
  have hinv : GraphInv r full eventMap graph m := hgraph.foldlM (I := fun s => GraphInv r full eventMap s.1 s.2) hstart
    fun eventId hmem _ _ h => h.addIfPowerEvent ((mem_list _).mp hmem)
  have hlooks : Looks r (graph.keys.foldlM (addPowerLevel r) Dict.empty) := Looks.foldlM looks_addPowerLevel _ _
  refine ⟨fun eventId hmem => ?_, hinv.same.trans (hlooks.sameEvents (ends_ofAction_iff.mp hpl))⟩
  have hgreedy := (sort_yields _ _ graph).of_ends (stable_lexicographicalTopologicalSort _ _ _) hsort
  obtain ⟨edges, hedges⟩ := mem_keys_iff.mp (List.mem_toFinset.mp (hgreedy.1.subset eventId hmem))
  exact hinv.nodes eventId (by rw [hedges]; exact Option.some_ne_none edges)

theorem getMainlineDepthForEvent_same {o : EventObject} {mainlineMap : Dict String ℕ} {depth : ℕ}
    (hends : Run.Ends (getMainlineDepthForEvent r o mainlineMap eventMap) (depth, eventMap')) :
    SameEvents r.store eventMap eventMap' := by
  obtain ⟨s, hloop, hends⟩ := hends.of_bind
  obtain ⟨-, rfl⟩ := Prod.mk.inj (ends_pure_iff.mp hends)
  refine (hloop.loop (I := fun s => SameEvents r.store eventMap s.eventMap) (SameEvents.refl _ _) ?_).1
  intro s s' hs hturn
  rw [DepthSearch.turn] at hturn
  split at hturn
  · cases ends_pure_iff.mp hturn
  split at hturn
  · obtain rfl := Option.some.inj (ends_pure_iff.mp hturn)
    exact hs
  obtain ⟨⟨next, m⟩, hfirst, hturn⟩ := hturn.of_bind
  obtain rfl := Option.some.inj (ends_pure_iff.mp hturn)
  have hlooks := looks_firstAuthEvent (r := { r with roomId := o.event.roomId }) powerLevelsKey
  exact hs.trans ((hlooks _).sameEvents (ends_ofAction_iff.mp hfirst))

/-- **The mainline sort** lists the events that it is given. -/
theorem mainlineSort_spec {eventIds sortedEvents : List String} {pl : Option String}
    (hends : Run.Ends (mainlineSort r eventIds pl eventMap) (sortedEvents, eventMap')) :
    (∀ eventId ∈ sortedEvents, eventId ∈ eventIds) ∧ SameEvents r.store eventMap eventMap' := by
  rw [mainlineSort] at hends
  split at hends
  · obtain ⟨rfl, rfl⟩ := Prod.mk.inj (ends_pure_iff.mp hends)
    exact ⟨List.forall_mem_nil _, SameEvents.refl _ _⟩
  obtain ⟨s, hloop, hends⟩ := hends.of_bind
  obtain ⟨⟨orderMap, m⟩, hfold, hends⟩ := hends.of_bind
  obtain ⟨rfl, rfl⟩ := Prod.mk.inj (ends_pure_iff.mp hends)
  refine ⟨fun eventId hmem => (List.mem_insertionSort _).mp hmem, ?_⟩
  have hmainline : SameEvents r.store eventMap s.eventMap := by
    refine (hloop.loop (I := fun s => SameEvents r.store eventMap s.eventMap) (SameEvents.refl _ _) ?_).1
    intro s s' hs hturn
    rw [MainlineSearch.turn] at hturn
    split at hturn
    · cases ends_pure_iff.mp hturn
    split at hturn
    · cases ends_pure_iff.mp hturn
    obtain ⟨⟨next, m⟩, hfirst, hturn⟩ := hturn.of_bind
    obtain rfl := Option.some.inj (ends_pure_iff.mp hturn)
    refine hs.trans (Looks.sameEvents ?_ (ends_ofAction_iff.mp hfirst))
    exact (looks_getEvent _).bind fun plEv => looks_firstAuthEvent _ _
  refine hfold.foldlM (I := fun t => SameEvents r.store eventMap t.2) hmainline ?_
  intro eventId _ t t' ht hadd
  obtain ⟨o, -, hadd⟩ := hadd.of_bind
  obtain ⟨⟨depth, m⟩, hdepth, hadd⟩ := hadd.of_bind
  obtain rfl := ends_pure_iff.mp hadd
  exact ht.trans (getMainlineDepthForEvent_same hdepth)

theorem loadEvents_same (hends : Run.Ends (loadEvents r full eventMap) eventMap') :
    SameEvents r.store eventMap eventMap' := by
  rw [loadEvents] at hends
  split at hends
  · obtain rfl := ends_pure_iff.mp hends
    exact sameEvents_update r.store fun eventId hmem => of_decide_eq_true (List.mem_filter.mp hmem).2
  · exact absurd hends not_ends_raise

end Sorts

/-! ## §5 The resolution -/

/-- The intermediate results of a resolution of conflicted state. -/
structure ResolutionTrace (r : Resolver) (stateSets : List (StateMap String)) (eventMap : EventMap) where
  {full : Finset String}
  {sortedPowerEvents leftoverEvents : List String}
  {loaded sorted powered leftover final : EventMap}
  {poweredState resolvedState : StateMap String}
  fullEnds : Run.Ends (fullConflictedSet r stateSets eventMap) full
  loadEnds : Run.Ends (loadEvents r full eventMap) loaded
  sortEnds : Run.Ends (reverseTopologicalPowerSort r (full.filter fun eventId => loaded.get? eventId ≠ none) loaded)
    (sortedPowerEvents, sorted)
  powerPass : (iterativeAuthChecks r sortedPowerEvents
    (baseState r (seperate r.orders.keys stateSets).unconflictedState)).run sorted = (.ok poweredState, powered)
  mainlineEnds : Run.Ends (mainlineSort r
      ((r.orders.fullConflictedSet.list (full.filter fun eventId => loaded.get? eventId ≠ none)).filter
        fun evId => evId ∉ sortedPowerEvents)
      (poweredState.get? powerLevelsKey) powered) (leftoverEvents, leftover)
  leftoverPass : (iterativeAuthChecks r leftoverEvents poweredState).run leftover = (.ok resolvedState, final)

section Resolution

variable {r : Resolver} {stateSets : List (StateMap String)}

/-- The event was put under the key by one of the two passes. -/
def ResolutionTrace.Applied {eventMap : EventMap} (t : ResolutionTrace r stateSets eventMap) (key : String × String)
    (eventId : String) (o : EventObject) : Prop :=
  AppliedBy r t.sortedPowerEvents (baseState r (seperate r.orders.keys stateSets).unconflictedState) t.sorted key
      eventId o ∨
    AppliedBy r t.leftoverEvents t.poweredState t.leftover key eventId o

/-- A run returns the unconflicted state, laid over what the passes leave where there is conflicted state. -/
theorem resolveEventsWithStore_cases {eventMap : Option EventMap} {result : StateMap String} {eventMap' : EventMap}
    (hends : Run.Ends (resolveEventsWithStore r stateSets eventMap) (result, eventMap')) :
    result = (seperate r.orders.keys stateSets).unconflictedState ∨
      ∃ t : ResolutionTrace r stateSets (eventMap.getD Dict.empty),
        result = t.resolvedState.update (seperate r.orders.keys stateSets).unconflictedState := by
  rw [resolveEventsWithStore] at hends
  split at hends
  · exact Or.inl (Prod.mk.inj (ends_pure_iff.mp hends)).1.symm
  obtain ⟨full, hfull, hends⟩ := hends.of_bind
  obtain ⟨loaded, hload, hends⟩ := hends.of_bind
  obtain ⟨⟨sortedPowerEvents, sorted⟩, hsort, hends⟩ := hends.of_bind
  obtain ⟨⟨poweredState, powered⟩, hpower, hends⟩ := hends.of_bind
  obtain ⟨⟨leftoverEvents, leftover⟩, hmainline, hends⟩ := hends.of_bind
  obtain ⟨⟨resolvedState, final⟩, hleftover, hends⟩ := hends.of_bind
  obtain ⟨rfl, rfl⟩ := Prod.mk.inj (ends_pure_iff.mp hends)
  refine Or.inr ⟨⟨hfull, hload, hsort, ?_, hmainline, ends_ofAction_iff.mp hleftover⟩, rfl⟩
  exact ends_ofAction_iff.mp hpower

/-- **An event that a pass has put into the state** is in the full conflicted set, and it is the one its id had from the
beginning. -/
theorem ResolutionTrace.Applied.spec {eventMap : EventMap} {t : ResolutionTrace r stateSets eventMap}
    {key : String × String} {eventId : String} {o : EventObject} (h : t.Applied key eventId o) :
    eventId ∈ t.full ∧ eventOf r.store eventMap eventId = some o ∧ eventKey o.event = .ok key ∧
      o.event.rejected = false := by
  obtain ⟨hpower, hsorted⟩ := reverseTopologicalPowerSort_spec t.sortEnds
  obtain ⟨hleftover, hmainline⟩ := mainlineSort_spec t.mainlineEnds
  have hsorted := (loadEvents_same t.loadEnds).trans hsorted
  have hpowered := hsorted.trans ((looks_iterativeAuthChecks _ _).sameEvents t.powerPass)
  have hpass : ∀ {eventIds base m}, SameEvents r.store eventMap m → AppliedBy r eventIds base m key eventId o →
      eventId ∈ eventIds ∧ eventOf r.store eventMap eventId = some o ∧ eventKey o.event = .ok key ∧
        o.event.rejected = false := by
    rintro eventIds base m hsame ⟨before, after, state, m', rfl, hbefore, happlies⟩
    refine ⟨by simp, ?_, happlies.keyed, happlies.notRejected⟩
    rw [← hsame.trans ((looks_iterativeAuthChecks _ _).sameEvents hbefore) eventId, eventOf, happlies.mapped,
      Option.some_or]
  rcases h with h | h
  · obtain ⟨hmem, hrest⟩ := hpass hsorted h
    exact ⟨Finset.mem_of_mem_filter _ (hpower eventId hmem), hrest⟩
  obtain ⟨hmem, hrest⟩ := hpass (hpowered.trans hmainline) h
  have hlisted := (mem_list _).mp (List.mem_of_mem_filter (hleftover eventId hmem))
  exact ⟨Finset.mem_of_mem_filter _ hlisted, hrest⟩

/-- Every entry of the state is under the type and state key of its event. -/
def IsState (store : StateResolutionStore) (eventMap : EventMap) (state : StateMap String) : Prop :=
  ∀ key eventId, state.get? key = some eventId →
    ∃ o, eventOf store eventMap eventId = some o ∧ eventKey o.event = .ok key

/-- **Soundness of the resolved state.** The unconflicted entries are in it unchanged. Every other entry is a conflicted
event or one of the auth difference, was not rejected, and one of the passes has put it there when it passed the auth
checks. So every entry is under its event's type and state key, where that is so in the state sets. -/
theorem resolveEventsWithStore_sound (r : Resolver) {stateSets : List (StateMap String)} {eventMap : Option EventMap}
    {result : StateMap String} {eventMap' : EventMap}
    (hends : Run.Ends (resolveEventsWithStore r stateSets eventMap) (result, eventMap')) :
    (∀ key eventId, Unconflicted stateSets key eventId → result.get? key = some eventId) ∧
      (∀ key eventId, result.get? key = some eventId → ¬ Unconflicted stateSets key eventId →
        ∃ (t : ResolutionTrace r stateSets (eventMap.getD Dict.empty)) (difference : Finset String) (o : EventObject),
          Run.Ends (authDiff r stateSets (eventMap.getD Dict.empty)) difference ∧
          (Conflicted stateSets eventId ∨ eventId ∈ difference) ∧
          eventOf r.store (eventMap.getD Dict.empty) eventId = some o ∧ eventKey o.event = .ok key ∧
          o.event.rejected = false ∧ t.Applied key eventId o) ∧
      ((∀ stateSet ∈ stateSets, IsState r.store (eventMap.getD Dict.empty) stateSet) →
        IsState r.store (eventMap.getD Dict.empty) result) := by
  have hunconflicted : ∀ {key eventId}, (seperate r.orders.keys stateSets).unconflictedState.get? key = some eventId ↔
      Unconflicted stateSets key eventId := get?_unconflictedState
  have hkept : ∀ key eventId, Unconflicted stateSets key eventId → result.get? key = some eventId := by
    intro key eventId h
    rcases resolveEventsWithStore_cases hends with rfl | ⟨t, rfl⟩
    · exact hunconflicted.mpr h
    · rw [Dict.get?_update, hunconflicted.mpr h, Option.some_or]
  have hothers : ∀ key eventId, result.get? key = some eventId → ¬ Unconflicted stateSets key eventId →
      ∃ (t : ResolutionTrace r stateSets (eventMap.getD Dict.empty)) (o : EventObject), t.Applied key eventId o := by
    intro key eventId hentry hnot
    rcases resolveEventsWithStore_cases hends with rfl | ⟨t, rfl⟩
    · exact absurd (hunconflicted.mp hentry) hnot
    rw [Dict.get?_update, Option.or_eq_some_iff] at hentry
    obtain ⟨-, hresolved⟩ := hentry.resolve_left fun h => hnot (hunconflicted.mp h)
    refine ⟨t, ?_⟩
    rcases iterativeAuthChecks_provenance t.leftoverPass hresolved with hpowered | ⟨o, happlied⟩
    · rcases iterativeAuthChecks_provenance t.powerPass hpowered with hbase | ⟨o, happlied⟩
      · -- the base of the first pass has unconflicted entries only
        rw [baseState] at hbase
        split at hbase
        · cases hbase
        · exact absurd (hunconflicted.mp hbase) hnot
      · exact ⟨o, Or.inl happlied⟩
    · exact ⟨o, Or.inr happlied⟩
  refine ⟨hkept, fun key eventId hentry hnot => ?_, fun hsets key eventId hentry => ?_⟩
  · obtain ⟨t, o, happlied⟩ := hothers key eventId hentry hnot
    obtain ⟨hfull, hevent, hkey, hrejected⟩ := happlied.spec
    obtain ⟨difference, hdifference, hpure⟩ := t.fullEnds.of_bind
    rw [← Run.ends_pure_iff.mp hpure, Finset.mem_union, mem_conflictedIds] at hfull
    exact ⟨t, difference, o, hdifference, hfull, hevent, hkey, hrejected, happlied⟩
  · by_cases hcase : Unconflicted stateSets key eventId
    · obtain ⟨stateSet, hmem⟩ := List.exists_mem_of_ne_nil _ hcase.1
      exact hsets stateSet hmem key eventId (hcase.2 stateSet hmem)
    · obtain ⟨t, o, happlied⟩ := hothers key eventId hentry hcase
      obtain ⟨-, hevent, hkey, -⟩ := happlied.spec
      exact ⟨o, hevent, hkey⟩

end Resolution

/-! ## §6 A resolution -/

/-- Keys in increasing order. -/
def exampleKeys : IterOrder (String × String) :=
  (IterOrder.sorted (String ×ₗ String)).via ofLex

/-- A resolver for a room all of whose events are in flight. -/
def exampleResolver : Resolver where
  out := exampleOutside
  store :=
    { getAuthChainDifference := fun _ _ _ _ => ⟨∅, none⟩
      event := fun _ => none
      getEvents := fun _ => Dict.empty
      get?_getEvents := fun _ _ => (ite_self _).symm }
  roomId := "!room:s"
  roomVersion := RoomVersions.v11
  orders :=
    { keys := exampleKeys
      frontier := IterOrder.sorted String
      requested := IterOrder.sorted String
      fullConflictedSet := IterOrder.sorted String
      authTypes := fun _ => exampleKeys
      sort := ⟨fun _ => IterOrder.sorted String, fun _ => IterOrder.sorted String⟩ }

/-- The room has been created. -/
def exampleInRoom : EventMap :=
  Dict.empty.set "$create" ⟨EventAuth.exampleEvent "$create" "m.room.create" "@owner:s" (some "") [] [], false⟩

/-- One state set has the event that created the room, the other has nothing. -/
theorem resolveEventsWithStore_sound_example :
    ∃ (t : ResolutionTrace exampleResolver [Dict.empty.set createKey "$create", Dict.empty] exampleInRoom)
      (o : EventObject), t.Applied createKey "$create" o := by
  have hends : Run.Ends (resolveEventsWithStore exampleResolver [Dict.empty.set createKey "$create", Dict.empty]
      (some exampleInRoom)) (Dict.empty.set createKey "$create", exampleInRoom) := ⟨4, rfl⟩
  obtain ⟨-, hothers, -⟩ := resolveEventsWithStore_sound exampleResolver hends
  have hnot : ¬ Unconflicted [Dict.empty.set createKey "$create", Dict.empty] createKey "$create" := by
    intro h
    cases h.2 Dict.empty (by simp)
  obtain ⟨t, -, o, -, -, -, -, -, happlied⟩ := hothers createKey "$create" rfl hnot
  exact ⟨t, o, happlied⟩

/-- **Where the state sets agree there is nothing to resolve.** No event is looked up, and the result is their state. -/
theorem resolve_of_agreeing (r : Resolver) {stateSets : List (StateMap String)} {state : StateMap String}
    (hne : stateSets ≠ []) (hagree : ∀ stateSet ∈ stateSets, stateSet.Agrees state) (eventMap : Option EventMap) :
    ∃ result : StateMap String, Run.Returns (resolveEventsWithStore r stateSets eventMap)
      (.ok (result, eventMap.getD empty)) ∧ result.Agrees state := by
  have hall : ∀ key eventId, Unconflicted stateSets key eventId ↔ state.get? key = some eventId := by
    intro key eventId
    obtain ⟨stateSet, hstateSet⟩ := List.exists_mem_of_ne_nil _ hne
    exact ⟨fun h => (hagree _ hstateSet key).symm.trans (h.2 _ hstateSet),
      fun h => ⟨hne, fun s hs => (hagree s hs key).trans h⟩⟩
  have hnil : (seperate r.orders.keys stateSets).conflictedState.items = [] := by
    rw [List.eq_nil_iff_forall_not_mem]
    rintro ⟨key, ids⟩ hitem
    have hget := get?_eq_some_iff.mpr hitem
    rw [seperate, (foldl_add _ _ _ _).2] at hget
    split at hget
    · next h =>
        obtain ⟨stateSet, hstateSet, eventId, hid⟩ := mem_list_keys.mp h.1
        have hagreed := agreedId_eq_some_iff.mpr ((hall key eventId).mpr ((hagree _ hstateSet key).symm.trans hid))
        exact nomatch h.2.symm.trans hagreed
    · cases hget
  refine ⟨(seperate r.orders.keys stateSets).unconflictedState, ?_, fun key => Option.ext fun eventId => ?_⟩
  · simp only [resolveEventsWithStore, hnil, if_true]
    exact returns_pure _
  · exact get?_unconflictedState.trans (hall key eventId)

theorem resolve_of_agreeing_created : ∃ result : StateMap String,
    Run.Returns (resolveEventsWithStore exampleResolver (.replicate 2 (empty.set createKey "$create")) none)
      (.ok (result, empty)) ∧ result.Agrees (empty.set createKey "$create") :=
  resolve_of_agreeing exampleResolver (by simp) (fun _ h _ => List.eq_of_mem_replicate h ▸ rfl) none

end Setka.State
