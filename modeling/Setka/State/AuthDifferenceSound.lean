/-
# Setka.State.AuthDifferenceSound — in-flight events are transparent.

The auth graph is split into persisted events, which the store knows and which only refer to
persisted events, and events in flight. Whatever the split, the auth chain difference and the
conflicted subgraph come out as their plain definitions on the whole graph.
-/
import Setka.Lib.Reach
import Setka.State.AuthDifference

namespace Setka.State

open Relation Setka.Api Setka.Events Setka.Lib Dict
open Finset (mem_coe mem_union mem_filter mem_biUnion mem_insert mem_sdiff mem_inter)

/-! ## §1 The split graph and the store -/

/-- The ids that are not in flight. -/
def persisted (unpersistedEvents : Dict String EventBase) : Set String :=
  {e | unpersistedEvents.get? e = none}

/-- `auth e a` says that `a` is an auth event of `e`. The graph is acyclic, an event in flight is
stored under its id and lists its auth events, and persisted events refer to persisted ones. -/
structure Split (auth : String → String → Prop) (unpersistedEvents : Dict String EventBase) : Prop where
  acyclic : Acyclic auth
  eventId : ∀ e event, unpersistedEvents.get? e = some event → event.eventId = e
  authEventIds : ∀ e event, unpersistedEvents.get? e = some event → ∀ a, auth e a ↔ a ∈ event.authEventIds
  closed : ∀ e a, e ∈ persisted unpersistedEvents → auth e a → a ∈ persisted unpersistedEvents

/-- The auth chains of a list of start sets that are in some but not in all of them. -/
def chainDifference (auth : String → String → Prop) (starts : List (Set String)) : Set String :=
  {x | (∃ s ∈ starts, x ∈ reachedFrom auth s) ∧ ¬ ∀ s ∈ starts, x ∈ reachedFrom auth s}

variable {x : String}

theorem mem_chainDifference {auth : String → String → Prop}
    {starts : List (Set String)} : x ∈ chainDifference auth starts ↔
      (∃ s ∈ starts, x ∈ reachedFrom auth s) ∧ ¬ ∀ s ∈ starts, x ∈ reachedFrom auth s :=
  Iff.rfl

/-- The event ids of a state set. -/
def stateIds (stateSet : StateMap String) : Set String := {e | e ∈ stateSet.values}

/-- The plain definition of the conflicted subgraph: what lies on an auth path between two conflicted
events. -/
def conflictedSubgraph (auth : String → String → Prop) (conflicted : Set String) : Set String :=
  {x | (∃ c ∈ conflicted, ReflTransGen auth c x) ∧ ∃ c ∈ conflicted, ReflTransGen auth x c}

/-- What the store answers about persisted events. -/
structure StoreDifference (auth : String → String → Prop)
    (unpersistedEvents : Dict String EventBase) (store : ChainDifferenceStore) : Prop where
  authDifference : ∀ roomId (sets : List (Finset String)) conflicted additional,
    (∀ s ∈ sets, (s : Set String) ⊆ persisted unpersistedEvents) →
      ((store.getAuthChainDifference roomId sets conflicted additional).authDifference :
        Set String) = chainDifference auth (sets.map fun s : Finset String => (s : Set String))
  noSubgraph : ∀ roomId sets additional subgraph,
    (store.getAuthChainDifference roomId sets none additional).conflictedSubgraph = some subgraph → subgraph = ∅

/-- What the store answers about the conflicted subgraph: the events reached backwards from a
conflicted or an additional event and forwards from a conflicted one. -/
def StoreSubgraph (auth : String → String → Prop) (unpersistedEvents : Dict String EventBase)
    (store : ChainDifferenceStore) : Prop :=
  ∀ roomId sets (conflicted additional : Finset String), (conflicted : Set String) ⊆ persisted unpersistedEvents →
    (additional : Set String) ⊆ persisted unpersistedEvents →
      ∃ subgraph, (store.getAuthChainDifference roomId sets (some conflicted)
          additional).conflictedSubgraph = some subgraph ∧
        ∀ x, x ∈ subgraph ↔ (∃ c, (c ∈ conflicted ∨ c ∈ additional) ∧ ReflTransGen auth c x) ∧
          ∃ c ∈ conflicted, ReflTransGen auth x c

variable {auth : String → String → Prop} {unpersistedEvents : Dict String EventBase}

/-! ## §2 The chains of the events in flight -/

section Visit

variable (nextEvent : EventBase) (ids : List String) (s : ChainSearch)

theorem foldl_visit_chain : (ids.foldl (ChainSearch.visit unpersistedEvents nextEvent) s).chain =
      s.chain ∪ ids.toFinset := by
  induction ids generalizing s with
  | nil => simp
  | cons a ids ih =>
    rw [List.foldl_cons, ih]
    show insert a s.chain ∪ ids.toFinset = _
    rw [List.toFinset_cons, Finset.insert_union, Finset.union_insert]

theorem foldl_visit_toSearch : (ids.foldl (ChainSearch.visit unpersistedEvents nextEvent) s).toSearch =
      (ids.filterMap unpersistedEvents.get?).reverse ++ s.toSearch := by
  induction ids generalizing s with
  | nil => rfl
  | cons a ids ih =>
    rw [List.foldl_cons, ih]
    cases ha : unpersistedEvents.get? a with
    | none => simp [ChainSearch.visit, ha]
    | some event => simp [ChainSearch.visit, ha]

theorem foldl_visit_next {a n : String} :
    n ∈ (ids.foldl (ChainSearch.visit unpersistedEvents nextEvent) s).eventToNextEvent.getD a ∅ ↔
      n ∈ s.eventToNextEvent.getD a ∅ ∨ (n = nextEvent.eventId ∧ a ∈ ids) := by
  induction ids generalizing s with
  | nil => simp
  | cons b ids ih =>
    rw [List.foldl_cons, ih]
    by_cases hab : a = b
    · subst hab
      simp only [ChainSearch.visit, Dict.getD, get?_set, if_pos, Option.getD_some,
        mem_insert, List.mem_cons, true_or, and_true]
      tauto
    · simp only [ChainSearch.visit, Dict.getD, get?_set, List.mem_cons, hab, if_false, false_or]

end Visit

/-- Forward links lead from an id to the events in flight that have it as an auth event. -/
def LinksSound (auth : String → String → Prop) (unpersistedEvents : Dict String EventBase)
    (eventToNextEvent : Dict String (Finset String)) : Prop :=
  ∀ a n, n ∈ eventToNextEvent.getD a ∅ → Outside auth (persisted unpersistedEvents) n a

/-- All auth events of `e` link to `e`. -/
def Linked (auth : String → String → Prop) (eventToNextEvent : Dict String (Finset String)) (e : String) : Prop :=
  ∀ a, auth e a → e ∈ eventToNextEvent.getD a ∅

/-- The invariant of the traversal that starts at `event` with the links `next`. -/
structure SearchInv (auth : String → String → Prop) (unpersistedEvents : Dict String EventBase)
    (event : EventBase) (next : Dict String (Finset String)) (s : ChainSearch) : Prop where
  explored : Explored (Outside auth (persisted unpersistedEvents)) {event.eventId}
    {e | ∃ ev ∈ s.toSearch, ev.eventId = e} s.chain
  inFlight : ∀ ev ∈ s.toSearch, unpersistedEvents.get? ev.eventId = some ev
  seen : ∀ ev ∈ s.toSearch, ev.eventId ∈ s.chain
  sound : LinksSound auth unpersistedEvents s.eventToNextEvent
  kept : ∀ a n, n ∈ next.getD a ∅ → n ∈ s.eventToNextEvent.getD a ∅
  linked : event ∈ s.toSearch ∨ Linked auth s.eventToNextEvent event.eventId

variable {event : EventBase} {next : Dict String (Finset String)}

theorem SearchInv.visit (hsplit : Split auth unpersistedEvents) {nextEvent : EventBase} {s : ChainSearch}
    {toSearch : List EventBase} (h : SearchInv auth unpersistedEvents event next s)
    (hs : s.toSearch = nextEvent :: toSearch) : SearchInv auth unpersistedEvents event next
      (nextEvent.authEventIds.foldl (ChainSearch.visit unpersistedEvents nextEvent) { s with toSearch }) := by
  have hmem : nextEvent ∈ s.toSearch := by simp [hs]
  have hget := h.inFlight nextEvent hmem
  have hout : nextEvent.eventId ∉ persisted unpersistedEvents := by
    intro hp
    rw [show unpersistedEvents.get? nextEvent.eventId = none from hp] at hget
    exact absurd hget (by simp)
  have hauth := hsplit.authEventIds _ _ hget
  have hpushed : ∀ ev, ev ∈ (nextEvent.authEventIds.filterMap unpersistedEvents.get?).reverse →
      unpersistedEvents.get? ev.eventId = some ev ∧ ev.eventId ∈ nextEvent.authEventIds := by
    intro ev hev
    obtain ⟨a, ha, hev⟩ := List.mem_filterMap.mp (List.mem_reverse.mp hev)
    rw [hsplit.eventId _ _ hev]
    exact ⟨hev, ha⟩
  refine ⟨?_, fun ev hev => ?_, fun ev hev => ?_, fun a n hn => ?_, fun a n hn => ?_, ?_⟩
  · refine h.explored.expand (x := nextEvent.eventId) (h.seen _ hmem) (fun z => ?_) (fun z hz => ?_) fun z hz => ?_
    · rw [foldl_visit_chain, mem_coe, mem_union, List.mem_toFinset]
      show z ∈ s.chain ∨ _ ↔ z ∈ s.chain ∨ _
      rw [Outside, hauth]
      tauto
    · obtain ⟨ev, hev, rfl⟩ := hz
      rw [hs] at hev
      rcases List.mem_cons.mp hev with rfl | hev
      · exact Or.inl rfl
      refine Or.inr ⟨ev, ?_, rfl⟩
      rw [foldl_visit_toSearch]
      exact List.mem_append_right _ hev
    · cases hz' : unpersistedEvents.get? z with
      | none => exact Or.inr (Or.inr fun y hy => hy.1 hz')
      | some ev =>
        refine Or.inl ⟨ev, ?_, hsplit.eventId _ _ hz'⟩
        rw [foldl_visit_toSearch]
        refine List.mem_append_left _ (List.mem_reverse.mpr (List.mem_filterMap.mpr ⟨z, ?_, hz'⟩))
        exact (hauth z).mp hz.2
  · rw [foldl_visit_toSearch] at hev
    rcases List.mem_append.mp hev with hev | hev
    · exact (hpushed ev hev).1
    · exact h.inFlight ev (hs ▸ List.mem_cons_of_mem _ hev)
  · rw [foldl_visit_toSearch] at hev
    rw [foldl_visit_chain, mem_union, List.mem_toFinset]
    rcases List.mem_append.mp hev with hev | hev
    · exact Or.inr (hpushed ev hev).2
    · exact Or.inl (h.seen ev (hs ▸ List.mem_cons_of_mem _ hev))
  · rcases (foldl_visit_next nextEvent _ _).mp hn with hn | ⟨rfl, ha⟩
    · exact h.sound a n hn
    · exact ⟨hout, (hauth a).mpr ha⟩
  · exact (foldl_visit_next nextEvent _ _).mpr (Or.inl (h.kept a n hn))
  · rcases h.linked with hl | hl
    · rw [hs] at hl
      rcases List.mem_cons.mp hl with rfl | hl
      · refine Or.inr fun a ha => (foldl_visit_next event _ _).mpr (Or.inr ⟨rfl, (hauth a).mp ha⟩)
      refine Or.inl ?_
      rw [foldl_visit_toSearch]
      exact List.mem_append_right _ hl
    · exact Or.inr fun a ha => (foldl_visit_next nextEvent _ _).mpr (Or.inl (hl a ha))

/-- The traversal terminates because each turn trades an event for auth events of it. -/
theorem searchChain_yields (hsplit : Split auth unpersistedEvents)
    (hev : unpersistedEvents.get? event.eventId = some event) (hnext : LinksSound auth unpersistedEvents next) :
    Run.Yields (Run.loop (ChainSearch.turn unpersistedEvents) ⟨{event.eventId}, next, [event]⟩)
      fun s => (s.chain : Set String) = reachedFrom (Outside auth (persisted unpersistedEvents)) {event.eventId} ∧
        LinksSound auth unpersistedEvents s.eventToNextEvent ∧
        (∀ a n, n ∈ next.getD a ∅ → n ∈ s.eventToNextEvent.getD a ∅) ∧
        Linked auth s.eventToNextEvent event.eventId := by
  have hwf := wellFounded_workList (hsplit.acyclic.swap.wellFounded_from unpersistedEvents.keys.toFinset)
  refine Run.Yields.loop (I := SearchInv auth unpersistedEvents event next)
    (InvImage.wf (fun s : ChainSearch => s.toSearch.map EventBase.eventId) hwf)
    (fun s hs => ?_) ?_
  · unfold ChainSearch.turn
    cases htodo : s.toSearch with
    | nil =>
      refine Run.Yields.pure ⟨fun _ => ?_, fun s' hs' => absurd hs' (by simp)⟩
      refine ⟨hs.explored.done fun x hx => ?_, hs.sound, hs.kept, ?_⟩
      · obtain ⟨ev, hev, -⟩ := hx
        simp [htodo] at hev
      · exact hs.linked.resolve_left (by simp [htodo])
    | cons nextEvent toSearch =>
      refine Run.Yields.pure ⟨fun h => absurd h (by simp), fun s' hs' => ?_⟩
      obtain rfl := Option.some.inj hs'
      have hget := hs.inFlight nextEvent (by simp [htodo])
      refine ⟨hs.visit hsplit htodo, ?_⟩
      show CutExpand _ _ _
      dsimp only
      rw [foldl_visit_toSearch, htodo, List.map_append, List.map_cons]
      refine cutExpand_cons fun y hy => ?_
      obtain ⟨ev, hev, rfl⟩ := List.mem_map.mp hy
      obtain ⟨a, ha, hev⟩ := List.mem_filterMap.mp (List.mem_reverse.mp hev)
      rw [hsplit.eventId _ _ hev]
      exact ⟨List.mem_toFinset.mpr (mem_keys_iff.mpr ⟨nextEvent, hget⟩),
        (hsplit.authEventIds _ _ hget a).mpr ha⟩
  · refine ⟨?_, by simpa using hev, by simp, hnext, fun _ _ => id, Or.inl (by simp)⟩
    have hstart : {e | ∃ ev ∈ [event], ev.eventId = e} = ({event.eventId} : Set String) := by
      ext e
      simp [eq_comm]
    rw [hstart, Finset.coe_singleton]
    exact Explored.init _ _

/-- What `events_to_auth_chain` and `event_to_next_event` hold once every event in flight has been
traversed. -/
structure Chains.Ok (auth : String → String → Prop) (unpersistedEvents : Dict String EventBase)
    (c : Chains) : Prop where
  get?_eq_none : ∀ e, c.eventsToAuthChain.get? e = none ↔ e ∈ persisted unpersistedEvents
  chain : ∀ e chain, c.eventsToAuthChain.get? e = some chain →
    (chain : Set String) = reachedFrom (Outside auth (persisted unpersistedEvents)) {e}
  next : ∀ a n, n ∈ c.eventToNextEvent.getD a ∅ ↔
    Outside auth (persisted unpersistedEvents) n a

/-- The same for the events traversed so far. -/
structure Chains.Partial (auth : String → String → Prop)
    (unpersistedEvents : Dict String EventBase) (done : List EventBase) (c : Chains) : Prop where
  get? : ∀ e, (∃ chain, c.eventsToAuthChain.get? e = some chain) ↔ ∃ ev ∈ done, ev.eventId = e
  chain : ∀ e chain, c.eventsToAuthChain.get? e = some chain →
    (chain : Set String) = reachedFrom (Outside auth (persisted unpersistedEvents)) {e}
  sound : LinksSound auth unpersistedEvents c.eventToNextEvent
  linked : ∀ ev ∈ done, Linked auth c.eventToNextEvent ev.eventId

theorem Chains.add_yields (hsplit : Split auth unpersistedEvents) {done : List EventBase} {c : Chains}
    (hev : unpersistedEvents.get? event.eventId = some event) (h : c.Partial auth unpersistedEvents done) :
    Run.Yields (c.add unpersistedEvents event) (Chains.Partial auth unpersistedEvents (done ++ [event])) := by
  refine (searchChain_yields hsplit hev h.sound).bind fun s hs => Run.Yields.pure ?_
  obtain ⟨hchain, hsound, hkept, hlinked⟩ := hs
  refine ⟨fun e => ?_, fun e chain he => ?_, hsound, fun ev hm => ?_⟩
  · simp only [get?_set, List.mem_append, List.mem_singleton]
    by_cases he : e = event.eventId
    · exact ⟨fun _ => ⟨event, Or.inr rfl, he.symm⟩, fun _ => ⟨s.chain, if_pos he⟩⟩
    rw [if_neg he, h.get? e]
    constructor
    · rintro ⟨ev, hm, rfl⟩
      exact ⟨ev, Or.inl hm, rfl⟩
    rintro ⟨ev, hm | rfl, rfl⟩
    · exact ⟨ev, hm, rfl⟩
    · exact absurd rfl he
  · rcases of_get?_set he with ⟨heq, rfl⟩ | ⟨-, he⟩
    · rw [hchain, heq]
    · exact h.chain e chain he
  · rcases List.mem_append.mp hm with hm | hm
    · exact fun a ha => hkept a _ (h.linked ev hm a ha)
    · rw [List.mem_singleton.mp hm]
      exact hlinked

theorem Chains.build_yields (hsplit : Split auth unpersistedEvents) :
    Run.Yields (Chains.build unpersistedEvents) (Chains.Ok auth unpersistedEvents) := by
  have hvalues : ∀ ev, ev ∈ unpersistedEvents.values ↔
      unpersistedEvents.get? ev.eventId = some ev := by
    intro ev
    rw [mem_values_iff]
    constructor
    · rintro ⟨e, he⟩
      rw [hsplit.eventId _ _ he]
      exact he
    · exact fun he => ⟨_, he⟩
  refine Run.Yields.mono (Run.Yields.foldlM (I := Chains.Partial auth unpersistedEvents)
    unpersistedEvents.values (fun done event rest c hl hc => ?_) ?_) fun c hc => ?_
  · refine Chains.add_yields hsplit ((hvalues event).mp ?_) hc
    rw [hl]
    exact List.mem_append_right _ List.mem_cons_self
  · have hempty : ∀ e : String, (∅ : Dict String (Finset String)).get? e = none := fun _ => rfl
    exact ⟨fun e => by simp [hempty], fun e chain he => by simp [hempty] at he,
      fun a n hn => by simp [Dict.getD, hempty] at hn, by simp⟩
  · refine ⟨fun e => ?_, hc.chain, fun a n => ⟨hc.sound a n, fun hn => ?_⟩⟩
    · rw [← not_iff_not, ← ne_eq, Option.ne_none_iff_exists', hc.get? e]
      show _ ↔ ¬ unpersistedEvents.get? e = none
      rw [← ne_eq, Option.ne_none_iff_exists']
      constructor
      · rintro ⟨ev, hev, rfl⟩
        exact ⟨ev, (hvalues ev).mp hev⟩
      · rintro ⟨ev, hev⟩
        refine ⟨ev, mem_values_iff.mpr ⟨e, hev⟩, hsplit.eventId _ _ hev⟩
    · obtain ⟨ev, hev⟩ := Option.ne_none_iff_exists'.mp hn.1
      have hid := hsplit.eventId _ _ hev
      have hmem : ev ∈ unpersistedEvents.values := mem_values_iff.mpr ⟨n, hev⟩
      have hlinked := hc.linked ev hmem a
      rw [hid] at hlinked
      exact hlinked hn.2

/-! ## §3 What the store is asked -/

theorem mem_persistedPart {chain : Finset String} :
    x ∈ persistedPart unpersistedEvents chain ↔ x ∈ chain ∧ x ∈ persisted unpersistedEvents :=
  mem_filter

theorem mem_unpersistedPart {chain : Finset String} :
    x ∈ unpersistedPart unpersistedEvents chain ↔ x ∈ chain ∧ x ∉ persisted unpersistedEvents :=
  mem_filter

section Question

variable {c : Chains} (hc : c.Ok auth unpersistedEvents)

include hc

theorem Chains.Ok.getD_chain {e : String} (he : e ∉ persisted unpersistedEvents) :
    ((c.eventsToAuthChain.getD e ∅ : Finset String) : Set String) =
      reachedFrom (Outside auth (persisted unpersistedEvents)) {e} := by
  cases hget : c.eventsToAuthChain.get? e with
  | none => exact absurd ((hc.get?_eq_none e).mp hget) he
  | some chain => rw [getD_of_get? hget, hc.chain e chain hget]

/-- One event adds what it reaches along the steps that start in flight. -/
theorem Chains.Ok.mem_splitEvent (ids : Finset String × Finset String) (e x : String) :
    (x ∈ (splitEvent unpersistedEvents c.eventsToAuthChain ids e).1 ↔ x ∈ ids.1 ∨
      ReflTransGen (Outside auth (persisted unpersistedEvents)) e x ∧
        x ∈ persisted unpersistedEvents) ∧
    (x ∈ (splitEvent unpersistedEvents c.eventsToAuthChain ids e).2 ↔ x ∈ ids.2 ∨
      ReflTransGen (Outside auth (persisted unpersistedEvents)) e x ∧
        x ∉ persisted unpersistedEvents) := by
  unfold splitEvent
  cases hget : c.eventsToAuthChain.get? e with
  | some chain =>
    have hchain : x ∈ chain ↔
        ReflTransGen (Outside auth (persisted unpersistedEvents)) e x := by
      rw [← mem_coe, hc.chain e chain hget, mem_reachedFrom]
      simp
    simp only [mem_union, mem_persistedPart, mem_unpersistedPart, hchain, and_self]
  | none =>
    -- a persisted event has no step that starts in flight, so it reaches itself only
    have he := (hc.get?_eq_none e).mp hget
    have hself : ReflTransGen (Outside auth (persisted unpersistedEvents)) e x ↔ x = e := by
      constructor
      · intro hx
        rcases hx.cases_head with rfl | ⟨b, hb, -⟩
        · rfl
        · exact absurd he hb.1
      · rintro rfl
        exact .refl
    rw [hself]
    constructor
    · rw [mem_insert]
      constructor
      · rintro (rfl | hx)
        · exact Or.inr ⟨rfl, he⟩
        · exact Or.inl hx
      rintro (hx | ⟨rfl, -⟩)
      · exact Or.inr hx
      · exact Or.inl rfl
    · constructor
      · exact Or.inl
      · rintro (hx | ⟨rfl, hx⟩)
        · exact hx
        · exact absurd he hx

theorem Chains.Ok.mem_foldl_splitEvent (events : List String) (ids : Finset String × Finset String) (x : String) :
    (x ∈ (events.foldl (splitEvent unpersistedEvents c.eventsToAuthChain) ids).1 ↔ x ∈ ids.1 ∨
      x ∈ reachedFrom (Outside auth (persisted unpersistedEvents)) {e | e ∈ events} ∧
        x ∈ persisted unpersistedEvents) ∧
    (x ∈ (events.foldl (splitEvent unpersistedEvents c.eventsToAuthChain) ids).2 ↔ x ∈ ids.2 ∨
      x ∈ reachedFrom (Outside auth (persisted unpersistedEvents)) {e | e ∈ events} ∧
        x ∉ persisted unpersistedEvents) := by
  induction events generalizing ids with
  | nil => simp [reachedFrom]
  | cons e events ih =>
    have hcons : x ∈ reachedFrom (Outside auth (persisted unpersistedEvents))
        {a | a ∈ e :: events} ↔ ReflTransGen (Outside auth (persisted unpersistedEvents)) e x ∨
          x ∈ reachedFrom (Outside auth (persisted unpersistedEvents)) {a | a ∈ events} := by
      simp [reachedFrom]
    rw [List.foldl_cons, (ih _).1, (ih _).2, (hc.mem_splitEvent ids e x).1,
      (hc.mem_splitEvent ids e x).2, hcons, or_and_right, or_and_right, or_assoc, or_assoc]
    exact ⟨Iff.rfl, Iff.rfl⟩

/-- A state set falls into its persisted part and its part in flight. -/
theorem Chains.Ok.mem_splitStateSet (stateSet : StateMap String) (x : String) :
    (x ∈ (splitStateSet unpersistedEvents c.eventsToAuthChain stateSet).1 ↔
      x ∈ reachedFrom (Outside auth (persisted unpersistedEvents)) (stateIds stateSet) ∧
        x ∈ persisted unpersistedEvents) ∧
    (x ∈ (splitStateSet unpersistedEvents c.eventsToAuthChain stateSet).2 ↔
      x ∈ reachedFrom (Outside auth (persisted unpersistedEvents)) (stateIds stateSet) ∧
        x ∉ persisted unpersistedEvents) := by
  obtain ⟨h1, h2⟩ := hc.mem_foldl_splitEvent stateSet.values (∅, ∅) x
  exact ⟨h1.trans (by simp [stateIds]), h2.trans (by simp [stateIds])⟩

end Question

theorem mem_foldl_union (sets : List (Finset String)) (s : Finset String) (x : String) :
    x ∈ sets.foldl (· ∪ ·) s ↔ ∃ t ∈ s :: sets, x ∈ t := by
  induction sets generalizing s with
  | nil => simp
  | cons t sets ih => simp [ih, or_assoc]

theorem mem_foldl_inter (sets : List (Finset String)) (s : Finset String) (x : String) :
    x ∈ sets.foldl (· ∩ ·) s ↔ ∀ t ∈ s :: sets, x ∈ t := by
  induction sets generalizing s with
  | nil => simp
  | cons t sets ih => simp [ih, and_assoc]

theorem unionMinusIntersection_yields {sets : List (Finset String)} (h : sets ≠ []) :
    Run.Yields (unionMinusIntersection sets) fun d =>
      ∀ x, x ∈ d ↔ (∃ s ∈ sets, x ∈ s) ∧ ¬ ∀ s ∈ sets, x ∈ s := by
  cases sets with
  | nil => exact absurd rfl h
  | cons s sets =>
    apply Run.Yields.pure
    intro x
    rw [mem_sdiff, mem_foldl_union, mem_foldl_inter]

/-- What `question` computes, in terms of the graph. -/
structure Question.Ok (auth : String → String → Prop) (unpersistedEvents : Dict String EventBase)
    (stateSets : List (StateMap String)) (conflictedState : Finset String) (q : Question) :
    Prop where
  stateSetsIds : q.stateSetsIds.map (fun s : Finset String => (s : Set String)) = stateSets.map fun stateSet =>
    reachedFrom (Outside auth (persisted unpersistedEvents)) (stateIds stateSet) ∩ persisted unpersistedEvents
  unpersistedDifference : ∀ x, x ∈ q.unpersistedDifference ↔ x ∉ persisted unpersistedEvents ∧
    x ∈ chainDifference auth (stateSets.map stateIds)
  unpersistedConflicted : ∀ x, x ∈ q.unpersistedConflictedEvents ↔ x ∈ conflictedState ∧
    x ∉ persisted unpersistedEvents
  additional : ∀ x, x ∈ q.additionalBackwardsReachable ↔
    (∃ c ∈ q.unpersistedConflictedEvents, ReflTransGen (Outside auth (persisted unpersistedEvents)) c x) ∧
        x ∈ persisted unpersistedEvents

theorem question_yields (hsplit : Split auth unpersistedEvents) {c : Chains}
    (hc : c.Ok auth unpersistedEvents) {stateSets : List (StateMap String)} (hne : stateSets ≠ [])
    (conflictedState : Finset String) :
    Run.Yields (question unpersistedEvents c.eventsToAuthChain stateSets conflictedState)
      (Question.Ok auth unpersistedEvents stateSets conflictedState) := by
  unfold question
  split
  · -- nothing is in flight
    rename_i hempty
    have hall : ∀ x, x ∈ persisted unpersistedEvents := by
      intro x
      show unpersistedEvents.items.lookup x = none
      rw [hempty]
      rfl
    apply Run.Yields.pure
    refine ⟨?_, fun x => ?_, fun x => ?_, fun x => by simp⟩
    · rw [List.map_map]
      refine List.map_congr_left fun stateSet _ => ?_
      ext x
      rw [Function.comp_apply, List.coe_toFinset]
      constructor
      · exact fun hx => ⟨subset_reachedFrom _ hx, hall x⟩
      rintro ⟨⟨e, he, hex⟩, -⟩
      rcases hex.cases_head with rfl | ⟨b, hb, -⟩
      · exact he
      · exact absurd (hall e) hb.1
    · simp [hall x]
    · simp [hall x]
  · have hne' : stateSets.map (fun stateSet =>
        (splitStateSet unpersistedEvents c.eventsToAuthChain stateSet).2) ≠ [] := by
      simpa using hne
    refine Run.Yields.bind (P := fun d => ∀ x, x ∈ d ↔ x ∉ persisted unpersistedEvents ∧
      x ∈ chainDifference auth (stateSets.map stateIds)) ?_ fun d hd => ?_
    · rw [List.map_map]
      refine (unionMinusIntersection_yields hne').mono fun d hd x => ?_
      -- the parts in flight are the auth chains of the state sets, outside of what is persisted
      have hpart : ∀ stateSet : StateMap String,
          x ∈ (splitStateSet unpersistedEvents c.eventsToAuthChain stateSet).2 ↔
            x ∈ reachedFrom auth (stateIds stateSet) ∧ x ∉ persisted unpersistedEvents := by
        intro stateSet
        rw [(hc.mem_splitStateSet stateSet x).2]
        apply and_congr_left
        intro hx
        exact (mem_reachedFrom_of_notMem hsplit.closed hx).symm
      rw [hd, mem_chainDifference]
      simp only [List.mem_map, exists_exists_and_eq_and, forall_exists_index, and_imp,
        forall_apply_eq_imp_iff₂, hpart]
      constructor
      · rintro ⟨⟨s, hs, hx, hxp⟩, hnot⟩
        exact ⟨hxp, ⟨s, hs, hx⟩, fun hall => hnot fun t ht => ⟨hall t ht, hxp⟩⟩
      · rintro ⟨hxp, ⟨s, hs, hx⟩, hnot⟩
        exact ⟨⟨s, hs, hx, hxp⟩, fun hall => hnot fun t ht => (hall t ht).1⟩
    · apply Run.Yields.pure
      have hnone : ∀ x, c.eventsToAuthChain.get? x ≠ none ↔ x ∉ persisted unpersistedEvents :=
        fun x => not_congr (hc.get?_eq_none x)
      refine ⟨?_, hd, fun x => ?_, fun x => ?_⟩
      · rw [List.map_map, List.map_map]
        refine List.map_congr_left fun stateSet _ => ?_
        ext x
        exact (hc.mem_splitStateSet stateSet x).1
      · show x ∈ Finset.filter _ _ ↔ _
        rw [mem_filter, hnone]
      · show x ∈ Finset.biUnion _ _ ↔ _
        simp only [mem_biUnion, mem_persistedPart]
        rw [← exists_and_right]
        refine exists_congr fun e => ?_
        rw [and_assoc]
        apply and_congr_right
        intro he
        apply and_congr_left'
        rw [← mem_coe, hc.getD_chain ((hnone e).mp (Finset.mem_filter.mp he).2), mem_reachedFrom]
        simp

/-! ## §4 The subgraph in memory -/

theorem mem_keys_of_outside {n a : String} (h : Outside auth (persisted unpersistedEvents) n a) :
    n ∈ unpersistedEvents.keys.toFinset ∧ auth n a := by
  refine ⟨List.mem_toFinset.mpr ?_, h.2⟩
  by_contra hn
  exact h.1 (get?_eq_none_iff.mpr hn)

/-- The forward search finds the events from which the frontier is reached along events in flight.
It terminates because each turn trades an event for events that have it as an auth event. -/
theorem forward_yields (hsplit : Split auth unpersistedEvents) (order : IterOrder String)
    (hnext : ∀ a n, n ∈ next.getD a ∅ ↔ Outside auth (persisted unpersistedEvents) n a)
    (frontier : Finset String) : Run.Yields (Run.loop (forwardTurn order next) (frontier, ∅)) fun s =>
      ∀ x, x ∈ s.2 ↔ ∃ f ∈ frontier, ReflTransGen (Outside auth (persisted unpersistedEvents)) x f := by
  have hwf := (hsplit.acyclic.wellFounded_into unpersistedEvents.keys.toFinset).cutExpand
  refine Run.Yields.loop (I := fun s : Finset String × Finset String =>
      Explored (Function.swap (Outside auth (persisted unpersistedEvents))) frontier s.1
        ((s.1 ∪ s.2 : Finset String) : Set String))
    (InvImage.wf (fun s : Finset String × Finset String => s.1.val) hwf) (fun s hs => ?_) ?_
  · unfold forwardTurn
    cases hlist : order.list s.1 with
    | nil =>
      refine Run.Yields.pure ⟨fun _ x => ?_, fun s' hs' => absurd hs' (by simp)⟩
      have hempty := order.list_eq_nil_iff.mp hlist
      have hdone := hs.done fun x hx => by simp [hempty] at hx
      rw [hempty, Finset.empty_union] at hdone
      rw [← mem_coe, hdone, mem_reachedFrom]
      simp only [reflTransGen_swap, mem_coe]
    | cons frontierEvent rest =>
      refine Run.Yields.pure ⟨fun h => absurd h (by simp), fun s' hs' => ?_⟩
      obtain rfl := Option.some.inj hs'
      have hmem : frontierEvent ∈ s.1 := by
        rw [← order.mem_list, hlist]
        exact List.mem_cons_self
      constructor
      · refine hs.expand (x := frontierEvent) (by simp [hmem]) (fun z => ?_) (fun z hz => ?_) fun z hz => ?_
        · simp only [Finset.coe_union, Finset.coe_insert, Finset.coe_erase, Set.mem_union,
            mem_coe, Set.mem_insert_iff, Set.mem_sdiff, Set.mem_singleton_iff, hnext]
          show _ ↔ _ ∨ Outside _ _ z frontierEvent
          by_cases hz : z = frontierEvent
          · subst hz
            simp [hmem]
          · simp only [hz, not_false_eq_true, and_true, false_or]
            tauto
        · by_cases hzf : z = frontierEvent
          · exact Or.inl hzf
          · refine Or.inr (Finset.mem_coe.mpr (Finset.mem_union_left _ ?_))
            exact Finset.mem_erase.mpr ⟨hzf, hz⟩
        · exact Or.inl (Finset.mem_coe.mpr (Finset.mem_union_right _ ((hnext _ _).mpr hz)))
      · exact cutExpand_finset hmem fun n hn =>
          mem_keys_of_outside ((hnext frontierEvent n).mp hn)
  · rw [Finset.union_empty]
    exact Explored.init _ _

section Subgraph

variable {stateSets : List (StateMap String)} {conflictedState subgraph : Finset String}
  {q : Question} (hq : q.Ok auth unpersistedEvents stateSets conflictedState)
  (hsub : ∀ x, x ∈ subgraph ↔
    (∃ a, (a ∈ conflictedState \ q.unpersistedConflictedEvents ∨
      a ∈ q.additionalBackwardsReachable) ∧ ReflTransGen auth a x) ∧
    ∃ a ∈ conflictedState \ q.unpersistedConflictedEvents, ReflTransGen auth x a)

include hq

theorem Question.Ok.mem_persistedConflicted {a : String} : a ∈ conflictedState \ q.unpersistedConflictedEvents ↔
      a ∈ conflictedState ∧ a ∈ persisted unpersistedEvents := by
  rw [mem_sdiff, hq.unpersistedConflicted]
  tauto

include hsub

/-- The store finds the persisted part of the subgraph: a path that comes from an event in flight
enters what is persisted at an additional event. -/
theorem mem_storeSubgraph (hsplit : Split auth unpersistedEvents) (y : String) : y ∈ subgraph ↔
      y ∈ persisted unpersistedEvents ∧ y ∈ conflictedSubgraph auth conflictedState := by
  rw [hsub]
  constructor
  · rintro ⟨⟨a, ha, hay⟩, b, hb, hyb⟩
    have hb' := hq.mem_persistedConflicted.mp hb
    rcases ha with ha | ha
    · have ha' := hq.mem_persistedConflicted.mp ha
      exact ⟨mem_of_reflTransGen_closed hsplit.closed ha'.2 hay, ⟨a, ha'.1, hay⟩, b, hb'.1, hyb⟩
    obtain ⟨⟨d, hd, hda⟩, hap⟩ := (hq.additional a).mp ha
    refine ⟨mem_of_reflTransGen_closed hsplit.closed hap hay, ⟨d, ?_, ?_⟩, b, hb'.1, hyb⟩
    · exact ((hq.unpersistedConflicted d).mp hd).1
    · exact (Outside.reflTransGen hda).trans hay
  · rintro ⟨hyp, ⟨a, ha, hay⟩, b, hb, hyb⟩
    have hbp := mem_of_reflTransGen_closed hsplit.closed hyp hyb
    refine ⟨?_, b, hq.mem_persistedConflicted.mpr ⟨hb, hbp⟩, hyb⟩
    by_cases hap : a ∈ persisted unpersistedEvents
    · exact ⟨a, Or.inl (hq.mem_persistedConflicted.mpr ⟨ha, hap⟩), hay⟩
    obtain ⟨p, hp, hap', hpy⟩ := reflTransGen_enter hsplit.closed hyp hay
    refine ⟨p, Or.inr ((hq.additional p).mpr ⟨⟨a, ?_, hap'⟩, hp⟩), hpy⟩
    exact (hq.unpersistedConflicted a).mpr ⟨ha, hap⟩

/-- **The subgraph in memory completes the one of the store.** -/
theorem extendSubgraph_yields (hsplit : Split auth unpersistedEvents) (order : IterOrder String)
    {c : Chains} (hc : c.Ok auth unpersistedEvents) :
    Run.Yields (extendSubgraph order c q (conflictedState \ q.unpersistedConflictedEvents) subgraph)
      fun r => ∀ x, x ∈ r ↔ x ∈ conflictedSubgraph auth conflictedState := by
  refine (forward_yields hsplit order hc.next _).bind fun fwd hfwd => Run.Yields.pure fun x => ?_
  have hstore : ∀ y, y ∈ subgraph ∪ (conflictedState \ q.unpersistedConflictedEvents) ↔
      y ∈ persisted unpersistedEvents ∧ y ∈ conflictedSubgraph auth conflictedState := by
    intro y
    rw [mem_union, mem_storeSubgraph hq hsub hsplit, or_iff_left_iff_imp]
    intro hy
    obtain ⟨hyc, hyp⟩ := hq.mem_persistedConflicted.mp hy
    exact ⟨hyp, ⟨y, hyc, .refl⟩, y, hyc, .refl⟩
  have hback : ∀ y, y ∈ (q.unpersistedConflictedEvents.biUnion fun e =>
      c.eventsToAuthChain.getD e ∅) ↔ ∃ a ∈ q.unpersistedConflictedEvents,
        ReflTransGen (Outside auth (persisted unpersistedEvents)) a y := by
    intro y
    rw [mem_biUnion]
    refine exists_congr fun e => and_congr_right fun he => ?_
    have hep := ((hq.unpersistedConflicted e).mp he).2
    rw [← mem_coe, hc.getD_chain hep, mem_reachedFrom]
    simp
  show x ∈ (subgraph ∪ (conflictedState \ q.unpersistedConflictedEvents)) ∪ (_ ∩ fwd.2) ↔ _
  rw [mem_union, hstore, mem_inter, hback, hfwd]
  simp only [mem_union, mem_inter]
  constructor
  · rintro (⟨-, hx⟩ | ⟨⟨a, ha, hax⟩, f, hf, hxf⟩)
    · exact hx
    · refine ⟨⟨a, ((hq.unpersistedConflicted a).mp ha).1, Outside.reflTransGen hax⟩, ?_⟩
      rcases hf with ⟨hf, -⟩ | hf
      · obtain ⟨-, -, b, hb, hfb⟩ := (hstore f).mp (Finset.mem_union.mpr hf)
        exact ⟨b, hb, (Outside.reflTransGen hxf).trans hfb⟩
      · exact ⟨f, ((hq.unpersistedConflicted f).mp hf).1, Outside.reflTransGen hxf⟩
  rintro ⟨⟨a, ha, hax⟩, b, hb, hxb⟩
  by_cases hxp : x ∈ persisted unpersistedEvents
  · exact Or.inl ⟨hxp, ⟨a, ha, hax⟩, b, hb, hxb⟩
  -- `x` is in flight, hence so is everything on the way to it
  have hax' := reflTransGen_outside hsplit.closed hxp hax
  have ha' : a ∈ q.unpersistedConflictedEvents := by
    refine (hq.unpersistedConflicted a).mpr ⟨ha, fun hap => hxp ?_⟩
    exact mem_of_reflTransGen_closed hsplit.closed hap hax
  refine Or.inr ⟨⟨a, ha', hax'⟩, ?_⟩
  by_cases hbp : b ∈ persisted unpersistedEvents
  · obtain ⟨p, hp, hxp', hpb⟩ := reflTransGen_enter hsplit.closed hbp hxb
    refine ⟨p, Or.inl ⟨Finset.mem_union.mp ((hstore p).mpr ⟨hp, ?_⟩), ?_⟩, hxp'⟩
    · exact ⟨⟨a, ha, hax.trans (Outside.reflTransGen hxp')⟩, b, hb, hpb⟩
    · exact (hq.additional p).mpr ⟨⟨a, ha', hax'.trans hxp'⟩, hp⟩
  · exact ⟨b, Or.inr ((hq.unpersistedConflicted b).mpr ⟨hb, hbp⟩), reflTransGen_outside hsplit.closed hbp hxb⟩

end Subgraph

/-! ## §5 The difference -/

/-- **The parts of the difference**: the persisted part is what the store answers, the part in flight
is computed in memory. -/
theorem stateDifference_authDifference (hsplit : Split auth unpersistedEvents)
    {stateSets : List (StateMap String)} {conflictedState : Finset String} {q : Question}
    (hq : q.Ok auth unpersistedEvents stateSets conflictedState) {store : ChainDifferenceStore}
    (hstore : StoreDifference auth unpersistedEvents store) (roomId : String)
    (conflicted : Option (Finset String)) (x : String) :
    x ∈ (store.getAuthChainDifference roomId q.stateSetsIds conflicted
        q.additionalBackwardsReachable).authDifference ∪ q.unpersistedDifference ↔
      x ∈ chainDifference auth (stateSets.map stateIds) := by
  have hids := hq.stateSetsIds
  have hsub : ∀ s ∈ q.stateSetsIds, (s : Set String) ⊆ persisted unpersistedEvents := by
    intro s hs
    have hmem : (s : Set String) ∈ q.stateSetsIds.map fun s : Finset String => (s : Set String) :=
      List.mem_map.mpr ⟨s, hs, rfl⟩
    rw [hids] at hmem
    obtain ⟨stateSet, -, heq⟩ := List.mem_map.mp hmem
    rw [← heq]
    exact Set.inter_subset_right
  rw [mem_union, ← mem_coe, hstore.authDifference _ _ _ _ hsub, hids, hq.unpersistedDifference]
  -- the store's chains are the auth chains of the state sets, inside of what is persisted
  have hchain : ∀ stateSet : StateMap String,
      x ∈ reachedFrom auth (reachedFrom (Outside auth (persisted unpersistedEvents))
        (stateIds stateSet) ∩ persisted unpersistedEvents) ↔
        x ∈ reachedFrom auth (stateIds stateSet) ∧ x ∈ persisted unpersistedEvents := by
    intro stateSet
    constructor
    · intro hx
      have hxp : x ∈ persisted unpersistedEvents := by
        obtain ⟨p, hp, hpx⟩ := hx
        exact mem_of_reflTransGen_closed hsplit.closed hp.2 hpx
      exact ⟨(mem_reachedFrom_of_mem hsplit.closed hxp).mpr hx, hxp⟩
    · rintro ⟨hx, hxp⟩
      exact (mem_reachedFrom_of_mem hsplit.closed hxp).mp hx
  simp only [mem_chainDifference, List.mem_map, exists_exists_and_eq_and,
    forall_exists_index, and_imp, forall_apply_eq_imp_iff₂, hchain]
  by_cases hxp : x ∈ persisted unpersistedEvents
  · simp [hxp]
  · simp [hxp]

variable {store : ChainDifferenceStore} {stateSets : List (StateMap String)}

/-- With conflicted events, both parts come out as defined. -/
theorem stateDifference_yields (hsplit : Split auth unpersistedEvents)
    (hstore : StoreDifference auth unpersistedEvents store)
    (hsubgraph : StoreSubgraph auth unpersistedEvents store) (order : IterOrder String)
    (roomId : String) (hne : stateSets ≠ []) (conflictedState : Finset String) :
    Run.Yields (stateDifference order store roomId stateSets unpersistedEvents (some conflictedState)) fun d =>
      (∀ x, x ∈ d.authDifference ↔ x ∈ chainDifference auth (stateSets.map stateIds)) ∧
        ∃ subgraph, d.conflictedSubgraph = some subgraph ∧
          ∀ x, x ∈ subgraph ↔ x ∈ conflictedSubgraph auth conflictedState := by
  refine (Chains.build_yields hsplit).bind fun c hc => ?_
  refine (question_yields hsplit hc hne conflictedState).bind fun q hq => ?_
  -- the store knows both sets of conflicted events it is given
  have hP : ((conflictedState \ q.unpersistedConflictedEvents : Finset String) : Set String) ⊆
      persisted unpersistedEvents := fun a ha => (hq.mem_persistedConflicted.mp ha).2
  have hA : (q.additionalBackwardsReachable : Set String) ⊆ persisted unpersistedEvents :=
    fun a ha => ((hq.additional a).mp ha).2
  obtain ⟨subgraph, hsome, hsub⟩ := hsubgraph roomId q.stateSetsIds _ _ hP hA
  have hdiff := stateDifference_authDifference hsplit hq hstore roomId
    (some (conflictedState \ q.unpersistedConflictedEvents))
  simp only [Option.map_some, hsome, Option.getD_some]
  split
  · -- nothing is in flight
    rename_i hempty
    refine Run.Yields.pure ⟨hdiff, subgraph, rfl, fun x => ?_⟩
    rw [mem_storeSubgraph hq hsub hsplit, and_iff_right_iff_imp]
    intro _
    show unpersistedEvents.items.lookup x = none
    rw [hempty]
    rfl
  · refine (extendSubgraph_yields hq hsub hsplit order hc).bind fun r hr => Run.Yields.pure ?_
    exact ⟨hdiff, r, rfl, hr⟩

/-- **Events in flight are transparent to the auth chain difference.** Whatever part of an acyclic
auth graph is in flight, the result is the set of events in the auth chains of some but not all of
the state sets. -/
theorem getAuthChainDifference_eq_chainDifference (hsplit : Split auth unpersistedEvents)
    (hstore : StoreDifference auth unpersistedEvents store) (order : IterOrder String)
    (roomId : String) (hne : 2 ≤ stateSets.length) :
    Run.Yields (getAuthChainDifference order store roomId stateSets unpersistedEvents none)
      fun r => (r : Set String) = chainDifference auth (stateSets.map stateIds) := by
  have hne' : stateSets ≠ [] := by
    rintro rfl
    simp at hne
  refine Run.Yields.bind (P := fun d => (∀ subgraph, d.conflictedSubgraph = some subgraph →
    subgraph = ∅) ∧ ∀ x, x ∈ d.authDifference ↔ x ∈ chainDifference auth (stateSets.map stateIds)) ?_ ?_
  · refine (Chains.build_yields hsplit).bind fun c hc => ?_
    refine (question_yields hsplit hc hne' ∅).bind fun q hq => ?_
    apply Run.Yields.pure
    exact ⟨hstore.noSubgraph _ _ _, stateDifference_authDifference hsplit hq hstore roomId none⟩
  · rintro d ⟨hempty, hdiff⟩
    split
    · rename_i subgraph hsome
      rw [if_pos (hempty subgraph hsome)]
      exact Run.Yields.pure (Set.ext hdiff)
    · exact Run.Yields.pure (Set.ext hdiff)

/-- **Events in flight are transparent to the conflicted subgraph.** Whatever part of an acyclic auth
graph is in flight, the conflicted subgraph consists of the events on auth paths from one conflicted
event to another, and it is what the result adds to the auth chain difference. -/
theorem getAuthChainDifference_conflictedSubgraph (hsplit : Split auth unpersistedEvents)
    (hstore : StoreDifference auth unpersistedEvents store)
    (hsubgraph : StoreSubgraph auth unpersistedEvents store) (order : IterOrder String)
    (roomId : String) (hne : stateSets ≠ []) (conflictedState : Finset String) :
    Run.Yields (stateDifference order store roomId stateSets unpersistedEvents
        (some conflictedState)) (fun d => ∃ subgraph, d.conflictedSubgraph = some subgraph ∧
          (subgraph : Set String) = conflictedSubgraph auth conflictedState) ∧
      Run.Yields (getAuthChainDifference order store roomId stateSets unpersistedEvents
          (some conflictedState)) fun r =>
        (r : Set String) = chainDifference auth (stateSets.map stateIds) ∪
          conflictedSubgraph auth conflictedState := by
  have hparts := stateDifference_yields hsplit hstore hsubgraph order roomId hne conflictedState
  constructor
  · refine hparts.mono fun d hd => ?_
    obtain ⟨-, subgraph, hsome, hsub⟩ := hd
    exact ⟨subgraph, hsome, Set.ext hsub⟩
  refine hparts.bind fun d hd => ?_
  obtain ⟨hdiff, subgraph, hsome, hsub⟩ := hd
  rw [← Set.ext hdiff, ← Set.ext hsub, hsome]
  dsimp only
  split
  · rename_i hempty
    apply Run.Yields.pure
    rw [hempty, Finset.coe_empty, Set.union_empty]
  · apply Run.Yields.pure
    rw [Finset.coe_union]

/-! ## §6 A store that meets the assumptions -/

/-- The store that holds the auth chain of every event, the event included. -/
def ChainDifferenceStore.ofChain (chain : String → Finset String) : ChainDifferenceStore where
  getAuthChainDifference _ sets conflicted additional :=
    { authDifference := (sets.foldl (· ∪ ·) ∅).biUnion chain |>.filter fun x =>
        ¬ ∀ s ∈ sets, x ∈ s.biUnion chain
      conflictedSubgraph := conflicted.map fun conflicted =>
        ((conflicted ∪ additional).biUnion chain).filter fun x => ∃ c ∈ conflicted, c ∈ chain x }

section OfChain

variable {chain : String → Finset String}
  (hchain : ∀ e ∈ persisted unpersistedEvents, ∀ x, x ∈ chain e ↔ ReflTransGen auth e x)

include hchain

theorem storeDifference_ofChain : StoreDifference auth unpersistedEvents (.ofChain chain) := by
  refine ⟨fun roomId sets conflicted additional hP => ?_,
    fun _ _ _ _ h => absurd h (by simp [ChainDifferenceStore.ofChain])⟩
  have hmem : ∀ s ∈ sets, ∀ x, x ∈ s.biUnion chain ↔ x ∈ reachedFrom auth (s : Set String) := by
    intro s hs x
    rw [mem_biUnion]
    exact exists_congr fun e => and_congr_right fun he => hchain e (hP s hs he) x
  ext x
  show x ∈ Finset.filter _ _ ↔ _
  rw [mem_filter, mem_chainDifference]
  apply and_congr
  · simp only [mem_biUnion, mem_foldl_union, List.mem_cons, exists_eq_or_imp,
      Finset.notMem_empty, false_or, List.mem_map, exists_exists_and_eq_and]
    constructor
    · rintro ⟨e, ⟨s, hs, he⟩, hx⟩
      exact ⟨s, hs, (hmem s hs x).mp (Finset.mem_biUnion.mpr ⟨e, he, hx⟩)⟩
    rintro ⟨s, hs, hx⟩
    obtain ⟨e, he, hx⟩ := Finset.mem_biUnion.mp ((hmem s hs x).mpr hx)
    exact ⟨e, ⟨s, hs, he⟩, hx⟩
  · rw [List.forall_mem_map]
    exact not_congr (forall₂_congr fun s hs => hmem s hs x)

theorem storeSubgraph_ofChain (hsplit : Split auth unpersistedEvents) :
    StoreSubgraph auth unpersistedEvents (.ofChain chain) := by
  intro roomId sets conflicted additional hC hA
  refine ⟨_, rfl, fun x => ?_⟩
  have hP : ∀ a, a ∈ conflicted ∨ a ∈ additional → a ∈ persisted unpersistedEvents :=
    fun a ha => ha.elim (fun h => hC h) fun h => hA h
  rw [mem_filter, mem_biUnion]
  simp only [mem_union]
  constructor
  · rintro ⟨⟨a, ha, hax⟩, b, hb, hxb⟩
    have hax' := (hchain a (hP a ha) x).mp hax
    have hxP := mem_of_reflTransGen_closed hsplit.closed (hP a ha) hax'
    exact ⟨⟨a, ha, hax'⟩, b, hb, (hchain x hxP b).mp hxb⟩
  · rintro ⟨⟨a, ha, hax⟩, b, hb, hxb⟩
    have hxP := mem_of_reflTransGen_closed hsplit.closed (hP a ha) hax
    exact ⟨⟨a, ha, (hchain a (hP a ha) x).mpr hax⟩, b, hb, (hchain x hxP b).mpr hxb⟩

end OfChain

/-- A persisted event `$B` on top of `$A`, and two events in flight on top of it. -/
def exampleAuthIds : String → List String
  | "$B" => ["$A"]
  | "$C" => ["$B"]
  | "$D" => ["$C"]
  | _ => []

def exampleAuth (e a : String) : Prop := a ∈ exampleAuthIds e

def exampleEvent (e : String) : EventBase where
  eventId := e
  roomId := "!room"
  roomVersion := RoomVersions.v12
  type := "m.room.topic"
  stateKey := some ""
  sender := "@user:server"
  originServerTs := 0
  content := []
  authEventIds := exampleAuthIds e
  rejected := false

def exampleInFlight : Dict String EventBase :=
  (Dict.empty.set "$C" (exampleEvent "$C")).set "$D" (exampleEvent "$D")

def exampleChain (e : String) : Finset String := if e = "$B" then {"$A", "$B"} else {e}

def exampleStateSets : List (StateMap String) :=
  [Dict.empty.set ("m.room.topic", "") "$D", Dict.empty.set ("m.room.topic", "") "$B"]

theorem exampleInFlight_get? {e : String} (h : exampleInFlight.get? e = some event) :
    (e = "$C" ∨ e = "$D") ∧ event = exampleEvent e := by
  rw [exampleInFlight, get?_set, get?_set, get?_empty] at h
  split at h
  · rename_i he
    rw [he]
    exact ⟨Or.inr rfl, (Option.some.inj h).symm⟩
  split at h
  · rename_i he
    rw [he]
    exact ⟨Or.inl rfl, (Option.some.inj h).symm⟩
  · exact absurd h (by simp)

theorem exampleAuth_iff {e a : String} : exampleAuth e a ↔
    e = "$B" ∧ a = "$A" ∨ e = "$C" ∧ a = "$B" ∨ e = "$D" ∧ a = "$C" := by
  unfold exampleAuth exampleAuthIds
  split <;> simp_all

theorem exampleSplit : Split exampleAuth exampleInFlight := by
  refine ⟨?_, fun e event h => ?_, fun e event h a => ?_, fun e a he hea => ?_⟩
  · refine Acyclic.of_rank (fun e => ["$A", "$B", "$C", "$D"].idxOf e) fun e a h => ?_
    rcases exampleAuth_iff.mp h with ⟨rfl, rfl⟩ | ⟨rfl, rfl⟩ | ⟨rfl, rfl⟩ <;> decide
  · rw [(exampleInFlight_get? h).2]
    rfl
  · rw [(exampleInFlight_get? h).2]
    rfl
  · rcases exampleAuth_iff.mp hea with ⟨rfl, rfl⟩ | ⟨rfl, rfl⟩ | ⟨rfl, rfl⟩
    · rfl
    · exact absurd he (by simp [persisted, exampleInFlight])
    · exact absurd he (by simp [persisted, exampleInFlight])

theorem exampleChain_iff (e : String) (he : e ∈ persisted exampleInFlight) (x : String) :
    x ∈ exampleChain e ↔ ReflTransGen exampleAuth e x := by
  have hstep : ∀ a, a ∈ persisted exampleInFlight → ∀ b, exampleAuth a b → a = "$B" ∧ b = "$A" := by
    intro a ha b hab
    rcases exampleAuth_iff.mp hab with h | ⟨rfl, rfl⟩ | ⟨rfl, rfl⟩
    · exact h
    · exact absurd ha (by simp [persisted, exampleInFlight])
    · exact absurd ha (by simp [persisted, exampleInFlight])
  have hA : ∀ y, ReflTransGen exampleAuth "$A" y → y = "$A" := by
    intro y hy
    rcases hy.cases_head with h | ⟨b, hb, -⟩
    · exact h.symm
    · exact absurd (hstep "$A" rfl b hb).1 (by decide)
  unfold exampleChain
  split
  · rename_i heq
    rw [mem_insert, Finset.mem_singleton, heq]
    constructor
    · rintro (rfl | rfl)
      · exact .single (exampleAuth_iff.mpr (Or.inl ⟨rfl, rfl⟩))
      · exact .refl
    intro hx
    rcases hx.cases_head with rfl | ⟨b, hb, hbx⟩
    · exact Or.inr rfl
    · rw [(hstep "$B" rfl b hb).2] at hbx
      exact Or.inl (hA x hbx)
  · rename_i hne
    rw [Finset.mem_singleton]
    constructor
    · rintro rfl
      exact .refl
    intro hx
    rcases hx.cases_head with h | ⟨b, hb, -⟩
    · exact h.symm
    · exact absurd (hstep e he b hb).1 hne

theorem getAuthChainDifference_eq_chainDifference_example :
    Run.Yields (getAuthChainDifference (IterOrder.sorted String) (.ofChain exampleChain) "!room"
        exampleStateSets exampleInFlight none)
      fun r => (r : Set String) = chainDifference exampleAuth (exampleStateSets.map stateIds) :=
  getAuthChainDifference_eq_chainDifference exampleSplit (storeDifference_ofChain exampleChain_iff)
    (IterOrder.sorted String) "!room" (by decide)

theorem getAuthChainDifference_conflictedSubgraph_example :
    Run.Yields (stateDifference (IterOrder.sorted String) (.ofChain exampleChain) "!room"
        exampleStateSets exampleInFlight (some {"$B", "$D"}))
      (fun d => ∃ subgraph, d.conflictedSubgraph = some subgraph ∧
        (subgraph : Set String) = conflictedSubgraph exampleAuth ({"$B", "$D"} : Finset String)) ∧
    Run.Yields (getAuthChainDifference (IterOrder.sorted String) (.ofChain exampleChain) "!room"
        exampleStateSets exampleInFlight (some {"$B", "$D"})) fun r =>
      (r : Set String) = chainDifference exampleAuth (exampleStateSets.map stateIds) ∪
        conflictedSubgraph exampleAuth ({"$B", "$D"} : Finset String) :=
  getAuthChainDifference_conflictedSubgraph exampleSplit (storeDifference_ofChain exampleChain_iff)
    (storeSubgraph_ofChain exampleChain_iff exampleSplit) (IterOrder.sorted String) "!room"
    (by decide) {"$B", "$D"}

end Setka.State
