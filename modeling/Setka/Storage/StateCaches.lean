/-
# Setka.Storage.StateCaches — state read through two caches.

The state of a group is cached in two parts, that of its members and the rest. A read looks into both, asks
the database for the groups of which anything may be missing, with a wider filter, and puts what comes back
into both. Between the two halves of a read anything may happen to the caches.
-/
import Setka.Types.StateFilter
import Setka.Util.DictionaryCache

namespace Setka.Storage

open Setka.Api Setka.Lib Setka.Events Setka.Types Setka.Util Dict

/-! ## §1 Reading -/

/-- A cache of states by group. -/
abbrev StateCache := DictionaryCache ℕ (String × String) String

/-- `_state_group_cache` and `_state_group_members_cache`. -/
structure StateGroupCaches where
  nonMembers : StateCache
  members : StateCache

/-- The orders in which sets are iterated. -/
structure SetOrders where
  stateKeys : IterOrder String
  groups : IterOrder ℕ

/-- `_get_state_for_group_using_cache`. -/
def getStateForGroupUsingCache (orders : SetOrders) (cache : StateCache) (group : ℕ) (stateFilter : StateFilter) :
    Except Error (StateMap String × Bool × StateCache) :=
  let dictKeys := if stateFilter.hasWildcards then none else some (stateFilter.concreteTypes orders.stateKeys)
  match cache.get group dictKeys with
  | .error e => .error e
  | .ok (cacheEntry, cache) =>
    if cacheEntry.full || stateFilter.isFull then
      .ok (stateFilter.filterState cacheEntry.value, cacheEntry.full, cache)
    else
      let missingTypes := stateFilter.hasWildcards || (stateFilter.concreteTypes orders.stateKeys).any fun key =>
        key ∉ cacheEntry.value.keys && key ∉ cacheEntry.knownAbsent
      .ok (stateFilter.filterState cacheEntry.value, !missingTypes, cache)

/-- Which entries of a cache are kept after the lookup of a group, which may put entries there. -/
abbrev Keep := ℕ → ℕ × CacheKey (String × String) → Bool

/-- What the loop of `_get_state_for_groups_using_cache` has so far. -/
structure LookedUp where
  results : Dict ℕ (StateMap String)
  incompleteGroups : Finset ℕ
  cache : StateCache

def lookUpGroup (orders : SetOrders) (keep : Keep) (stateFilter : StateFilter) (l : LookedUp) (group : ℕ) :
    Except Error LookedUp :=
  match getStateForGroupUsingCache orders l.cache group stateFilter with
  | .error e => .error e
  | .ok (stateDictIds, gotAll, cache) =>
    .ok
      { results := l.results.set group stateDictIds
        incompleteGroups := if gotAll then l.incompleteGroups else insert group l.incompleteGroups
        cache := cache.evict (keep group) }

/-- `_get_state_for_groups_using_cache`. -/
def getStateForGroupsUsingCache (orders : SetOrders) (keep : Keep) (groups : Finset ℕ) (cache : StateCache)
    (stateFilter : StateFilter) : Except Error LookedUp :=
  (orders.groups.list groups).foldlM (lookUpGroup orders keep stateFilter) ⟨.empty, ∅, cache⟩

/-- A read that awaits the database. -/
structure StateRead where
  groups : Finset ℕ
  stateFilter : StateFilter
  state : Dict ℕ (StateMap String)
  incompleteGroups : Finset ℕ
  cacheSequenceNm : ℕ
  cacheSequenceM : ℕ

/-- `state[group].update(member_state[group])`. -/
def addMembers (memberState state : Dict ℕ (StateMap String)) (group : ℕ) :
    Except Error (Dict ℕ (StateMap String)) :=
  match state.get? group, memberState.get? group with
  | some nonMembers, some members => .ok (state.set group (nonMembers.update members))
  | _, _ => .error .keyError

/-- `_get_state_for_groups`, up to where it asks the database. -/
def startRead (orders : SetOrders) (keepNm keepM : Keep) (caches : StateGroupCaches) (groups : Finset ℕ)
    (stateFilter : Option StateFilter) : Except Error (StateRead × StateGroupCaches) :=
  let stateFilter := stateFilter.getD .all
  let filters := stateFilter.getMemberSplit
  match getStateForGroupsUsingCache orders keepNm groups caches.nonMembers filters.2 with
  | .error e => .error e
  | .ok nonMember =>
    match getStateForGroupsUsingCache orders keepM groups caches.members filters.1 with
    | .error e => .error e
    | .ok member =>
      match (orders.groups.list groups).foldlM (addMembers member.results) nonMember.results with
      | .error e => .error e
      | .ok state =>
        .ok
          ({ groups, stateFilter, state
             incompleteGroups := member.incompleteGroups ∪ nonMember.incompleteGroups
             cacheSequenceNm := nonMember.cache.sequence
             cacheSequenceM := member.cache.sequence },
            ⟨nonMember.cache, member.cache⟩)

/-- The entries of members, or the others. -/
def part (members : Bool) (state : StateMap String) : StateMap String :=
  state.filter fun key _ => decide (key.1 = member) = members

/-- The entries that a filter surely fetches, or all. -/
def fetchedTypes (orders : SetOrders) (stateFilter : StateFilter) : Option (List (String × String)) :=
  if stateFilter.isFull then none else some (stateFilter.concreteTypes orders.stateKeys)

/-- `_insert_into_cache`. -/
def insertIntoCache (orders : SetOrders) (caches : StateGroupCaches)
    (groupToStateDict : Dict ℕ (StateMap String)) (stateFilter : StateFilter)
    (cacheSeqNumMembers cacheSeqNumNonMembers : ℕ) : StateGroupCaches :=
  let filters := stateFilter.getMemberSplit
  groupToStateDict.items.foldl (fun caches item =>
    { members := caches.members.update cacheSeqNumMembers item.1 (part true item.2) (fetchedTypes orders filters.1)
      nonMembers := caches.nonMembers.update cacheSeqNumNonMembers item.1 (part false item.2)
        (fetchedTypes orders filters.2) }) caches

/-- The rest of `_get_state_for_groups`, with what the database has returned. -/
def finishRead (orders : SetOrders) (caches : StateGroupCaches) (read : StateRead)
    (groupToStateDict : Dict ℕ (StateMap String)) : Dict ℕ (StateMap String) × StateGroupCaches :=
  (groupToStateDict.items.foldl (fun state item => state.set item.1 (read.stateFilter.filterState item.2)) read.state,
    insertIntoCache orders caches groupToStateDict read.stateFilter.returnExpanded read.cacheSequenceM
      read.cacheSequenceNm)

/-- What `insert_full_state_txn` puts into the caches, with the sequence numbers that it saw. -/
def prefill (caches : StateGroupCaches) (cacheSequenceNm cacheSequenceM group : ℕ)
    (currentStateIds : StateMap String) : StateGroupCaches where
  members := caches.members.update cacheSequenceM group (part true currentStateIds) none
  nonMembers := caches.nonMembers.update cacheSequenceNm group (part false currentStateIds) none

/-! ## §2 Runs -/

/-- A call of `_get_state_for_groups` that awaits the database, or has returned. -/
inductive StateReader
  | waiting (read : StateRead)
  | returned (groups : Finset ℕ) (stateFilter : StateFilter) (state : Dict ℕ (StateMap String))

structure StateReads where
  caches : StateGroupCaches
  readers : Dict ℕ StateReader

inductive StateReadsStep
  | start (reader : ℕ) (groups : Finset ℕ) (stateFilter : Option StateFilter) (keepNm keepM : Keep)
  | finish (reader : ℕ) (groupToStateDict : Dict ℕ (StateMap String))
  | prefill (cacheSequenceNm cacheSequenceM group : ℕ) (currentStateIds : StateMap String)
  | evict (keepNm keepM : ℕ × CacheKey (String × String) → Bool)

namespace StateReads

/-- One step. There is none where a reader does not wait, or where the code raises. -/
def step (orders : SetOrders) (s : StateReads) : StateReadsStep → Option StateReads
  | .start reader groups stateFilter keepNm keepM =>
    match startRead orders keepNm keepM s.caches groups stateFilter with
    | .error _ => none
    | .ok (read, caches) =>
      some
        { caches
          readers := s.readers.set reader <|
            if read.incompleteGroups = ∅ then .returned groups read.stateFilter read.state else .waiting read }
  | .finish reader groupToStateDict =>
    match s.readers.get? reader with
    | some (.waiting read) =>
      let finished := finishRead orders s.caches read groupToStateDict
      some
        { caches := finished.2
          readers := s.readers.set reader (.returned read.groups read.stateFilter finished.1) }
    | _ => none
  | .prefill cacheSequenceNm cacheSequenceM group currentStateIds =>
    some { s with caches := Storage.prefill s.caches cacheSequenceNm cacheSequenceM group currentStateIds }
  | .evict keepNm keepM =>
    some { s with caches := ⟨s.caches.nonMembers.evict keepNm, s.caches.members.evict keepM⟩ }

/-- A result has the groups that were asked for, each with what the filter admits of its state. -/
def Exact (truth : ℕ → StateMap String) (groups : Finset ℕ) (stateFilter : StateFilter)
    (result : Dict ℕ (StateMap String)) : Prop :=
  ∀ group, (group ∈ groups → ∃ state, result.get? group = some state ∧
    state.Agrees (stateFilter.filterState (truth group))) ∧ (group ∉ groups → result.get? group = none)

/-- What the environment promises: the database is exact, and what is stored is the state of its group. -/
def Promised (truth : ℕ → StateMap String) (s : StateReads) : StateReadsStep → Prop
  | .finish reader groupToStateDict => ∀ read, s.readers.get? reader = some (.waiting read) →
      Exact truth read.incompleteGroups read.stateFilter.returnExpanded groupToStateDict
  | .prefill _ _ group currentStateIds => currentStateIds.Agrees (truth group)
  | _ => True

/-- The states that reads, prefills and evictions lead to. -/
def Reached (orders : SetOrders) (truth : ℕ → StateMap String) : StateReads → Prop :=
  Reachable (· = ⟨⟨.new, .new⟩, .empty⟩) fun s s' => ∃ a, Promised truth s a ∧ s.step orders a = some s'

end StateReads

/-! ## §3 What a cache says -/

variable (orders : SetOrders) {truth : ℕ → StateMap String}

/-- A cache over a table that does not change. -/
def tableOf (table : ℕ → StateMap String) (cache : StateCache) : CachedTable ℕ (String × String) String where
  table
  stale := ∅
  cache
  readers := .empty

/-- Each entry of the cache says of the table what is so. -/
def Truthful (table : ℕ → StateMap String) (cache : StateCache) : Prop :=
  (tableOf table cache).EntriesOk cache.cache

theorem truthful_new (table : ℕ → StateMap String) : Truthful table .new := by
  intro key value hvalue
  cases hvalue

variable {table : ℕ → StateMap String} {cache : StateCache}

theorem Truthful.congr {cache' : StateCache}
    (h : (tableOf table cache').EntriesOk cache.cache) : Truthful table cache :=
  fun key value hvalue => (h key value hvalue).congr (fun _ => rfl) id

theorem Truthful.evict (h : Truthful table cache)
    (keep : ℕ × CacheKey (String × String) → Bool) : Truthful table (cache.evict keep) :=
  .congr (CachedTable.EntriesOk.filter h fun key _ => keep key)

/-- What is put into a cache is so. -/
theorem Truthful.update (h : Truthful table cache) (sequence : ℕ) {group : ℕ} {value : StateMap String}
    {fetchedKeys : Option (List (String × String))}
    (hvalue : CachedTable.Brings (table group) fetchedKeys value) :
    Truthful table (cache.update sequence group value fetchedKeys) :=
  .congr (CachedTable.entriesOk_update (s := tableOf table cache) h fun _ _ => hvalue)

theorem get?_part (members : Bool) (state : StateMap String) (key : String × String) :
    (part members state).get? key = if decide (key.1 = member) = members then state.get? key else none := by
  refine Option.ext fun eventId => ?_
  rw [part, get?_filter, decide_eq_true_eq]
  split
  · next hkey => simp [hkey]
  · next hkey => simp [hkey]

/-- **The lookup of a group** is right about what is there, and knows when it is all there. -/
theorem getStateForGroupUsingCache_spec (h : Truthful table cache) (group : ℕ)
    (stateFilter : StateFilter) : ∃ state gotAll cache',
      getStateForGroupUsingCache orders cache group stateFilter = .ok (state, gotAll, cache') ∧
        Truthful table cache' ∧ (gotAll = true → state.Agrees (stateFilter.filterState (table group))) := by
  let dictKeys := if stateFilter.hasWildcards then none else some (stateFilter.concreteTypes orders.stateKeys)
  obtain ⟨entry, cache', hget, hentries, -, hcorrect⟩ := CachedTable.EntriesOk.get (s := tableOf table cache) h
    group dictKeys
  have hcorrect : CachedTable.Correct (table group) dictKeys entry := hcorrect (Finset.notMem_empty group)
  have htruthful : Truthful table cache' := .congr hentries
  have hget : cache.get group dictKeys = .ok (entry, cache') := hget
  -- a key that is admitted is asked for
  have hrequested : ∀ key, stateFilter.admits key = true → CachedTable.Requested dictKeys key := by
    intro key hadmits
    by_cases hwild : stateFilter.hasWildcards = true
    · simp only [dictKeys, if_pos hwild]
      trivial
    · simp only [dictKeys, if_neg hwild]
      exact StateFilter.mem_concreteTypes_of_admits (by simpa using hwild) hadmits
  have hagrees : (∀ key, stateFilter.admits key = true → entry.value.get? key = (table group).get? key) →
      (stateFilter.filterState entry.value).Agrees (stateFilter.filterState (table group)) := by
    intro hall key
    rw [StateFilter.get?_filterState, StateFilter.get?_filterState]
    split
    · next hadmits => exact hall key hadmits
    · rfl
  by_cases hfull : (entry.full || stateFilter.isFull) = true
  · refine ⟨_, entry.full, cache', ?_, htruthful, fun hgot => hagrees fun key hadmits => ?_⟩
    · simp only [getStateForGroupUsingCache]
      rw [hget]
      simp only [hfull, if_true]
    · exact hcorrect.full hgot key (hrequested key hadmits)
  let missingTypes := stateFilter.hasWildcards || (stateFilter.concreteTypes orders.stateKeys).any fun key =>
    key ∉ entry.value.keys && key ∉ entry.knownAbsent
  refine ⟨_, !missingTypes, cache', ?_, htruthful, fun hgot => hagrees fun key hadmits => ?_⟩
  · simp only [getStateForGroupUsingCache]
    rw [hget]
    simp only [hfull]
    rfl
  have hmissing : missingTypes = false := by simpa using hgot
  obtain ⟨hwild, hany⟩ := Bool.or_eq_false_iff.mp hmissing
  have hkey := List.any_eq_false.mp hany key (StateFilter.mem_concreteTypes_of_admits hwild hadmits)
  rw [Bool.and_eq_true, decide_eq_true_eq, decide_eq_true_eq, not_and_or, not_not, not_not] at hkey
  rcases hkey with hin | habsent
  · obtain ⟨eventId, heventId⟩ := mem_keys_iff.mp hin
    rw [heventId, (hcorrect.value key eventId heventId).2]
  -- known to be absent, so not among the values
  rw [(hcorrect.knownAbsent key habsent).2]
  refine Option.eq_none_iff_forall_ne_some.mpr fun eventId heventId => ?_
  have hsome := (hcorrect.value key eventId heventId).2
  rw [(hcorrect.knownAbsent key habsent).2] at hsome
  cases hsome

/-- What a lookup of several groups has found. -/
structure LookedUp.Ok (table : ℕ → StateMap String) (stateFilter : StateFilter) (groups : List ℕ) (l : LookedUp) :
    Prop where
  truthful : Truthful table l.cache
  keys : ∀ group, (∃ state, l.results.get? group = some state) ↔ group ∈ groups
  complete : ∀ group state, l.results.get? group = some state → group ∉ l.incompleteGroups →
    state.Agrees (stateFilter.filterState (table group))
  incomplete : ∀ group ∈ l.incompleteGroups, group ∈ groups

/-- **The lookup of several groups.** -/
theorem getStateForGroupsUsingCache_spec (h : Truthful table cache) (keep : Keep) (groups : Finset ℕ)
    (stateFilter : StateFilter) :
    ∃ l, getStateForGroupsUsingCache orders keep groups cache stateFilter = .ok l ∧
      l.Ok table stateFilter (orders.groups.list groups) := by
  have hloop : ∀ (rest done : List ℕ) (l : LookedUp), l.Ok table stateFilter done → ∃ l',
      rest.foldlM (lookUpGroup orders keep stateFilter) l = .ok l' ∧ l'.Ok table stateFilter (done ++ rest) := by
    intro rest
    induction rest with
    | nil => exact fun done l hl => ⟨l, rfl, by rwa [List.append_nil]⟩
    | cons group rest ih =>
      intro done l hl
      obtain ⟨state, gotAll, cache', hget, htruthful, hgot⟩ :=
        getStateForGroupUsingCache_spec orders hl.truthful group stateFilter
      have hnext : LookedUp.Ok table stateFilter (done ++ [group])
          ⟨l.results.set group state, if gotAll then l.incompleteGroups else insert group l.incompleteGroups,
            cache'.evict (keep group)⟩ := by
        refine ⟨htruthful.evict _, fun group' => ?_, fun group' state' hstate' hnot => ?_, fun group' hin => ?_⟩
        · rw [List.mem_append, List.mem_singleton, ← hl.keys, get?_set]
          by_cases hgroup : group' = group
          · simp [hgroup]
          · simp [hgroup]
        · have hnot' : group' ∉ l.incompleteGroups := fun hin => hnot (by
            split
            · exact hin
            · exact Finset.mem_insert_of_mem hin)
          rcases of_get?_set hstate' with ⟨hgroup, rfl⟩ | ⟨-, hstate'⟩
          · subst hgroup
            refine hgot ?_
            by_contra hgotAll
            exact hnot (by simp [hgotAll])
          · exact hl.complete group' state' hstate' hnot'
        · rw [List.mem_append, List.mem_singleton]
          change group' ∈ (if gotAll then l.incompleteGroups else insert group l.incompleteGroups) at hin
          split at hin
          · exact Or.inl (hl.incomplete group' hin)
          · exact (Finset.mem_insert.mp hin).elim Or.inr fun hin => Or.inl (hl.incomplete group' hin)
      obtain ⟨l', hrun, hl'⟩ := ih (done ++ [group]) _ hnext
      refine ⟨l', ?_, by rwa [List.append_assoc] at hl'⟩
      have hone : lookUpGroup orders keep stateFilter l group = .ok ⟨l.results.set group state,
          if gotAll then l.incompleteGroups else insert group l.incompleteGroups, cache'.evict (keep group)⟩ := by
        simp only [lookUpGroup, hget]
      rw [List.foldlM_cons, hone]
      exact hrun
  exact hloop (orders.groups.list groups) [] ⟨.empty, ∅, cache⟩
    ⟨h, by simp, fun _ _ hstate => by simp at hstate, fun _ hin => absurd hin (Finset.notMem_empty _)⟩

/-! ## §4 Reads are exact -/

/-- Both caches say what is so. -/
structure Sound (truth : ℕ → StateMap String) (caches : StateGroupCaches) : Prop where
  nonMembers : Truthful (fun group => part false (truth group)) caches.nonMembers
  members : Truthful (fun group => part true (truth group)) caches.members

/-- What a read has at the await: each of its groups, exactly where the group is complete. -/
structure StateRead.Ok (truth : ℕ → StateMap String) (read : StateRead) : Prop where
  keys : ∀ group, (∃ state, read.state.get? group = some state) ↔ group ∈ read.groups
  complete : ∀ group state, read.state.get? group = some state → group ∉ read.incompleteGroups →
    state.Agrees (read.stateFilter.filterState (truth group))
  incomplete : ∀ group ∈ read.incompleteGroups, group ∈ read.groups

variable {stateFilter : StateFilter}

/-- What the halves of a filter admit of the halves of a state is what it admits. -/
theorem agrees_update_of_parts {state nonMembers members : StateMap String}
    (hnonMembers : nonMembers.Agrees (stateFilter.getMemberSplit.2.filterState (part false state)))
    (hmembers : members.Agrees (stateFilter.getMemberSplit.1.filterState (part true state))) :
    (nonMembers.update members).Agrees (stateFilter.filterState state) := by
  intro key
  obtain ⟨hmember, hother⟩ := stateFilter.admits_getMemberSplit key
  rw [get?_update, hnonMembers key, hmembers key]
  simp only [StateFilter.get?_filterState, get?_part]
  by_cases hkey : key.1 = member
  · simp [hkey, hmember hkey]
  · simp [hkey, hother hkey]

theorem addMembers_spec {memberState : Dict ℕ (StateMap String)} {groups : List ℕ} (hnodup : groups.Nodup)
    (hmembers : ∀ group ∈ groups, ∃ members, memberState.get? group = some members)
    {state : Dict ℕ (StateMap String)} (hstate : ∀ group ∈ groups, ∃ nonMembers, state.get? group = some nonMembers) :
    ∃ state', groups.foldlM (addMembers memberState) state = .ok state' ∧
      (∀ group, group ∉ groups → state'.get? group = state.get? group) ∧
      ∀ group ∈ groups, ∀ nonMembers members, state.get? group = some nonMembers →
        memberState.get? group = some members → state'.get? group = some (nonMembers.update members) := by
  induction groups generalizing state with
  | nil => exact ⟨state, rfl, fun _ _ => rfl, by simp⟩
  | cons group groups ih =>
    obtain ⟨hnot, hnodup⟩ := List.nodup_cons.mp hnodup
    obtain ⟨members, hmember⟩ := hmembers group List.mem_cons_self
    obtain ⟨nonMembers, hnonMember⟩ := hstate group List.mem_cons_self
    have hrest : ∀ g ∈ groups, ∃ nonMembers', (state.set group (nonMembers.update members)).get? g =
        some nonMembers' := by
      intro g hg
      rw [get?_set]
      split
      · exact ⟨_, rfl⟩
      · exact hstate g (List.mem_cons_of_mem group hg)
    obtain ⟨state', hrun, hothers, hall⟩ := ih hnodup (fun g hg => hmembers g (List.mem_cons_of_mem group hg)) hrest
    refine ⟨state', ?_, fun g hg => ?_, fun g hg nonMembers' members' hnonMember' hmember' => ?_⟩
    · have hone : addMembers memberState state group = .ok (state.set group (nonMembers.update members)) := by
        simp only [addMembers, hnonMember, hmember]
      rw [List.foldlM_cons, hone]
      exact hrun
    · obtain ⟨hne, hg⟩ := not_or.mp (List.mem_cons.not.mp hg)
      rw [hothers g hg, get?_set, if_neg hne]
    · rcases List.mem_cons.mp hg with rfl | hg
      · rw [hnonMember] at hnonMember'
        rw [hmember] at hmember'
        cases hnonMember'
        cases hmember'
        rw [hothers g hnot, get?_set, if_pos rfl]
      · refine hall g hg nonMembers' members' ?_ hmember'
        rw [get?_set, if_neg (ne_of_mem_of_not_mem hg hnot)]
        exact hnonMember'

/-- **The first half of a read** raises nothing, and is exact where it is complete. -/
theorem startRead_spec {caches : StateGroupCaches} (h : Sound truth caches) (keepNm keepM : Keep)
    (groups : Finset ℕ) (stateFilter : Option StateFilter) : ∃ read caches',
      startRead orders keepNm keepM caches groups stateFilter = .ok (read, caches') ∧ Sound truth caches' ∧
        read.groups = groups ∧ read.stateFilter = stateFilter.getD .all ∧ read.Ok truth := by
  let stateFilter' := stateFilter.getD .all
  obtain ⟨nonMember, hnm, hnmOk⟩ := getStateForGroupsUsingCache_spec orders h.nonMembers keepNm groups
    stateFilter'.getMemberSplit.2
  obtain ⟨members, hm, hmOk⟩ := getStateForGroupsUsingCache_spec orders h.members keepM groups
    stateFilter'.getMemberSplit.1
  obtain ⟨state, hstate, hothers, hall⟩ := addMembers_spec (orders.groups.nodup_list groups)
    (fun group hgroup => (hmOk.keys group).mpr hgroup) (fun group hgroup => (hnmOk.keys group).mpr hgroup)
  have hvalue : ∀ group, group ∈ groups → ∃ nonMembers' members', nonMember.results.get? group = some nonMembers' ∧
      members.results.get? group = some members' ∧ state.get? group = some (nonMembers'.update members') := by
    intro group hgroup
    have hin := orders.groups.mem_list.mpr hgroup
    obtain ⟨nonMembers', hnonMembers'⟩ := (hnmOk.keys group).mpr hin
    obtain ⟨members', hmembers'⟩ := (hmOk.keys group).mpr hin
    exact ⟨nonMembers', members', hnonMembers', hmembers', hall group hin _ _ hnonMembers' hmembers'⟩
  let read : StateRead := ⟨groups, stateFilter', state, members.incompleteGroups ∪ nonMember.incompleteGroups,
    nonMember.cache.sequence, members.cache.sequence⟩
  refine ⟨read, ⟨nonMember.cache, members.cache⟩, ?_, ⟨hnmOk.truthful, hmOk.truthful⟩, rfl, rfl, ?_⟩
  · simp only [startRead]
    rw [hnm, hm]
    dsimp only
    rw [hstate]
  refine ⟨fun group => ⟨?_, fun hgroup => ?_⟩, fun group state' hstate' hnot => ?_, fun group hin => ?_⟩
  · rintro ⟨state', hstate'⟩
    by_contra hgroup
    have hgroup : group ∉ orders.groups.list groups := fun hin => hgroup (orders.groups.mem_list.mp hin)
    have hsame : state.get? group = _ := hothers group hgroup
    rw [show state.get? group = some state' from hstate'] at hsame
    exact hgroup ((hnmOk.keys group).mp ⟨state', hsame.symm⟩)
  · obtain ⟨_, _, -, -, hsome⟩ := hvalue group hgroup
    exact ⟨_, hsome⟩
  · obtain ⟨hnotM, hnotNm⟩ := not_or.mp (Finset.mem_union.not.mp hnot)
    by_cases hgroup : group ∈ groups
    · obtain ⟨nonMembers', members', hnonMembers', hmembers', hsome⟩ := hvalue group hgroup
      rw [show state.get? group = some state' from hstate'] at hsome
      cases hsome
      exact agrees_update_of_parts (hnmOk.complete group nonMembers' hnonMembers' hnotNm)
        (hmOk.complete group members' hmembers' hnotM)
    · have hgroup : group ∉ orders.groups.list groups := fun hin => hgroup (orders.groups.mem_list.mp hin)
      have hsame : state.get? group = _ := hothers group hgroup
      rw [show state.get? group = some state' from hstate'] at hsame
      exact absurd ((hnmOk.keys group).mp ⟨state', hsame.symm⟩) hgroup
  · rcases Finset.mem_union.mp hin with hin | hin
    · exact orders.groups.mem_list.mp (hmOk.incomplete group hin)
    · exact orders.groups.mem_list.mp (hnmOk.incomplete group hin)

/-- What was fetched with a filter is so, and is all that the filter surely fetches. -/
theorem brings_part {fetched : StateFilter} {state value : StateMap String}
    (hvalue : value.Agrees (fetched.filterState state)) {members : Bool}
    (hsplit : ∀ key : String × String, decide (key.1 = member) = members →
      stateFilter.admits key = fetched.admits key) :
    CachedTable.Brings (part members state) (fetchedTypes orders stateFilter) (part members value) := by
  intro key
  rw [get?_part, get?_part]
  by_cases hkey : decide (key.1 = member) = members
  · rw [if_pos hkey, if_pos hkey, hvalue key, StateFilter.get?_filterState]
    refine ⟨fun eventId heventId => ?_, fun hrequested => if_pos ?_⟩
    · split at heventId
      · exact heventId
      · cases heventId
    rw [← hsplit key hkey]
    by_cases hfull : stateFilter.isFull = true
    · exact StateFilter.admits_of_isFull hfull key
    · rw [fetchedTypes, if_neg hfull] at hrequested
      exact StateFilter.admits_of_mem_concreteTypes hrequested
  · rw [if_neg hkey, if_neg hkey]
    exact ⟨fun _ heventId => heventId, fun _ => rfl⟩

theorem Sound.insertIntoCache {caches : StateGroupCaches} (h : Sound truth caches)
    {groupToStateDict : Dict ℕ (StateMap String)}
    (hanswer : ∀ group state, groupToStateDict.get? group = some state →
      state.Agrees (stateFilter.filterState (truth group))) (sequenceM sequenceNm : ℕ) :
    Sound truth (insertIntoCache orders caches groupToStateDict stateFilter sequenceM sequenceNm) := by
  have hitems : ∀ item ∈ groupToStateDict.items, item.2.Agrees (stateFilter.filterState (truth item.1)) :=
    fun item hitem => hanswer item.1 item.2 (get?_eq_some_iff.mpr hitem)
  unfold Storage.insertIntoCache
  generalize groupToStateDict.items = items at hitems
  induction items generalizing caches with
  | nil => exact h
  | cons item items ih =>
    have hitem := hitems item List.mem_cons_self
    refine ih ⟨?_, ?_⟩ fun item' hitem' => hitems item' (List.mem_cons_of_mem item hitem')
    · refine h.nonMembers.update _ (brings_part orders hitem fun key hkey => ?_)
      exact (stateFilter.admits_getMemberSplit key).2 (of_decide_eq_false hkey)
    · refine h.members.update _ (brings_part orders hitem fun key hkey => ?_)
      exact (stateFilter.admits_getMemberSplit key).1 (of_decide_eq_true hkey)

theorem finishRead_fst (caches : StateGroupCaches) (read : StateRead) (answer : Dict ℕ (StateMap String)) :
    (finishRead orders caches read answer).1 =
      read.state.update (answer.mapValues read.stateFilter.filterState) := by
  simp only [finishRead, Dict.update, Dict.mapValues, List.foldl_map]

/-- **The second half of a read** returns what was asked for. -/
theorem StateRead.Ok.finish {read : StateRead} (h : read.Ok truth) (caches : StateGroupCaches)
    {answer : Dict ℕ (StateMap String)}
    (hanswer : StateReads.Exact truth read.incompleteGroups read.stateFilter.returnExpanded answer) :
    StateReads.Exact truth read.groups read.stateFilter (finishRead orders caches read answer).1 := by
  intro group
  rw [finishRead_fst, get?_update, get?_mapValues]
  by_cases hincomplete : group ∈ read.incompleteGroups
  · obtain ⟨state, hstate, hagrees⟩ := (hanswer group).1 hincomplete
    rw [hstate]
    refine ⟨fun _ => ⟨_, rfl, fun key => ?_⟩, fun hnot => absurd (h.incomplete group hincomplete) hnot⟩
    rw [StateFilter.get?_filterState, StateFilter.get?_filterState, hagrees key, StateFilter.get?_filterState]
    split
    · next hadmits => rw [if_pos (StateFilter.admits_returnExpanded hadmits)]
    · rfl
  · rw [(hanswer group).2 hincomplete]
    refine ⟨fun hgroup => ?_, fun hnot => ?_⟩
    · obtain ⟨state, hstate⟩ := (h.keys group).mpr hgroup
      exact ⟨state, hstate, h.complete group state hstate hincomplete⟩
    · exact Option.eq_none_iff_forall_ne_some.mpr fun state hstate => hnot ((h.keys group).mp ⟨state, hstate⟩)

namespace StateReads

/-- What holds of a reader. -/
def ReaderOk (truth : ℕ → StateMap String) : StateReader → Prop
  | .waiting read => read.Ok truth
  | .returned groups stateFilter state => Exact truth groups stateFilter state

structure Inv (truth : ℕ → StateMap String) (s : StateReads) : Prop where
  caches : Sound truth s.caches
  readers : ∀ reader r, s.readers.get? reader = some r → ReaderOk truth r

variable {s : StateReads}

theorem Inv.setReader (h : s.Inv truth) {caches : StateGroupCaches} (hcaches : Sound truth caches) (reader : ℕ)
    {r : StateReader} (hr : ReaderOk truth r) : Inv truth ⟨caches, s.readers.set reader r⟩ := by
  refine ⟨hcaches, fun reader' r' hr' => ?_⟩
  rcases of_get?_set hr' with ⟨-, rfl⟩ | ⟨-, hr'⟩
  · exact hr
  · exact h.readers reader' r' hr'

/-- **A step** raises nothing, where a reader waits for what it brings, and keeps the invariant. -/
theorem Inv.step (h : s.Inv truth) {a : StateReadsStep} (hpromised : Promised truth s a)
    (hwaits : ∀ reader answer, a = .finish reader answer → ∃ read, s.readers.get? reader = some (.waiting read)) :
    ∃ s', s.step orders a = some s' ∧ s'.Inv truth := by
  cases a with
  | start reader groups stateFilter keepNm keepM =>
    obtain ⟨read, caches', hrun, hsound, hgroups, hfilter, hok⟩ := startRead_spec orders h.caches keepNm
      keepM groups stateFilter
    have hreader : ReaderOk truth (if read.incompleteGroups = ∅ then .returned groups read.stateFilter read.state
        else .waiting read) := by
      split
      · next hempty =>
        -- nothing is incomplete
        subst hgroups
        refine fun group => ⟨fun hgroup => ?_, fun hnot => ?_⟩
        · obtain ⟨state, hstate⟩ := (hok.keys group).mpr hgroup
          exact ⟨state, hstate, hok.complete group state hstate (by simp [hempty])⟩
        · exact Option.eq_none_iff_forall_ne_some.mpr fun state hstate =>
            hnot ((hok.keys group).mp ⟨state, hstate⟩)
      · exact hok
    refine ⟨_, ?_, h.setReader hsound reader hreader⟩
    simp only [StateReads.step, hrun]
  | finish reader answer =>
    obtain ⟨read, hread⟩ := hwaits reader answer rfl
    have hexact := hpromised read hread
    have hok : read.Ok truth := h.readers reader _ hread
    have hfinished : Sound truth (finishRead orders s.caches read answer).2 := by
      refine h.caches.insertIntoCache orders (fun group state hstate => ?_) read.cacheSequenceM read.cacheSequenceNm
      by_cases hin : group ∈ read.incompleteGroups
      · obtain ⟨state', hstate', hagrees⟩ := (hexact group).1 hin
        rw [hstate] at hstate'
        cases hstate'
        exact hagrees
      · rw [(hexact group).2 hin] at hstate
        cases hstate
    have hreturned : ReaderOk truth (.returned read.groups read.stateFilter (finishRead orders s.caches read answer).1) :=
      hok.finish orders s.caches hexact
    refine ⟨_, ?_, h.setReader hfinished reader hreturned⟩
    simp only [StateReads.step, hread]
  | prefill cacheSequenceNm cacheSequenceM group currentStateIds =>
    have hbrings : ∀ members, CachedTable.Brings (part members (truth group)) none (part members currentStateIds) := by
      intro members key
      rw [get?_part, get?_part, hpromised key]
      exact ⟨fun _ heventId => heventId, fun _ => rfl⟩
    exact ⟨_, rfl, ⟨h.caches.nonMembers.update _ (hbrings false), h.caches.members.update _ (hbrings true)⟩,
      h.readers⟩
  | evict keepNm keepM =>
    exact ⟨_, rfl, ⟨h.caches.nonMembers.evict keepNm, h.caches.members.evict keepM⟩, h.readers⟩

theorem Reached.inv (h : Reached orders truth s) : s.Inv truth := by
  refine h.invariant ?_ ?_
  · rintro s rfl
    refine ⟨⟨truthful_new _, truthful_new _⟩, fun reader r hr => ?_⟩
    simp at hr
  rintro s t - hI ⟨a, hpromised, hstep⟩
  obtain ⟨t', ht', hI'⟩ := hI.step orders hpromised (by
    rintro reader answer rfl
    simp only [StateReads.step] at hstep
    split at hstep
    · next read hread => exact ⟨read, hread⟩
    · cases hstep)
  rw [hstep] at ht'
  cases ht'
  exact hI'

/-- **Cached reads are exact**: whatever the caches hold, a read that has returned has for each of its groups
what its filter admits of the state; and no read raises. -/
theorem cached_reads_exact {s : StateReads} (h : Reached orders truth s) :
    (∀ reader groups stateFilter state, s.readers.get? reader = some (.returned groups stateFilter state) →
      Exact truth groups stateFilter state) ∧
    (∀ reader groups stateFilter keepNm keepM,
      (s.step orders (.start reader groups stateFilter keepNm keepM)).isSome) ∧
    ∀ reader read answer, s.readers.get? reader = some (.waiting read) →
      (s.step orders (.finish reader answer)).isSome := by
  have hI := h.inv
  refine ⟨fun reader groups stateFilter state hr => hI.readers reader _ hr,
    fun reader groups stateFilter keepNm keepM => ?_, fun reader read answer hread => ?_⟩
  · obtain ⟨s', hs', -⟩ := hI.step orders (a := .start reader groups stateFilter keepNm keepM) trivial
      (by rintro _ _ ⟨⟩)
    rw [hs']
    rfl
  · simp only [StateReads.step, hread, Option.isSome_some]

/-- What an exact database returns. -/
def databaseAnswer (orders : SetOrders) (truth : ℕ → StateMap String) (read : StateRead) :
    Dict ℕ (StateMap String) :=
  .ofKeys (orders.groups.list read.incompleteGroups) fun group =>
    read.stateFilter.returnExpanded.filterState (truth group)

theorem exact_databaseAnswer (read : StateRead) :
    Exact truth read.incompleteGroups read.stateFilter.returnExpanded (databaseAnswer orders truth read) := by
  intro group
  rw [databaseAnswer, get?_ofKeys]
  exact ⟨fun hin => ⟨_, if_pos (orders.groups.mem_list.mpr hin), fun _ => rfl⟩,
    fun hnot => if_neg fun hin => hnot (orders.groups.mem_list.mp hin)⟩

/-- A room, its creator and another member. -/
def exampleTruth (_ : ℕ) : StateMap String :=
  ⟨[(("m.room.create", ""), "$c"), (("m.room.member", "@a:x"), "$a"), (("m.room.member", "@b:x"), "$b")], by decide⟩

def exampleOrders : SetOrders := ⟨.sorted String, .sorted ℕ⟩

/-- One group is there from the start, another is fetched. -/
theorem cached_reads_exact_example : ∃ s : StateReads, Reached exampleOrders exampleTruth s ∧
    ∃ state, s.readers.get? 0 = some (.returned {1, 2} .all state) ∧ Exact exampleTruth {1, 2} .all state := by
  let s₁ : StateReads := ⟨Storage.prefill ⟨.new, .new⟩ 0 0 1 (exampleTruth 1), .empty⟩
  have h₁ : Reached exampleOrders exampleTruth s₁ := .next (.start rfl) ⟨.prefill 0 0 1 (exampleTruth 1), fun _ => rfl, rfl⟩
  obtain ⟨s₂, hs₂⟩ := Option.isSome_iff_exists.mp
    ((cached_reads_exact exampleOrders h₁).2.1 0 {1, 2} none (fun _ _ => true) fun _ _ => true)
  have h₂ : Reached exampleOrders exampleTruth s₂ := .next h₁
    ⟨.start 0 {1, 2} none (fun _ _ => true) fun _ _ => true, trivial, hs₂⟩
  obtain ⟨read, hread, hgroups, hfilter⟩ : ∃ read, s₂.readers.get? 0 = some (.waiting read) ∧
      read.groups = {1, 2} ∧ read.stateFilter = .all := by
    obtain ⟨read, caches', hrun, -, hgroups, hfilter, hok⟩ := startRead_spec exampleOrders (h₁.inv exampleOrders).caches
      (fun _ _ => true) (fun _ _ => true) {1, 2} none
    have hincomplete : (startRead exampleOrders (fun _ _ => true) (fun _ _ => true) s₁.caches {1, 2} none).toOption.map
        (fun r => r.1.incompleteGroups) = some {2} := by decide +kernel
    rw [hrun] at hincomplete
    have hne : read.incompleteGroups ≠ ∅ := by
      rw [show read.incompleteGroups = {2} from Option.some.inj hincomplete]
      exact Finset.singleton_ne_empty 2
    simp only [step, hrun, if_neg hne, Option.some.injEq] at hs₂
    refine ⟨read, ?_, hgroups, hfilter⟩
    rw [← hs₂, Dict.get?_set, if_pos rfl]
  have h₃ : Reached exampleOrders exampleTruth _ := .next h₂ ⟨.finish 0 (databaseAnswer exampleOrders exampleTruth read),
    fun read' hread' => by
      rw [hread] at hread'
      cases hread'
      exact exact_databaseAnswer exampleOrders read, by simp only [step, hread]; rfl⟩
  refine ⟨_, h₃, ?_⟩
  rw [Dict.get?_set, if_pos rfl, hgroups, hfilter]
  refine ⟨_, rfl, (cached_reads_exact exampleOrders h₃).1 0 {1, 2} .all _ ?_⟩
  rw [Dict.get?_set, if_pos rfl, hgroups, hfilter]

end StateReads

end Setka.Storage
