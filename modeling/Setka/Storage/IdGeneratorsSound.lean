/-
# Setka.Storage.IdGeneratorsSound — the invariant of one id generator.

`pending n` is the set of ids that writer `n` has been allocated and has not finished. `Sound` says
how the five pieces of a generator's state relate to these sets: which positions lie below which
writer's pending ids, and which numbers can be no pending id of anyone (they are *settled*). Every
critical section keeps `Sound`, whatever the other writers do in between; the two worlds built on
this module only have to supply the steps.
-/
import Setka.Lib.Watermark
import Setka.Storage.IdGenerators

namespace Setka.Storage.IdGenerators

open Setka.Lib MultiWriterIdGenerator Dict
open Multiset (mem_cons_of_mem mem_map_of_mem mem_cons_self)

/-! ## §1 Fetches in progress -/

/-- How far a call of `_load_next_mult_id_txn` has come: it has recorded its in-flight entry, the
sequence has handed it ids, or it has added them to the unfinished ids. -/
inductive FetchPhase
  | started
  | fetched (ids : List Int)
  | added

/-- A call of `_load_next_mult_id_txn` in progress, with its local variable `current_max`. -/
structure Fetch where
  currentMax : Int
  phase : FetchPhase

/-- The ids a call holds that are not yet in the unfinished set. -/
def Fetch.ids (f : Fetch) : List Int :=
  match f.phase with
  | .fetched ids => ids
  | _ => []

/-! ## §2 The invariant -/

/-- A number that the stream has reached and that is no pending id. -/
def Settled (pending : String → Finset Int) (last v : Int) : Prop :=
  v ≤ last ∧ ∀ n, v ∉ pending n

/-- The invariant of one generator among the `writers` of a stream, whose sequence stands at
`last`. -/
structure Sound (writers : List String) (pending : String → Finset Int) (last : Int)
    (fetches : Multiset Fetch) (g : MultiWriterIdGenerator) : Prop where
  one_le_last : 1 ≤ last
  pending_writer : ∀ n, (pending n).Nonempty → n ∈ writers
  in_flight : g.inFlightFetches = fetches.map Fetch.currentMax
  in_flight_le : ∀ c ∈ g.inFlightFetches, c ≤ last
  own_pending : ∀ u ∈ pending g.instanceName, u ∈ g.unfinishedIds ∨ ∃ f ∈ fetches, u ∈ f.ids ∧ f.currentMax < u
  fetch_ids : ∀ f ∈ fetches, ∀ u ∈ f.ids, u ≤ last ∧ ∀ n ≠ g.instanceName, u ∉ pending n
  unfinished : ∀ u ∈ g.unfinishedIds, u ≤ last ∧ ∀ n ≠ g.instanceName, u ∉ pending n
  known : ∀ n ∈ writers, n ∈ g.currentPositions.keys
  own_position : g.instanceName ∈ writers → ∃ p, g.currentPositions.get? g.instanceName = some p ∧ 1 ≤ p
  own_settled : ∀ p, g.currentPositions.get? g.instanceName = some p → Settled pending last p
  positions : ∀ n p, g.currentPositions.get? n = some p → Clear (pending n) p ∧ p ≤ last
  upto : (∀ n, Clear (pending n) g.persistedUptoPosition) ∧ g.persistedUptoPosition ≤ last
  local_max : Clear (pending g.instanceName) g.maxPositionOfLocalInstance ∧
    Settled pending last g.maxPositionOfLocalInstance
  max_seen : g.maxSeenAllocatedStreamId ≤ last ∧
    ∀ n ≠ g.instanceName, g.maxSeenAllocatedStreamId ∉ pending n
  finished : ∀ u ∈ g.finishedIds, Settled pending last u
  heap : ∀ u ∈ g.knownPersistedPositions, Settled pending last u

namespace Settled

variable {pending pending' : String → Finset Int} {last last' v w : Int}

theorem of_clear (h : ∀ n, Clear (pending n) v) (hv : v ≤ last) : Settled pending last v :=
  ⟨hv, fun n => (h n).notMem⟩

theorem max (hv : Settled pending last v) (hw : Settled pending last w) : Settled pending last (max v w) := by
  rcases max_choice v w with h | h <;> rwa [h]

/-- Settled numbers stay settled when pending ids finish and when fresh ids are allocated. -/
theorem mono (h : Settled pending last v) (hl : last ≤ last')
    (hp : ∀ n, ∀ u ∈ pending' n, u ∈ pending n ∨ last < u) : Settled pending' last' v := by
  refine ⟨h.1.trans hl, fun n hv => ?_⟩
  rcases hp n v hv with hm | hlt
  · exact h.2 n hm
  · exact absurd h.1 (not_le.mpr hlt)

end Settled

variable {s : Finset Int} {last v : Int}

/-- The same for clear positions. -/
theorem clear_mono {t : Finset Int} (h : Clear s v) (hv : v ≤ last)
    (hp : ∀ u ∈ t, u ∈ s ∨ last < u) : Clear t v := by
  intro u hu
  rcases hp u hu with hm | hlt
  · exact h u hm
  · exact lt_of_le_of_lt hv hlt

/-! ## §3 Small facts about the containers -/

theorem mem_of_greatest (h : greatest s = some v) : v ∈ s := by
  unfold greatest at h
  split at h
  · obtain rfl := Option.some.inj h
    exact s.max'_mem _
  · cases h

theorem le_of_least {u : Int} (h : least s = some v) (hu : u ∈ s) : v ≤ u := by
  unfold least at h
  split at h
  · obtain rfl := Option.some.inj h
    exact s.min'_le u hu
  · cases h

theorem least_eq_none (h : least s = none) : s = ∅ := by
  unfold least at h
  split at h
  · cases h
  · exact Finset.not_nonempty_iff_eq_empty.mp ‹_›

/-- `min_unfinished` is at most every unfinished id and at most one above every in-flight entry. -/
theorem minUnfinished_le {m : Multiset Int} {b : Int}
    (h : minUnfinished s m = some b) : (∀ u ∈ s, b ≤ u) ∧ ∀ c ∈ m, b ≤ c + 1 := by
  unfold minUnfinished at h
  have hmem : ∀ {c}, c ∈ m → c ∈ m.toFinset := fun h => Multiset.mem_toFinset.mpr h
  cases hs : least s with
  | none =>
    have hs0 := least_eq_none hs
    cases hm : least m.toFinset with
    | none => simp [hs, hm] at h
    | some f =>
      simp only [hs, hm, Option.some.injEq] at h
      refine ⟨by simp [hs0], fun c hc => ?_⟩
      have := le_of_least hm (hmem hc)
      omega
  | some u =>
    cases hm : least m.toFinset with
    | none =>
      simp only [hs, hm, Option.some.injEq] at h
      refine ⟨fun v hv => h ▸ le_of_least hs hv, fun c hc => ?_⟩
      have hc0 := hmem hc
      simp [least_eq_none hm] at hc0
    | some f =>
      simp only [hs, hm, Option.some.injEq] at h
      refine ⟨fun v hv => ?_, fun c hc => ?_⟩
      · have := le_of_least hs hv
        omega
      · have := le_of_least hm (hmem hc)
        omega

/-- No lower bound is computed only when nothing is unfinished and nothing is in flight. -/
theorem minUnfinished_eq_none {m : Multiset Int} (h : minUnfinished s m = none) : s = ∅ ∧ m = 0 := by
  unfold minUnfinished at h
  cases hs : least s with
  | some u => cases hm : least m.toFinset <;> simp [hs, hm] at h
  | none =>
    cases hm : least m.toFinset with
    | some f => simp [hs, hm] at h
    | none => exact ⟨least_eq_none hs, by simpa using least_eq_none hm⟩

/-! ## §4 `_add_persisted_position` keeps the invariant -/

/-- The draining loop only keeps heap entries, and a property that passes from `v` to `v + 1` over a
heap entry passes from the old persisted position to the new one. -/
theorem drain_spec {P : Int → Prop} : ∀ (heap : List Int) (upto : Int),
    (∀ v, P v → v + 1 ∈ heap → P (v + 1)) → P upto → P (drain heap upto).2 ∧ ∀ u ∈ (drain heap upto).1, u ∈ heap
  | [], _, _, h => ⟨h, fun _ hu => hu⟩
  | p :: ps, upto, hstep, h => by
      have hps : ∀ v, P v → v + 1 ∈ ps → P (v + 1) := fun v hv hm =>
        hstep v hv (List.mem_cons_of_mem _ hm)
      unfold drain
      split
      · obtain ⟨h1, h2⟩ := drain_spec ps upto hps h
        exact ⟨h1, fun u hu => List.mem_cons_of_mem _ (h2 u hu)⟩
      split
      · rename_i hp
        have hup : P (upto + 1) := hstep upto h (by simp [hp])
        obtain ⟨h1, h2⟩ := drain_spec ps (upto + 1) hps hup
        exact ⟨h1, fun u hu => List.mem_cons_of_mem _ (h2 u hu)⟩
      · exact ⟨h, fun u hu => hu⟩

section Operations

variable {writers : List String} {pending : String → Finset Int} {last : Int}
  {fetches : Multiset Fetch} {g : MultiWriterIdGenerator}

/-- When this instance has nothing unfinished and nothing in flight, none of its ids is pending. -/
theorem Sound.own_empty_of_idle (h : Sound writers pending last fetches g) (hidle : ¬ g.Busy) :
    pending g.instanceName = ∅ := by
  simp only [Busy, ne_eq, not_or, not_not] at hidle
  refine Finset.eq_empty_of_forall_notMem fun u hu => ?_
  rcases h.own_pending u hu with hm | ⟨f, hf, -, -⟩
  · simp [hidle.1] at hm
  have hmem : f.currentMax ∈ g.inFlightFetches := by
    rw [h.in_flight]
    exact mem_map_of_mem _ hf
  simp [hidle.2] at hmem

theorem mem_otherTokens {g : MultiWriterIdGenerator} {v : Int} :
    v ∈ g.otherTokens ↔ ∃ n ≠ g.instanceName, g.currentPositions.get? n = some v := by
  simp only [otherTokens, List.mem_map, List.mem_filter, decide_eq_true_eq, get?_eq_some_iff]
  constructor
  · rintro ⟨⟨n, v⟩, ⟨h, hn⟩, rfl⟩
    exact ⟨n, hn, h⟩
  · rintro ⟨n, hn, h⟩
    exact ⟨(n, v), ⟨h, hn⟩, rfl⟩

/-- What `min(tokens of the others, default=own)` evaluates to. -/
theorem minD_otherTokens (g : MultiWriterIdGenerator) (d : Int) :
    (minD g.otherTokens d = d ∧ ∀ n ≠ g.instanceName, g.currentPositions.get? n = none) ∨
    ((∃ n ≠ g.instanceName, g.currentPositions.get? n = some (minD g.otherTokens d)) ∧
      ∀ n ≠ g.instanceName, ∀ p, g.currentPositions.get? n = some p → minD g.otherTokens d ≤ p) := by
  unfold minD
  cases hm : g.otherTokens.min? with
  | none =>
    left
    refine ⟨rfl, fun n hn => ?_⟩
    have hnil : g.otherTokens = [] := List.min?_eq_none_iff.mp hm
    rw [Option.eq_none_iff_forall_ne_some]
    intro p hp
    have : p ∈ g.otherTokens := mem_otherTokens.mpr ⟨n, hn, hp⟩
    simp [hnil] at this
  | some v =>
    right
    obtain ⟨hv, hle⟩ := List.min?_eq_some_iff.mp hm
    exact ⟨mem_otherTokens.mp hv, fun n hn p hp => hle p (mem_otherTokens.mpr ⟨n, hn, hp⟩)⟩

theorem minCurr_le (g : MultiWriterIdGenerator) :
    g.minCurr ≤ minD g.otherTokens (g.currentPositions.getD g.instanceName 0) := by
  dsimp only [minCurr]
  split
  · exact min_le_left _ _
  · exact le_rfl

/-- Below the entry of a writer with pending ids: the others through the minimum, this instance
because it is busy whenever it has pending ids. -/
theorem Sound.minCurr_le_entry (h : Sound writers pending last fetches g) {n : String}
    (hn : (pending n).Nonempty) {p : Int} (hp : g.currentPositions.get? n = some p) :
    g.minCurr ≤ p := by
  by_cases hself : n = g.instanceName
  · subst hself
    obtain ⟨q, hq, hq1⟩ := h.own_position (h.pending_writer _ hn)
    obtain rfl : q = p := Option.some.inj (hq.symm.trans hp)
    have hbusy : g.Busy := by
      by_contra hidle
      exact hn.ne_empty (h.own_empty_of_idle hidle)
    have hgd := getD_of_get? hp (0 : Int)
    have hne : g.currentPositions.getD g.instanceName 0 ≠ 0 := by omega
    dsimp only [minCurr]
    rw [if_pos ⟨hne, hbusy⟩, hgd]
    exact min_le_right _ _
  · refine (minCurr_le g).trans ?_
    rcases minD_otherTokens g (g.currentPositions.getD g.instanceName 0) with
      ⟨-, hnone⟩ | ⟨-, hmin⟩
    · rw [hnone n hself] at hp
      cases hp
    · exact hmin n hself p hp

/-- **The lower bound taken from the current positions is clear of everyone's pending ids.** -/
theorem Sound.minCurr_clear (h : Sound writers pending last fetches g) :
    (∀ n, Clear (pending n) g.minCurr) ∧ g.minCurr ≤ last := by
  constructor
  · intro n u hu
    obtain ⟨p, hp⟩ := mem_keys_iff.mp (h.known n (h.pending_writer n ⟨u, hu⟩))
    exact ((h.positions n p hp).1.le (h.minCurr_le_entry ⟨u, hu⟩ hp)) u hu
  refine (minCurr_le g).trans ?_
  rcases minD_otherTokens g (g.currentPositions.getD g.instanceName 0) with
    ⟨hd, -⟩ | ⟨⟨m, -, hm⟩, -⟩
  · rw [hd]
    cases hown : g.currentPositions.get? g.instanceName with
    | none =>
      have := h.one_le_last
      simp only [Dict.getD, hown, Option.getD_none]
      omega
    | some p =>
      rw [getD_of_get? hown]
      exact (h.positions _ p hown).2
  · exact (h.positions m _ hm).2

/-- **`_add_persisted_position` keeps the invariant** when the new position is settled. -/
theorem Sound.addPersistedPosition (h : Sound writers pending last fetches g) {newId : Int}
    (hnew : Settled pending last newId) :
    Sound writers pending last fetches (g.addPersistedPosition newId) := by
  obtain ⟨hmin, hminle⟩ := h.minCurr_clear
  have hheap : ∀ u ∈ g.knownPersistedPositions.orderedInsert (· ≤ ·) newId, Settled pending last u := by
    intro u hu
    rcases (List.mem_orderedInsert (r := (· ≤ ·))).mp hu with rfl | hu
    · exact hnew
    · exact h.heap u hu
  have hbase : (∀ n, Clear (pending n) (max g.minCurr g.persistedUptoPosition)) ∧
      max g.minCurr g.persistedUptoPosition ≤ last :=
    ⟨fun n => (hmin n).max (h.upto.1 n), max_le hminle h.upto.2⟩
  obtain ⟨hupto, hsub⟩ := drain_spec (P := fun v => (∀ n, Clear (pending n) v) ∧ v ≤ last)
    (g.knownPersistedPositions.orderedInsert (· ≤ ·) newId)
    (max g.minCurr g.persistedUptoPosition)
    (fun v hv hm => ⟨fun n => (hv.1 n).succ ((hheap _ hm).2 n), (hheap _ hm).1⟩) hbase
  have hlocal : Clear (pending g.instanceName)
        (max g.maxPositionOfLocalInstance (max g.minCurr g.persistedUptoPosition)) ∧
      Settled pending last (max g.maxPositionOfLocalInstance (max g.minCurr g.persistedUptoPosition)) :=
    ⟨h.local_max.1.max (hbase.1 _), h.local_max.2.max (Settled.of_clear hbase.1 hbase.2)⟩
  refine { h with
      upto := hupto
      heap := fun u hu => hheap u (hsub u hu)
      local_max := ?_ }
  simp only [MultiWriterIdGenerator.addPersistedPosition]
  split
  · exact hlocal
  -- nothing in flight here: no own id is pending, so the highest id seen is settled
  rename_i hidle
  have hemp := h.own_empty_of_idle hidle
  have hseen : Settled pending last g.maxSeenAllocatedStreamId := by
    refine ⟨h.max_seen.1, fun n => ?_⟩
    by_cases hn : n = g.instanceName
    · subst hn
      simp [hemp]
    · exact h.max_seen.2 n hn
  refine ⟨?_, hseen.max hlocal.2⟩
  rw [hemp]
  exact Clear.empty _

variable {ids : List Int}

theorem Sound.foldl_addPersistedPosition : ∀ {g : MultiWriterIdGenerator}, Sound writers pending last fetches g →
      (∀ u ∈ ids, Settled pending last u) →
      Sound writers pending last fetches (ids.foldl MultiWriterIdGenerator.addPersistedPosition g) := by
  induction ids with
  | nil => exact fun h _ => h
  | cons a t ih =>
    intro g h hids
    exact ih (h.addPersistedPosition (hids a (by simp))) fun u hu => hids u (List.mem_cons_of_mem _ hu)

/-! ## §5 The other critical sections -/

variable {pending' : String → Finset Int}

/-- What other writers do, and fresh ids of this one that some call in progress holds, keep the
invariant: pending ids may finish and ids above `last` may become pending. -/
theorem Sound.mono (h : Sound writers pending last fetches g) {last' : Int} {fetches' : Multiset Fetch}
    (hl : last ≤ last') (hp : ∀ n, ∀ u ∈ pending' n, u ∈ pending n ∨ last < u)
    (hw : ∀ n, (pending' n).Nonempty → n ∈ writers)
    (hmap : fetches'.map Fetch.currentMax = fetches.map Fetch.currentMax) (hown : ∀ u ∈ pending' g.instanceName,
      u ∈ g.unfinishedIds ∨ ∃ f ∈ fetches', u ∈ f.ids ∧ f.currentMax < u)
    (hids : ∀ f ∈ fetches', ∀ u ∈ f.ids, u ≤ last' ∧ ∀ n ≠ g.instanceName, u ∉ pending' n) :
    Sound writers pending' last' fetches' g where
  one_le_last := h.one_le_last.trans hl
  pending_writer := hw
  in_flight := h.in_flight.trans hmap.symm
  in_flight_le := fun c hc => (h.in_flight_le c hc).trans hl
  own_pending := hown
  fetch_ids := hids
  unfinished := fun u hu => by
    obtain ⟨h1, h2⟩ := h.unfinished u hu
    refine ⟨h1.trans hl, fun n hn hm => ?_⟩
    rcases hp n u hm with hm | hlt
    · exact h2 n hn hm
    · omega
  known := h.known
  own_position := h.own_position
  own_settled := fun p hg => (h.own_settled p hg).mono hl hp
  positions := fun n p hg => by
    obtain ⟨h1, h2⟩ := h.positions n p hg
    exact ⟨clear_mono h1 h2 (hp n), h2.trans hl⟩
  upto := ⟨fun n => clear_mono (h.upto.1 n) h.upto.2 (hp n), h.upto.2.trans hl⟩
  local_max := ⟨clear_mono h.local_max.1 h.local_max.2.1 (hp _), h.local_max.2.mono hl hp⟩
  max_seen := by
    obtain ⟨h1, h2⟩ := h.max_seen
    refine ⟨h1.trans hl, fun n hn hm => ?_⟩
    rcases hp n _ hm with hm | hlt
    · exact h2 n hn hm
    · omega
  finished := fun u hu => (h.finished u hu).mono hl hp
  heap := fun u hu => (h.heap u hu).mono hl hp

/-- The first section of a fetch. -/
theorem Sound.enterFetch (h : Sound writers pending last fetches g) :
    Sound writers pending last (⟨g.maxSeenAllocatedStreamId, .started⟩ ::ₘ fetches) g.enterFetch :=
  { h with
    in_flight := by simp [MultiWriterIdGenerator.enterFetch, h.in_flight]
    in_flight_le := fun c hc => by
      rcases Multiset.mem_cons.mp hc with rfl | hc
      · exact h.max_seen.1
      · exact h.in_flight_le c hc
    own_pending := fun u hu => by
      rcases h.own_pending u hu with hm | ⟨f, hf, hu', hlt⟩
      · exact Or.inl hm
      · exact Or.inr ⟨f, mem_cons_of_mem hf, hu', hlt⟩
    fetch_ids := fun f hf u hu => by
      rcases Multiset.mem_cons.mp hf with rfl | hf
      · simp [Fetch.ids] at hu
      · exact h.fetch_ids f hf u hu }

variable {m : Int} {rest : Multiset Fetch}

/-- The second section: the ids a call holds become unfinished ids. -/
theorem Sound.addFetchedIds (h : Sound writers pending last (⟨m, .fetched ids⟩ ::ₘ rest) g)
    {g' : MultiWriterIdGenerator} (hg : g.addFetchedIds ids = some g') :
    Sound writers pending last (⟨m, .added⟩ ::ₘ rest) g' := by
  have hheld := h.fetch_ids _ (mem_cons_self _ _)
  unfold MultiWriterIdGenerator.addFetchedIds at hg
  cases htop : greatest (g.unfinishedIds ∪ ids.toFinset) with
  | none => simp [htop] at hg
  | some top =>
    simp only [htop, Option.some.injEq] at hg
    subst hg
    have hun : ∀ u ∈ g.unfinishedIds ∪ ids.toFinset, u ≤ last ∧ ∀ n ≠ g.instanceName, u ∉ pending n := by
      intro u hu
      rcases Finset.mem_union.mp hu with hu | hu
      · exact h.unfinished u hu
      · exact hheld u (by simpa [Fetch.ids] using hu)
    have htopmem := hun top (mem_of_greatest htop)
    refine { h with
        in_flight := by simpa using h.in_flight
        own_pending := ?_
        fetch_ids := ?_
        unfinished := hun
        max_seen := ?_ }
    · intro u hu
      rcases h.own_pending u hu with hm | ⟨f, hf, hu', hlt⟩
      · exact Or.inl (Finset.mem_union_left _ hm)
      rcases Multiset.mem_cons.mp hf with rfl | hf
      · exact Or.inl (Finset.mem_union_right _ (by simpa [Fetch.ids] using hu'))
      · exact Or.inr ⟨f, mem_cons_of_mem hf, hu', hlt⟩
    · intro f hf u hu
      rcases Multiset.mem_cons.mp hf with rfl | hf
      · simp [Fetch.ids] at hu
      · exact h.fetch_ids f (mem_cons_of_mem hf) u hu
    · refine ⟨max_le h.max_seen.1 htopmem.1, fun n hn => ?_⟩
      rcases max_choice g.maxSeenAllocatedStreamId top with hc | hc <;> rw [hc]
      · exact h.max_seen.2 n hn
      · exact htopmem.2 n hn

/-- `_unfinished_ids[-1]` raises only when the sequence handed over nothing. -/
theorem addFetchedIds_eq_none {g : MultiWriterIdGenerator} (hg : g.addFetchedIds ids = none) : ids = [] := by
  unfold MultiWriterIdGenerator.addFetchedIds at hg
  cases htop : greatest (g.unfinishedIds ∪ ids.toFinset) with
  | some top => simp [htop] at hg
  | none =>
    unfold greatest at htop
    split at htop
    · cases htop
    rename_i hne
    have hemp := Finset.not_nonempty_iff_eq_empty.mp hne
    simpa using (Finset.union_eq_empty.mp hemp).2

/-- The second section when it raises: the call goes on to its `finally` branch with nothing. -/
theorem Sound.addFetchedIdsRaises (h : Sound writers pending last (⟨m, .fetched ids⟩ ::ₘ rest) g)
    (hg : g.addFetchedIds ids = none) : Sound writers pending last (⟨m, .added⟩ ::ₘ rest) g := by
  have hnil := addFetchedIds_eq_none hg
  refine h.mono le_rfl (fun n u hu => Or.inl hu) h.pending_writer (by simp) ?_ ?_
  · intro u hu
    rcases h.own_pending u hu with hm | ⟨f, hf, hu', hlt⟩
    · exact Or.inl hm
    rcases Multiset.mem_cons.mp hf with rfl | hf
    · simp [Fetch.ids, hnil] at hu'
    · exact Or.inr ⟨f, mem_cons_of_mem hf, hu', hlt⟩
  · intro f hf u hu
    rcases Multiset.mem_cons.mp hf with rfl | hf
    · simp [Fetch.ids] at hu
    · exact h.fetch_ids f (mem_cons_of_mem hf) u hu

/-- Between the sections: the sequence hands a waiting call ids above everything in use. -/
theorem Sound.sequenceFetch (h : Sound writers pending last (⟨m, .started⟩ ::ₘ rest) g) {last' : Int}
    (hl : last ≤ last') (hids : ∀ u ∈ ids, last < u ∧ u ≤ last') (hw : g.instanceName ∈ writers)
    (hother : ∀ n ≠ g.instanceName, pending' n = pending n)
    (hself : ∀ u ∈ pending' g.instanceName, u ∈ pending g.instanceName ∨ u ∈ ids)
    (hfresh : ∀ n ≠ g.instanceName, ∀ u ∈ pending n, u ≤ last) :
    Sound writers pending' last' (⟨m, .fetched ids⟩ ::ₘ rest) g := by
  have hm : m ≤ last := h.in_flight_le m (by rw [h.in_flight]; simp)
  refine h.mono hl ?_ ?_ (by simp) ?_ ?_
  · intro n u hu
    by_cases hn : n = g.instanceName
    · subst hn
      rcases hself u hu with hu | hu
      · exact Or.inl hu
      · exact Or.inr (hids u hu).1
    · exact Or.inl (hother n hn ▸ hu)
  · intro n hne
    by_cases hn : n = g.instanceName
    · exact hn ▸ hw
    · exact h.pending_writer n (hother n hn ▸ hne)
  · intro u hu
    rcases hself u hu with hu | hu
    · rcases h.own_pending u hu with hm | ⟨f, hf, hu', hlt⟩
      · exact Or.inl hm
      · rcases Multiset.mem_cons.mp hf with rfl | hf
        · simp [Fetch.ids] at hu'
        · exact Or.inr ⟨f, mem_cons_of_mem hf, hu', hlt⟩
    · have hlt := (hids u hu).1
      exact Or.inr ⟨_, mem_cons_self _ _, by simpa [Fetch.ids] using hu, show m < u by omega⟩
  · intro f hf u hu
    rcases Multiset.mem_cons.mp hf with rfl | hf
    · have hu' : u ∈ ids := by simpa [Fetch.ids] using hu
      refine ⟨(hids u hu').2, fun n hn hm => ?_⟩
      rw [hother n hn] at hm
      have h1 := hfresh n hn u hm
      have h2 := (hids u hu').1
      omega
    · obtain ⟨h1, h2⟩ := h.fetch_ids f (mem_cons_of_mem hf) u hu
      exact ⟨h1.trans hl, fun n hn => by rw [hother n hn]; exact h2 n hn⟩

/-- The third section: the in-flight entry goes once the call holds no ids any more. -/
theorem Sound.leaveFetch {f : Fetch} {rest : Multiset Fetch}
    (h : Sound writers pending last (f ::ₘ rest) g) (hf : f.ids = []) :
    Sound writers pending last rest (g.leaveFetch f.currentMax) :=
  { h with
    in_flight := by simp [MultiWriterIdGenerator.leaveFetch, h.in_flight]
    in_flight_le := fun c hc => h.in_flight_le c (Multiset.mem_of_mem_erase hc)
    own_pending := fun u hu => by
      rcases h.own_pending u hu with hm | ⟨f', hf', hu', hlt⟩
      · exact Or.inl hm
      rcases Multiset.mem_cons.mp hf' with rfl | hf'
      · simp [hf] at hu'
      · exact Or.inr ⟨f', hf', hu', hlt⟩
    fetch_ids := fun f' hf' => h.fetch_ids f' (mem_cons_of_mem hf') }

/-- `advance` to a position that is settled and clear of the named writer's pending ids. -/
theorem Sound.advance (h : Sound writers pending last fetches g) {name : String} {newId : Int}
    (hname : name ≠ g.instanceName) (hclear : Clear (pending name) (newId * g.returnFactor))
    (hnew : Settled pending last (newId * g.returnFactor)) :
    Sound writers pending last fetches (g.advance name newId) := by
  refine Sound.addPersistedPosition ?_ hnew
  refine { h with
      known := fun n hn => mem_keys_set.mpr (Or.inr (h.known n hn))
      own_position := fun hw => by
        obtain ⟨p, hp, hp1⟩ := h.own_position hw
        exact ⟨p, by simp [hname.symm, hp], hp1⟩
      own_settled := fun p hp => h.own_settled p (by simpa [hname.symm] using hp)
      positions := ?_
      max_seen := ?_ }
  · intro n p hp
    simp only [get?_set] at hp
    split at hp
    · rename_i hn
      subst hn
      obtain rfl := Option.some.inj hp
      cases hold : g.currentPositions.get? n with
      | some q =>
        obtain ⟨h1, h2⟩ := h.positions n q hold
        rw [getD_of_get? hold]
        exact ⟨hclear.max h1, max_le hnew.1 h2⟩
      | none =>
        -- an unknown name is no writer of the stream and has no pending ids
        have hemp : pending n = ∅ := by
          by_contra hne
          have hw := h.pending_writer n (Finset.nonempty_iff_ne_empty.mpr hne)
          exact get?_eq_none_iff.mp hold (h.known n hw)
        have hlast := h.one_le_last
        have hnew1 := hnew.1
        simp only [Dict.getD, hold, Option.getD_none, hemp]
        exact ⟨Clear.empty _, max_le hnew1 (by omega)⟩
    · exact h.positions n p hp
  · refine ⟨max_le h.max_seen.1 hnew.1, fun n hn => ?_⟩
    rcases max_choice g.maxSeenAllocatedStreamId (newId * g.returnFactor) with hc | hc <;> rw [hc]
    · exact h.max_seen.2 n hn
    · exact hnew.2 n

/-! ## §6 `_mark_ids_as_finished` keeps the invariant -/

/-- The new position is a finished id below the bound, and what remains was finished before. -/
theorem finishedSplit_spec {finished remaining : Finset Int} {bound newCur : Option Int}
    (h : finishedSplit finished bound = some (newCur, remaining)) :
    remaining ⊆ finished ∧
      ∀ c, newCur = some c → c ∈ finished ∧ ∀ b, bound = some b → c < b := by
  cases bound with
  | some b =>
    obtain ⟨rfl, rfl⟩ := h
    refine ⟨Finset.filter_subset _ _, fun c hc => ?_⟩
    obtain ⟨h1, h2⟩ := Finset.mem_filter.mp (mem_of_greatest hc)
    exact ⟨h1, fun b' hb => by rwa [← Option.some.inj hb]⟩
  | none =>
    cases htop : greatest finished with
    | none => simp [finishedSplit, htop] at h
    | some top =>
      simp only [finishedSplit, htop, Option.some.injEq, Prod.mk.injEq] at h
      obtain ⟨rfl, rfl⟩ := h
      refine ⟨Finset.empty_subset _, fun c hc => ?_⟩
      obtain rfl := Option.some.inj hc
      exact ⟨mem_of_greatest htop, fun b hb => by cases hb⟩

/-- Recording a new local position that is settled and clear of the own pending ids. -/
theorem Sound.moveLocalPosition (h : Sound writers pending last fetches g)
    (hw : g.instanceName ∈ writers) {newCur : Option Int}
    (hcur : ∀ c, newCur = some c → Clear (pending g.instanceName) c ∧ Settled pending last c) :
    Sound writers pending last fetches (g.moveLocalPosition newCur) := by
  cases newCur with
  | none => exact h
  | some c =>
    obtain ⟨hclear, hset⟩ := hcur c rfl
    unfold MultiWriterIdGenerator.moveLocalPosition
    dsimp only
    split
    · exact h
    have hnew : Clear (pending g.instanceName) (max (g.currentPositions.getD g.instanceName 0) c) ∧
        Settled pending last (max (g.currentPositions.getD g.instanceName 0) c) := by
      obtain ⟨q, hold, -⟩ := h.own_position hw
      rw [getD_of_get? hold]
      exact ⟨(h.positions _ q hold).1.max hclear, (h.own_settled q hold).max hset⟩
    refine { h with
        known := fun n hn => mem_keys_set.mpr (Or.inr (h.known n hn))
        own_position := fun _ => ?_
        own_settled := fun p hp => ?_
        positions := fun n p hp => ?_
        local_max := ⟨hnew.1.max h.local_max.1, hnew.2.max h.local_max.2⟩ }
    · obtain ⟨q, hq, hq1⟩ := h.own_position hw
      refine ⟨max (g.currentPositions.getD g.instanceName 0) c, by simp, ?_⟩
      rw [getD_of_get? hq]
      exact hq1.trans (le_max_left _ _)
    · simp only [get?_set, if_pos, Option.some.injEq] at hp
      exact hp ▸ hnew.2
    · simp only [get?_set] at hp
      split at hp
      · rename_i hn
        obtain rfl := Option.some.inj hp
        rw [hn]
        exact ⟨hnew.1, hnew.2.1⟩
      · exact h.positions n p hp

/-- **`_mark_ids_as_finished` keeps the invariant** for ids that belong to this instance. -/
theorem Sound.markIdsAsFinished (h : Sound writers pending last fetches g) (hw : g.instanceName ∈ writers)
    {g' : MultiWriterIdGenerator} (hg : g.markIdsAsFinished ids = some g')
    (hids : ∀ u ∈ ids, u ≤ last ∧ ∀ n ≠ g.instanceName, u ∉ pending n)
    (hother : ∀ n ≠ g.instanceName, pending' n = pending n)
    (hself : pending' g.instanceName = pending g.instanceName \ ids.toFinset) :
    Sound writers pending' last fetches g' := by
  have hsub : ∀ n, pending' n ⊆ pending n := by
    intro n
    by_cases hn : n = g.instanceName
    · subst hn
      rw [hself]
      exact Finset.sdiff_subset
    · rw [hother n hn]
  have hold : Sound writers pending' last fetches g :=
    h.mono le_rfl (fun n u hu => Or.inl (hsub n hu)) (fun n hn => h.pending_writer n (hn.mono (hsub n)))
      rfl (fun u hu => h.own_pending u (hsub _ hu))
      (fun f hf u hu => by
        obtain ⟨h1, h2⟩ := h.fetch_ids f hf u hu
        exact ⟨h1, fun n hn hm => h2 n hn (hsub n hm)⟩)
  have hsettled : ∀ u ∈ ids, Settled pending' last u := by
    refine fun u hu => ⟨(hids u hu).1, fun n hm => ?_⟩
    by_cases hn : n = g.instanceName
    · subst hn
      rw [hself] at hm
      exact (Finset.mem_sdiff.mp hm).2 (List.mem_toFinset.mpr hu)
    · exact (hids u hu).2 n hn (hsub n hm)
  have hfin : ∀ u ∈ g.finishedIds ∪ ids.toFinset, Settled pending' last u := by
    intro u hu
    rcases Finset.mem_union.mp hu with hu | hu
    · exact hold.finished u hu
    · exact hsettled u (List.mem_toFinset.mp hu)
  have hown : ∀ u ∈ pending' g.instanceName, u ∈ g.unfinishedIds \ ids.toFinset ∨
      ∃ f ∈ fetches, u ∈ f.ids ∧ f.currentMax < u := by
    intro u hu
    rcases hold.own_pending u hu with hm | hf
    · rw [hself] at hu
      exact Or.inl (Finset.mem_sdiff.mpr ⟨hm, (Finset.mem_sdiff.mp hu).2⟩)
    · exact Or.inr hf
  unfold MultiWriterIdGenerator.markIdsAsFinished at hg
  cases hsplit : finishedSplit (g.finishedIds ∪ ids.toFinset)
      (minUnfinished (g.unfinishedIds \ ids.toFinset) g.inFlightFetches) with
  | none => simp [hsplit] at hg
  | some r =>
    obtain ⟨newCur, remaining⟩ := r
    simp only [hsplit, Option.some.injEq] at hg
    subst hg
    obtain ⟨hrem, hcur⟩ := finishedSplit_spec hsplit
    have hmarked : Sound writers pending' last fetches
        { g with unfinishedIds := g.unfinishedIds \ ids.toFinset, finishedIds := remaining } :=
      { hold with
        own_pending := hown
        unfinished := fun u hu => hold.unfinished u (Finset.mem_sdiff.mp hu).1
        finished := fun u hu => hfin u (hrem hu) }
    refine Sound.foldl_addPersistedPosition (hmarked.moveLocalPosition hw fun c hc => ?_) hsettled
    obtain ⟨hmem, hlt⟩ := hcur c hc
    refine ⟨fun u hu => ?_, hfin c hmem⟩
    cases hb : minUnfinished (g.unfinishedIds \ ids.toFinset) g.inFlightFetches with
    | some b =>
      obtain ⟨hb1, hb2⟩ := minUnfinished_le hb
      have hcb := hlt b hb
      rcases hown u hu with hm | ⟨f, hf, -, hfu⟩
      · have := hb1 u hm
        omega
      · have := hb2 f.currentMax (by rw [h.in_flight]; exact mem_map_of_mem _ hf)
        omega
    | none =>
      obtain ⟨hb1, hb2⟩ := minUnfinished_eq_none hb
      rcases hown u hu with hm | ⟨f, hf, -, -⟩
      · simp [hb1] at hm
      have hmem' : f.currentMax ∈ g.inFlightFetches := by
        rw [h.in_flight]
        exact mem_map_of_mem _ hf
      simp [hb2] at hmem'

end Operations

/-! ## §7 Start-up -/

/-- The configuration of a generator never changes. -/
def SameConfig (g g' : MultiWriterIdGenerator) : Prop :=
  g'.instanceName = g.instanceName ∧ g'.writers = g.writers ∧ g'.positive = g.positive

theorem SameConfig.trans {g₁ g₂ g₃ : MultiWriterIdGenerator} (h : SameConfig g₁ g₂)
    (h' : SameConfig g₂ g₃) : SameConfig g₁ g₃ :=
  ⟨h'.1.trans h.1, h'.2.1.trans h.2.1, h'.2.2.trans h.2.2⟩

variable {g g' : MultiWriterIdGenerator}

theorem SameConfig.returnFactor (h : SameConfig g g') : g'.returnFactor = g.returnFactor := by
  simp [MultiWriterIdGenerator.returnFactor, h.2.2]

theorem sameConfig_addPersistedPosition (g : MultiWriterIdGenerator) (v : Int) :
    SameConfig g (g.addPersistedPosition v) := ⟨rfl, rfl, rfl⟩

theorem sameConfig_foldl_addPersistedPosition (ids : List Int) : ∀ g : MultiWriterIdGenerator,
      SameConfig g (ids.foldl MultiWriterIdGenerator.addPersistedPosition g) := by
  induction ids with
  | nil => exact fun g => ⟨rfl, rfl, rfl⟩
  | cons a t ih => exact fun g => (sameConfig_addPersistedPosition g a).trans (ih _)

theorem sameConfig_addFetchedIds {ids : List Int} (h : g.addFetchedIds ids = some g') : SameConfig g g' := by
  unfold MultiWriterIdGenerator.addFetchedIds at h
  cases htop : greatest (g.unfinishedIds ∪ ids.toFinset) with
  | none => simp [htop] at h
  | some top =>
    simp only [htop, Option.some.injEq] at h
    exact h ▸ ⟨rfl, rfl, rfl⟩

theorem sameConfig_markIdsAsFinished {ids : List Int}
    (h : g.markIdsAsFinished ids = some g') : SameConfig g g' := by
  unfold MultiWriterIdGenerator.markIdsAsFinished at h
  cases hsplit : finishedSplit (g.finishedIds ∪ ids.toFinset)
      (minUnfinished (g.unfinishedIds \ ids.toFinset) g.inFlightFetches) with
  | none => simp [hsplit] at h
  | some r =>
    simp only [hsplit, Option.some.injEq] at h
    subst h
    refine SameConfig.trans ?_ (sameConfig_foldl_addPersistedPosition ids _)
    cases r.1 with
    | none => exact ⟨rfl, rfl, rfl⟩
    | some c =>
      dsimp only [moveLocalPosition]
      split <;> exact ⟨rfl, rfl, rfl⟩

/-- A state with nothing in flight whose positions all lie between `1` and `last`. -/
structure Loaded (last : Int) (g : MultiWriterIdGenerator) : Prop where
  idle : g.unfinishedIds = ∅ ∧ g.inFlightFetches = 0 ∧ g.finishedIds = ∅
  upto : 1 ≤ g.persistedUptoPosition ∧ g.persistedUptoPosition ≤ last
  positions : ∀ n p, g.currentPositions.get? n = some p → 1 ≤ p ∧ p ≤ last
  heap : ∀ u ∈ g.knownPersistedPositions, u ≤ last

theorem Loaded.addPersistedPosition (h : Loaded last g)
    (hv : v ≤ last) : Loaded last (g.addPersistedPosition v) := by
  have hminle : g.minCurr ≤ last := by
    refine (minCurr_le g).trans ?_
    rcases minD_otherTokens g (g.currentPositions.getD g.instanceName 0) with
      ⟨hd, -⟩ | ⟨⟨m, -, hm⟩, -⟩
    · rw [hd]
      cases hown : g.currentPositions.get? g.instanceName with
      | none =>
        have := h.upto
        simp only [Dict.getD, hown, Option.getD_none]
        omega
      | some p =>
        rw [getD_of_get? hown]
        exact (h.positions _ p hown).2
    · exact (h.positions m _ hm).2
  have hheap : ∀ u ∈ g.knownPersistedPositions.orderedInsert (· ≤ ·) v, u ≤ last := by
    intro u hu
    rcases (List.mem_orderedInsert (r := (· ≤ ·))).mp hu with rfl | hu
    · exact hv
    · exact h.heap u hu
  obtain ⟨hupto, hsub⟩ := drain_spec (P := fun v => 1 ≤ v ∧ v ≤ last)
    (g.knownPersistedPositions.orderedInsert (· ≤ ·) v) (max g.minCurr g.persistedUptoPosition)
    (fun w hw hm => ⟨by omega, hheap _ hm⟩)
    ⟨h.upto.1.trans (le_max_right _ _), max_le hminle h.upto.2⟩
  exact { h with upto := hupto, heap := fun u hu => hheap u (hsub u hu) }

/-- The database the constructor reads holds nothing past the sequence. -/
structure StartupRows.Within (db : StartupRows) (writers : List String) (positive : Bool) (last : Int) : Prop where
  one_le_last : 1 ≤ last
  streamPositions : ∀ r ∈ db.streamPositions, r.1 ∈ writers →
    1 ≤ r.2 * (if positive then 1 else -1) ∧ r.2 * (if positive then 1 else -1) ≤ last
  sequenceLastValue : ∀ v, db.sequenceLastValue = some v → 1 ≤ v ∧ v ≤ last
  tableMaxima : ∀ v ∈ db.tableMaxima, v ≤ last
  tableRows : ∀ r ∈ db.tableRows, (if positive then 1 else -1) * r.2 ≤ last

theorem foldl_max_bounds : ∀ (xs : List Int) (a : Int), (1 ≤ a ∧ a ≤ last) →
    (∀ v ∈ xs, v ≤ last) → 1 ≤ xs.foldl max a ∧ xs.foldl max a ≤ last
  | [], _, ha, _ => ha
  | x :: xs, a, ha, h =>
    foldl_max_bounds xs (max a x) ⟨ha.1.trans (le_max_left _ _), max_le ha.2 (h x (by simp))⟩
      fun v hv => h v (List.mem_cons_of_mem _ hv)

/-- A fold of assignments keeps a property of all values. -/
theorem forall_get?_foldl_set {P : Int → Prop} (f : Int → Int) :
    ∀ (rows : List (String × Int)) (d : Dict String Int), (∀ r ∈ rows, P (f r.2)) →
      (∀ n p, d.get? n = some p → P p) →
      ∀ n p, (rows.foldl (fun d r => d.set r.1 (f r.2)) d).get? n = some p → P p
  | [], _, _, hd => hd
  | r :: rows, d, hr, hd => by
      refine forall_get?_foldl_set f rows _ (fun q hq => hr q (List.mem_cons_of_mem _ hq)) ?_
      intro n p hp
      simp only [get?_set] at hp
      split at hp
      · exact Option.some.inj hp ▸ hr r (by simp)
      · exact hd n p hp

variable {db : StartupRows}

theorem loadPositions_bounds (h : db.Within g.writers g.positive last) {n : String} {p : Int}
    (hp : (loadPositions g db).get? n = some p) : 1 ≤ p ∧ p ≤ last := by
  have hrows : ∀ n p, ((db.streamPositions.filter fun r => r.1 ∈ g.writers).foldl
      (fun d r => d.set r.1 (r.2 * g.returnFactor)) Dict.empty).get? n = some p →
      1 ≤ p ∧ p ≤ last := by
    refine forall_get?_foldl_set (P := fun p => 1 ≤ p ∧ p ≤ last) (· * g.returnFactor) _ _
      (fun r hr => ?_) (fun n p hn => by simp at hn)
    obtain ⟨hm, hw⟩ := List.mem_filter.mp hr
    exact h.streamPositions r hm (by simpa using hw)
  unfold loadPositions at hp
  cases hseq : db.sequenceLastValue with
  | none => exact hrows n p (by simpa [hseq] using hp)
  | some v =>
    simp only [hseq] at hp
    split at hp
    · simp only [get?_set] at hp
      split at hp
      · exact Option.some.inj hp ▸ h.sequenceLastValue v hseq
      · exact hrows n p hp
    · exact hrows n p hp

theorem Loaded.loadRow (h : Loaded last g) {row : String × Int}
    (hrow : 1 ≤ g.returnFactor * row.2 ∧ g.returnFactor * row.2 ≤ last) : Loaded last (loadRow g row) := by
  have hadd := h.addPersistedPosition hrow.2
  unfold IdGenerators.loadRow
  dsimp only
  split
  · refine { hadd with positions := fun n p hp => ?_ }
    simp only [get?_set] at hp
    split at hp
    · exact Option.some.inj hp ▸ hrow
    · exact hadd.positions n p hp
  · exact hadd

theorem sameConfig_loadRow (g : MultiWriterIdGenerator) (row : String × Int) : SameConfig g (loadRow g row) := by
  unfold IdGenerators.loadRow
  dsimp only
  split <;> exact ⟨rfl, rfl, rfl⟩

theorem Loaded.foldl_loadRow : ∀ (rows : List (String × Int)) (g : MultiWriterIdGenerator), Loaded last g →
      (∀ r ∈ rows, 1 ≤ g.returnFactor * r.2 ∧ g.returnFactor * r.2 ≤ last) →
      Loaded last (rows.foldl IdGenerators.loadRow g) ∧
        SameConfig g (rows.foldl IdGenerators.loadRow g)
  | [], _, h, _ => ⟨h, rfl, rfl, rfl⟩
  | r :: rows, g, h, hr => by
      have hcfg := sameConfig_loadRow g r
      obtain ⟨h1, h2⟩ := Loaded.foldl_loadRow rows (IdGenerators.loadRow g r) (h.loadRow (hr r (by simp)))
        (fun q hq => by
          rw [hcfg.returnFactor]
          exact hr q (List.mem_cons_of_mem _ hq))
      exact ⟨h1, hcfg.trans h2⟩

theorem foldl_setDefault_spec (v : Int) : ∀ (ws : List String) (d : Dict String Int),
    (∀ w ∈ ws, w ∈ (ws.foldl (fun d w => d.setDefault w v) d).keys) ∧
    (∀ n ∈ d.keys, n ∈ (ws.foldl (fun d w => d.setDefault w v) d).keys) ∧
    ∀ n p, (ws.foldl (fun d w => d.setDefault w v) d).get? n = some p → d.get? n = some p ∨ p = v
  | [], d => ⟨by simp, fun _ h => h, fun _ _ h => Or.inl h⟩
  | w :: ws, d => by
      obtain ⟨h1, h2, h3⟩ := foldl_setDefault_spec v ws (d.setDefault w v)
      have hkeys : ∀ n, n ∈ d.keys ∨ n = w → n ∈ (d.setDefault w v).keys := by
        intro n hn
        rw [mem_keys_iff]
        by_cases hnw : n = w
        · exact ⟨d.getD w v, by simp [get?_setDefault, hnw]⟩
        · obtain ⟨p, hp⟩ := mem_keys_iff.mp (hn.resolve_right hnw)
          exact ⟨p, by simp [get?_setDefault, hnw, hp]⟩
      refine ⟨?_, fun n hn => h2 n (hkeys n (Or.inl hn)), fun n p hp => ?_⟩
      · intro n hn
        rcases List.mem_cons.mp hn with rfl | hn
        · exact h2 n (hkeys n (Or.inr rfl))
        · exact h1 n hn
      rcases h3 n p hp with hp | hp
      · rw [get?_setDefault] at hp
        split at hp
        · rename_i hnw
          obtain rfl := Option.some.inj hp
          cases hd : d.get? w with
          | none => exact Or.inr (by simp [Dict.getD, hd])
          | some q => exact Or.inl (by simp [Dict.getD, hd, hnw])
        · exact Or.inl hp
      · exact Or.inr hp

theorem Loaded.loadPersisted (h : Loaded last g) (hdb : db.Within g.writers g.positive last) :
    Loaded last (loadPersisted g db) ∧ SameConfig g (loadPersisted g db) := by
  unfold IdGenerators.loadPersisted
  cases hmin : (g.currentPositions.items.map Prod.snd).min? with
  | none =>
    exact ⟨{ h with upto := foldl_max_bounds _ _ ⟨le_rfl, hdb.one_le_last⟩ hdb.tableMaxima }, rfl, rfl, rfl⟩
  | some minStreamId =>
    obtain ⟨hmem, -⟩ := List.min?_eq_some_iff.mp hmin
    obtain ⟨⟨n, p⟩, hp, rfl⟩ := List.mem_map.mp hmem
    have hbound := h.positions n p (get?_eq_some_iff.mpr hp)
    have hstart : Loaded last { g with persistedUptoPosition := p } :=
      { h with upto := hbound }
    obtain ⟨h1, h2⟩ := Loaded.foldl_loadRow ((db.tableRows.filter fun r => p ≤ g.returnFactor * r.2).insertionSort
        fun a b => a.2 ≤ b.2) _ hstart (fun r hr => by
          obtain ⟨hm, hle⟩ := List.mem_filter.mp ((List.mem_insertionSort _).mp hr)
          have hle' : p ≤ g.returnFactor * r.2 := by simpa using hle
          exact ⟨hbound.1.trans hle', hdb.tableRows r hm⟩)
    exact ⟨h1, h2⟩

theorem Loaded.ensureWriters (h : Loaded last g) :
    Loaded last (ensureWriters g) ∧ ∀ n ∈ g.writers, n ∈ (ensureWriters g).currentPositions.keys := by
  obtain ⟨h1, -, h3⟩ := foldl_setDefault_spec g.persistedUptoPosition g.writers g.currentPositions
  refine ⟨{ h with positions := fun n p hp => ?_ }, h1⟩
  rcases h3 n p hp with hp | rfl
  · exact h.positions n p hp
  · exact h.upto

/-- The state after `_load_current_ids`: everything within bounds, every configured writer known. -/
theorem Loaded.loadCurrentIds (h : Loaded last g) (hdb : db.Within g.writers g.positive last) :
    Loaded last (loadCurrentIds g db) ∧ SameConfig g (loadCurrentIds g db) ∧
      ∀ n ∈ g.writers, n ∈ (loadCurrentIds g db).currentPositions.keys := by
  have hpos : Loaded last { g with currentPositions := loadPositions g db } :=
    { h with positions := fun n p hp => loadPositions_bounds hdb hp }
  obtain ⟨h1, hcfg⟩ := hpos.loadPersisted hdb
  obtain ⟨h2, hkeys⟩ := h1.ensureWriters
  refine ⟨h2, hcfg, fun n hn => hkeys n ?_⟩
  rw [hcfg.2.1]
  exact hn

theorem loaded_blank (name : String) (writers : List String) (positive : Bool)
    (h : 1 ≤ last) : Loaded last (blank name writers positive) where
  idle := ⟨rfl, rfl, rfl⟩
  upto := ⟨le_rfl, h⟩
  positions := fun n p hp => by simp [blank] at hp
  heap := fun u hu => by simp [blank] at hu

theorem sameConfig_init (name : String) {writers : List String} (positive : Bool)
    (hdb : db.Within writers positive last) :
    SameConfig (blank name writers positive) (init name writers positive db) :=
  ((loaded_blank name writers positive hdb.one_le_last).loadCurrentIds hdb).2.1

/-- **A freshly constructed generator satisfies the invariant**, with no pending ids anywhere. The
writers `ws` of the stream are the configured ones, or just this instance when none is configured. -/
theorem init_sound {name : String} {writers ws : List String} {positive : Bool}
    (hdb : db.Within writers positive last) (hws : ∀ n ∈ ws, if writers = [] then n = name else n ∈ writers) :
    Sound ws (fun _ => ∅) last 0 (init name writers positive db) := by
  obtain ⟨hl, hcfg, hkeys⟩ :=
    (loaded_blank name writers positive hdb.one_le_last).loadCurrentIds hdb
  have hpos : ∀ n p, (init name writers positive db).currentPositions.get? n = some p → 1 ≤ p ∧ p ≤ last := by
    intro n p hp
    unfold init at hp
    split at hp
    · simp only [get?_set] at hp
      split at hp
      · exact Option.some.inj hp ▸ hl.upto
      · exact hl.positions n p hp
    · exact hl.positions n p hp
  have hknown : ∀ n ∈ ws, n ∈ (init name writers positive db).currentPositions.keys := by
    intro n hn
    have hn' := hws n hn
    unfold init
    split
    · rename_i hnil
      rw [if_pos hnil] at hn'
      exact mem_keys_set.mpr (Or.inl hn')
    rename_i hnil
    rw [if_neg hnil] at hn'
    exact hkeys n hn'
  have hseen : max (maxD ((loadCurrentIds (blank name writers positive) db).currentPositions.items.map
      Prod.snd) 1) (loadCurrentIds (blank name writers positive) db).persistedUptoPosition ≤ last := by
    refine max_le ?_ hl.upto.2
    unfold maxD
    cases hmax : ((loadCurrentIds (blank name writers positive) db).currentPositions.items.map Prod.snd).max? with
    | none => simpa using hdb.one_le_last
    | some v =>
      obtain ⟨⟨n, p⟩, hp, rfl⟩ := List.mem_map.mp (List.max?_eq_some_iff.mp hmax).1
      exact (hl.positions n p (get?_eq_some_iff.mpr hp)).2
  exact
    { one_le_last := hdb.one_le_last
      pending_writer := fun n hn => by simp at hn
      in_flight := hl.idle.2.1
      in_flight_le := fun c hc => by
        have : c ∈ (loadCurrentIds (blank name writers positive) db).inFlightFetches := hc
        simp [hl.idle.2.1] at this
      own_pending := fun u hu => by simp at hu
      fetch_ids := fun f hf => by simp at hf
      unfinished := fun u hu => by
        have : u ∈ (loadCurrentIds (blank name writers positive) db).unfinishedIds := hu
        simp [hl.idle.1] at this
      known := hknown
      own_position := fun hw => by
        obtain ⟨p, hp⟩ := mem_keys_iff.mp (hknown _ hw)
        exact ⟨p, hp, (hpos _ p hp).1⟩
      own_settled := fun p hp => ⟨(hpos _ p hp).2, fun n => Finset.notMem_empty p⟩
      positions := fun n p hp => ⟨Clear.empty p, (hpos n p hp).2⟩
      upto := ⟨fun n => Clear.empty _, hl.upto.2⟩
      local_max := ⟨Clear.empty _, hseen, fun n => Finset.notMem_empty _⟩
      max_seen := ⟨hseen, fun n _ => Finset.notMem_empty _⟩
      finished := fun u hu => by
        have : u ∈ (loadCurrentIds (blank name writers positive) db).finishedIds := hu
        simp [hl.idle.2.2] at this
      heap := fun u hu => ⟨hl.heap u hu, fun n => Finset.notMem_empty u⟩ }

end Setka.Storage.IdGenerators
