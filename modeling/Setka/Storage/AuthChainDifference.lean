/-
# Setka.Storage.AuthChainDifference — the auth chain difference by breadth-first search.

Without a chain cover index the auth graph is walked from all state sets in tandem: of every event that
was met the sets are kept which have not been seen to reach it. The walk takes up the deepest events
first, some at a time, and stops as soon as all events still to walk are reached by every set. It then
has not gone through what lies below these, and an event met before may lie there.
-/
import Mathlib.Data.List.GetD
import Setka.Storage.ForwardExtremities

namespace Setka.Storage.AuthChainDifference

open Relation Setka.Api Setka.Lib Setka.Storage.EventFederation Dict IterOrder ForwardExtremities

/-! ## §1 The walk -/

/-- The tables `events`, of which only the depth is read, and `event_auth`. -/
structure Tables where
  depth : Dict String ℤ
  eventAuth : List (String × String)

namespace Tables

variable (db : Tables)

/-- `a` is an auth event of `e`. The queries join with `events`. -/
def Auth (e a : String) : Prop := (e, a) ∈ db.eventAuth ∧ ∃ d, db.depth.get? a = some d

/-- The depths of the events of a batch. -/
def depths (batch : List String) : List (ℤ × String) :=
  (db.depth.items.filter fun row => row.1 ∈ batch).map fun row => (row.2, row.1)

/-- The auth events, with their depths, of the events to fetch. -/
def authRows (toFetch : List String) : List (String × String × ℤ) :=
  db.eventAuth.filterMap fun (eventId, authId) =>
    if eventId ∈ toFetch then (db.depth.get? authId).map fun depth => (eventId, authId, depth) else none

end Tables

/-- `_event_auth_cache`: auth events and their depths. -/
abbrev AuthCache : Type := Dict String (List (String × ℤ))

/-- The variables of the loop: `event_to_missing_sets`, `search`, `event_to_auth_events`, and the
cache. -/
structure Walk where
  missingSets : Dict String (Finset ℕ)
  search : List (ℤ × String)
  authEvents : Dict String (Finset String)
  cache : AuthCache

/-- What the walk is given: the iteration order of sets, what the cache still holds after an entry was
added, and the number of events that are walked at a time. -/
structure Config where
  order : IterOrder String
  evict : AuthCache → AuthCache
  chunkSize : ℕ

section Walk

variable (cfg : Config) (db : Tables) (stateSets : List (Finset String))

/-- `search.sort()`. -/
def sortSearch (search : List (ℤ × String)) : List (ℤ × String) :=
  search.insertionSort fun a b => a.1 < b.1 ∨ a.1 = b.1 ∧ a.2 ≤ b.2

def initialEvents : Finset String := stateSets.foldr (· ∪ ·) ∅

/-- Before the loop. -/
def initialWalk (cache : AuthCache) : Walk where
  missingSets := Dict.ofKeys (cfg.order.list (initialEvents stateSets)) fun eventId =>
    (Finset.range stateSets.length).filter fun i => eventId ∉ stateSets.getD i ∅
  search := sortSearch ((batchIter 1000 (cfg.order.list (initialEvents stateSets))).flatMap db.depths)
  authEvents := Dict.empty
  cache

/-- One turn of `while a_ids`: these events are reached by whatever `event_id` is reached by. -/
def markTurn (authEvents : Dict String (Finset String)) (reach : Finset ℕ)
    (st : Finset String × Dict String (Finset ℕ)) :
    Run Error (Option (Finset String × Dict String (Finset ℕ))) :=
  if st.1 = ∅ then pure none
  else
    let missing := (cfg.order.list st.1).foldl (fun m aId => m.set aId (m.getD aId ∅ ∩ reach)) st.2
    pure (some (st.1.biUnion fun aId => authEvents.getD aId ∅, missing))

/-- One row of `found`. -/
def followAuth (st : Walk) (row : String × String × ℤ) : Run Error Walk :=
  let (eventId, authEventId, authEventDepth) := row
  let authEvents :=
    st.authEvents.set eventId (insert authEventId (st.authEvents.getD eventId ∅))
  let reach := st.missingSets.getD eventId ∅
  match st.missingSets.get? authEventId with
  | none =>
    -- the first time this event is met
    pure { st with
      authEvents
      search := st.search ++ [(authEventDepth, authEventId)]
      missingSets := st.missingSets.set authEventId (Finset.range stateSets.length ∩ reach) }
  | some _ => do
      let (_, missing) ← Run.loop (markTurn cfg authEvents reach) (authEvents.getD authEventId ∅, st.missingSets)
      pure { st with
        authEvents
        missingSets := missing.set authEventId (missing.getD authEventId ∅ ∩ reach) }

/-- The rows for a chunk of events, from the cache or else from the database, and the cache after. -/
def fetchAuth (cache : AuthCache) (chunk : List (ℤ × String)) : List (String × String × ℤ) × AuthCache :=
  let cached := chunk.flatMap fun (_, eventId) =>
    ((cache.get? eventId).getD []).map fun (authId, depth) => (eventId, authId, depth)
  let toFetch := (chunk.map Prod.snd).filter fun eventId => (cache.get? eventId).isNone
  let rows := db.authRows toFetch
  let toCache := rows.foldl (fun d row => d.appendTo row.1 row.2) Dict.empty
  (cached ++ rows, toCache.items.foldl (fun cache item => cfg.evict (cache.set item.1 item.2)) cache)

/-- One turn of `while search`, `none` when it is left. -/
def walkTurn (st : Walk) : Run Error (Option Walk) :=
  if st.search = [] then pure none
  else if ∀ entry ∈ st.search, st.missingSets.getD entry.2 ∅ = ∅ then pure none
  else do
    let kept := st.search.length - cfg.chunkSize
    let chunk := st.search.drop kept
    let (found, cache) := fetchAuth cfg db st.cache chunk
    let st ← found.foldlM (followAuth cfg stateSets) { st with search := st.search.take kept, cache }
    pure (some { st with search := sortSearch st.search })

/-- The walk, up to where it stops. -/
def walk (cache : AuthCache) : Run Error Walk :=
  Run.loop (walkTurn cfg db stateSets) (initialWalk cfg db stateSets cache)

/-- The events that not all sets can reach. -/
def Walk.unreached (st : Walk) : Finset String :=
  ((st.missingSets.items.filter fun item => item.2 ≠ ∅).map Prod.fst).toFinset

/-- `_get_auth_chain_difference_txn`. -/
def getAuthChainDifferenceTxn (cache : AuthCache) : Run Error (Finset String) :=
  if stateSets = [] then Run.raise .indexError
  else do
    let st ← walk cfg db stateSets cache
    pure st.unreached

end Walk

/-! ## §2 What it is to compute -/

/-- The events that are in, or in the auth chain of, some but not all state sets. -/
def authChainDifference (db : Tables) (stateSets : List (Finset String)) : Set String :=
  {x | (∃ s ∈ stateSets, x ∈ reachedFrom db.Auth {e | e ∈ s}) ∧
    ∃ s ∈ stateSets, x ∉ reachedFrom db.Auth {e | e ∈ s}}

/-- An auth event of an event that was walked. -/
def Walk.Edge (st : Walk) (e a : String) : Prop := a ∈ st.authEvents.getD e ∅

/-- A state set reaches the event across events that were walked. -/
def Walk.Reached (st : Walk) (stateSets : List (Finset String)) (i : ℕ) (x : String) : Prop :=
  x ∈ reachedFrom st.Edge {e | e ∈ stateSets.getD i ∅}

/-- Where the walk stops, nothing is left to learn: an event that was met and lies below an event still
to walk was seen to be reached from every state set. -/
def NothingBelow (db : Tables) (stateSets : List (Finset String)) (st : Walk) : Prop :=
  ∀ entry ∈ st.search, ∀ x ∈ st.missingSets.keys, TransGen db.Auth entry.2 x →
    ∀ i < stateSets.length, st.Reached stateSets i x

/-- The cache agrees with the tables. -/
def CacheAgrees (db : Tables) (cache : AuthCache) : Prop :=
  ∀ e l, cache.get? e = some l → ∀ a d, (a, d) ∈ l ↔ (e, a) ∈ db.eventAuth ∧ db.depth.get? a = some d

/-- Eviction only drops entries. -/
def Config.Evicts (cfg : Config) : Prop :=
  ∀ cache e l, Dict.get? (cfg.evict cache) e = some l → Dict.get? cache e = some l

/-! ## §3 Marking what lies below an event -/

section Mark

variable {cfg : Config} {K : Dict String (Finset String)} {reach : Finset ℕ}

theorem foldl_mark (reach : Finset ℕ) (l : List String) (m : Dict String (Finset ℕ)) :
    let m' := l.foldl (fun m aId => m.set aId (m.getD aId ∅ ∩ reach)) m
    (∀ x, x ∈ m'.keys ↔ x ∈ m.keys ∨ x ∈ l) ∧
      ∀ x i, i ∈ m'.getD x ∅ ↔ i ∈ m.getD x ∅ ∧ (x ∈ l → i ∈ reach) := by
  induction l generalizing m with
  | nil => simp
  | cons a l ih =>
    obtain ⟨hkeys, hvalues⟩ := ih (m.set a (m.getD a ∅ ∩ reach))
    refine ⟨fun x => ?_, fun x i => ?_⟩
    · rw [List.foldl_cons, hkeys, mem_keys_set, List.mem_cons]
      tauto
    rw [List.foldl_cons, hvalues]
    by_cases hx : x = a
    · subst hx
      simp only [Dict.getD, get?_set, if_true, Option.getD_some, Finset.mem_inter,
        List.mem_cons, true_or, forall_const]
      tauto
    · simp only [Dict.getD, get?_set, List.mem_cons, hx, if_false, false_or]

/-- **Everything below is marked**, each time level by level. -/
theorem mark_yields (hacyclic : Acyclic fun e a => a ∈ K.getD e ∅) (a : String) (M : Dict String (Finset ℕ)) :
    Run.Yields (Run.loop (markTurn cfg K reach) (K.getD a ∅, M)) fun st =>
      (∀ x, x ∈ st.2.keys ↔ x ∈ M.keys ∨ TransGen (fun e a => a ∈ K.getD e ∅) a x) ∧
        ∀ x i, i ∈ st.2.getD x ∅ ↔
          i ∈ M.getD x ∅ ∧ (TransGen (fun e a => a ∈ K.getD e ∅) a x → i ∈ reach) := by
  let edge : String → String → Prop := fun e a => a ∈ K.getD e ∅
  have htargets : ∀ e b, edge e b → b ∈ K.values.toFinset.biUnion id := by
    intro e b hb
    cases hget : K.get? e with
    | none =>
      have : b ∈ K.getD e ∅ := hb
      rw [Dict.getD, hget] at this
      cases this
    | some s =>
      have hmem : b ∈ K.getD e ∅ := hb
      rw [getD_of_get? hget] at hmem
      exact Finset.mem_biUnion.mpr ⟨s, List.mem_toFinset.mpr (mem_values_iff.mpr ⟨e, hget⟩), hmem⟩
  obtain ⟨rank, hrank⟩ := hacyclic.exists_rank _ htargets
  -- `found` are the levels that were gone through
  let I : Finset String × Dict String (Finset ℕ) → Prop := fun st => ∃ found : Set String,
    (∀ x, x ∈ found ∨ x ∈ st.1 → TransGen edge a x) ∧
    (∀ x, edge a x → x ∈ found ∨ x ∈ st.1) ∧ (∀ y ∈ found, ∀ x, edge y x → x ∈ found ∨ x ∈ st.1) ∧
    (∀ x, x ∈ st.2.keys ↔ x ∈ M.keys ∨ x ∈ found) ∧
    ∀ x i, i ∈ st.2.getD x ∅ ↔ i ∈ M.getD x ∅ ∧ (x ∈ found → i ∈ reach)
  refine Run.Yields.loop (measure fun st : Finset String × Dict String (Finset ℕ) =>
    st.1.sup fun x => rank x + 1).wf (I := I) ?_ ?_
  · rintro ⟨level, m⟩ ⟨found, hsound, hstart, hclosed, hkeys, hvalues⟩
    unfold markTurn
    split
    · rename_i hempty
      refine Run.Yields.pure ⟨fun _ => ?_, fun _ h => absurd h (by simp)⟩
      obtain rfl : level = ∅ := hempty
      have hfound : ∀ x, x ∈ found ↔ TransGen edge a x := by
        refine fun x => ⟨fun hx => hsound x (Or.inl hx), fun hx => ?_⟩
        induction hx with
        | single hax => exact (hstart _ hax).resolve_right (Finset.notMem_empty _)
        | tail _ hyx ih => exact (hclosed _ ih _ hyx).resolve_right (Finset.notMem_empty _)
      refine ⟨fun x => ?_, fun x i => ?_⟩
      · rw [hkeys, hfound]
      · rw [hvalues, hfound]
    · rename_i hne
      refine Run.Yields.pure ⟨fun h => absurd h (by simp), fun st' hst' => ?_⟩
      obtain rfl := Option.some.inj hst'
      obtain ⟨hkeys', hvalues'⟩ := foldl_mark reach (cfg.order.list level) m
      have hnext : ∀ x, x ∈ level.biUnion (fun aId => K.getD aId ∅) ↔ ∃ y ∈ level, edge y x :=
        fun x => Finset.mem_biUnion
      refine ⟨⟨{x | x ∈ found ∨ x ∈ level}, ?_, ?_, ?_, ?_, ?_⟩, ?_⟩
      · rintro x (hx | hx)
        · exact hsound x hx
        · obtain ⟨y, hy, hyx⟩ := (hnext x).mp hx
          exact (hsound y (Or.inr hy)).tail hyx
      · exact fun x hx => Or.inl (hstart x hx)
      · rintro y (hy | hy) x hyx
        · exact Or.inl (hclosed y hy x hyx)
        · exact Or.inr ((hnext x).mpr ⟨y, hy, hyx⟩)
      · intro x
        rw [hkeys', hkeys, mem_list, or_assoc]
        rfl
      · intro x i
        rw [hvalues', hvalues, mem_list, and_assoc]
        refine and_congr_right fun _ => ⟨?_, fun h => ⟨fun hx => h (Or.inl hx), fun hx => h (Or.inr hx)⟩⟩
        rintro ⟨hf, hl⟩ (hx | hx)
        · exact hf hx
        · exact hl hx
      · -- the highest rank of the next level is below that of this one
        obtain ⟨y, hy⟩ := Finset.nonempty_iff_ne_empty.mpr hne
        have hpos : 0 < level.sup fun x => rank x + 1 :=
          lt_of_lt_of_le (Nat.succ_pos (rank y)) (Finset.le_sup (f := fun x => rank x + 1) hy)
        refine (Finset.sup_lt_iff hpos).mpr fun x hx => ?_
        obtain ⟨z, hz, hzx⟩ := (hnext x).mp hx
        have hlt : rank x + 1 < rank z + 1 := by
          have := hrank z x hzx
          omega
        exact lt_of_lt_of_le hlt (Finset.le_sup (f := fun x => rank x + 1) hz)
  · refine ⟨∅, ?_, fun x hx => Or.inr hx, fun y hy => absurd hy (Set.notMem_empty y), ?_, ?_⟩
    · rintro x (hx | hx)
      · exact absurd hx (Set.notMem_empty x)
      · exact .single hx
    · simp
    · simp

end Mark

/-! ## §4 One row -/

section Follow

variable {cfg : Config} {db : Tables} {stateSets : List (Finset String)}

/-- What the walk knows. The events of `todo` are the ones it is just walking. -/
structure Met (db : Tables) (stateSets : List (Finset String)) (todo : Set String) (st : Walk) : Prop where
  edge : ∀ e a, st.Edge e a → db.Auth e a
  source : ∀ e a, st.Edge e a → e ∈ st.missingSets.keys
  target : ∀ e a, st.Edge e a → a ∈ st.missingSets.keys
  initial : ∀ i, ∀ x ∈ stateSets.getD i ∅, x ∈ st.missingSets.keys
  met : ∀ x ∈ st.missingSets.keys, ∃ i < stateSets.length, st.Reached stateSets i x
  missing : ∀ x ∈ st.missingSets.keys, ∀ i,
    i ∈ st.missingSets.getD x ∅ ↔ i < stateSets.length ∧ ¬ st.Reached stateSets i x
  queued : ∀ entry ∈ st.search, entry.2 ∈ st.missingSets.keys
  walked : ∀ x ∈ st.missingSets.keys, x ∉ todo → (∀ entry ∈ st.search, entry.2 ≠ x) → ∀ a, db.Auth x a → st.Edge x a

/-- The events that may still be met, and those waiting. -/
def Walk.left (db : Tables) (st : Walk) : ℕ :=
  ((db.eventAuth.map Prod.snd).toFinset.filter fun x => x ∉ st.missingSets.keys).card + st.search.length

theorem Met.known_of_reached {todo : Set String} {st : Walk} (h : Met db stateSets todo st) {i : ℕ}
    {x : String} (hx : st.Reached stateSets i x) : x ∈ st.missingSets.keys := by
  obtain ⟨s, hs, hsx⟩ := hx
  induction hsx with
  | refl => exact h.initial i s hs
  | tail _ hedge _ => exact h.target _ _ hedge

/-- **One row of what was found**: the new step of the graph is known, and so is who reaches what lies
below it. -/
theorem followAuth_yields (hacyclic : Acyclic db.Auth) {todo : Set String} {st : Walk}
    (h : Met db stateSets todo st) {e a : String} {d : ℤ} (he : e ∈ st.missingSets.keys)
    (hauth : db.Auth e a) :
    Run.Yields (followAuth cfg stateSets st (e, a, d)) fun st' =>
      Met db stateSets todo st' ∧ (∀ u v, st'.Edge u v ↔ st.Edge u v ∨ u = e ∧ v = a) ∧
        (∀ x ∈ st.missingSets.keys, x ∈ st'.missingSets.keys) ∧ st'.cache = st.cache ∧
        st'.left db ≤ st.left db := by
  have hedge : ∀ u v, v ∈ (st.authEvents.set e (insert a (st.authEvents.getD e ∅))).getD u ∅ ↔
      st.Edge u v ∨ u = e ∧ v = a := by
    intro u v
    unfold Walk.Edge
    by_cases hu : u = e
    · subst hu
      simp only [Dict.getD, get?_set, if_true, Option.getD_some, Finset.mem_insert, true_and]
      exact or_comm
    · simp only [Dict.getD, get?_set, hu, if_false, false_and, or_false]
  have hauth' : ∀ u v, v ∈ (st.authEvents.set e (insert a (st.authEvents.getD e ∅))).getD u ∅ → db.Auth u v := by
    intro u v huv
    rcases (hedge u v).mp huv with huv | ⟨rfl, rfl⟩
    · exact h.edge u v huv
    · exact hauth
  have hmissing := fun i => h.missing e he i
  -- who reaches what once the step is known
  have hreached : ∀ (i : ℕ) (x : String), x ∈ reachedFrom (fun u v => v ∈ (st.authEvents.set e
        (insert a (st.authEvents.getD e ∅))).getD u ∅) {s | s ∈ stateSets.getD i ∅} ↔
      st.Reached stateSets i x ∨ st.Reached stateSets i e ∧
        ReflTransGen (fun u v => v ∈ (st.authEvents.set e (insert a (st.authEvents.getD e ∅))).getD u ∅) a x := by
    intro i x
    exact mem_reachedFrom_addStep hedge
  unfold followAuth
  dsimp only
  cases hget : st.missingSets.get? a with
  | none =>
    have ha : a ∉ st.missingSets.keys := get?_eq_none_iff.mp hget
    refine Run.Yields.pure ⟨?_, hedge, fun x hx => mem_keys_set.mpr (Or.inr hx), rfl, ?_⟩
    · -- nothing is known below a new event
      have hleaf : ∀ x, ReflTransGen (fun u v => v ∈ (st.authEvents.set e
          (insert a (st.authEvents.getD e ∅))).getD u ∅) a x → x = a := by
        intro x hx
        rcases ReflTransGen.cases_head hx with rfl | ⟨y, hay, -⟩
        · rfl
        rcases (hedge a y).mp hay with hay | ⟨rfl, -⟩
        · exact absurd (h.source a y hay) ha
        · exact absurd he ha
      have hnew : ∀ i, ¬ st.Reached stateSets i a := fun i hi => ha (h.known_of_reached hi)
      have hold : ∀ x ∈ st.missingSets.keys, ∀ i, x ∈ reachedFrom (fun u v => v ∈
          (st.authEvents.set e (insert a (st.authEvents.getD e ∅))).getD u ∅)
          {s | s ∈ stateSets.getD i ∅} ↔ st.Reached stateSets i x := by
        intro x hx i
        rw [hreached]
        refine or_iff_left ?_
        rintro ⟨-, hax⟩
        exact ha (hleaf x hax ▸ hx)
      have hself : ∀ i, a ∈ reachedFrom (fun u v => v ∈
          (st.authEvents.set e (insert a (st.authEvents.getD e ∅))).getD u ∅)
          {s | s ∈ stateSets.getD i ∅} ↔ st.Reached stateSets i e := by
        intro i
        rw [hreached]
        exact ⟨fun hr => (hr.resolve_left (hnew i)).1, fun hr => Or.inr ⟨hr, .refl⟩⟩
      refine ⟨hauth', fun u v huv => ?_, fun u v huv => ?_, fun i x hx => ?_, fun x hx => ?_,
        fun x hx i => ?_, fun entry hentry => ?_, fun x hx htodo hsearch b hb => ?_⟩
      · rcases (hedge u v).mp huv with huv | ⟨rfl, -⟩
        · exact mem_keys_set.mpr (Or.inr (h.source u v huv))
        · exact mem_keys_set.mpr (Or.inr he)
      · rcases (hedge u v).mp huv with huv | ⟨-, rfl⟩
        · exact mem_keys_set.mpr (Or.inr (h.target u v huv))
        · exact mem_keys_set.mpr (Or.inl rfl)
      · exact mem_keys_set.mpr (Or.inr (h.initial i x hx))
      · rcases mem_keys_set.mp hx with rfl | hx
        · obtain ⟨i, hi, hr⟩ := h.met e he
          exact ⟨i, hi, (hself i).mpr hr⟩
        · obtain ⟨i, hi, hr⟩ := h.met x hx
          exact ⟨i, hi, (hold x hx i).mpr hr⟩
      · by_cases hxa : x = a
        · subst hxa
          simp only [Dict.getD, get?_set, if_true, Option.getD_some, Finset.mem_inter, Finset.mem_range]
          refine and_congr_right fun hi => ?_
          have := hmissing i
          unfold Dict.getD at this
          rw [this, and_iff_right hi]
          exact not_congr (hself i).symm
        · have hx' : x ∈ st.missingSets.keys := (mem_keys_set.mp hx).resolve_left hxa
          simp only [Dict.getD, get?_set, hxa, if_false]
          have := h.missing x hx' i
          unfold Dict.getD at this
          rw [this]
          exact and_congr_right fun _ => not_congr (hold x hx' i).symm
      · rcases List.mem_append.mp hentry with hentry | hentry
        · exact mem_keys_set.mpr (Or.inr (h.queued entry hentry))
        · rw [List.mem_singleton.mp hentry]
          exact mem_keys_set.mpr (Or.inl rfl)
      · have hxa : x ≠ a := by
          rintro rfl
          exact hsearch (d, x) (by simp) rfl
        have hx' : x ∈ st.missingSets.keys := (mem_keys_set.mp hx).resolve_left hxa
        refine (hedge x b).mpr (Or.inl (h.walked x hx' htodo (fun entry hentry => ?_) b hb))
        exact hsearch entry (List.mem_append_left _ hentry)
    · -- one event fewer to meet, one more waiting
      have hmem : a ∈ (db.eventAuth.map Prod.snd).toFinset :=
        List.mem_toFinset.mpr (List.mem_map.mpr ⟨(e, a), hauth.1, rfl⟩)
      have hlt : ((db.eventAuth.map Prod.snd).toFinset.filter fun x =>
          x ∉ (st.missingSets.set a (Finset.range stateSets.length ∩ st.missingSets.getD e ∅)).keys).card <
          ((db.eventAuth.map Prod.snd).toFinset.filter fun x => x ∉ st.missingSets.keys).card := by
        refine Finset.card_lt_card (Finset.ssubset_iff_of_subset ?_ |>.mpr ⟨a, ?_, ?_⟩)
        · intro x hx
          obtain ⟨hxs, hxk⟩ := Finset.mem_filter.mp hx
          exact Finset.mem_filter.mpr ⟨hxs, fun hk => hxk (mem_keys_set.mpr (Or.inr hk))⟩
        · exact Finset.mem_filter.mpr ⟨hmem, ha⟩
        · intro hx
          exact (Finset.mem_filter.mp hx).2 (mem_keys_set.mpr (Or.inl rfl))
      unfold Walk.left
      simp only [List.length_append, List.length_cons, List.length_nil]
      omega
  | some sets =>
    have ha : a ∈ st.missingSets.keys := mem_keys_iff.mpr ⟨sets, hget⟩
    have hacyclic' : Acyclic fun u v => v ∈ (st.authEvents.set e (insert a (st.authEvents.getD e ∅))).getD u ∅ :=
      fun x hx => hacyclic x (TransGen.mono hauth' x x hx)
    refine (mark_yields hacyclic' a st.missingSets).bind ?_
    rintro ⟨level, m⟩ ⟨hkeys, hvalues⟩
    -- nothing new is met
    have hsame : ∀ x, x ∈ (m.set a (m.getD a ∅ ∩ st.missingSets.getD e ∅)).keys ↔
        x ∈ st.missingSets.keys := by
      intro x
      rw [mem_keys_set, hkeys]
      refine ⟨?_, fun hx => Or.inr (Or.inl hx)⟩
      rintro (rfl | hx | hx)
      · exact ha
      · exact hx
      · obtain ⟨y, -, hyx⟩ := TransGen.tail'_iff.mp hx
        rcases (hedge y x).mp hyx with hyx | ⟨-, rfl⟩
        · exact h.target y x hyx
        · exact ha
    have hvalues' : ∀ x i, i ∈ (m.set a (m.getD a ∅ ∩ st.missingSets.getD e ∅)).getD x ∅ ↔
        i ∈ st.missingSets.getD x ∅ ∧ (ReflTransGen (fun u v => v ∈ (st.authEvents.set e
          (insert a (st.authEvents.getD e ∅))).getD u ∅) a x → i ∈ st.missingSets.getD e ∅) := by
      intro x i
      by_cases hxa : x = a
      · subst hxa
        have hset : (m.set x (m.getD x ∅ ∩ st.missingSets.getD e ∅)).getD x ∅ =
            m.getD x ∅ ∩ st.missingSets.getD e ∅ := by simp [Dict.getD]
        rw [hset, Finset.mem_inter, hvalues]
        constructor
        · exact fun hi => ⟨hi.1.1, fun _ => hi.2⟩
        · exact fun hi => ⟨⟨hi.1, fun _ => hi.2 .refl⟩, hi.2 .refl⟩
      · have hset : (m.set a (m.getD a ∅ ∩ st.missingSets.getD e ∅)).getD x ∅ = m.getD x ∅ := by
          simp [Dict.getD, hxa]
        rw [hset, hvalues]
        refine and_congr_right fun _ => imp_congr_left ?_
        rw [reflTransGen_iff_eq_or_transGen]
        exact ⟨Or.inr, fun hx => hx.resolve_left hxa⟩
    refine Run.Yields.pure ⟨⟨hauth', fun u v huv => ?_, fun u v huv => ?_, fun i x hx => ?_,
      fun x hx => ?_, fun x hx i => ?_, fun entry hentry => ?_, fun x hx htodo hsearch b hb => ?_⟩,
      hedge, fun x hx => (hsame x).mpr hx, rfl, ?_⟩
    · rcases (hedge u v).mp huv with huv | ⟨rfl, -⟩
      · exact (hsame u).mpr (h.source u v huv)
      · exact (hsame u).mpr he
    · rcases (hedge u v).mp huv with huv | ⟨-, rfl⟩
      · exact (hsame v).mpr (h.target u v huv)
      · exact (hsame v).mpr ha
    · exact (hsame x).mpr (h.initial i x hx)
    · obtain ⟨i, hi, hr⟩ := h.met x ((hsame x).mp hx)
      exact ⟨i, hi, (hreached i x).mpr (Or.inl hr)⟩
    · have hx' := (hsame x).mp hx
      refine Iff.trans ?_ (and_congr_right fun _ => not_congr (hreached i x).symm)
      refine (hvalues' x i).trans ?_
      rw [h.missing x hx' i, hmissing i]
      tauto
    · exact (hsame _).mpr (h.queued entry hentry)
    · exact (hedge x b).mpr (Or.inl (h.walked x ((hsame x).mp hx) htodo hsearch b hb))
    · unfold Walk.left
      simp only [hsame]
      exact Nat.le_refl _

end Follow

/-! ## §5 One turn -/

section Turn

variable {cfg : Config} {db : Tables} {stateSets : List (Finset String)}

theorem mem_authRows {toFetch : List String} {e a : String} {d : ℤ} : (e, a, d) ∈ db.authRows toFetch ↔
      e ∈ toFetch ∧ (e, a) ∈ db.eventAuth ∧ db.depth.get? a = some d := by
  unfold Tables.authRows
  rw [List.mem_filterMap]
  constructor
  · rintro ⟨⟨e', a'⟩, hrow, h⟩
    dsimp only at h
    split at h
    · rename_i hfetch
      obtain ⟨d', hd', heq⟩ := Option.map_eq_some_iff.mp h
      obtain ⟨rfl, rfl, rfl⟩ := heq
      exact ⟨hfetch, hrow, hd'⟩
    · cases h
  · rintro ⟨hfetch, hrow, hd⟩
    refine ⟨(e, a), hrow, ?_⟩
    dsimp only
    rw [if_pos hfetch, hd]
    rfl

/-- **From the cache or from the database, the rows are the same**, and the cache stays right. -/
theorem fetchAuth_spec (hevicts : cfg.Evicts) {cache : AuthCache} (hcache : CacheAgrees db cache)
    (chunk : List (ℤ × String)) :
    (∀ e a d, (e, a, d) ∈ (fetchAuth cfg db cache chunk).1 ↔
      e ∈ chunk.map Prod.snd ∧ (e, a) ∈ db.eventAuth ∧ db.depth.get? a = some d) ∧
      CacheAgrees db (fetchAuth cfg db cache chunk).2 := by
  constructor
  · intro e a d
    unfold fetchAuth
    dsimp only
    rw [List.mem_append, mem_authRows, List.mem_flatMap, List.mem_filter]
    constructor
    · rintro (⟨⟨depth, e'⟩, hentry, hrow⟩ | ⟨⟨he, -⟩, hrow⟩)
      · obtain ⟨⟨a', d'⟩, had, heq⟩ := List.mem_map.mp hrow
        obtain ⟨rfl, rfl, rfl⟩ := heq
        cases hget : cache.get? e' with
        | none => rw [hget] at had; cases had
        | some l =>
          rw [hget] at had
          exact ⟨List.mem_map.mpr ⟨(depth, e'), hentry, rfl⟩, (hcache e' l hget a' d').mp had⟩
      · exact ⟨he, hrow⟩
    · rintro ⟨he, hrow⟩
      cases hget : cache.get? e with
      | none => exact Or.inr ⟨⟨he, rfl⟩, hrow⟩
      | some l =>
        obtain ⟨⟨depth, e'⟩, hentry, rfl⟩ := List.mem_map.mp he
        refine Or.inl ⟨(depth, e'), hentry, List.mem_map.mpr ⟨(a, d), ?_, rfl⟩⟩
        rw [hget]
        exact (hcache e' l hget a d).mpr hrow
  · -- an entry that is added has all rows of its event
    have hadd : ∀ (items : List (String × List (String × ℤ))) (c : AuthCache), CacheAgrees db c →
        (∀ item ∈ items, ∀ a d, (a, d) ∈ item.2 ↔
          (item.1, a) ∈ db.eventAuth ∧ db.depth.get? a = some d) →
        CacheAgrees db (items.foldl (fun c item => cfg.evict (c.set item.1 item.2)) c) := by
      intro items
      induction items with
      | nil => exact fun c hc _ => hc
      | cons item items ih =>
        intro c hc hitems
        refine ih _ (fun e l hl => ?_) fun i hi => hitems i (List.mem_cons_of_mem item hi)
        have hset := hevicts _ e l hl
        rcases of_get?_set hset with ⟨he, rfl⟩ | ⟨-, hset⟩
        · rw [he]
          exact hitems item List.mem_cons_self
        · exact hc e l hset
    refine hadd _ cache hcache ?_
    rintro ⟨e, l⟩ hitem a d
    have hget := get?_eq_some_iff.mpr hitem
    have hmem := mem_foldl_appendTo Dict.empty (fun row : String × String × ℤ => row.1) (fun row => row.2)
      (db.authRows ((chunk.map Prod.snd).filter fun eventId => (cache.get? eventId).isNone))
      (a := e) (w := (a, d))
    rw [getD_of_get? hget] at hmem
    have hkey := (mem_keys_foldl_appendTo Dict.empty
      (fun row : String × String × ℤ => row.1) (fun row => row.2)
      (db.authRows ((chunk.map Prod.snd).filter fun eventId => (cache.get? eventId).isNone))
      (a := e)).mp (mem_keys_iff.mpr ⟨l, hget⟩)
    obtain ⟨⟨e', row⟩, hrow, rfl⟩ := hkey.resolve_left List.not_mem_nil
    have hfetch := (mem_authRows (e := e') (a := row.1) (d := row.2)).mp hrow
    rw [hmem]
    constructor
    · rintro (h | ⟨⟨e'', row'⟩, hrow', rfl, rfl⟩)
      · simp [Dict.getD] at h
      · exact (mem_authRows.mp hrow').2
    · exact fun h => Or.inr ⟨(e', a, d), mem_authRows.mpr ⟨hfetch.1, h⟩, rfl, rfl⟩

theorem mem_sortSearch {search : List (ℤ × String)} {entry : ℤ × String} :
    entry ∈ sortSearch search ↔ entry ∈ search :=
  (List.perm_insertionSort _ search).mem_iff

theorem length_sortSearch (search : List (ℤ × String)) :
    (sortSearch search).length = search.length := List.length_insertionSort _ search

/-- What every turn keeps. -/
structure Walking (db : Tables) (stateSets : List (Finset String)) (st : Walk) : Prop where
  met : Met db stateSets ∅ st
  cache : CacheAgrees db st.cache

/-- Where the walk stops: all that is left to walk is reached by every set. -/
def Stopped (st : Walk) : Prop := ∀ entry ∈ st.search, st.missingSets.getD entry.2 ∅ = ∅

/-- **One turn**: a chunk is walked, or the walk stops. -/
theorem walkTurn_yields (hacyclic : Acyclic db.Auth) (hevicts : cfg.Evicts) (hchunk : 0 < cfg.chunkSize)
    {st : Walk} (h : Walking db stateSets st) :
    Run.Yields (walkTurn cfg db stateSets st) fun o =>
      (o = none → Walking db stateSets st ∧ Stopped st) ∧
        ∀ st', o = some st' → Walking db stateSets st' ∧ st'.left db < st.left db := by
  unfold walkTurn
  split
  · rename_i hempty
    refine Run.Yields.pure ⟨fun _ => ⟨h, fun entry hentry => ?_⟩, fun _ ho => absurd ho (by simp)⟩
    rw [hempty] at hentry
    cases hentry
  rename_i hne
  split
  · rename_i hall
    exact Run.Yields.pure ⟨fun _ => ⟨h, hall⟩, fun _ ho => absurd ho (by simp)⟩
  generalize hkept : st.search.length - cfg.chunkSize = kept
  obtain ⟨hrows, hcache⟩ := fetchAuth_spec hevicts h.cache (st.search.drop kept)
  have hsplit : ∀ entry, entry ∈ st.search ↔
      entry ∈ st.search.take kept ∨ entry ∈ st.search.drop kept := by
    intro entry
    rw [← List.mem_append, List.take_append_drop]
  have hchunkMet : ∀ e ∈ (st.search.drop kept).map Prod.snd, e ∈ st.missingSets.keys := by
    intro e he
    obtain ⟨entry, hentry, rfl⟩ := List.mem_map.mp he
    exact h.met.queued entry (List.mem_of_mem_drop hentry)
  -- the chunk is being walked
  have hstart : Met db stateSets {e | e ∈ (st.search.drop kept).map Prod.snd} { st with
        search := st.search.take kept
        cache := (fetchAuth cfg db st.cache (st.search.drop kept)).2 } := by
    refine ⟨h.met.edge, h.met.source, h.met.target, h.met.initial, h.met.met, h.met.missing,
      fun entry hentry => h.met.queued entry (List.mem_of_mem_take hentry),
      fun x hx htodo hsearch a ha => ?_⟩
    refine h.met.walked x hx (Set.notMem_empty x) (fun entry hentry heq => ?_) a ha
    rcases (hsplit entry).mp hentry with hentry | hentry
    · exact hsearch entry hentry heq
    · exact htodo (List.mem_map.mpr ⟨entry, hentry, heq⟩)
  have hlength : (st.search.take kept).length < st.search.length := by
    have hpos := List.length_pos_of_ne_nil hne
    rw [List.length_take]
    omega
  have hfold := Run.Yields.foldlM (I := fun done (w : Walk) =>
      Met db stateSets {e | e ∈ (st.search.drop kept).map Prod.snd} w ∧
      (∀ e ∈ (st.search.drop kept).map Prod.snd, e ∈ w.missingSets.keys) ∧
      (∀ row ∈ done, w.Edge row.1 row.2.1) ∧
      w.cache = (fetchAuth cfg db st.cache (st.search.drop kept)).2 ∧ w.left db < st.left db)
    (f := followAuth cfg stateSets)
    (fetchAuth cfg db st.cache (st.search.drop kept)).1
    (b := { st with
      search := st.search.take kept
      cache := (fetchAuth cfg db st.cache (st.search.drop kept)).2 }) ?_ ?_
  · refine hfold.bind fun w hw => ?_
    obtain ⟨hmet, hknown, hedges, hcacheEq, hleft⟩ := hw
    refine Run.Yields.pure ⟨fun ho => absurd ho (by simp), fun st' ho => ?_⟩
    obtain rfl := Option.some.inj ho
    refine ⟨⟨⟨hmet.edge, hmet.source, hmet.target, hmet.initial, hmet.met, hmet.missing,
      fun entry hentry => hmet.queued entry (mem_sortSearch.mp hentry),
      fun x hx _ hsearch a ha => ?_⟩, ?_⟩, ?_⟩
    · by_cases hx' : x ∈ (st.search.drop kept).map Prod.snd
      · obtain ⟨hrow, d, hd⟩ := ha
        exact hedges (x, a, d) ((hrows x a d).mpr ⟨hx', hrow, hd⟩)
      · exact hmet.walked x hx hx' (fun entry hentry => hsearch entry (mem_sortSearch.mpr hentry)) a ha
    · show CacheAgrees db w.cache
      rw [hcacheEq]
      exact hcache
    · show _ + (sortSearch w.search).length < _
      rw [length_sortSearch]
      exact hleft
  · rintro done ⟨e, a, d⟩ rest w hfound ⟨hmet, hknown, hedges, hcacheEq, hleft⟩
    obtain ⟨he, hrow, hd⟩ := (hrows e a d).mp (by rw [hfound]; simp)
    refine (followAuth_yields hacyclic hmet (hknown e he) ⟨hrow, d, hd⟩).mono ?_
    rintro w' ⟨hmet', hedge', hkeys', hcache', hleft'⟩
    refine ⟨hmet', fun x hx => hkeys' x (hknown x hx), fun row hr => ?_,
      hcache'.trans hcacheEq, lt_of_le_of_lt hleft' hleft⟩
    rcases List.mem_append.mp hr with hr | hr
    · exact (hedge' _ _).mpr (Or.inl (hedges row hr))
    · rw [List.mem_singleton.mp hr]
      exact (hedge' _ _).mpr (Or.inr ⟨rfl, rfl⟩)
  · refine ⟨hstart, hchunkMet, fun row hr => absurd hr List.not_mem_nil, rfl, ?_⟩
    show _ + (st.search.take kept).length < _ + st.search.length
    exact Nat.add_lt_add_left hlength _

end Turn

/-! ## §6 The whole walk -/

section Whole

variable {cfg : Config} {db : Tables} {stateSets : List (Finset String)} {cache : AuthCache} {st : Walk}

/-- The events of the state sets are stored. -/
def Stored (db : Tables) (stateSets : List (Finset String)) : Prop :=
  ∀ s ∈ stateSets, ∀ e ∈ s, ∃ d, db.depth.get? e = some d

variable {i : ℕ} {x : String}

theorem mem_getD (h : x ∈ stateSets.getD i ∅) : i < stateSets.length ∧ ∃ s ∈ stateSets, x ∈ s := by
  by_cases hi : i < stateSets.length
  · refine ⟨hi, stateSets[i], List.getElem_mem hi, ?_⟩
    rwa [List.getD_eq_getElem _ _ hi] at h
  · rw [List.getD_eq_default _ _ (by omega)] at h
    cases h

theorem mem_initialEvents : x ∈ initialEvents stateSets ↔ ∃ i < stateSets.length, x ∈ stateSets.getD i ∅ := by
  have hmem : x ∈ initialEvents stateSets ↔ ∃ s ∈ stateSets, x ∈ s := by
    unfold initialEvents
    induction stateSets with
    | nil => simp
    | cons s rest ih =>
      rw [List.foldr_cons, Finset.mem_union, ih]
      simp
  rw [hmem]
  constructor
  · rintro ⟨s, hs, hx⟩
    obtain ⟨i, hi, rfl⟩ := List.mem_iff_getElem.mp hs
    exact ⟨i, hi, by rwa [List.getD_eq_getElem _ _ hi]⟩
  · rintro ⟨i, -, hx⟩
    exact (mem_getD hx).2

/-- Before the first turn every event knows the sets it is in. -/
theorem walking_initial (hstored : Stored db stateSets) (hcache : CacheAgrees db cache) :
    Walking db stateSets (initialWalk cfg db stateSets cache) := by
  have hedge : ∀ e a, ¬ (initialWalk cfg db stateSets cache).Edge e a := by
    intro e a h
    cases h
  have hkeys : ∀ x, x ∈ (initialWalk cfg db stateSets cache).missingSets.keys ↔
      x ∈ initialEvents stateSets := by
    intro x
    show x ∈ (Dict.ofKeys _ _).keys ↔ _
    rw [mem_keys_iff]
    simp only [get?_ofKeys, mem_list]
    split
    · exact iff_of_true ⟨_, rfl⟩ ‹_›
    · exact iff_of_false (by simp) ‹_›
  have hreached : ∀ i x, (initialWalk cfg db stateSets cache).Reached stateSets i x ↔
      x ∈ stateSets.getD i ∅ := by
    intro i x
    constructor
    · rintro ⟨s, hs, hsx⟩
      rcases ReflTransGen.cases_head hsx with rfl | ⟨y, hsy, -⟩
      · exact hs
      · exact absurd hsy (hedge _ _)
    · exact fun hx => ⟨x, hx, .refl⟩
  have hsearch : ∀ entry, entry ∈ (initialWalk cfg db stateSets cache).search ↔
      entry.2 ∈ initialEvents stateSets ∧ db.depth.get? entry.2 = some entry.1 := by
    intro entry
    have hbatch : entry ∈ (initialWalk cfg db stateSets cache).search ↔
        ∃ batch ∈ batchIter 1000 (cfg.order.list (initialEvents stateSets)),
          entry ∈ db.depths batch := mem_sortSearch.trans List.mem_flatMap
    have hdepths : ∀ batch, entry ∈ db.depths batch ↔
        entry.2 ∈ batch ∧ db.depth.get? entry.2 = some entry.1 := by
      intro batch
      unfold Tables.depths
      rw [List.mem_map]
      constructor
      · rintro ⟨⟨e, d⟩, hrow, rfl⟩
        obtain ⟨hitem, hmem⟩ := List.mem_filter.mp hrow
        exact ⟨by simpa using hmem, get?_eq_some_iff.mpr hitem⟩
      rintro ⟨hmem, hget⟩
      refine ⟨(entry.2, entry.1), List.mem_filter.mpr ⟨get?_eq_some_iff.mp hget, ?_⟩, rfl⟩
      simpa using hmem
    rw [hbatch]
    simp only [hdepths]
    rw [← mem_list cfg.order,
      ← flatten_batchIter 1000 (cfg.order.list (initialEvents stateSets)),
      List.mem_flatten, flatten_batchIter]
    constructor
    · rintro ⟨batch, hb, hmem, hget⟩
      exact ⟨⟨batch, hb, hmem⟩, hget⟩
    · rintro ⟨⟨batch, hb, hmem⟩, hget⟩
      exact ⟨batch, hb, hmem, hget⟩
  refine ⟨⟨fun e a h => absurd h (hedge e a), fun e a h => absurd h (hedge e a),
    fun e a h => absurd h (hedge e a), fun i x hx => ?_, fun x hx => ?_, fun x hx i => ?_,
    fun entry hentry => (hkeys _).mpr ((hsearch entry).mp hentry).1,
    fun x hx _ hnone => ?_⟩, hcache⟩
  · exact (hkeys x).mpr (mem_initialEvents.mpr ⟨i, (mem_getD hx).1, hx⟩)
  · obtain ⟨i, hi, hxi⟩ := mem_initialEvents.mp ((hkeys x).mp hx)
    exact ⟨i, hi, (hreached i x).mpr hxi⟩
  · rw [hreached]
    have hget : (initialWalk cfg db stateSets cache).missingSets.get? x =
        some ((Finset.range stateSets.length).filter fun i => x ∉ stateSets.getD i ∅) := by
      show (Dict.ofKeys _ _).get? x = _
      rw [get?_ofKeys, if_pos (cfg.order.mem_list.mpr ((hkeys x).mp hx))]
    rw [getD_of_get? hget, Finset.mem_filter, Finset.mem_range]
  · have hinit := (hkeys x).mp hx
    obtain ⟨i, hi, hxi⟩ := mem_initialEvents.mp hinit
    obtain ⟨s, hs, hxs⟩ := (mem_getD hxi).2
    obtain ⟨d, hd⟩ := hstored s hs x hxs
    exact absurd rfl (hnone (d, x) ((hsearch (d, x)).mpr ⟨hinit, hd⟩))

/-- **The walk ends**, knowing what it knows and with nothing left that some set misses. -/
theorem walk_yields (hacyclic : Acyclic db.Auth) (hevicts : cfg.Evicts) (hchunk : 0 < cfg.chunkSize)
    (hstored : Stored db stateSets) (hcache : CacheAgrees db cache) :
    Run.Yields (walk cfg db stateSets cache) fun st => Walking db stateSets st ∧ Stopped st := by
  refine Run.Yields.loop (measure fun st : Walk => st.left db).wf (I := Walking db stateSets) ?_
    (walking_initial hstored hcache)
  intro st hst
  exact walkTurn_yields hacyclic hevicts hchunk hst

/-- The state set reaches the event in the whole graph. -/
def InChain (db : Tables) (stateSets : List (Finset String)) (i : ℕ) (x : String) : Prop :=
  x ∈ reachedFrom db.Auth {e | e ∈ stateSets.getD i ∅}

theorem Walking.inChain (h : Walking db stateSets st)
    (hx : st.Reached stateSets i x) : InChain db stateSets i x := by
  obtain ⟨s, hs, hsx⟩ := hx
  exact ⟨s, hs, hsx.lift id h.met.edge⟩

theorem InChain.trans {y : String} (h : InChain db stateSets i x)
    (hxy : TransGen db.Auth x y) : InChain db stateSets i y := by
  obtain ⟨s, hs, hsx⟩ := h
  exact ⟨s, hs, hsx.trans hxy.to_reflTransGen⟩

/-- A path of the graph was walked, or leads through an event that is still to walk. -/
theorem Walking.reached_or_below (h : Walking db stateSets st)
    (hx : InChain db stateSets i x) : st.Reached stateSets i x ∨
      ∃ entry ∈ st.search, st.Reached stateSets i entry.2 ∧ TransGen db.Auth entry.2 x := by
  obtain ⟨s, hs, hsx⟩ := hx
  induction hsx with
  | refl => exact Or.inl ⟨s, hs, .refl⟩
  | @tail y z _ hyz ih =>
    rcases ih with hy | ⟨entry, hentry, hr, hbelow⟩
    · by_cases hwait : ∃ entry ∈ st.search, entry.2 = y
      · obtain ⟨entry, hentry, rfl⟩ := hwait
        exact Or.inr ⟨entry, hentry, hy, .single hyz⟩
      · have hedge := h.met.walked y (h.met.known_of_reached hy) (Set.notMem_empty y)
          (fun entry hentry heq => hwait ⟨entry, hentry, heq⟩) z hyz
        obtain ⟨t, ht, hty⟩ := hy
        exact Or.inl ⟨t, ht, hty.tail hedge⟩
    · exact Or.inr ⟨entry, hentry, hr, hbelow.tail hyz⟩

theorem Walking.mem_unreached (h : Walking db stateSets st) : x ∈ st.unreached ↔
    x ∈ st.missingSets.keys ∧ ∃ j < stateSets.length, ¬ st.Reached stateSets j x := by
  unfold Walk.unreached
  rw [List.mem_toFinset, List.mem_map]
  constructor
  · rintro ⟨⟨y, sets⟩, hitem, rfl⟩
    obtain ⟨hmem, hne⟩ := List.mem_filter.mp hitem
    have hget := get?_eq_some_iff.mpr hmem
    have hkey : y ∈ st.missingSets.keys := mem_keys_iff.mpr ⟨sets, hget⟩
    obtain ⟨j, hj⟩ := Finset.nonempty_iff_ne_empty.mpr (show sets ≠ ∅ by simpa using hne)
    rw [← getD_of_get? hget ∅] at hj
    exact ⟨hkey, j, (h.met.missing y hkey j).mp hj⟩
  · rintro ⟨hkey, j, hj⟩
    obtain ⟨sets, hget⟩ := mem_keys_iff.mp hkey
    have hmem := (h.met.missing x hkey j).mpr hj
    rw [getD_of_get? hget] at hmem
    refine ⟨(x, sets), List.mem_filter.mpr ⟨get?_eq_some_iff.mp hget, ?_⟩, rfl⟩
    simpa using Finset.ne_empty_of_mem hmem

theorem mem_authChainDifference : x ∈ authChainDifference db stateSets ↔
    (∃ i < stateSets.length, InChain db stateSets i x) ∧
      ∃ j < stateSets.length, ¬ InChain db stateSets j x := by
  have hindex : ∀ p : Finset String → Prop,
      (∃ s ∈ stateSets, p s) ↔ ∃ i < stateSets.length, p (stateSets.getD i ∅) := by
    intro p
    constructor
    · rintro ⟨s, hs, hp⟩
      obtain ⟨i, hi, rfl⟩ := List.mem_iff_getElem.mp hs
      exact ⟨i, hi, by rwa [List.getD_eq_getElem _ _ hi]⟩
    rintro ⟨i, hi, hp⟩
    rw [List.getD_eq_getElem _ _ hi] at hp
    exact ⟨stateSets[i], List.getElem_mem hi, hp⟩
  exact and_congr (hindex fun s => x ∈ reachedFrom db.Auth {e | e ∈ s})
    (hindex fun s => x ∉ reachedFrom db.Auth {e | e ∈ s})

/-- **When the events that a set was not seen to reach are the difference.** -/
theorem Walking.unreached_iff (h : Walking db stateSets st) (hstopped : Stopped st) :
    (∀ x, x ∈ st.unreached ↔ x ∈ authChainDifference db stateSets) ↔ NothingBelow db stateSets st := by
  -- what is left to walk is reached by every set
  have hleft : ∀ entry ∈ st.search, ∀ j < stateSets.length, st.Reached stateSets j entry.2 := by
    intro entry hentry j hj
    by_contra hnot
    have hmem := (h.met.missing entry.2 (h.met.queued entry hentry) j).mpr ⟨hj, hnot⟩
    rw [hstopped entry hentry] at hmem
    cases hmem
  constructor
  · intro heq entry hentry x hx hbelow i hi
    by_contra hnot
    have hmem := (heq x).mp (h.mem_unreached.mpr ⟨hx, i, hi, hnot⟩)
    obtain ⟨-, j, hj, hchain⟩ := mem_authChainDifference.mp hmem
    exact hchain ((h.inChain (hleft entry hentry j hj)).trans hbelow)
  intro hbelow x
  rw [h.mem_unreached, mem_authChainDifference]
  constructor
  · rintro ⟨hx, j, hj, hnot⟩
    obtain ⟨i, hi, hr⟩ := h.met.met x hx
    refine ⟨⟨i, hi, h.inChain hr⟩, j, hj, fun hchain => hnot ?_⟩
    rcases h.reached_or_below hchain with hr | ⟨entry, hentry, -, hpath⟩
    · exact hr
    · exact hbelow entry hentry x hx hpath j hj
  · rintro ⟨⟨i, hi, hchain⟩, j, hj, hnot⟩
    rcases h.reached_or_below hchain with hr | ⟨entry, hentry, -, hpath⟩
    · exact ⟨h.met.known_of_reached hr, j, hj, fun hr' => hnot (h.inChain hr')⟩
    · exact absurd ((h.inChain (hleft entry hentry j hj)).trans hpath) hnot

/-- It returns the auth chain difference. -/
def ComputesDifference (cfg : Config) (db : Tables) (stateSets : List (Finset String)) (cache : AuthCache) : Prop :=
  ∃ r, Run.Returns (getAuthChainDifferenceTxn cfg db stateSets cache) (.ok r) ∧
    ∀ x, x ∈ r ↔ x ∈ authChainDifference db stateSets

/-- There is a state set, and where the walk stops nothing is left to learn. -/
def StopsInTime (cfg : Config) (db : Tables) (stateSets : List (Finset String)) (cache : AuthCache) : Prop :=
  stateSets ≠ [] ∧
    ∃ st, Run.Returns (walk cfg db stateSets cache) (.ok st) ∧ NothingBelow db stateSets st

end Whole

/-! ## §7 An event met too early -/

/-- Three events in a row: `$h` has `$g` among its auth events, and `$g` has `$e`. -/
def exampleTables : Tables where
  depth := ((Dict.empty.set "$e" 1).set "$g" 2).set "$h" 3
  eventAuth := [("$h", "$g"), ("$g", "$e")]

/-- Chunks of a hundred, an empty cache that drops nothing. -/
def exampleConfig : Config := ⟨IterOrder.sorted String, id, 100⟩

theorem example_acyclic : Acyclic exampleTables.Auth := by
  refine Acyclic.of_rank (fun e => if e = "$h" then 2 else if e = "$g" then 1 else 0) ?_
  rintro e a ⟨hrow, -⟩
  rcases List.mem_pair.mp hrow with heq | heq
  · obtain ⟨rfl, rfl⟩ := Prod.mk.inj heq
    decide
  · obtain ⟨rfl, rfl⟩ := Prod.mk.inj heq
    decide

end Setka.Storage.AuthChainDifference
