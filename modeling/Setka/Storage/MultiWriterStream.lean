/-
# Setka.Storage.MultiWriterStream — id generators in their environment.

Two worlds over one generator model. In the first a single instance runs against an environment that
draws from the same sequence and announces completed positions; in the second any number of
instances write one stream and their announcements travel with arbitrary delay, duplication and
reordering. A step is one critical section of one instance, a draw from the shared sequence, or the
delivery of an announcement, so every interleaving of threads and processes is a run.
-/
import Setka.Lib.Transition
import Setka.Storage.IdGeneratorsSound

namespace Setka.Storage.IdGenerators

open Setka.Lib MultiWriterIdGenerator Function

/-! ## §1 One instance -/

/-- An instance: its generator, the calls of `_load_next_mult_id_txn` in progress, the ids it was
ever allocated and those it has marked finished. -/
structure Instance where
  gen : MultiWriterIdGenerator
  fetches : Multiset Fetch
  allocated : Finset Int
  finished : Finset Int

/-- Ids allocated to the instance and not yet marked finished. -/
def Instance.pending (i : Instance) : Finset Int := i.allocated \ i.finished

/-- `get_next` and its variants refuse an instance that is not among the explicit writers. -/
def Instance.MayWrite (i : Instance) : Prop :=
  i.gen.writers = [] ∨ i.gen.instanceName ∈ i.gen.writers

/-- One step of an instance, with the last value of the shared sequence before and after.

A fetch that fails leaves the `started` phase through `leaveFetch`; the ids the sequence may have
drawn for it never reach anyone. `addIdsRaises` is the `IndexError` on an empty set, after which the
`finally` branch still runs. -/
inductive InstanceStep : Int → Instance → Int → Instance → Prop
  | enterFetch {last : Int} {i : Instance} : i.MayWrite → InstanceStep last i last { i with
          gen := i.gen.enterFetch
          fetches := ⟨i.gen.maxSeenAllocatedStreamId, .started⟩ ::ₘ i.fetches }
  | sequenceFetch {last last' m : Int} {i : Instance} {rest : Multiset Fetch} (ids : List Int) :
      i.fetches = ⟨m, .started⟩ ::ₘ rest →
      (∀ u ∈ ids, last < u ∧ u ≤ last') → last ≤ last' →
      InstanceStep last i last' { i with
          fetches := ⟨m, .fetched ids⟩ ::ₘ rest
          allocated := i.allocated ∪ ids.toFinset }
  | addIds {last m : Int} {i : Instance} {rest : Multiset Fetch} {ids : List Int} {g : MultiWriterIdGenerator} :
      i.fetches = ⟨m, .fetched ids⟩ ::ₘ rest → i.gen.addFetchedIds ids = some g →
      InstanceStep last i last { i with gen := g, fetches := ⟨m, .added⟩ ::ₘ rest }
  | addIdsRaises {last m : Int} {i : Instance} {rest : Multiset Fetch} {ids : List Int} :
      i.fetches = ⟨m, .fetched ids⟩ ::ₘ rest → i.gen.addFetchedIds ids = none →
      InstanceStep last i last { i with fetches := ⟨m, .added⟩ ::ₘ rest }
  | leaveFetch {last : Int} {i : Instance} {f : Fetch} {rest : Multiset Fetch} :
      i.fetches = f ::ₘ rest → f.phase = .started ∨ f.phase = .added →
      InstanceStep last i last { i with gen := i.gen.leaveFetch f.currentMax, fetches := rest }
  | markIdsAsFinished {last : Int} {i : Instance} {ids : List Int} {g : MultiWriterIdGenerator} :
      (∀ u ∈ ids, u ∈ i.allocated) → i.gen.markIdsAsFinished ids = some g →
      InstanceStep last i last { i with gen := g, finished := i.finished ∪ ids.toFinset }

variable {last last' : Int} {i i' : Instance}

theorem InstanceStep.sameConfig (h : InstanceStep last i last' i') : SameConfig i.gen i'.gen := by
  cases h with
  | enterFetch => exact ⟨rfl, rfl, rfl⟩
  | sequenceFetch => exact ⟨rfl, rfl, rfl⟩
  | addIds _ hg => exact sameConfig_addFetchedIds hg
  | addIdsRaises => exact ⟨rfl, rfl, rfl⟩
  | leaveFetch => exact ⟨rfl, rfl, rfl⟩
  | markIdsAsFinished _ hg => exact sameConfig_markIdsAsFinished hg

theorem InstanceStep.last_le (h : InstanceStep last i last' i') : last ≤ last' := by
  cases h with
  | sequenceFetch _ _ _ hl => exact hl
  | _ => exact le_rfl

/-- Only a draw from the sequence allocates, and only ids past the last value. -/
theorem InstanceStep.allocated (h : InstanceStep last i last' i') {u : Int} (hu : u ∈ i'.allocated) :
    u ∈ i.allocated ∨ last < u ∧ u ≤ last' := by
  cases h with
  | sequenceFetch ids _ hids _ =>
    rcases Finset.mem_union.mp hu with hu | hu
    · exact Or.inl hu
    · exact Or.inr (hids u (List.mem_toFinset.mp hu))
  | _ => exact Or.inl hu

theorem InstanceStep.pending (h : InstanceStep last i last' i') {u : Int} (hu : u ∈ i'.pending) :
    u ∈ i.pending ∨ last < u := by
  obtain ⟨ha, hf⟩ := Finset.mem_sdiff.mp hu
  rcases h.allocated ha with ha | hlt
  · refine Or.inl (Finset.mem_sdiff.mpr ⟨ha, fun hf' => hf ?_⟩)
    cases h with
    | markIdsAsFinished => exact Finset.mem_union_left _ hf'
    | _ => exact hf'
  · exact Or.inr hlt.1

theorem InstanceStep.finished_subset (h : InstanceStep last i last' i') (hi : i.finished ⊆ i.allocated) :
    i'.finished ⊆ i'.allocated := by
  cases h with
  | sequenceFetch => exact hi.trans Finset.subset_union_left
  | markIdsAsFinished hids =>
    exact Finset.union_subset hi fun u hu => hids u (List.mem_toFinset.mp hu)
  | _ => exact hi

section StepKeepsSound

variable {writers : List String} {pending : String → Finset Int} {last last' : Int} {i i' : Instance}

/-- **A step of an instance keeps its own invariant**, when the ids allocated to it belong to nobody
else. -/
theorem InstanceStep.sound (h : InstanceStep last i last' i')
    (hs : Sound writers pending last i.fetches i.gen) (hw : i.gen.instanceName ∈ writers)
    (hself : pending i.gen.instanceName = i.pending)
    (hown : ∀ u ∈ i.allocated, u ≤ last ∧ ∀ n ≠ i.gen.instanceName, u ∉ pending n)
    (hfresh : ∀ n ≠ i.gen.instanceName, ∀ u ∈ pending n, u ≤ last)
    {pending' : String → Finset Int}
    (hother : ∀ n ≠ i.gen.instanceName, pending' n = pending n)
    (hself' : pending' i.gen.instanceName = i'.pending) :
    Sound writers pending' last' i'.fetches i'.gen := by
  have hpend : i'.pending = i.pending → pending' = pending := by
    intro heq
    funext n
    by_cases hn : n = i.gen.instanceName
    · rw [hn, hself', hself, heq]
    · exact hother n hn
  cases h with
  | enterFetch =>
    rw [hpend rfl]
    exact hs.enterFetch
  | sequenceFetch ids hf hids hl =>
    rw [hf] at hs
    refine hs.sequenceFetch hl hids hw hother (fun u hu => ?_) hfresh
    rw [hself'] at hu
    obtain ⟨ha, hfin⟩ := Finset.mem_sdiff.mp hu
    rcases Finset.mem_union.mp ha with ha | ha
    · exact Or.inl (hself ▸ Finset.mem_sdiff.mpr ⟨ha, hfin⟩)
    · exact Or.inr (List.mem_toFinset.mp ha)
  | addIds hf hg =>
    rw [hpend rfl]
    rw [hf] at hs
    exact hs.addFetchedIds hg
  | addIdsRaises hf hg =>
    rw [hpend rfl]
    rw [hf] at hs
    exact hs.addFetchedIdsRaises hg
  | leaveFetch hf hph =>
    rw [hpend rfl]
    rw [hf] at hs
    exact hs.leaveFetch (by rcases hph with hp | hp <;> simp [Fetch.ids, hp])
  | markIdsAsFinished hids hg =>
    refine hs.markIdsAsFinished hw hg (fun u hu => hown u (hids u hu)) hother ?_
    rw [hself', hself]
    ext u
    simp only [Instance.pending, Finset.mem_sdiff, Finset.mem_union, not_or, and_assoc]

end StepKeepsSound

/-! ## §2 One instance and its environment -/

/-- A single instance, the last value of the shared sequence, the value it had when the instance was
constructed, and the ids the sequence handed to other writers together with those they finished. -/
structure World where
  self : Instance
  start : Int
  last : Int
  othersAllocated : Finset Int
  othersFinished : Finset Int

namespace World

/-- A position some writer has really completed: it was reached before the instance started, or it
is an id that its writer has finished. -/
def Completed (w : World) (p : Int) : Prop :=
  p ≤ w.start ∨ p ∈ w.self.finished ∨ p ∈ w.othersFinished

/-- The world right after the constructor ran against a database that ends at `last`. -/
def Initial (w : World) : Prop :=
  ∃ name writers positive db, db.Within writers positive w.last ∧
    w.self = ⟨init name writers positive db, 0, ∅, ∅⟩ ∧ w.self.MayWrite ∧ w.start = w.last ∧
    w.othersAllocated = ∅ ∧ w.othersFinished = ∅

/-- Steps of the instance, of the other writers, and announcements of completed positions. -/
inductive Step : World → World → Prop
  | own {w : World} {last' : Int} {i : Instance} :
      InstanceStep w.last w.self last' i → Step w { w with self := i, last := last' }
  | otherFetch {w : World} {last' : Int} (ids : Finset Int) : (∀ u ∈ ids, w.last < u ∧ u ≤ last') → w.last ≤ last' →
      Step w { w with last := last', othersAllocated := w.othersAllocated ∪ ids }
  | otherFinish {w : World} {ids : Finset Int} : ids ⊆ w.othersAllocated →
      Step w { w with othersFinished := w.othersFinished ∪ ids }
  | advance {w : World} {name : String} {p : Int} : name ≠ w.self.gen.instanceName → w.Completed p →
      Step w { w with self := { w.self with
        gen := w.self.gen.advance name (w.self.gen.returnFactor * p) } }

/-- The pending ids as the invariant sees them: only those of this instance matter here. -/
def pendingOf (w : World) (n : String) : Finset Int :=
  if n = w.self.gen.instanceName then w.self.pending else ∅

/-- The invariant of the single-instance world. -/
structure Inv (w : World) : Prop where
  sound : Sound [w.self.gen.instanceName] w.pendingOf w.last w.self.fetches w.self.gen
  start_le : w.start ≤ w.last
  allocated : ∀ u ∈ w.self.allocated, w.start < u ∧ u ≤ w.last
  others : ∀ u ∈ w.othersAllocated, u ≤ w.last ∧ u ∉ w.self.allocated
  finished : w.self.finished ⊆ w.self.allocated ∧ w.othersFinished ⊆ w.othersAllocated

theorem returnFactor_mul_self (g : MultiWriterIdGenerator) : g.returnFactor * g.returnFactor = 1 := by
  unfold returnFactor
  split <;> rfl

theorem mul_returnFactor (g : MultiWriterIdGenerator) (p : Int) : g.returnFactor * p * g.returnFactor = p := by
  rw [mul_comm, ← mul_assoc, returnFactor_mul_self, one_mul]

variable {w : World}

theorem inv_initial (h : w.Initial) : w.Inv := by
  obtain ⟨name, writers, positive, db, hdb, hself, hmay, hstart, hall, hfin⟩ := h
  obtain ⟨hname, hwriters, -⟩ := sameConfig_init name positive hdb
  have hgen : w.self.gen = init name writers positive db := by rw [hself]
  have hpend : w.pendingOf = fun _ => ∅ := by
    funext n
    simp [pendingOf, hself, Instance.pending]
  refine ⟨?_, hstart.le, by simp [hself], by simp [hall], by simp [hself, hall, hfin]⟩
  rw [hpend, hgen, hname, show w.self.fetches = 0 by rw [hself]]
  refine init_sound hdb fun n hn => ?_
  obtain rfl := List.mem_singleton.mp hn
  have hmay' : writers = [] ∨ n ∈ writers := by
    rw [Instance.MayWrite, hgen, hname, hwriters] at hmay
    exact hmay
  split
  · rfl
  · exact hmay'.resolve_left ‹_›

theorem inv_own (h : w.Inv) {last' : Int} {i : Instance}
    (hs : InstanceStep w.last w.self last' i) : Inv { w with self := i, last := last' } := by
  have hname : i.gen.instanceName = w.self.gen.instanceName := hs.sameConfig.1
  have hl := hs.last_le
  refine ⟨?_, h.start_le.trans hl, fun u hu => ?_, fun u hu => ?_, ?_, h.finished.2⟩
  · show Sound [i.gen.instanceName] _ last' i.fetches i.gen
    rw [hname]
    refine hs.sound h.sound (by simp) (by simp [pendingOf]) ?_ ?_ ?_ ?_
    · exact fun u hu => ⟨(h.allocated u hu).2, fun n hn => by simp [pendingOf, hn]⟩
    · exact fun n hn u hu => by simp [pendingOf, hn] at hu
    · exact fun n hn => by simp [pendingOf, hn, hname]
    · simp [pendingOf, hname]
  · rcases hs.allocated hu with ha | ha
    · exact ⟨(h.allocated u ha).1, (h.allocated u ha).2.trans hl⟩
    · exact ⟨lt_of_le_of_lt h.start_le ha.1, ha.2⟩
  · obtain ⟨h1, h2⟩ := h.others u hu
    refine ⟨h1.trans hl, fun ha => ?_⟩
    rcases hs.allocated ha with ha | ha
    · exact h2 ha
    · omega
  · exact hs.finished_subset h.finished.1

/-- A completed position is settled, and clear of the pending ids of everyone but this instance. -/
theorem Inv.settled_of_completed (h : w.Inv) {p : Int} (hp : w.Completed p) : Settled w.pendingOf w.last p := by
  have hself : p ≤ w.last ∧ p ∉ w.self.pending := by
    rcases hp with hp | hp | hp
    · refine ⟨hp.trans h.start_le, fun hm => ?_⟩
      have := (h.allocated p (Finset.mem_sdiff.mp hm).1).1
      omega
    · exact ⟨(h.allocated p (h.finished.1 hp)).2, fun hm => (Finset.mem_sdiff.mp hm).2 hp⟩
    · obtain ⟨h1, h2⟩ := h.others p (h.finished.2 hp)
      exact ⟨h1, fun hm => h2 (Finset.mem_sdiff.mp hm).1⟩
  refine ⟨hself.1, fun n => ?_⟩
  unfold pendingOf
  split
  · exact hself.2
  · exact Finset.notMem_empty p

variable {w' : World}

theorem inv_step (h : w.Inv) (hs : Step w w') : w'.Inv := by
  cases hs with
  | own hi => exact inv_own h hi
  | @otherFetch last' ids hids hl =>
    have hsound : Sound [w.self.gen.instanceName] w.pendingOf last' w.self.fetches w.self.gen :=
      h.sound.mono hl (fun n u hu => Or.inl hu) h.sound.pending_writer rfl h.sound.own_pending
        fun f hf u hu => ⟨(h.sound.fetch_ids f hf u hu).1.trans hl, (h.sound.fetch_ids f hf u hu).2⟩
    refine ⟨hsound, h.start_le.trans hl,
      fun u hu => ⟨(h.allocated u hu).1, (h.allocated u hu).2.trans hl⟩, fun u hu => ?_,
      h.finished.1, h.finished.2.trans Finset.subset_union_left⟩
    rcases Finset.mem_union.mp hu with hu | hu
    · exact ⟨(h.others u hu).1.trans hl, (h.others u hu).2⟩
    refine ⟨(hids u hu).2, fun ha => ?_⟩
    have h1 := (h.allocated u ha).2
    have h2 := (hids u hu).1
    omega
  | otherFinish hids =>
    exact ⟨h.sound, h.start_le, h.allocated, h.others, h.finished.1, Finset.union_subset h.finished.2 hids⟩
  | @advance name p hname hp =>
    have hset := h.settled_of_completed hp
    refine ⟨?_, h.start_le, h.allocated, h.others, h.finished⟩
    refine h.sound.advance hname ?_ ?_ <;> rw [mul_returnFactor]
    · rw [pendingOf, if_neg hname]
      exact Clear.empty p
    · exact hset

theorem inv_reachable (h : Reachable Initial Step w) : w.Inv :=
  h.invariant (fun _ => inv_initial) fun _ _ _ hi hs => inv_step hi hs

/-- Positions start at `1`. -/
theorem Initial.one_le_upto (h : w.Initial) : 1 ≤ w.self.gen.persistedUptoPosition := by
  obtain ⟨name, writers, positive, db, hdb, hself, -⟩ := h
  rw [hself]
  exact ((loaded_blank name writers positive hdb.one_le_last).loadCurrentIds hdb).1.upto.1

/-- The persisted position never goes back. -/
theorem le_addPersistedPosition (g : MultiWriterIdGenerator) (newId : Int) :
    g.persistedUptoPosition ≤ (g.addPersistedPosition newId).persistedUptoPosition :=
  (le_max_right g.minCurr g.persistedUptoPosition).trans
    (drain_spec (P := fun v => max g.minCurr g.persistedUptoPosition ≤ v) _ _
      (fun v hv _ => by omega) (le_refl _)).1

theorem le_foldl_addPersistedPosition (ids : List Int) (g : MultiWriterIdGenerator) :
    g.persistedUptoPosition ≤ (ids.foldl addPersistedPosition g).persistedUptoPosition := by
  induction ids generalizing g with
  | nil => exact le_refl _
  | cons id ids ih => exact (le_addPersistedPosition g id).trans (ih _)

theorem Step.upto_le (h : Step w w') : w.self.gen.persistedUptoPosition ≤ w'.self.gen.persistedUptoPosition := by
  cases h with
  | own hi =>
    cases hi with
    | addIds _ hg =>
      simp only [addFetchedIds] at hg
      split at hg
      · cases hg
      · obtain rfl := Option.some.inj hg
        exact le_refl _
    | markIdsAsFinished _ hg =>
      simp only [markIdsAsFinished] at hg
      split at hg
      · cases hg
      obtain rfl := Option.some.inj hg
      refine le_trans (le_of_eq ?_) (le_foldl_addPersistedPosition _ _)
      unfold moveLocalPosition
      split
      · rfl
      · split <;> rfl
    | _ => exact le_refl _
  | advance => exact le_addPersistedPosition _ _
  | _ => exact le_refl _

/-- While nothing is finished, what is pending stays so, and only ids past the last one are new. -/
theorem Step.pending (h : Step w w') (hfinished : w'.self.finished = w.self.finished) {u : Int} :
    (u ∈ w.self.pending → u ∈ w'.self.pending) ∧ (u ∈ w'.self.pending → u ∈ w.self.pending ∨ w.last < u) := by
  cases h with
  | own hi =>
    refine ⟨fun hu => ?_, hi.pending⟩
    obtain ⟨ha, hf⟩ := Finset.mem_sdiff.mp hu
    refine Finset.mem_sdiff.mpr ⟨?_, hfinished ▸ hf⟩
    cases hi with
    | sequenceFetch => exact Finset.mem_union_left _ ha
    | _ => exact ha
  | _ => exact ⟨id, .inl⟩

theorem Step.last_le (h : Step w w') : w.last ≤ w'.last := by
  cases h with
  | own hi => exact hi.last_le
  | otherFetch _ _ hle => exact hle
  | _ => exact le_refl _

theorem Step.sameConfig (h : Step w w') : SameConfig w.self.gen w'.self.gen := by
  cases h with
  | own hi => exact hi.sameConfig
  | _ => exact ⟨rfl, rfl, rfl⟩

end World

/-- **No position of an instance passes its unfinished work.** In every run of one instance, every
id allocated to it and not yet marked finished lies strictly beyond all three positions it exposes,
in the direction of the stream (`returnFactor` is `1` for a stream that counts upwards). -/
theorem pending_beyond_positions {w : World} (h : Reachable World.Initial World.Step w) {u : Int}
    (hu : u ∈ w.self.allocated) (hf : u ∉ w.self.finished) :
    w.self.gen.returnFactor * w.self.gen.getPersistedUptoPosition < u ∧
      w.self.gen.returnFactor * w.self.gen.getCurrentTokenForWriter w.self.gen.instanceName < u ∧
      w.self.gen.returnFactor * w.self.gen.getMinimalLocalCurrentToken < u := by
  have hs := (World.inv_reachable h).sound
  have hpend : u ∈ w.pendingOf w.self.gen.instanceName := by
    rw [World.pendingOf, if_pos rfl]
    exact Finset.mem_sdiff.mpr ⟨hu, hf⟩
  have hcancel : ∀ p, w.self.gen.returnFactor * (w.self.gen.returnFactor * p) = p := by
    intro p
    rw [← mul_assoc, World.returnFactor_mul_self, one_mul]
  obtain ⟨p, hp, -⟩ := hs.own_position (by simp)
  refine ⟨?_, ?_, ?_⟩
  · rw [getPersistedUptoPosition, hcancel]
    exact hs.upto.1 _ u hpend
  · rw [getCurrentTokenForWriter, if_pos rfl, hcancel]
    exact hs.local_max.1 u hpend
  · rw [getMinimalLocalCurrentToken, Dict.getD_of_get? hp, hcancel]
    exact (hs.positions _ p hp).1 u hpend

/-- The database of a stream nothing was ever written to. -/
def freshRows : StartupRows := ⟨[], some 1, [], []⟩

theorem freshRows_within (writers : List String) : freshRows.Within writers true 1 :=
  ⟨le_rfl, by simp [freshRows], by simp [freshRows], by simp [freshRows], by simp [freshRows]⟩

/-- The single writer of a fresh stream, between the sequence handing it id `2` and the id entering
the unfinished set. -/
def World.fetching : World where
  self :=
    { gen := (init "main" ["main"] true freshRows).enterFetch
      fetches := {⟨1, .fetched [2]⟩}
      allocated := {2}
      finished := ∅ }
  start := 1
  last := 2
  othersAllocated := ∅
  othersFinished := ∅

theorem World.fetching_reachable : Reachable World.Initial World.Step World.fetching := by
  have h0 : Reachable World.Initial World.Step ⟨⟨init "main" ["main"] true freshRows, 0, ∅, ∅⟩, 1, 1, ∅, ∅⟩ :=
    .start ⟨"main", ["main"], true, freshRows, freshRows_within _, rfl, Or.inr (by decide), rfl, rfl, rfl⟩
  have h1 := h0.next (.own (.enterFetch (Or.inr (by decide))))
  exact h1.next (.own (.sequenceFetch [2] rfl (by decide) (by decide)))

theorem pending_beyond_positions_fetching :
    World.fetching.self.gen.returnFactor * World.fetching.self.gen.getPersistedUptoPosition < 2 ∧
      World.fetching.self.gen.returnFactor *
        World.fetching.self.gen.getCurrentTokenForWriter World.fetching.self.gen.instanceName < 2 ∧
      World.fetching.self.gen.returnFactor * World.fetching.self.gen.getMinimalLocalCurrentToken < 2 :=
  pending_beyond_positions World.fetching_reachable (by decide) (by decide)

/-! ## §3 Any number of instances -/

/-- All instances by name, the last value of the shared sequence, and every announcement ever sent:
the sender with the token it read. An announcement is never taken away, so that a delivery may
happen at any later time, again, and in any order. -/
structure Cluster where
  insts : String → Instance
  last : Int
  sent : List (String × Int)

namespace Cluster

/-- All instances are constructed with the same list of writers, against databases that end at
`last`, before anything is in flight. -/
def Initial (writers : List String) (positive : Bool) (c : Cluster) : Prop :=
  writers ≠ [] ∧ c.sent = [] ∧ ∀ n, ∃ db, StartupRows.Within db writers positive c.last ∧
    c.insts n = ⟨init n writers positive db, 0, ∅, ∅⟩

/-- Instance `n` receives an announcement of `m`. -/
def receive (c : Cluster) (n m : String) (token : Int) : Cluster :=
  let i := c.insts n
  { c with insts := Function.update c.insts n { i with gen := i.gen.advance m token } }

/-- A step of a writer, an announcement of its current token, or a delivery to another instance. -/
inductive Step (writers : List String) : Cluster → Cluster → Prop
  | own {c : Cluster} {n : String} {last' : Int} {i : Instance} : n ∈ writers →
      InstanceStep c.last (c.insts n) last' i →
      Step writers c { c with insts := Function.update c.insts n i, last := last' }
  | announce {c : Cluster} {n : String} : n ∈ writers →
      Step writers c { c with sent := (n, (c.insts n).gen.getCurrentTokenForWriter n) :: c.sent }
  | deliver {c : Cluster} {n m : String} {token : Int} : (m, token) ∈ c.sent → m ≠ n →
      Step writers c (c.receive n m token)

/-- The pending ids of each writer. -/
def pendingOf (c : Cluster) (n : String) : Finset Int := (c.insts n).pending

/-- The invariant of the cluster. -/
structure Inv (writers : List String) (positive : Bool) (c : Cluster) : Prop where
  config : ∀ n, (c.insts n).gen.instanceName = n ∧ (c.insts n).gen.positive = positive
  sound : ∀ n, Sound writers c.pendingOf c.last (c.insts n).fetches (c.insts n).gen
  allocated : ∀ n, ∀ u ∈ (c.insts n).allocated, u ≤ c.last
  owner : ∀ n m u, u ∈ (c.insts n).allocated → u ∈ (c.insts m).allocated → n = m
  sent : ∀ m token, (m, token) ∈ c.sent → Clear (c.pendingOf m) (token * if positive then 1 else -1) ∧
      Settled c.pendingOf c.last (token * if positive then 1 else -1)

variable {writers : List String} {positive : Bool}

variable {c : Cluster}

theorem inv_initial (h : c.Initial writers positive) : c.Inv writers positive := by
  obtain ⟨hne, hsent, hinst⟩ := h
  have hpend : c.pendingOf = fun _ => ∅ := by
    funext n
    obtain ⟨db, -, hi⟩ := hinst n
    simp [pendingOf, hi, Instance.pending]
  refine ⟨fun n => ?_, fun n => ?_, fun n u hu => ?_, fun n m u hu => ?_, by simp [hsent]⟩
  all_goals obtain ⟨db, hdb, hi⟩ := hinst n
  · obtain ⟨h1, -, h2⟩ := sameConfig_init n positive hdb
    rw [hi]
    exact ⟨h1, h2⟩
  · rw [hpend, hi]
    exact init_sound hdb fun m hm => by rwa [if_neg hne]
  · simp [hi] at hu
  · simp [hi] at hu

theorem Inv.returnFactor (h : c.Inv writers positive) (n : String) :
    (c.insts n).gen.returnFactor = if positive then 1 else -1 := by
  rw [MultiWriterIdGenerator.returnFactor, (h.config n).2]

theorem inv_own (h : c.Inv writers positive) {n : String} (hn : n ∈ writers) {last' : Int} {i : Instance}
    (hs : InstanceStep c.last (c.insts n) last' i) :
    Inv writers positive { c with insts := update c.insts n i, last := last' } := by
  have hl := hs.last_le
  have hcfg := hs.sameConfig
  have hname : (c.insts n).gen.instanceName = n := (h.config n).1
  have hupd : ∀ m, update c.insts n i m = if m = n then i else c.insts m := by
    intro m
    rw [update_apply]
  have hpend : ∀ m, ∀ u ∈ (update c.insts n i m).pending, u ∈ c.pendingOf m ∨ c.last < u := by
    intro m u hu
    rw [hupd] at hu
    split at hu
    · rename_i hm
      subst hm
      exact hs.pending hu
    · exact Or.inl hu
  have hsub : ∀ m, ∀ u ∈ c.pendingOf m, u ≤ c.last ∧ u ∈ (c.insts m).allocated := fun m u hu =>
    ⟨h.allocated m u (Finset.mem_sdiff.mp hu).1, (Finset.mem_sdiff.mp hu).1⟩
  have halloc : ∀ m, ∀ u ∈ (update c.insts n i m).allocated,
      u ∈ (c.insts m).allocated ∨ (m = n ∧ c.last < u ∧ u ≤ last') := by
    intro m u hu
    rw [hupd] at hu
    split at hu
    · rename_i hm
      subst hm
      rcases hs.allocated hu with ha | ha
      · exact Or.inl ha
      · exact Or.inr ⟨rfl, ha⟩
    · exact Or.inl hu
  refine ⟨fun m => ?_, fun m => ?_, fun m u hu => ?_, fun m k u hm hk => ?_, fun m token ht => ?_⟩
  · show (update c.insts n i m).gen.instanceName = m ∧ _
    dsimp only
    rw [hupd]
    split
    · rename_i hm
      rw [hcfg.1, hcfg.2.2, hm]
      exact h.config n
    · exact h.config m
  · -- the stepping instance by its own step, every other one because pending ids only finish or
    -- are fresh
    show Sound writers _ last' (update c.insts n i m).fetches (update c.insts n i m).gen
    by_cases hm : m = n
    · subst hm
      rw [hupd m, if_pos rfl]
      refine hs.sound (h.sound m) (by rw [hname]; exact hn) (by rw [hname]; rfl) ?_ ?_ ?_ ?_ <;> rw [hname]
      · exact fun u hu => ⟨h.allocated m u hu, fun k hk hu' => hk (h.owner k m u (hsub k u hu').2 hu)⟩
      · exact fun k _ u hu => (hsub k u hu).1
      · intro k hk
        simp only [pendingOf, hupd, if_neg hk]
      · simp only [pendingOf, hupd, if_pos]
    rw [hupd m, if_neg hm]
    have hs' := h.sound m
    have hname' := (h.config m).1
    refine hs'.mono hl (fun k u hu => hpend k u hu) ?_ rfl ?_ ?_
    · intro k hk
      by_cases hkn : k = n
      · exact hkn ▸ hn
      · refine hs'.pending_writer k ?_
        simpa only [pendingOf, hupd, if_neg hkn] using hk
    · intro u hu
      refine hs'.own_pending u ?_
      rw [hname'] at hu ⊢
      simpa only [pendingOf, hupd, if_neg hm] using hu
    · intro f hf u hu
      obtain ⟨h1, h2⟩ := hs'.fetch_ids f hf u hu
      refine ⟨h1.trans hl, fun k hk hu' => ?_⟩
      rcases hpend k u hu' with hu' | hlt
      · exact h2 k hk hu'
      · omega
  · rcases halloc m u hu with ha | ⟨-, ha⟩
    · exact (h.allocated m u ha).trans hl
    · exact ha.2
  · rcases halloc m u hm with ha | ⟨hmn, ha⟩ <;> rcases halloc k u hk with hb | ⟨hkn, hb⟩
    · exact h.owner m k u ha hb
    · have := h.allocated m u ha
      omega
    · have := h.allocated k u hb
      omega
    · exact hmn.trans hkn.symm
  · obtain ⟨h1, h2⟩ := h.sent m token ht
    exact ⟨clear_mono h1 h2.1 (hpend m), h2.mono hl hpend⟩

theorem inv_announce (h : c.Inv writers positive) (n : String) : Inv writers positive
      { c with sent := (n, (c.insts n).gen.getCurrentTokenForWriter n) :: c.sent } := by
  refine ⟨h.config, h.sound, h.allocated, h.owner, fun m token ht => ?_⟩
  rcases List.mem_cons.mp ht with ht | ht
  · obtain ⟨rfl, rfl⟩ := Prod.mk.injEq .. ▸ ht
    have hmax := (h.sound m).local_max
    rw [(h.config m).1] at hmax
    rw [← h.returnFactor m, getCurrentTokenForWriter, if_pos (h.config m).1, World.mul_returnFactor]
    exact hmax
  · exact h.sent m token ht

theorem inv_receive (h : c.Inv writers positive) {n m : String} {token : Int} (ht : (m, token) ∈ c.sent)
    (hmn : m ≠ n) : Inv writers positive (c.receive n m token) := by
  obtain ⟨hclear, hset⟩ := h.sent m token ht
  have hupd : ∀ k, (c.receive n m token).insts k = if k = n then
      { c.insts n with gen := (c.insts n).gen.advance m token } else c.insts k := by
    intro k
    dsimp only [receive]
    rw [update_apply]
  have hsame : ∀ k, ((c.receive n m token).insts k).allocated = (c.insts k).allocated ∧
      ((c.receive n m token).insts k).pending = (c.insts k).pending := by
    intro k
    rw [hupd]
    split
    · rename_i hk
      rw [hk]
      exact ⟨rfl, rfl⟩
    · exact ⟨rfl, rfl⟩
  have hpend : (c.receive n m token).pendingOf = c.pendingOf := by
    funext k
    exact (hsame k).2
  refine ⟨fun k => ?_, fun k => ?_, fun k u hu => ?_, fun k k' u hk hk' => ?_, ?_⟩
  · rw [hupd]
    split
    · rename_i hk
      rw [hk]
      exact h.config n
    · exact h.config k
  · rw [hpend, hupd]
    split
    · refine (h.sound n).advance ((h.config n).1.symm ▸ hmn) ?_ ?_ <;> rw [h.returnFactor n]
      · exact hclear
      · exact hset
    · exact h.sound k
  · rw [(hsame k).1] at hu
    exact h.allocated k u hu
  · rw [(hsame k).1] at hk
    rw [(hsame k').1] at hk'
    exact h.owner k k' u hk hk'
  · rw [hpend]
    exact h.sent

theorem inv_step {c' : Cluster} (h : c.Inv writers positive) (hs : Step writers c c') :
    c'.Inv writers positive := by
  cases hs with
  | own hn hi => exact inv_own h hn hi
  | announce _ => exact inv_announce h _
  | deliver ht hmn => exact inv_receive h ht hmn

theorem inv_reachable (h : Reachable (Initial writers positive) (Step writers) c) : c.Inv writers positive :=
  h.invariant (fun _ => inv_initial) fun _ _ _ hi hs => inv_step hi hs

end Cluster

/-- **Every persisted-up-to position is persisted up to.** In every run of any number of instances
with the same explicit writers, whatever the delays, repetitions and reorderings of their
announcements: an id at or below the position that some instance reports, allocated at any time to
any writer, has been marked finished by that writer. -/
theorem finished_of_le_persistedUpto {writers : List String} {positive : Bool} {c : Cluster}
    (h : Reachable (Cluster.Initial writers positive) (Cluster.Step writers) c) {n m : String}
    {u : Int} (hu : u ∈ (c.insts m).allocated)
    (hle : u ≤ (c.insts n).gen.returnFactor * (c.insts n).gen.getPersistedUptoPosition) :
    u ∈ (c.insts m).finished := by
  by_contra hf
  have hclear := ((Cluster.inv_reachable h).sound n).upto.1 m u (Finset.mem_sdiff.mpr ⟨hu, hf⟩)
  rw [getPersistedUptoPosition, ← mul_assoc, World.returnFactor_mul_self, one_mul] at hle
  omega

/-- One step of an instance together with the shared sequence. -/
def InstanceRun (p q : Int × Instance) : Prop := InstanceStep p.1 p.2 q.1 q.2

/-- A run of one writer is a run of the cluster. -/
theorem Cluster.reachable_own_run {writers : List String} {positive : Bool} {c : Cluster}
    (h : Reachable (Cluster.Initial writers positive) (Cluster.Step writers) c) {n : String}
    (hn : n ∈ writers) {p : Int × Instance}
    (hp : Relation.ReflTransGen InstanceRun (c.last, c.insts n) p) :
    Reachable (Cluster.Initial writers positive) (Cluster.Step writers)
      { c with insts := update c.insts n p.2, last := p.1 } := by
  induction hp with
  | refl => simpa using h
  | @tail p q _ hs ih =>
    have hstep : InstanceStep p.1 (update c.insts n p.2 n) q.1 q.2 := by
      rw [update_self]
      exact hs
    have hnext := ih.next (.own hn hstep)
    rwa [update_idem] at hnext

/-- The generator `main` of a fresh stream. -/
def mainGen : MultiWriterIdGenerator := init "main" ["main"] true freshRows

/-- `main` after it was handed id `2`, and after it marked it finished. -/
def mainAdded : MultiWriterIdGenerator := (mainGen.enterFetch.addFetchedIds [2]).get rfl
def mainFinished : MultiWriterIdGenerator := ((mainAdded.leaveFetch 1).markIdsAsFinished [2]).get rfl

theorem mainGen_run : Relation.ReflTransGen InstanceRun (1, ⟨mainGen, 0, ∅, ∅⟩)
    (2, ⟨mainFinished, 0, ∅ ∪ [2].toFinset, ∅ ∪ [2].toFinset⟩) := by
  have hmay : Instance.MayWrite ⟨mainGen, 0, ∅, ∅⟩ := Or.inr (by decide)
  have h1 : InstanceRun (1, ⟨mainGen, 0, ∅, ∅⟩)
      (1, ⟨mainGen.enterFetch, ⟨1, .started⟩ ::ₘ 0, ∅, ∅⟩) := .enterFetch hmay
  have h2 : InstanceRun (1, ⟨mainGen.enterFetch, ⟨1, .started⟩ ::ₘ 0, ∅, ∅⟩)
      (2, ⟨mainGen.enterFetch, ⟨1, .fetched [2]⟩ ::ₘ 0, ∅ ∪ [2].toFinset, ∅⟩) :=
    .sequenceFetch [2] rfl (by decide) (by decide)
  have h3 : InstanceRun (2, ⟨mainGen.enterFetch, ⟨1, .fetched [2]⟩ ::ₘ 0, ∅ ∪ [2].toFinset, ∅⟩)
      (2, ⟨mainAdded, ⟨1, .added⟩ ::ₘ 0, ∅ ∪ [2].toFinset, ∅⟩) := .addIds rfl rfl
  have h4 : InstanceRun (2, ⟨mainAdded, ⟨1, .added⟩ ::ₘ 0, ∅ ∪ [2].toFinset, ∅⟩)
      (2, ⟨mainAdded.leaveFetch 1, 0, ∅ ∪ [2].toFinset, ∅⟩) :=
    .leaveFetch (f := ⟨1, .added⟩) rfl (Or.inr rfl)
  have h5 : InstanceRun (2, ⟨mainAdded.leaveFetch 1, 0, ∅ ∪ [2].toFinset, ∅⟩)
      (2, ⟨mainFinished, 0, ∅ ∪ [2].toFinset, ∅ ∪ [2].toFinset⟩) :=
    .markIdsAsFinished (by decide) rfl
  exact (((Relation.ReflTransGen.single h1).tail h2).tail h3 |>.tail h4).tail h5

/-- The stream whose only writer has persisted id `2`; everyone else only reads. -/
def Cluster.persisted : Cluster where
  insts := Function.update (fun n => ⟨init n ["main"] true freshRows, 0, ∅, ∅⟩) "main"
    ⟨mainFinished, 0, ∅ ∪ [2].toFinset, ∅ ∪ [2].toFinset⟩
  last := 2
  sent := []

theorem Cluster.persisted_reachable :
    Reachable (Cluster.Initial ["main"] true) (Cluster.Step ["main"]) Cluster.persisted :=
  Cluster.reachable_own_run (c := ⟨fun n => ⟨init n ["main"] true freshRows, 0, ∅, ∅⟩, 1, []⟩)
    (.start ⟨by decide, rfl, fun n => ⟨freshRows, freshRows_within _, rfl⟩⟩)
    (by decide) mainGen_run

theorem finished_of_le_persistedUpto_persisted : 2 ≤ (Cluster.persisted.insts "main").gen.returnFactor *
        (Cluster.persisted.insts "main").gen.getPersistedUptoPosition ∧
      2 ∈ (Cluster.persisted.insts "main").finished :=
  ⟨by decide, finished_of_le_persistedUpto (n := "main") Cluster.persisted_reachable (by decide) (by decide)⟩

end Setka.Storage.IdGenerators
