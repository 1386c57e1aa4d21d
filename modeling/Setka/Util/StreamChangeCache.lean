/-
# Setka.Util.StreamChangeCache — which entities have changed after a stream position.

The cache keeps the latest change of each entity, and the position up to which it knows nothing. It may
answer that an entity has changed when it has not. That it never answers the other way round rests on
two maps that mirror each other and on a bound that only rises, which it does unless a call that marks
all entities as changed comes with an old position.
-/
import Setka.Api.Errors
import Setka.Lib.Action
import Setka.Lib.IterOrder
import Setka.Lib.SortedDict
import Setka.Lib.Transition
import Mathlib.Data.String.Basic

namespace Setka.Util

open Setka.Api Setka.Lib Dict Setka.Lib.Action

/-! ## §1 The cache -/

/-- `StreamChangeCache`: `cache` has the entities that changed last at a position, `entityToKey` the
position at which an entity changed last. -/
structure StreamChangeCache where
  originalMaxSize : ℤ
  maxSize : ℤ
  cache : Dict ℤ (Finset String)
  entityToKey : Dict String ℤ
  earliestKnownStreamPos : ℤ

/-- A `Collection` of entities. -/
inductive Entities
  | set (entities : Finset String)
  | list (entities : List String)

def Entities.toFinset : Entities → Finset String
  | .set entities => entities
  | .list entities => entities.toFinset

def Entities.len : Entities → ℕ
  | .set entities => entities.card
  | .list entities => entities.length

namespace StreamChangeCache

/-- `__init__`, up to its last two statements: registering the cache may resize it, and what it is
prefilled with is then recorded as changed. -/
def new (currentStreamPos maxSize : ℤ) : StreamChangeCache where
  originalMaxSize := maxSize
  maxSize
  cache := .empty
  entityToKey := .empty
  earliestKnownStreamPos := currentStreamPos

section Iteration

variable (order : IterOrder String)

/-- The cache without the entities of its first position. -/
def dropped (c : StreamChangeCache) (k : ℤ) : StreamChangeCache :=
  { c with
    cache := c.cache.erase k
    entityToKey := (order.list (c.cache.getD k ∅)).foldl Dict.erase c.entityToKey
    earliestKnownStreamPos := max k c.earliestKnownStreamPos }

/-- One turn of the loop of `_evict`. -/
def dropFirst : Action StreamChangeCache Error Unit :=
  ⟨fun c =>
    match c.cache.firstKey? with
    | some k => (.ok (), c.dropped order k)
    | none => (.error .keyError, c)⟩

/-- The loop of `_evict`, for at most `n` turns. -/
def evictLoop : ℕ → Action StreamChangeCache Error Unit
  | 0 => pure ()
  | n + 1 => do
      let full ← .reads fun c => .ok (decide (c.maxSize < c.cache.items.length))
      if full then do
        dropFirst order
        evictLoop n
      else pure ()

/-- `_evict`. Each turn of its loop drops a position, or raises when there is none. -/
def evict : Action StreamChangeCache Error Unit := do
  let size ← .reads fun c => .ok c.cache.items.length
  evictLoop order (size + 1)

/-- `set_cache_factor`. `scaled` multiplies by the factor and rounds down. -/
def setCacheFactor (scaled : ℤ → Except Error ℤ) : Action StreamChangeCache Error Bool := do
  let newSize ← .reads fun c => scaled c.originalMaxSize
  let maxSize ← .reads fun c => .ok c.maxSize
  if newSize ≠ maxSize then do
    .modify fun c => { c with maxSize := newSize }
    evict order
    pure true
  else pure false

/-- The cache after an entity has lost its old position. -/
def forgotten (c : StreamChangeCache) (entity : String) (oldPos : ℤ) : StreamChangeCache :=
  let e := (c.cache.getD oldPos ∅).erase entity
  { c with cache := if e = ∅ then c.cache.erase oldPos else c.cache.set oldPos e }

/-- Take an entity out of the set at its old position. -/
def forget (entity : String) (oldPos : ℤ) : Action StreamChangeCache Error Unit :=
  ⟨fun c =>
    match c.cache.get? oldPos with
    | some e => if entity ∈ e then (.ok (), c.forgotten entity oldPos) else (.error .keyError, c)
    | none => (.error .keyError, c)⟩

/-- The cache after an entity without a position got one. -/
def noted (c : StreamChangeCache) (entity : String) (streamPos : ℤ) : StreamChangeCache :=
  { c with
    cache := c.cache.set streamPos (insert entity (c.cache.getD streamPos ∅))
    entityToKey := c.entityToKey.set entity streamPos }

/-- `entity_has_changed`. -/
def entityHasChanged (entity : String) (streamPos : ℤ) : Action StreamChangeCache Error Unit := do
  let earliest ← .reads fun c => .ok c.earliestKnownStreamPos
  let oldPos ← .reads fun c => .ok (c.entityToKey.get? entity)
  if streamPos ≤ earliest then pure ()
  else
    match oldPos with
    | none => do
        .modify fun c => c.noted entity streamPos
        evict order
    | some oldPos =>
      if streamPos ≤ oldPos then pure ()
      else do
        forget entity oldPos
        .modify fun c => c.noted entity streamPos
        evict order

/-- `all_entities_changed`. -/
def allEntitiesChanged (streamPos : ℤ) : Action StreamChangeCache Error Unit :=
  .modify fun c =>
    { c with cache := .empty, entityToKey := .empty, earliestKnownStreamPos := streamPos }

/-! ## §2 Its answers -/

/-- `has_entity_changed`. -/
def hasEntityChanged (c : StreamChangeCache) (entity : String) (streamPos : ℤ) : Bool :=
  if streamPos < c.earliestKnownStreamPos then true
  else
    match c.entityToKey.get? entity with
    | none => false
    | some latest => streamPos < latest

/-- `has_any_entity_changed`. -/
def hasAnyEntityChanged (c : StreamChangeCache) (streamPos : ℤ) : Bool :=
  if streamPos < c.earliestKnownStreamPos then true
  else
    match c.cache.lastKey? with
    | none => false
    | some last => streamPos < last

/-- `get_all_entities_changed`. `none` is a miss. -/
def getAllEntitiesChanged (c : StreamChangeCache) (streamPos : ℤ) : Option (List String) :=
  if streamPos < c.earliestKnownStreamPos then none
  else some ((c.cache.keysAfter streamPos).flatMap fun k => order.list (c.cache.getD k ∅))

/-- `get_entities_changed`. -/
def getEntitiesChanged (c : StreamChangeCache) (entities : Entities) (streamPos perfFactor : ℤ) : Finset String :=
  match c.cache.lastKey? with
  | none => entities.toFinset
  | some maxStreamPos =>
    if streamPos < c.earliestKnownStreamPos then entities.toFinset
    else if perfFactor * entities.len < maxStreamPos - streamPos then
      entities.toFinset.filter fun entity => streamPos < c.entityToKey.getD entity (-1)
    else
      match c.getAllEntitiesChanged order streamPos with
      | none => entities.toFinset
      | some changed =>
        match entities with
        | .set entities => entities ∩ changed.toFinset
        | .list entities =>
          if changed.length < entities.length then changed.toFinset ∩ entities.toFinset
          else entities.toFinset ∩ changed.toFinset

end Iteration

/-! ## §3 The two maps -/

/-- The maps mirror each other. -/
def Mirrored (c : StreamChangeCache) : Prop :=
  ∀ entity pos, c.entityToKey.get? entity = some pos ↔ ∃ e, c.cache.get? pos = some e ∧ entity ∈ e

/-- The cache knows that the entity has not changed after `pos` only if that is so: its bound, or the
latest position it has for the entity, is not before `pos`. -/
def Known (c : StreamChangeCache) (entity : String) (pos : ℤ) : Prop :=
  pos ≤ c.earliestKnownStreamPos ∨
    ∃ latest, c.entityToKey.get? entity = some latest ∧ pos ≤ latest

/-- **What an operation leaves intact.** The maps still mirror each other, the bound has not gone down
and nothing is forgotten. -/
structure Advances (c c' : StreamChangeCache) : Prop where
  mirrored : Mirrored c'
  earliest : c.earliestKnownStreamPos ≤ c'.earliestKnownStreamPos
  known : ∀ entity pos, Known c entity pos → Known c' entity pos

variable {c : StreamChangeCache}

theorem Advances.refl (h : Mirrored c) : Advances c c :=
  ⟨h, le_refl _, fun _ _ hknown => hknown⟩

theorem Advances.trans {c' c'' : StreamChangeCache} (h : Advances c c') (h' : Advances c' c'') : Advances c c'' :=
  ⟨h'.mirrored, le_trans h.earliest h'.earliest,
    fun entity pos hknown => h'.known entity pos (h.known entity pos hknown)⟩

variable {pos : ℤ} {entity : String}

theorem mem_getD_iff {cache : Dict ℤ (Finset String)} :
    entity ∈ cache.getD pos ∅ ↔ ∃ e, cache.get? pos = some e ∧ entity ∈ e := by
  unfold Dict.getD
  cases cache.get? pos with
  | none => simp
  | some e => simp

section Eviction

variable (order : IterOrder String)

variable {c : StreamChangeCache}

/-- Dropping a position: its entities are forgotten, but the bound rises to it. -/
theorem dropped_advances (h : Mirrored c) (k : ℤ) : Advances c (c.dropped order k) := by
  have hget : ∀ entity, (c.dropped order k).entityToKey.get? entity =
      if entity ∈ c.cache.getD k ∅ then none else c.entityToKey.get? entity := by
    intro entity
    unfold dropped
    rw [get?_foldl_erase_eq]
    simp only [IterOrder.mem_list]
  refine ⟨fun entity pos => ?_, le_max_right _ _, fun entity pos hknown => ?_⟩
  · rw [hget]
    show _ ↔ ∃ e, (c.cache.erase k).get? pos = some e ∧ entity ∈ e
    rw [get?_erase]
    by_cases hmem : entity ∈ c.cache.getD k ∅
    · rw [if_pos hmem]
      have hk := (h entity k).mpr (mem_getD_iff.mp hmem)
      refine iff_of_false (by simp) ?_
      rintro ⟨e, he, hin⟩
      split at he
      · cases he
      rename_i hne
      have hpos := (h entity pos).mpr ⟨e, he, hin⟩
      rw [hk, Option.some.injEq] at hpos
      exact hne hpos.symm
    · rw [if_neg hmem, h entity pos]
      split
      · rename_i hpos
        rw [hpos, ← mem_getD_iff]
        exact iff_of_false hmem (by simp)
      · rfl
  · rcases hknown with hle | ⟨latest, hlatest, hle⟩
    · exact Or.inl (le_trans hle (le_max_right _ _))
    · unfold Known
      rw [hget]
      by_cases hmem : entity ∈ c.cache.getD k ∅
      · have hk := (h entity k).mpr (mem_getD_iff.mp hmem)
        obtain rfl := Option.some.inj (hk.symm.trans hlatest)
        exact Or.inl (le_trans hle (le_max_left _ _))
      · rw [if_neg hmem]
        exact Or.inr ⟨latest, hlatest, hle⟩

theorem dropFirst_of_some {k : ℤ} (h : c.cache.firstKey? = some k) :
    (dropFirst order).run c = (.ok (), c.dropped order k) := by
  unfold dropFirst
  dsimp only
  rw [h]

theorem dropFirst_of_none (h : c.cache.firstKey? = none) : (dropFirst order).run c = (.error .keyError, c) := by
  unfold dropFirst
  dsimp only
  rw [h]

theorem evictLoop_advances (n : ℕ) (h : Mirrored c) : Advances c ((evictLoop order n).run c).2 := by
  induction n generalizing c with
  | zero => exact Advances.refl h
  | succ n ih =>
    have hsize : (Action.reads fun c : StreamChangeCache =>
        .ok (decide (c.maxSize < c.cache.items.length)) : Action StreamChangeCache Error Bool).run c =
        (.ok (decide (c.maxSize < c.cache.items.length)), c) := rfl
    rw [evictLoop, run_bind_of_ok hsize]
    split
    · cases hfirst : c.cache.firstKey? with
      | none =>
        rw [run_bind_of_error (dropFirst_of_none order hfirst)]
        exact Advances.refl h
      | some k =>
        rw [run_bind_of_ok (dropFirst_of_some order hfirst)]
        have hdropped := dropped_advances order h k
        exact hdropped.trans (ih hdropped.mirrored)
    · exact Advances.refl h

/-- **Eviction forgets nothing.** -/
theorem evict_advances (h : Mirrored c) : Advances c ((evict order).run c).2 := by
  have hsize : (Action.reads fun c : StreamChangeCache => .ok c.cache.items.length :
      Action StreamChangeCache Error ℕ).run c = (.ok c.cache.items.length, c) := rfl
  rw [evict, run_bind_of_ok hsize]
  exact evictLoop_advances order _ h

end Eviction

/-- An entity is in no set, and the maps mirror each other for the other entities. -/
structure Absent (c : StreamChangeCache) (entity : String) : Prop where
  others : ∀ other, other ≠ entity → ∀ pos, c.entityToKey.get? other = some pos ↔
    ∃ e, c.cache.get? pos = some e ∧ other ∈ e
  absent : ∀ pos, entity ∉ c.cache.getD pos ∅

theorem absent_of_unknown (h : Mirrored c) (hunknown : c.entityToKey.get? entity = none) : Absent c entity := by
  refine ⟨fun other _ pos => h other pos, fun pos hmem => ?_⟩
  have hpos := (h entity pos).mpr (mem_getD_iff.mp hmem)
  rw [hunknown] at hpos
  cases hpos

theorem mem_forgotten {other : String} {oldPos : ℤ} : other ∈ (c.forgotten entity oldPos).cache.getD pos ∅ ↔
      other ∈ c.cache.getD pos ∅ ∧ ¬ (pos = oldPos ∧ other = entity) := by
  unfold forgotten Dict.getD
  dsimp only
  by_cases hpos : pos = oldPos
  · subst hpos
    split
    · rename_i hempty
      rw [get?_erase, if_pos rfl]
      have hnone : other ∉ ((c.cache.get? pos).getD ∅).erase entity := by
        rw [hempty]
        simp
      rw [Finset.mem_erase] at hnone
      tauto
    · rw [get?_set, if_pos rfl, Option.getD_some, Finset.mem_erase]
      tauto
  · split
    · rw [get?_erase, if_neg hpos]
      tauto
    · rw [get?_set, if_neg hpos]
      tauto

/-- An entity that is known is in the set at its position, and nowhere else. -/
theorem forget_run (h : Mirrored c) {oldPos : ℤ} (hold : c.entityToKey.get? entity = some oldPos) :
    (forget entity oldPos).run c = (.ok (), c.forgotten entity oldPos) ∧
      Absent (c.forgotten entity oldPos) entity := by
  obtain ⟨e, he, hmem⟩ := (h entity oldPos).mp hold
  refine ⟨?_, fun other hother pos => ?_, fun pos hin => ?_⟩
  · unfold forget
    dsimp only
    rw [he]
    exact if_pos hmem
  · rw [← mem_getD_iff, mem_forgotten, mem_getD_iff, ← h other pos]
    show c.entityToKey.get? other = some pos ↔ _
    simp [hother]
  · obtain ⟨hin, hnot⟩ := mem_forgotten.mp hin
    have hpos := (h entity pos).mpr (mem_getD_iff.mp hin)
    exact hnot ⟨Option.some.inj (hpos.symm.trans hold), rfl⟩

/-- An entity that was in no set gets its position. -/
theorem noted_mirrored (h : Absent c entity) (streamPos : ℤ) : Mirrored (c.noted entity streamPos) := by
  have hmem : ∀ other pos, other ∈ (c.noted entity streamPos).cache.getD pos ∅ ↔
      pos = streamPos ∧ other = entity ∨ other ∈ c.cache.getD pos ∅ := by
    intro other pos
    unfold noted Dict.getD
    rw [get?_set]
    by_cases hpos : pos = streamPos
    · rw [if_pos hpos, Option.getD_some, Finset.mem_insert, hpos]
      simp
    · rw [if_neg hpos]
      simp [hpos]
  intro other pos
  rw [← mem_getD_iff, hmem]
  show (c.entityToKey.set entity streamPos).get? other = some pos ↔ _
  rw [get?_set]
  by_cases hother : other = entity
  · rw [if_pos hother, hother, Option.some.injEq]
    have habsent := h.absent pos
    tauto
  · rw [if_neg hother, h.others other hother pos, ← mem_getD_iff]
    tauto

variable {streamPos : ℤ}

/-- What an entity was known to have is known of the later position. -/
theorem noted_known (hlater : ∀ oldPos, c.entityToKey.get? entity = some oldPos → oldPos ≤ streamPos)
    {other : String} (h : Known c other pos) : Known (c.noted entity streamPos) other pos := by
  rcases h with hle | ⟨latest, hlatest, hle⟩
  · exact Or.inl hle
  refine Or.inr ?_
  show ∃ latest, (c.entityToKey.set entity streamPos).get? other = some latest ∧ pos ≤ latest
  rw [get?_set]
  by_cases hother : other = entity
  · rw [if_pos hother]
    exact ⟨streamPos, rfl, le_trans hle (hlater latest (hother ▸ hlatest))⟩
  · rw [if_neg hother]
    exact ⟨latest, hlatest, hle⟩

/-- **A recorded change is known**, and nothing is forgotten. The maps mirror each other, so nothing is
looked up in vain. -/
theorem entityHasChanged_advances (order : IterOrder String) (h : Mirrored c) (entity : String)
    (streamPos : ℤ) : Advances c ((entityHasChanged order entity streamPos).run c).2 ∧
      Known ((entityHasChanged order entity streamPos).run c).2 entity streamPos := by
  have hearliest : (Action.reads fun c : StreamChangeCache => .ok c.earliestKnownStreamPos :
      Action StreamChangeCache Error ℤ).run c = (.ok c.earliestKnownStreamPos, c) := rfl
  have holdPos : (Action.reads fun c : StreamChangeCache => .ok (c.entityToKey.get? entity) :
      Action StreamChangeCache Error (Option ℤ)).run c = (.ok (c.entityToKey.get? entity), c) := rfl
  rw [entityHasChanged, run_bind_of_ok hearliest, run_bind_of_ok holdPos]
  -- the change is noted in `c'`, the cache where the entity has no position
  have hnoted : ∀ c', Absent c' entity → c'.earliestKnownStreamPos = c.earliestKnownStreamPos →
      c'.entityToKey = c.entityToKey →
      (∀ oldPos, c.entityToKey.get? entity = some oldPos → oldPos ≤ streamPos) →
      Advances c ((evict order).run (c'.noted entity streamPos)).2 ∧
        Known ((evict order).run (c'.noted entity streamPos)).2 entity streamPos := by
    intro c' habsent hsame hkeys hlater
    have hmirrored := noted_mirrored habsent streamPos
    have hadvances : Advances c (c'.noted entity streamPos) := by
      refine ⟨hmirrored, le_of_eq hsame.symm, fun other pos hknown => ?_⟩
      apply noted_known
      · rw [hkeys]
        exact hlater
      unfold Known
      rw [hsame, hkeys]
      exact hknown
    have hevicted := evict_advances order hmirrored
    refine ⟨hadvances.trans hevicted, hevicted.known _ _ (Or.inr ⟨streamPos, ?_, le_refl _⟩)⟩
    show (c'.entityToKey.set entity streamPos).get? entity = some streamPos
    rw [get?_set, if_pos rfl]
  by_cases hold : streamPos ≤ c.earliestKnownStreamPos
  · rw [if_pos hold]
    exact ⟨Advances.refl h, Or.inl hold⟩
  rw [if_neg hold]
  cases hkey : c.entityToKey.get? entity with
  | none =>
    refine hnoted c (absent_of_unknown h hkey) rfl rfl ?_
    simp [hkey]
  | some oldPos =>
    dsimp only
    by_cases hle : streamPos ≤ oldPos
    · rw [if_pos hle]
      exact ⟨Advances.refl h, Or.inr ⟨oldPos, hkey, hle⟩⟩
    obtain ⟨hforget, habsent⟩ := forget_run h hkey
    rw [if_neg hle, run_bind_of_ok hforget]
    refine hnoted _ habsent rfl rfl ?_
    rw [hkey]
    rintro _ ⟨⟩
    omega

theorem setCacheFactor_advances (order : IterOrder String) (h : Mirrored c) (scaled : ℤ → Except Error ℤ) :
    Advances c ((setCacheFactor order scaled).run c).2 := by
  unfold setCacheFactor
  cases hscaled : scaled c.originalMaxSize with
  | error e =>
    have hsize : (Action.reads fun c : StreamChangeCache => scaled c.originalMaxSize).run c =
        (.error e, c) := by rw [run_reads, hscaled]
    rw [run_bind_of_error hsize]
    exact Advances.refl h
  | ok newSize =>
    have hsize : (Action.reads fun c : StreamChangeCache => scaled c.originalMaxSize).run c =
        (.ok newSize, c) := by rw [run_reads, hscaled]
    have hmax : (Action.reads fun c : StreamChangeCache => .ok c.maxSize :
        Action StreamChangeCache Error ℤ).run c = (.ok c.maxSize, c) := rfl
    rw [run_bind_of_ok hsize, run_bind_of_ok hmax]
    split
    · have hresized : Advances c { c with maxSize := newSize } :=
        ⟨h, le_refl _, fun _ _ hknown => hknown⟩
      refine hresized.trans ?_
      have hevicted := evict_advances order hresized.mirrored
      have hlast : ((evict order >>= fun _ => pure true).run { c with maxSize := newSize }).2 =
          ((evict order).run { c with maxSize := newSize }).2 := by
        cases hrun : (evict order).run { c with maxSize := newSize } with
        | mk result c' =>
          cases result with
          | error e => rw [run_bind_of_error hrun]
          | ok _ => rw [run_bind_of_ok hrun]; rfl
      rw [← hlast] at hevicted
      exact hevicted
    · exact Advances.refl h

/-! ## §4 What the answers say -/

/-- The cache sees a change of the entity after the position, or does not reach back to it. -/
def Sees (c : StreamChangeCache) (entity : String) (streamPos : ℤ) : Prop :=
  streamPos < c.earliestKnownStreamPos ∨
    ∃ latest, c.entityToKey.get? entity = some latest ∧ streamPos < latest

theorem Known.sees (h : Known c entity pos) (hlt : streamPos < pos) : Sees c entity streamPos := by
  rcases h with hle | ⟨latest, hlatest, hle⟩
  · exact Or.inl (by omega)
  · exact Or.inr ⟨latest, hlatest, by omega⟩

theorem hasEntityChanged_iff : c.hasEntityChanged entity streamPos = true ↔ Sees c entity streamPos := by
  unfold hasEntityChanged Sees
  by_cases hmiss : streamPos < c.earliestKnownStreamPos
  · simp [hmiss]
  cases c.entityToKey.get? entity with
  | none => simp [hmiss]
  | some latest => simp [hmiss]

section Answers

variable {c : StreamChangeCache} (h : Mirrored c) {entity : String} {streamPos : ℤ}
  (hsees : Sees c entity streamPos)

include h hsees

/-- What is seen has a position in `cache`, if it is not a miss. -/
theorem Sees.mem_keysAfter (hhit : ¬ streamPos < c.earliestKnownStreamPos) :
    ∃ latest ∈ c.cache.keysAfter streamPos, c.entityToKey.get? entity = some latest ∧
      entity ∈ c.cache.getD latest ∅ := by
  obtain ⟨latest, hlatest, hlt⟩ := hsees.resolve_left hhit
  obtain ⟨e, he, hmem⟩ := (h entity latest).mp hlatest
  refine ⟨latest, Dict.mem_keysAfter.mpr ⟨mem_keys_iff.mpr ⟨e, he⟩, hlt⟩, hlatest, ?_⟩
  exact mem_getD_iff.mpr ⟨e, he, hmem⟩

theorem Sees.hasAnyEntityChanged : c.hasAnyEntityChanged streamPos = true := by
  unfold StreamChangeCache.hasAnyEntityChanged
  by_cases hmiss : streamPos < c.earliestKnownStreamPos
  · rw [if_pos hmiss]
  rw [if_neg hmiss]
  obtain ⟨latest, hafter, -, -⟩ := hsees.mem_keysAfter h hmiss
  obtain ⟨hkey, hlt⟩ := Dict.mem_keysAfter.mp hafter
  cases hlast : c.cache.lastKey? with
  | none =>
    rw [lastKey?_eq_none_iff] at hlast
    rw [Dict.keys, hlast] at hkey
    cases hkey
  | some last =>
    have hle := le_lastKey? hlast hkey
    simp only [decide_eq_true_eq]
    omega

theorem Sees.mem_getAllEntitiesChanged (order : IterOrder String) :
    ∀ changed, c.getAllEntitiesChanged order streamPos = some changed → entity ∈ changed := by
  intro changed hchanged
  unfold getAllEntitiesChanged at hchanged
  split at hchanged
  · cases hchanged
  rename_i hhit
  obtain rfl := Option.some.inj hchanged
  obtain ⟨latest, hafter, -, hmem⟩ := hsees.mem_keysAfter h hhit
  rw [List.mem_flatMap]
  exact ⟨latest, hafter, order.mem_list.mpr hmem⟩

theorem Sees.mem_getEntitiesChanged (order : IterOrder String) {entities : Entities}
    (hmem : entity ∈ entities.toFinset) (perfFactor : ℤ) :
    entity ∈ c.getEntitiesChanged order entities streamPos perfFactor := by
  unfold getEntitiesChanged
  cases c.cache.lastKey? with
  | none => exact hmem
  | some maxStreamPos =>
    dsimp only
    by_cases hmiss : streamPos < c.earliestKnownStreamPos
    · rw [if_pos hmiss]
      exact hmem
    rw [if_neg hmiss]
    split
    · obtain ⟨latest, hlatest, hlt⟩ := hsees.resolve_left hmiss
      rw [Finset.mem_filter, getD_of_get? hlatest]
      exact ⟨hmem, hlt⟩
    have hall := hsees.mem_getAllEntitiesChanged h order
    cases hchanged : c.getAllEntitiesChanged order streamPos with
    | none => exact hmem
    | some changed =>
      have hin : entity ∈ changed.toFinset := List.mem_toFinset.mpr (hall changed hchanged)
      cases entities with
      | set entities => exact Finset.mem_inter.mpr ⟨hmem, hin⟩
      | list entities =>
        dsimp only
        split
        · exact Finset.mem_inter.mpr ⟨hin, hmem⟩
        · exact Finset.mem_inter.mpr ⟨hmem, hin⟩

end Answers

/-! ## §5 Runs -/

/-- A call that changes the cache. -/
inductive Call
  | entityHasChanged (entity : String) (streamPos : ℤ)
  | allEntitiesChanged (streamPos : ℤ)
  | setCacheFactor (scaled : ℤ → Except Error ℤ)

/-- The cache after a call, whether it returned or raised. -/
def after (order : IterOrder String) (c : StreamChangeCache) : Call → StreamChangeCache
  | .entityHasChanged entity streamPos => ((entityHasChanged order entity streamPos).run c).2
  | .allEntitiesChanged streamPos => ((allEntitiesChanged streamPos).run c).2
  | .setCacheFactor scaled => ((setCacheFactor order scaled).run c).2

/-- The call says that the entity has changed at this position. -/
def Call.Reports (call : Call) (entity : String) (pos : ℤ) : Prop :=
  call = .entityHasChanged entity pos ∨ call = .allEntitiesChanged pos

/-- **No change is hidden.** All answers about an earlier position show the change of an entity that was
reported. -/
def NeverHides (order : IterOrder String) (c : StreamChangeCache) (made : List Call) : Prop :=
  ∀ entity pos streamPos, (∃ call ∈ made, call.Reports entity pos) → streamPos < pos →
    c.hasEntityChanged entity streamPos = true ∧
    (∀ entities perfFactor, entity ∈ Entities.toFinset entities →
      entity ∈ c.getEntitiesChanged order entities streamPos perfFactor) ∧
    c.hasAnyEntityChanged streamPos = true ∧
    ∀ changed, c.getAllEntitiesChanged order streamPos = some changed → entity ∈ changed

/-- All entities are marked as changed at a position that no earlier call was after. -/
def Call.InOrder (before : List Call) (call : Call) : Prop :=
  ∀ streamPos, call = .allEntitiesChanged streamPos →
    ∀ entity pos, (∃ earlier ∈ before, earlier.Reports entity pos) → pos ≤ streamPos

/-- What was reported is known. -/
structure Sound (c : StreamChangeCache) (made : List Call) : Prop where
  mirrored : Mirrored c
  known : ∀ entity pos, (∃ call ∈ made, call.Reports entity pos) → Known c entity pos

theorem Sound.neverHides {made : List Call} (h : Sound c made)
    (order : IterOrder String) : NeverHides order c made := by
  intro entity pos streamPos hreported hlt
  have hsees := (h.known entity pos hreported).sees hlt
  exact ⟨hasEntityChanged_iff.mpr hsees,
    fun entities perfFactor hmem => hsees.mem_getEntitiesChanged h.mirrored order hmem perfFactor,
    hsees.hasAnyEntityChanged h.mirrored, hsees.mem_getAllEntitiesChanged h.mirrored order⟩

/-- **One call in order** keeps what was reported known, and its own report. -/
theorem Sound.after {made : List Call} (h : Sound c made) (order : IterOrder String) {call : Call}
    (horder : call.InOrder made) : Sound (c.after order call) (made ++ [call]) := by
  have hsplit : ∀ {entity pos}, (∃ other ∈ made ++ [call], other.Reports entity pos) →
      (∃ other ∈ made, other.Reports entity pos) ∨ call.Reports entity pos := by
    rintro entity pos ⟨other, hmem, hreports⟩
    rcases List.mem_append.mp hmem with hmade | hlast
    · exact Or.inl ⟨other, hmade, hreports⟩
    · exact Or.inr (List.mem_singleton.mp hlast ▸ hreports)
  cases call with
  | entityHasChanged changed streamPos =>
    obtain ⟨hadvances, hknown⟩ := entityHasChanged_advances order h.mirrored changed streamPos
    refine ⟨hadvances.mirrored, fun entity pos hreported => ?_⟩
    rcases hsplit hreported with hmade | heq | heq
    · exact hadvances.known _ _ (h.known _ _ hmade)
    · cases heq
      exact hknown
    · cases heq
  | allEntitiesChanged streamPos =>
    -- the maps are empty: only the bound knows anything
    refine ⟨fun entity pos => ?_, fun entity pos hreported => Or.inl ?_⟩
    · show Dict.empty.get? entity = some pos ↔ ∃ e, Dict.empty.get? pos = some e ∧ entity ∈ e
      simp
    show pos ≤ streamPos
    rcases hsplit hreported with hmade | heq | heq
    · exact horder streamPos rfl entity pos hmade
    · cases heq
    · cases heq
      exact le_refl _
  | setCacheFactor scaled =>
    have hadvances := setCacheFactor_advances order h.mirrored scaled
    refine ⟨hadvances.mirrored, fun entity pos hreported => ?_⟩
    rcases hsplit hreported with hmade | heq | heq
    · exact hadvances.known _ _ (h.known _ _ hmade)
    · cases heq
    · cases heq

theorem sound_new (currentStreamPos maxSize : ℤ) : Sound (new currentStreamPos maxSize) [] := by
  refine ⟨fun entity pos => ?_, ?_⟩
  · show Dict.empty.get? entity = some pos ↔ ∃ e, Dict.empty.get? pos = some e ∧ entity ∈ e
    simp
  · rintro entity pos ⟨call, hmem, -⟩
    cases hmem

theorem sound_run (order : IterOrder String) (currentStreamPos maxSize : ℤ) {calls : List Call}
    (h : AllSteps Call.InOrder calls) :
    Sound (calls.foldl (after order) (new currentStreamPos maxSize)) calls := by
  induction calls using List.reverseRecOn with
  | nil => exact sound_new currentStreamPos maxSize
  | append_singleton calls call ih =>
    obtain ⟨hcalls, hcall⟩ := allSteps_concat.mp h
    rw [List.foldl_append]
    exact (ih hcalls).after order hcall

/-- **Calls in order.** No change is hidden at any time of a run, if and only if all entities are never
marked as changed at a position before one that was reported. -/
theorem neverHides_iff (order : IterOrder String) (currentStreamPos maxSize : ℤ) (calls : List Call) :
    (∀ made later, calls = made ++ later →
      NeverHides order (made.foldl (after order) (new currentStreamPos maxSize)) made) ↔
    AllSteps Call.InOrder calls := by
  constructor
  · rintro h before call later hcalls streamPos rfl entity pos ⟨earlier, hmem, hreports⟩
    by_contra hlt
    rw [not_le] at hlt
    have hmade := h (before ++ [.allEntitiesChanged streamPos]) later (by rw [hcalls]; simp)
    have hhidden := (hmade entity pos streamPos ⟨earlier, List.mem_append_left _ hmem, hreports⟩ hlt).1
    -- right after the call nothing is known but that there is no change behind its position
    rw [List.foldl_append, hasEntityChanged_iff] at hhidden
    rcases hhidden with hless | ⟨latest, hlatest, -⟩
    · exact lt_irrefl streamPos hless
    · cases hlatest
  · rintro h made later rfl
    refine (sound_run order currentStreamPos maxSize fun before call after hmade => ?_).neverHides order
    exact h before call (after ++ later) (by rw [hmade]; simp)

/-- **A position that goes back.** The user changed at 10. After all were marked as changed at 5, the
cache says that there was no change after 7. -/
theorem change_hidden : let calls := [Call.entityHasChanged "@user:s" 10, .allEntitiesChanged 5]
    ¬ NeverHides (.sorted String) (calls.foldl (after (.sorted String)) (new 0 10000)) calls := by
  intro calls h
  have hreports : ∃ call ∈ calls, call.Reports "@user:s" 10 :=
    ⟨_, List.mem_cons_self, Or.inl rfl⟩
  have hchanged := (h "@user:s" 10 7 hreports (by omega)).1
  revert hchanged
  decide +kernel

end StreamChangeCache

end Setka.Util
