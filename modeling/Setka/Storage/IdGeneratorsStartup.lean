/-
# Setka.Storage.IdGeneratorsStartup — the position of an instance after start-up.

`_load_current_ids` replays the rows that are not before the least known position, in the order of their ids as
the tables have them. Each row of the instance sets the position of the instance, whatever it was. So the last row
decides: on a stream that counts backwards it is the oldest.
-/
import Setka.Storage.IdGenerators

namespace Setka.Storage.IdGenerators

open Setka.Lib

/-! ## §1 Rows of the instance -/

/-- The rows that `_load_current_ids` loads when the least known position is `minStreamId`, in the order in which
it replays them. -/
def loadedRows (g : MultiWriterIdGenerator) (db : StartupRows) (minStreamId : Int) : List (String × Int) :=
  (db.tableRows.filter fun r => minStreamId ≤ g.returnFactor * r.2).insertionSort fun a b => a.2 ≤ b.2

/-- The ids of the instance among them, positive also when the stream counts backwards. -/
def ownIds (g : MultiWriterIdGenerator) (db : StartupRows) (minStreamId : Int) : List Int :=
  ((loadedRows g db minStreamId).filter fun r => r.1 = g.instanceName).map fun r => g.returnFactor * r.2

/-- **What is asked of the position of the instance**: it is the greatest id of its rows, if it has any, and not
below the position from before. -/
def Recovered (g : MultiWriterIdGenerator) (db : StartupRows) (minStreamId : Int) : Prop :=
  (ownIds g db minStreamId ≠ [] →
    (loadCurrentIds g db).currentPositions.get? g.instanceName = (ownIds g db minStreamId).max?) ∧
  ∀ before, (loadPositions g db).get? g.instanceName = some before →
    ∃ after, (loadCurrentIds g db).currentPositions.get? g.instanceName = some after ∧ before ≤ after

/-! ## §2 The last row decides -/

theorem instanceName_foldl_loadRow (rows : List (String × Int)) (g : MultiWriterIdGenerator) :
    (rows.foldl loadRow g).instanceName = g.instanceName ∧ (rows.foldl loadRow g).positive = g.positive ∧
      (rows.foldl loadRow g).writers = g.writers := by
  induction rows generalizing g with
  | nil => exact ⟨rfl, rfl, rfl⟩
  | cons r rows ih =>
    obtain ⟨hname, hpositive, hwriters⟩ := ih (loadRow g r)
    have hkeeps : (loadRow g r).instanceName = g.instanceName ∧ (loadRow g r).positive = g.positive ∧
        (loadRow g r).writers = g.writers := by
      unfold loadRow
      dsimp only
      split <;> exact ⟨rfl, rfl, rfl⟩
    exact ⟨hname.trans hkeeps.1, hpositive.trans hkeeps.2.1, hwriters.trans hkeeps.2.2⟩

/-- The position after a row. -/
theorem get?_loadRow (g : MultiWriterIdGenerator) (row : String × Int) :
    (loadRow g row).currentPositions.get? g.instanceName =
      if row.1 = g.instanceName then some (g.returnFactor * row.2)
      else g.currentPositions.get? g.instanceName := by
  unfold loadRow
  dsimp only
  split
  · rename_i hown
    have hown : row.1 = g.instanceName := hown
    rw [if_pos hown, hown]
    exact (Dict.get?_set _ _ _ _).trans (if_pos rfl)
  · rename_i hother
    exact (if_neg hother).symm

/-- **The position after all rows** is the id of the last row of the instance. -/
theorem get?_foldl_loadRow (rows : List (String × Int)) (g : MultiWriterIdGenerator) :
    (rows.foldl loadRow g).currentPositions.get? g.instanceName =
      (((rows.filter fun r => r.1 = g.instanceName).map fun r => g.returnFactor * r.2).getLast?).or
        (g.currentPositions.get? g.instanceName) := by
  -- from the end: the last row decides, or those before it do
  induction rows using List.reverseRecOn with
  | nil => rfl
  | append_singleton rows row ih =>
    obtain ⟨hname, hpositive, -⟩ := instanceName_foldl_loadRow rows g
    have hfactor : (rows.foldl loadRow g).returnFactor = g.returnFactor := by
      rw [MultiWriterIdGenerator.returnFactor, hpositive]
      rfl
    have hstep := get?_loadRow (rows.foldl loadRow g) row
    rw [hname, hfactor, ih] at hstep
    rw [List.foldl_append, List.foldl_cons, List.foldl_nil, hstep, List.filter_append, List.map_append]
    by_cases hown : row.1 = g.instanceName
    · simp [hown]
    · simp [hown]

/-- Giving every writer a position changes none that there is. -/
theorem get?_ensureWriters {g : MultiWriterIdGenerator} {name : String} {position : Int}
    (h : g.currentPositions.get? name = some position) :
    (ensureWriters g).currentPositions.get? name = some position := by
  have hfold : ∀ (writers : List String) (d : Dict String Int), d.get? name = some position →
      (writers.foldl (fun d w => d.setDefault w g.persistedUptoPosition) d).get? name = some position := by
    intro writers
    induction writers with
    | nil => exact fun d hd => hd
    | cons w writers ih =>
      intro d hd
      refine ih _ ?_
      rw [Dict.get?_setDefault]
      split
      · rename_i hname
        rw [← hname, Dict.getD_of_get? hd]
      · exact hd
  exact hfold g.writers g.currentPositions h

/-- The position of an instance that has rows is the id of the last of them, else it stays. -/
theorem get?_loadCurrentIds {g : MultiWriterIdGenerator} {db : StartupRows} {minStreamId position : Int}
    (hmin : ((loadPositions g db).items.map Prod.snd).min? = some minStreamId)
    (h : ((ownIds g db minStreamId).getLast?).or ((loadPositions g db).get? g.instanceName) = some position) :
    (loadCurrentIds g db).currentPositions.get? g.instanceName = some position := by
  refine get?_ensureWriters ?_
  have hpersisted : loadPersisted { g with currentPositions := loadPositions g db } db =
      (loadedRows g db minStreamId).foldl loadRow
        { g with currentPositions := loadPositions g db, persistedUptoPosition := minStreamId } := by
    unfold loadPersisted
    rw [hmin]
    rfl
  rw [hpersisted]
  exact (get?_foldl_loadRow _ { g with
    currentPositions := loadPositions g db, persistedUptoPosition := minStreamId }).trans h

/-! ## §3 Which row is the last -/

/-- The ids of the instance are replayed upwards when the stream counts upwards, else downwards. -/
theorem pairwise_ownIds (g : MultiWriterIdGenerator) (db : StartupRows) (minStreamId : Int) :
    (ownIds g db minStreamId).Pairwise fun a b => if g.positive then a ≤ b else b ≤ a := by
  have hsorted : (loadedRows g db minStreamId).Pairwise fun a b => a.2 ≤ b.2 := by
    exact List.pairwise_insertionSort _ _
  refine List.pairwise_map.mpr ((hsorted.sublist List.filter_sublist).imp fun {a b} hle => ?_)
  unfold MultiWriterIdGenerator.returnFactor
  split
  · omega
  · show -1 * b.2 ≤ -1 * a.2
    omega

/-- The last entry of a list that goes up is the greatest. -/
theorem max?_of_pairwise_le {l : List Int} (h : l.Pairwise (· ≤ ·)) : l.max? = l.getLast? := by
  cases hlast : l.getLast? with
  | none =>
    rw [List.getLast?_eq_none_iff.mp hlast]
    rfl
  | some last =>
    obtain ⟨front, rfl⟩ := List.getLast?_eq_some_iff.mp hlast
    refine List.max?_eq_some_iff.mpr ⟨List.mem_append_right _ (List.mem_singleton.mpr rfl), fun a ha => ?_⟩
    rcases List.mem_append.mp ha with ha | ha
    · exact (List.pairwise_append.mp h).2.2 a ha last (List.mem_singleton.mpr rfl)
    · rw [List.mem_singleton.mp ha]

/-- The last entry of a list that goes down is the greatest only if all are the same. -/
theorem max?_eq_getLast?_iff {l : List Int} (h : l.Pairwise fun a b => b ≤ a) :
    l.max? = l.getLast? ↔ ∀ a ∈ l, ∀ b ∈ l, a = b := by
  cases hlast : l.getLast? with
  | none =>
    rw [List.getLast?_eq_none_iff.mp hlast]
    exact ⟨fun _ a ha => absurd ha List.not_mem_nil, fun _ => rfl⟩
  | some last =>
    obtain ⟨front, rfl⟩ := List.getLast?_eq_some_iff.mp hlast
    have hmem : last ∈ front ++ [last] := List.mem_append_right _ (List.mem_singleton.mpr rfl)
    have hleast : ∀ a ∈ front ++ [last], last ≤ a := by
      intro a ha
      rcases List.mem_append.mp ha with ha | ha
      · exact (List.pairwise_append.mp h).2.2 a ha last (List.mem_singleton.mpr rfl)
      · rw [List.mem_singleton.mp ha]
    rw [List.max?_eq_some_iff]
    constructor
    · rintro ⟨-, hgreatest⟩ a ha b hb
      have ha' := hgreatest a ha
      have hb' := hgreatest b hb
      have ha'' := hleast a ha
      have hb'' := hleast b hb
      omega
    · intro hsame
      exact ⟨hmem, fun a ha => le_of_eq (hsame a ha last hmem)⟩

/-- **Start-up recovers the position of the instance** exactly when it loads no row of the instance, or when the
stream counts upwards or all ids that it loads are the same, and the greatest is not below the position from
before. -/
theorem recovered_iff {g : MultiWriterIdGenerator} {db : StartupRows} {minStreamId : Int}
    (hmin : ((loadPositions g db).items.map Prod.snd).min? = some minStreamId) :
    Recovered g db minStreamId ↔ ownIds g db minStreamId = [] ∨
      (g.positive = true ∨ ∀ a ∈ ownIds g db minStreamId, ∀ b ∈ ownIds g db minStreamId, a = b) ∧
        ∀ before, (loadPositions g db).get? g.instanceName = some before →
          ∃ a ∈ ownIds g db minStreamId, before ≤ a := by
  have hsorted := pairwise_ownIds g db minStreamId
  cases hlast : (ownIds g db minStreamId).getLast? with
  | none =>
    have hnil := List.getLast?_eq_none_iff.mp hlast
    refine iff_of_true ⟨fun hne => absurd hnil hne, fun before hbefore => ?_⟩ (.inl hnil)
    refine ⟨before, get?_loadCurrentIds hmin ?_, le_rfl⟩
    rw [hlast, hbefore]
    rfl
  | some last =>
    have hmem : last ∈ ownIds g db minStreamId := List.mem_of_getLast? hlast
    have hne : ownIds g db minStreamId ≠ [] := List.ne_nil_of_mem hmem
    have hafter : (loadCurrentIds g db).currentPositions.get? g.instanceName = some last :=
      get?_loadCurrentIds hmin (by rw [hlast]; rfl)
    -- the last row is the greatest when the ids go up, or are all the same
    have hmax : some last = (ownIds g db minStreamId).max? ↔
        g.positive = true ∨ ∀ a ∈ ownIds g db minStreamId, ∀ b ∈ ownIds g db minStreamId, a = b := by
      rw [← hlast, eq_comm]
      cases hpositive : g.positive with
      | true =>
        rw [hpositive] at hsorted
        exact iff_of_true (max?_of_pairwise_le (by simpa using hsorted)) (.inl rfl)
      | false =>
        rw [hpositive] at hsorted
        rw [max?_eq_getLast?_iff (by simpa using hsorted)]
        simp
    constructor
    · rintro ⟨hgreatest, hkept⟩
      refine .inr ⟨hmax.mp (hafter.symm.trans (hgreatest hne)), fun before hbefore => ?_⟩
      obtain ⟨after, heq, hle⟩ := hkept before hbefore
      obtain rfl := Option.some.inj (hafter.symm.trans heq)
      exact ⟨last, hmem, hle⟩
    · rintro (hnil | ⟨hsame, hkept⟩)
      · exact absurd hnil hne
      · refine ⟨fun _ => hafter.trans (hmax.mpr hsame), fun before hbefore => ?_⟩
        obtain ⟨a, ha, hle⟩ := hkept before hbefore
        exact ⟨last, hafter, hle.trans ((List.max?_eq_some_iff.mp (hmax.mpr hsame).symm).2 a ha)⟩

/-- Two writers on a stream, at the position of the sequence and at 5, with rows of the first. -/
def startupRows (factor : Int) (ids : List Int) : StartupRows :=
  ⟨[("w2", factor * 5)], some 7, [], ids.map fun id => ("main", factor * id)⟩

/-- A stream that counts upwards, with all rows that there were. -/
theorem recovered_iff_example : Recovered (blank "main" ["main", "w2"] true) (startupRows 1 [6, 7]) 5 :=
  (recovered_iff (by decide)).mpr (by decide)

/-- Backwards the instance ends at the older of its rows, 6 instead of 7. Upwards it ends there too, if the row at 7
is not there: below the position of the sequence. -/
theorem position_lowered : ¬Recovered (blank "main" ["main", "w2"] false) (startupRows (-1) [6, 7]) 5 ∧
      ¬Recovered (blank "main" ["main", "w2"] true) (startupRows 1 [6]) 5 := by
  have hbackwards : (loadCurrentIds (blank "main" ["main", "w2"] false)
      (startupRows (-1) [6, 7])).currentPositions.get? "main" = some 6 := by decide
  have hupwards : (loadCurrentIds (blank "main" ["main", "w2"] true)
      (startupRows 1 [6])).currentPositions.get? "main" = some 6 := by decide
  refine ⟨fun h => ?_, fun h => ?_⟩
  · have hmax := h.1 (by decide)
    rw [show (blank "main" ["main", "w2"] false).instanceName = "main" from rfl, hbackwards] at hmax
    exact absurd hmax (by decide)
  obtain ⟨after, hafter, hle⟩ := h.2 7 (by decide)
  obtain rfl := Option.some.inj (hupwards.symm.trans hafter)
  exact absurd hle (by decide)

end Setka.Storage.IdGenerators
