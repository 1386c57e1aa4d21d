/-
# Setka.Storage.EndToEndKeys — one-time keys.

Claiming one-time keys is written twice: for PostgreSQL as one query that ranks the keys of every claim and
deletes those that rank high enough, for SQLite as a loop with a transaction for each claim. Both are a
`Selection`: the oldest keys of each claim, up to ties, and what is left. Keys are handed on as the text they
were stored with; decoding it is left out, and so are the caches of key counts.
-/
import Setka.Lib.Batches
import Setka.Lib.Dict
import Setka.Lib.OldestFirst
import Setka.Lib.PyStr
import Mathlib.Data.List.Dedup

namespace Setka.Storage.EndToEndKeys

open Setka.Lib Dict
open List (mem_filter mem_map_of_mem map_map mem_map map_append not_mem_nil nil_append)

/-! ## §1 The tables -/

/-- An algorithm, which an upload cuts off at the first colon of a key's name. -/
abbrev Algorithm := { a : String // ':' ∉ a.toList }

/-- The user, the device and the algorithm that a claim is about. -/
abbrev Slot := String × String × String

/-- `f"{algorithm}:{key_id}"`. -/
def keyName (algorithm keyId : String) : String := algorithm ++ String.ofList [':'] ++ keyId

/-- What makes a row of `e2e_one_time_keys_json` unique. -/
structure OtkKey where
  userId : String
  deviceId : String
  algorithm : Algorithm
  keyId : String
  deriving DecidableEq

namespace OtkKey

def slot (k : OtkKey) : Slot := (k.userId, k.deviceId, k.algorithm.1)

/-- Where the key stands in an answer: the user, the device, and the name of the key. -/
def name (k : OtkKey) : String × String × String := (k.userId, k.deviceId, keyName k.algorithm.1 k.keyId)

end OtkKey

/-- The rest of a row. A key may be stored again under its id after it was claimed: `rowId` tells such rows
apart. -/
structure OtkRow where
  tsAddedMs : ℤ
  keyJson : String
  rowId : ℕ
  deriving DecidableEq

abbrev OtkTable := Dict OtkKey OtkRow

abbrev Otk := OtkKey × OtkRow

/-- An entry of a query list. -/
structure Claim where
  userId : String
  deviceId : String
  algorithm : String
  count : ℤ
  deriving DecidableEq

def Claim.slot (c : Claim) : Slot := (c.userId, c.deviceId, c.algorithm)

/-- The keys stored for a slot. -/
def available (table : OtkTable) (slot : Slot) : List Otk := table.items.filter fun row => row.1.slot = slot

def Otk.time (row : Otk) : ℤ := row.2.tsAddedMs

/-! ## §2 Claiming one-time keys -/

/-- `LIMIT n`: SQLite takes a negative limit for none. -/
def limit {α : Type} (n : ℤ) (l : List α) : List α := if n < 0 then l else l.take n.toNat

/-- `_claim_e2e_one_time_key_simple`: the rows, and the table without them. -/
def claimE2eOneTimeKeySimple (order : TieBreak) (c : Claim) (table : OtkTable) : List Otk × OtkTable :=
  let otkRows := limit c.count (order.sort Otk.time (available table c.slot))
  (otkRows, table.filter fun key _ => !(key.slot = c.slot && (otkRows.map (·.1.keyId)).contains key.keyId))

/-- `e2e_one_time_keys_json JOIN claims`. -/
def joinedKeys (claims : List Claim) (table : OtkTable) : List (Otk × ℤ) :=
  table.items.flatMap fun row => (claims.filter fun c => c.slot = row.1.slot).map fun c => (row, c.count)

/-- `PARTITION BY (user_id, device_id, algorithm) ORDER BY ts_added_ms`, for one slot. -/
def partitionOf (order : TieBreak) (claims : List Claim) (table : OtkTable) (slot : Slot) : List (Otk × ℤ) :=
  order.sort (fun x => x.1.time) ((joinedKeys claims table).filter fun x => x.1.1.slot = slot)

/-- `ranked_keys`: each row with the count of its claim and its rank among the rows of its slot. -/
def rankedKeys (order : TieBreak) (claims : List Claim) (table : OtkTable) : List ((Otk × ℤ) × ℕ) :=
  (claims.map Claim.slot).dedup.flatMap fun slot => (partitionOf order claims table slot).zipIdx 1

/-- The condition of the `DELETE`. -/
def isRanked (order : TieBreak) (claims : List Claim) (table : OtkTable) (key : OtkKey) : Bool :=
  (rankedKeys order claims table).any fun x => x.1.1.1 = key && (x.2 : ℤ) ≤ x.1.2

/-- The query of `_claim_e2e_one_time_keys_bulk`: the rows, and the table without them. `RETURNING` gives the
rows in no particular order; nothing depends on it. -/
def claimBulkPage (order : TieBreak) (claims : List Claim) (table : OtkTable) : List Otk × OtkTable :=
  (table.items.filter fun row => isRanked order claims table row.1,
    table.filter fun key _ => !isRanked order claims table key)

/-- A statement that takes keys: the query, or the two statements for one claim. -/
inductive Transaction
  | bulk (claims : List Claim)
  | simple (c : Claim)
  deriving DecidableEq

namespace Transaction

def claims : Transaction → List Claim
  | bulk claims => claims
  | simple c => [c]

def run (order : TieBreak) : Transaction → OtkTable → List Otk × OtkTable
  | bulk claims, table => claimBulkPage order claims table
  | simple c, table => claimE2eOneTimeKeySimple order c table

/-- One transaction after another. -/
def runAll (order : TieBreak) : List Transaction → OtkTable → List Otk × OtkTable
  | [], table => ([], table)
  | t :: rest, table =>
    let (otkRows, table) := t.run order table
    let (others, table) := runAll order rest table
    (otkRows ++ others, table)

end Transaction

/-- The queries of `_claim_e2e_one_time_keys_bulk`: `execute_values` sends a hundred values with each. -/
def bulkPages (queryList : List Claim) : List Transaction := (queryList.toChunks 100).map .bulk

def claimE2eOneTimeKeysBulk (order : TieBreak) (queryList : List Claim) (table : OtkTable) : List Otk × OtkTable :=
  Transaction.runAll order (bulkPages queryList) table

/-- An answer: the keys by user, device and name. -/
abbrev Claimed := Dict (String × String × String) OtkRow

def addResults (results : Claimed) (otkRows : List Otk) : Claimed :=
  otkRows.foldl (fun results row => results.set row.1.name row.2) results

inductive DatabaseEngine
  | postgres
  | sqlite
  deriving DecidableEq

/-- The loop of `claim_e2e_one_time_keys` for SQLite. -/
def claimOneByOne (order : TieBreak) (found : (Claimed × List Claim) × OtkTable) (c : Claim) :
    (Claimed × List Claim) × OtkTable :=
  let ((results, missing), table) := found
  let (claimRows, table) := claimE2eOneTimeKeySimple order c table
  let count := c.count - claimRows.length
  ((addResults results claimRows, if count ≠ 0 then missing ++ [{ c with count }] else missing), table)

/-- What is missing after the bulk query. -/
def missingAfterBulk (queryList : List Claim) (bulkClaims : List Otk) : List Claim :=
  let unfulfilledClaimCounts : Dict Slot ℤ := queryList.foldl (fun d c => d.set c.slot c.count) .empty
  let unfulfilledClaimCounts := bulkClaims.foldl
    (fun d row => d.set row.1.slot (d.getD row.1.slot 0 - 1)) unfulfilledClaimCounts
  (unfulfilledClaimCounts.items.filter fun x => 0 < x.2).map fun x => ⟨x.1.1, x.1.2.1, x.1.2.2, x.2⟩

/-- `claim_e2e_one_time_keys`: the results, what is missing, and the table. -/
def claimE2eOneTimeKeys (engine : DatabaseEngine) (order : TieBreak) (queryList : List Claim)
    (table : OtkTable) : (Claimed × List Claim) × OtkTable :=
  match engine with
  | .postgres =>
    let (bulkClaims, table) := claimE2eOneTimeKeysBulk order queryList table
    ((addResults .empty bulkClaims, missingAfterBulk queryList bulkClaims), table)
  | .sqlite => queryList.foldl (claimOneByOne order) ((.empty, []), table)

/-- The transactions of `claim_e2e_one_time_keys`, one after another. -/
def transactions (engine : DatabaseEngine) (queryList : List Claim) : List Transaction :=
  match engine with
  | .postgres => bulkPages queryList
  | .sqlite => queryList.map .simple

/-! ## §3 Selections -/

/-- **Taking keys**: rows of the slots that were asked for, and nothing else, leave the table. -/
structure Takes (table : OtkTable) (slots : List Slot) (taken : List Otk) (table' : OtkTable) : Prop where
  nodup : (taken.map Prod.fst).Nodup
  stored : ∀ row ∈ taken, table.get? row.1 = some row.2
  asked : ∀ row ∈ taken, row.1.slot ∈ slots
  left : ∀ key, table'.get? key = if key ∈ taken.map Prod.fst then none else table.get? key

/-- **A selection**: of each claim the oldest keys are taken, as many as it asks for or as there are. -/
structure Selection (table : OtkTable) (claims : List Claim) (taken : List Otk) (table' : OtkTable) : Prop where
  takes : Takes table (claims.map Claim.slot) taken table'
  oldest : ∀ c ∈ claims, Oldest Otk.time (available table c.slot) c.count.toNat
    (taken.filter fun row => row.1.slot = c.slot)

theorem OtkKey.eq_of_slot {k k' : OtkKey} (hslot : k.slot = k'.slot) (hid : k.keyId = k'.keyId) : k = k' := by
  cases k with
  | mk userId deviceId algorithm keyId =>
    cases k' with
    | mk userId' deviceId' algorithm' keyId' =>
      obtain ⟨rfl, hrest⟩ := Prod.mk.inj hslot
      obtain ⟨rfl, halgorithm⟩ := Prod.mk.inj hrest
      obtain rfl : keyId = keyId' := hid
      obtain rfl : algorithm = algorithm' := Subtype.ext halgorithm
      rfl

/-- Two keys have one name only if they are the same. -/
theorem OtkKey.name_injective : Function.Injective OtkKey.name := by
  intro k k' h
  obtain ⟨huser, hrest⟩ := Prod.mk.inj h
  obtain ⟨hdevice, hname⟩ := Prod.mk.inj hrest
  have hcut := PyStr.partition_append k.algorithm.2 k.keyId
  rw [show k.algorithm.1 ++ String.ofList [':'] ++ k.keyId = k'.algorithm.1 ++ String.ofList [':'] ++ k'.keyId
    from hname, PyStr.partition_append k'.algorithm.2 k'.keyId] at hcut
  obtain ⟨halgorithm, hid⟩ := Prod.mk.inj (Option.some.inj hcut)
  refine OtkKey.eq_of_slot ?_ hid.symm
  rw [OtkKey.slot, OtkKey.slot, huser, hdevice, halgorithm]

variable {table : OtkTable} {slot : Slot}

theorem mem_available {row : Otk} :
    row ∈ available table slot ↔ table.get? row.1 = some row.2 ∧ row.1.slot = slot := by
  rw [available, mem_filter, decide_eq_true_eq, get?_eq_some_iff]

theorem nodup_items (table : OtkTable) : table.items.Nodup := List.Nodup.of_map Prod.fst table.nodup

theorem nodup_available (table : OtkTable) (slot : Slot) : (available table slot).Nodup :=
  (nodup_items table).filter _

variable {table' : OtkTable}

/-- What is stored for a slot depends on what is under its keys. -/
theorem available_perm (h : ∀ key, key.slot = slot → table'.get? key = table.get? key) :
    (available table' slot).Perm (available table slot) := by
  refine (List.perm_ext_iff_of_nodup (nodup_available _ _) (nodup_available _ _)).mpr fun row => ?_
  rw [mem_available, mem_available]
  refine and_congr_left fun hslot => ?_
  rw [h row.1 hslot]

section Selections

variable {table table₁ table₂ : OtkTable} {taken taken₁ taken₂ : List Otk} {slots slots₁ slots₂ : List Slot}

/-- Taking keys twice, of different slots. -/
theorem Takes.append (h₁ : Takes table slots₁ taken₁ table₁) (h₂ : Takes table₁ slots₂ taken₂ table₂) :
    Takes table (slots₁ ++ slots₂) (taken₁ ++ taken₂) table₂ := by
  have hkept : ∀ row ∈ taken₂, row.1 ∉ taken₁.map Prod.fst ∧ table.get? row.1 = some row.2 := by
    intro row hrow
    have hstored := h₂.stored row hrow
    rw [h₁.left] at hstored
    split at hstored
    · cases hstored
    · rename_i hnot
      exact ⟨hnot, hstored⟩
  refine ⟨?_, fun row hrow => ?_, fun row hrow => ?_, fun key => ?_⟩
  · rw [map_append, List.nodup_append]
    refine ⟨h₁.nodup, h₂.nodup, fun a ha b hb heq => ?_⟩
    obtain ⟨row, hrow, rfl⟩ := List.mem_map.mp hb
    exact (hkept row hrow).1 (heq ▸ ha)
  · rcases List.mem_append.mp hrow with hrow | hrow
    · exact h₁.stored row hrow
    · exact (hkept row hrow).2
  · rcases List.mem_append.mp hrow with hrow | hrow
    · exact List.mem_append_left _ (h₁.asked row hrow)
    · exact List.mem_append_right _ (h₂.asked row hrow)
  · rw [h₂.left, h₁.left, map_append]
    grind

theorem Takes.nil (table : OtkTable) : Takes table [] [] table where
  nodup := List.nodup_nil
  stored := fun _ h => absurd h not_mem_nil
  asked := fun _ h => absurd h not_mem_nil
  left := fun _ => by rw [List.map_nil, if_neg not_mem_nil]

/-- Nothing is taken from the slots that were not asked for. -/
theorem Takes.get?_of_notMem (h : Takes table slots taken table₁) {key : OtkKey} (hslot : key.slot ∉ slots) :
    table₁.get? key = table.get? key := by
  rw [h.left, if_neg]
  intro hin
  obtain ⟨row, hrow, rfl⟩ := List.mem_map.mp hin
  exact hslot (h.asked row hrow)

theorem Takes.filter_eq_nil (h : Takes table slots taken table₁) {slot : Slot} (hslot : slot ∉ slots) :
    taken.filter (fun row => row.1.slot = slot) = [] := by
  rw [List.filter_eq_nil_iff]
  intro row hrow hof
  exact hslot (of_decide_eq_true hof ▸ h.asked row hrow)

theorem Takes.available_perm (h : Takes table slots taken table₁) {slot : Slot} (hslot : slot ∉ slots) :
    (available table₁ slot).Perm (available table slot) :=
  EndToEndKeys.available_perm fun _ hkey => h.get?_of_notMem (hkey ▸ hslot)

theorem Selection.nil (table : OtkTable) : Selection table [] [] table :=
  ⟨Takes.nil table, fun _ h => absurd h not_mem_nil⟩

theorem Selection.append {claims₁ claims₂ : List Claim} (h₁ : Selection table claims₁ taken₁ table₁)
    (h₂ : Selection table₁ claims₂ taken₂ table₂)
    (hdistinct : ((claims₁ ++ claims₂).map Claim.slot).Nodup) :
    Selection table (claims₁ ++ claims₂) (taken₁ ++ taken₂) table₂ := by
  rw [map_append, List.nodup_append] at hdistinct
  refine ⟨?_, fun c hc => ?_⟩
  · rw [map_append]
    exact h₁.takes.append h₂.takes
  rw [List.filter_append]
  rcases List.mem_append.mp hc with hc | hc
  · have hother : c.slot ∉ claims₂.map Claim.slot := fun hin =>
      hdistinct.2.2 c.slot (mem_map_of_mem hc) c.slot hin rfl
    rw [h₂.takes.filter_eq_nil hother, List.append_nil]
    exact h₁.oldest c hc
  · have hother : c.slot ∉ claims₁.map Claim.slot := fun hin =>
      hdistinct.2.2 c.slot hin c.slot (mem_map_of_mem hc) rfl
    rw [h₁.takes.filter_eq_nil hother, nil_append]
    exact (h₂.oldest c hc).perm (h₁.takes.available_perm hother) (List.Perm.refl _)

end Selections

/-! ## §4 What a transaction takes -/

variable {taken : List Otk}

/-- What is left is told by the keys that were taken. -/
theorem left_of_filter {gone : OtkKey → Bool}
    (h : ∀ key, (∃ v, table.get? key = some v) → (gone key = true ↔ key ∈ taken.map Prod.fst)) (key : OtkKey) :
    (table.filter fun key _ => !gone key).get? key = if key ∈ taken.map Prod.fst then none else table.get? key := by
  ext v
  rw [get?_filter]
  split
  · rename_i hin
    refine ⟨fun hleft => ?_, fun hnone => absurd hnone (Option.not_mem_none v)⟩
    obtain ⟨hv, hnot⟩ := hleft
    rw [(h key ⟨v, hv⟩).mpr hin] at hnot
    cases hnot
  · rename_i hnot
    rw [Bool.not_eq_true', and_iff_left_iff_imp]
    intro hv
    exact Bool.eq_false_iff.mpr fun hgone => hnot ((h key ⟨v, hv⟩).mp hgone)

theorem nodup_keys_of_items (hnodup : taken.Nodup)
    (hstored : ∀ row ∈ taken, table.get? row.1 = some row.2) : (taken.map Prod.fst).Nodup := by
  refine (List.nodup_map_iff_inj_on hnodup).mpr fun a ha b hb heq => ?_
  have hvalue : some a.2 = some b.2 := by rw [← hstored a ha, ← hstored b hb, heq]
  exact Prod.ext heq (Option.some.inj hvalue)

theorem mem_limit {α : Type} {n : ℤ} {l : List α} {a : α} (h : a ∈ limit n l) : a ∈ l := by
  unfold limit at h
  split at h
  · exact h
  · exact List.mem_of_mem_take h

theorem nodup_limit {α : Type} {n : ℤ} {l : List α} (h : l.Nodup) : (limit n l).Nodup := by
  unfold limit
  split
  · exact h
  · exact h.sublist (List.take_sublist _ _)

theorem takes_simple (order : TieBreak) (c : Claim) (table : OtkTable) :
    Takes table [c.slot] (claimE2eOneTimeKeySimple order c table).1 (claimE2eOneTimeKeySimple order c table).2 := by
  have hrow : ∀ row ∈ (claimE2eOneTimeKeySimple order c table).1,
      table.get? row.1 = some row.2 ∧ row.1.slot = c.slot := fun row hrow =>
    mem_available.mp ((order.perm Otk.time (available table c.slot)).mem_iff.mp (mem_limit hrow))
  have hnodup : (claimE2eOneTimeKeySimple order c table).1.Nodup :=
    nodup_limit ((order.perm _ _).nodup_iff.mpr (nodup_available table c.slot))
  refine ⟨nodup_keys_of_items hnodup fun row hin => (hrow row hin).1, fun row hin => (hrow row hin).1,
    fun row hin => List.mem_singleton.mpr (hrow row hin).2, left_of_filter fun key _ => ?_⟩
  -- within a slot, the id of a key tells which one it is
  rw [Bool.and_eq_true, decide_eq_true_eq, List.contains_iff_mem, mem_map, mem_map]
  constructor
  · rintro ⟨hslot, row, hin, hid⟩
    exact ⟨row, hin, OtkKey.eq_of_slot ((hrow row hin).2.trans hslot.symm) hid⟩
  · rintro ⟨row, hin, rfl⟩
    exact ⟨(hrow row hin).2, row, hin, rfl⟩

variable {c : Claim}

theorem selection_simple (order : TieBreak) (hcount : 0 < c.count) (table : OtkTable) :
    Selection table [c] (claimE2eOneTimeKeySimple order c table).1 (claimE2eOneTimeKeySimple order c table).2 := by
  refine ⟨takes_simple order c table, fun c' hc' => ?_⟩
  obtain rfl : c' = c := List.mem_singleton.mp hc'
  have hall : (claimE2eOneTimeKeySimple order c' table).1.filter (fun row => row.1.slot = c'.slot) =
      (claimE2eOneTimeKeySimple order c' table).1 := by
    refine List.filter_eq_self.mpr fun row hrow => decide_eq_true ?_
    exact List.mem_singleton.mp ((takes_simple order c' table).asked row hrow)
  rw [hall]
  show Oldest _ _ _ (limit c'.count _)
  rw [limit, if_neg (by omega)]
  exact Oldest.of_sorted (order.perm _ _) (order.sorted _ _) _

variable {claims : List Claim}

theorem mem_joinedKeys {x : Otk × ℤ} : x ∈ joinedKeys claims table ↔ table.get? x.1.1 = some x.1.2 ∧
      ∃ c ∈ claims, c.slot = x.1.1.slot ∧ c.count = x.2 := by
  unfold joinedKeys
  simp only [List.mem_flatMap, mem_map, mem_filter, decide_eq_true_eq]
  constructor
  · rintro ⟨row, hrow, c, ⟨hc, hslot⟩, rfl⟩
    exact ⟨get?_eq_some_iff.mpr hrow, c, hc, hslot, rfl⟩
  · rintro ⟨hrow, c, hc, hslot, hcount⟩
    exact ⟨x.1, get?_eq_some_iff.mp hrow, c, ⟨hc, hslot⟩, by rw [hcount]⟩

theorem mem_partitionOf {order : TieBreak} {x : Otk × ℤ} :
    x ∈ partitionOf order claims table slot ↔ x ∈ joinedKeys claims table ∧ x.1.1.slot = slot := by
  rw [partitionOf, (order.perm _ _).mem_iff, mem_filter, decide_eq_true_eq]

/-- A key is deleted by its rank among the keys of its slot. -/
theorem isRanked_iff {order : TieBreak} {key : OtkKey} :
    isRanked order claims table key = true ↔ ∃ x r, (x, r) ∈ (partitionOf order claims table key.slot).zipIdx 1 ∧
      x.1.1 = key ∧ (r : ℤ) ≤ x.2 := by
  unfold isRanked rankedKeys
  rw [List.any_eq_true]
  constructor
  · rintro ⟨⟨x, r⟩, hx, hle⟩
    obtain ⟨slot, -, hx⟩ := List.mem_flatMap.mp hx
    obtain ⟨hkey, hrank⟩ := Bool.and_eq_true_iff.mp hle
    obtain rfl : x.1.1 = key := of_decide_eq_true hkey
    obtain rfl : x.1.1.slot = slot := (mem_partitionOf.mp (List.fst_mem_of_mem_zipIdx hx)).2
    exact ⟨x, r, hx, rfl, of_decide_eq_true hrank⟩
  · rintro ⟨x, r, hx, rfl, hle⟩
    obtain ⟨-, c, hc, hslot, -⟩ := mem_joinedKeys.mp (mem_partitionOf.mp (List.fst_mem_of_mem_zipIdx hx)).1
    refine ⟨(x, r), List.mem_flatMap.mpr ⟨x.1.1.slot, ?_, hx⟩, ?_⟩
    · exact List.mem_dedup.mpr (hslot ▸ mem_map_of_mem hc)
    · rw [Bool.and_eq_true, decide_eq_true_eq, decide_eq_true_eq]
      exact ⟨rfl, hle⟩

theorem takes_bulk (order : TieBreak) (claims : List Claim) (table : OtkTable) :
    Takes table (claims.map Claim.slot) (claimBulkPage order claims table).1
      (claimBulkPage order claims table).2 := by
  have hrow : ∀ row, row ∈ (claimBulkPage order claims table).1 ↔
      table.get? row.1 = some row.2 ∧ isRanked order claims table row.1 = true := fun row => by
    rw [claimBulkPage, mem_filter, get?_eq_some_iff]
  have hnodup : (claimBulkPage order claims table).1.Nodup := (nodup_items table).filter _
  refine ⟨nodup_keys_of_items hnodup fun row hin => ((hrow row).mp hin).1,
    fun row hin => ((hrow row).mp hin).1, fun row hin => ?_, left_of_filter fun key ⟨v, hv⟩ => ?_⟩
  · obtain ⟨x, r, hx, hkey, -⟩ := isRanked_iff.mp ((hrow row).mp hin).2
    obtain ⟨-, c, hc, hslot, -⟩ := mem_joinedKeys.mp (mem_partitionOf.mp (List.fst_mem_of_mem_zipIdx hx)).1
    rw [← hkey, ← hslot]
    exact mem_map_of_mem hc
  · rw [mem_map]
    constructor
    · intro hranked
      exact ⟨(key, v), (hrow _).mpr ⟨hv, hranked⟩, rfl⟩
    · rintro ⟨row, hin, rfl⟩
      exact ((hrow row).mp hin).2

/-- The claim of a slot, if no two claims are about one. -/
theorem filter_slot_eq (hdistinct : (claims.map Claim.slot).Nodup)
    (hc : c ∈ claims) : claims.filter (fun c' => c'.slot = c.slot) = [c] := by
  refine List.perm_singleton.mp ((List.perm_ext_iff_of_nodup ((List.Nodup.of_map _ hdistinct).filter _)
    (List.nodup_singleton c)).mpr fun c' => ?_)
  rw [mem_filter, decide_eq_true_eq, List.mem_singleton]
  constructor
  · rintro ⟨hc', hslot⟩
    exact List.inj_on_of_nodup_map hdistinct hc' hc hslot
  · rintro rfl
    exact ⟨hc, rfl⟩

/-- Joined with its claim, the rows of a slot. -/
theorem filter_joinedKeys (hdistinct : (claims.map Claim.slot).Nodup) (hc : c ∈ claims) (table : OtkTable) :
    (joinedKeys claims table).filter (fun x => x.1.1.slot = c.slot) =
      (available table c.slot).map fun row => (row, c.count) := by
  unfold joinedKeys available
  induction table.items with
  | nil => rfl
  | cons row rows ih =>
    rw [List.flatMap_cons, List.filter_append, ih, List.filter_cons]
    by_cases hslot : row.1.slot = c.slot
    · simp [hslot, filter_slot_eq hdistinct hc]
    have hnone : ((claims.filter fun c' => c'.slot = row.1.slot).map fun c' => (row, c'.count)).filter
        (fun x => x.1.1.slot = c.slot) = [] := by
      refine List.filter_eq_nil_iff.mpr fun x hx => ?_
      obtain ⟨c', -, rfl⟩ := List.mem_map.mp hx
      simpa using hslot
    rw [if_neg (by simpa using hslot), hnone, nil_append]

theorem selection_bulk (order : TieBreak) (hdistinct : (claims.map Claim.slot).Nodup)
    (hcount : ∀ c ∈ claims, 0 < c.count) (table : OtkTable) :
    Selection table claims (claimBulkPage order claims table).1 (claimBulkPage order claims table).2 := by
  refine ⟨takes_bulk order claims table, fun c hc => ?_⟩
  have hpartition := order.perm (fun x : Otk × ℤ => x.1.time) ((joinedKeys claims table).filter fun x =>
    x.1.1.slot = c.slot)
  have hcounts : ∀ x ∈ partitionOf order claims table c.slot, x.2 = c.count := by
    intro x hx
    have hx' := hpartition.mem_iff.mp hx
    rw [filter_joinedKeys hdistinct hc] at hx'
    obtain ⟨row, -, rfl⟩ := List.mem_map.mp hx'
    rfl
  -- the rows of the slot, sorted
  have hrows : ((partitionOf order claims table c.slot).map Prod.fst).Perm (available table c.slot) := by
    refine (hpartition.map Prod.fst).trans (List.Perm.of_eq ?_)
    rw [filter_joinedKeys hdistinct hc, map_map]
    exact List.map_id _
  have hsorted : ((partitionOf order claims table c.slot).map Prod.fst).Pairwise fun a b => a.time ≤ b.time :=
    List.pairwise_map.mpr (order.sorted _ _)
  refine (Oldest.of_sorted hrows hsorted c.count.toNat).perm (List.Perm.refl _) ?_
  have hnodup : ((partitionOf order claims table c.slot).map Prod.fst).Nodup :=
    hrows.nodup_iff.mpr (nodup_available table c.slot)
  refine (List.perm_ext_iff_of_nodup (hnodup.sublist (List.take_sublist _ _))
    (((nodup_items table).filter _).filter _)).mpr fun row => ?_
  rw [← List.map_take, mem_filter, decide_eq_true_eq, mem_map]
  show _ ↔ row ∈ table.items.filter _ ∧ _
  rw [mem_filter, isRanked_iff]
  have hpos := hcount c hc
  constructor
  · rintro ⟨x, hx, rfl⟩
    have hin := mem_available.mp (hrows.mem_iff.mp (mem_map_of_mem (List.mem_of_mem_take hx)))
    obtain ⟨r, hr, hle⟩ := mem_take_iff_rank.mp hx
    refine ⟨⟨get?_eq_some_iff.mp hin.1, x, r, hin.2.symm ▸ hr, rfl, ?_⟩, hin.2⟩
    rw [hcounts x (List.mem_of_mem_take hx)]
    omega
  rintro ⟨⟨hrow, x, r, hx, hkey, hle⟩, hslot⟩
  rw [hslot] at hx
  have hmem := List.fst_mem_of_mem_zipIdx hx
  have hin := mem_available.mp (hrows.mem_iff.mp (mem_map_of_mem hmem))
  have hsame : x.1 = row := by
    refine Prod.ext hkey (Option.some.inj ?_)
    rw [← hin.1, hkey, get?_eq_some_iff.mpr hrow]
  refine ⟨x, mem_take_iff_rank.mpr ⟨r, hx, ?_⟩, hsame⟩
  rw [hcounts x hmem] at hle
  omega

/-! ## §5 Both engines -/

theorem Transaction.takes (order : TieBreak) (t : Transaction) (table : OtkTable) :
    Takes table (t.claims.map Claim.slot) (t.run order table).1 (t.run order table).2 := by
  cases t with
  | bulk claims => exact takes_bulk order claims table
  | simple c => exact takes_simple order c table

theorem Transaction.selection (order : TieBreak) (t : Transaction) (hdistinct : (t.claims.map Claim.slot).Nodup)
    (hcount : ∀ c ∈ t.claims, 0 < c.count) (table : OtkTable) :
    Selection table t.claims (t.run order table).1 (t.run order table).2 := by
  cases t with
  | bulk claims => exact selection_bulk order hdistinct hcount table
  | simple c => exact selection_simple order (hcount c (List.mem_singleton.mpr rfl)) table

theorem runAll_selection (order : TieBreak) {ts : List Transaction}
    (hdistinct : ((ts.flatMap Transaction.claims).map Claim.slot).Nodup)
    (hcount : ∀ c ∈ ts.flatMap Transaction.claims, 0 < c.count) (table : OtkTable) :
    Selection table (ts.flatMap Transaction.claims) (Transaction.runAll order ts table).1
      (Transaction.runAll order ts table).2 := by
  induction ts generalizing table with
  | nil => exact Selection.nil table
  | cons t ts ih =>
    rw [List.flatMap_cons] at hdistinct hcount ⊢
    have hparts := hdistinct
    rw [map_append, List.nodup_append] at hparts
    have hfirst := t.selection order hparts.1 (fun c hc => hcount c (List.mem_append_left _ hc)) table
    have hrest := ih hparts.2.1 (fun c hc => hcount c (List.mem_append_right _ hc)) (t.run order table).2
    exact hfirst.append hrest hdistinct

/-- The transactions are about the claims of the query, in its order. -/
theorem claims_transactions (engine : DatabaseEngine) (queryList : List Claim) :
    (transactions engine queryList).flatMap Transaction.claims = queryList := by
  cases engine with
  | postgres =>
    show ((queryList.toChunks 100).map Transaction.bulk).flatMap Transaction.claims = queryList
    rw [List.flatMap_map]
    exact List.flatMap_id.trans (flatten_toChunks 100 queryList)
  | sqlite =>
    show (queryList.map Transaction.simple).flatMap Transaction.claims = queryList
    rw [List.flatMap_map]
    exact List.flatMap_singleton' queryList

variable {rows : List Otk}

/-- What an answer holds of rows with different keys. -/
theorem items_addResults (h : (rows.map Prod.fst).Nodup) :
    (addResults .empty rows).items = rows.map fun row => (row.1.name, row.2) := by
  have hitems := items_foldl_set (d := (Dict.empty : Claimed)) (l := rows.map fun row => (row.1.name, row.2))
    (by
      show ((rows.map fun row => (row.1.name, row.2)).map Prod.fst).Nodup
      rw [map_map, show (Prod.fst ∘ fun row : Otk => (row.1.name, row.2)) = OtkKey.name ∘ Prod.fst from rfl,
        ← map_map]
      exact h.map OtkKey.name_injective)
  rw [List.foldl_map] at hitems
  exact hitems

theorem get?_addResults (h : (rows.map Prod.fst).Nodup) {name : String × String × String}
    {row : OtkRow} : (addResults .empty rows).get? name = some row ↔ ∃ key, key.name = name ∧ (key, row) ∈ rows := by
  rw [get?_eq_some_iff, items_addResults h, mem_map]
  constructor
  · rintro ⟨x, hx, heq⟩
    obtain ⟨rfl, rfl⟩ := Prod.mk.inj heq
    exact ⟨x.1, rfl, hx⟩
  · rintro ⟨key, rfl, hx⟩
    exact ⟨(key, row), hx, rfl⟩

/-- What a claim asks for beyond `n` keys. -/
def Claim.beyond (n : ℕ) (c : Claim) : Option Claim :=
  if 0 < c.count - n then some { c with count := c.count - n } else none

/-- What a claim asks for beyond the keys that are stored. -/
def shortfall (table : OtkTable) (c : Claim) : Option Claim := c.beyond (available table c.slot).length

theorem Claim.beyond_min (c : Claim) (n : ℕ) : c.beyond (min c.count.toNat n) = c.beyond n := by
  unfold Claim.beyond
  by_cases hshort : (n : ℤ) < c.count
  · rw [show min c.count.toNat n = n by omega]
  · rw [if_neg (by omega), if_neg (by omega)]

/-- The shortfall of a claim, told by the keys taken for it. -/
theorem Selection.beyond_eq (h : Selection table claims taken table') (hc : c ∈ claims) :
    c.beyond (taken.filter fun row => row.1.slot = c.slot).length = shortfall table c := by
  rw [(h.oldest c hc).length, c.beyond_min, shortfall]

variable {queryList : List Claim}

/-- The loop goes on with other slots: their keys are still all there. -/
theorem foldl_claimOneByOne (order : TieBreak) (hdistinct : (queryList.map Claim.slot).Nodup)
    (hcount : ∀ c ∈ queryList, 0 < c.count) (results : Claimed) (missing : List Claim) (table : OtkTable) :
    queryList.foldl (claimOneByOne order) ((results, missing), table) =
      ((addResults results (Transaction.runAll order (queryList.map .simple) table).1,
        missing ++ queryList.filterMap (shortfall table)),
        (Transaction.runAll order (queryList.map .simple) table).2) := by
  induction queryList generalizing results missing table with
  | nil => simp [Transaction.runAll, addResults]
  | cons c queryList ih =>
    have hparts := List.nodup_cons.mp hdistinct
    have hsel := selection_simple order (hcount c List.mem_cons_self) table
    have hall : (claimE2eOneTimeKeySimple order c table).1.filter (fun row => row.1.slot = c.slot) =
        (claimE2eOneTimeKeySimple order c table).1 := by
      refine List.filter_eq_self.mpr fun row hrow => decide_eq_true ?_
      exact List.mem_singleton.mp (hsel.takes.asked row hrow)
    have hlength := (hsel.oldest c (List.mem_singleton.mpr rfl)).length
    have hbeyond := hsel.beyond_eq (List.mem_singleton.mpr rfl)
    rw [hall] at hlength hbeyond
    have hothers : queryList.filterMap (shortfall (claimE2eOneTimeKeySimple order c table).2) =
        queryList.filterMap (shortfall table) := by
      refine List.filterMap_congr fun c' hc' => ?_
      have hother : c'.slot ∉ [c.slot] := fun hin =>
        hparts.1 (List.mem_singleton.mp hin ▸ mem_map_of_mem hc')
      rw [shortfall, shortfall, (hsel.takes.available_perm hother).length_eq]
    -- no more keys are taken than asked for, so a count that is not 0 is positive
    have hfirst : (if c.count - ((claimE2eOneTimeKeySimple order c table).1.length : ℤ) ≠ 0 then
        missing ++ [{ c with count := c.count - ((claimE2eOneTimeKeySimple order c table).1.length : ℤ) }]
        else missing) = missing ++ (shortfall table c).toList := by
      have hpos := hcount c List.mem_cons_self
      rw [← hbeyond, Claim.beyond]
      by_cases hshort : c.count - ((claimE2eOneTimeKeySimple order c table).1.length : ℤ) = 0
      · rw [if_neg (not_not.mpr hshort), if_neg (by omega)]
        exact (List.append_nil _).symm
      · rw [if_pos hshort, if_pos (by omega)]
        rfl
    have hrest := ih hparts.2 (fun c' hc' => hcount c' (List.mem_cons_of_mem c hc'))
      (addResults results (claimE2eOneTimeKeySimple order c table).1)
      (missing ++ (shortfall table c).toList) (claimE2eOneTimeKeySimple order c table).2
    rw [List.foldl_cons, claimOneByOne]
    dsimp only
    rw [hfirst, hrest, hothers]
    simp only [List.map_cons, Transaction.runAll, Transaction.run, addResults, List.foldl_append,
      List.filterMap_cons, List.append_assoc]
    cases shortfall table c <;> rfl

/-- Counting down for the rows of a slot, as often as there are rows of it. -/
theorem foldl_countDown {d : Dict Slot ℤ} (h : ∀ row ∈ rows, row.1.slot ∈ d.keys) :
    (rows.foldl (fun d row => d.set row.1.slot (d.getD row.1.slot 0 - 1)) d).keys = d.keys ∧
      ∀ slot, (rows.foldl (fun d row => d.set row.1.slot (d.getD row.1.slot 0 - 1)) d).getD slot 0 =
        d.getD slot 0 - (rows.filter fun row => row.1.slot = slot).length := by
  induction rows generalizing d with
  | nil => exact ⟨rfl, fun slot => by simp⟩
  | cons row rows ih =>
    have hkeys := keys_set_of_mem (h row List.mem_cons_self) (d.getD row.1.slot 0 - 1)
    obtain ⟨hsame, hgetD⟩ := ih (d := d.set row.1.slot (d.getD row.1.slot 0 - 1))
      fun r hr => hkeys ▸ h r (List.mem_cons_of_mem row hr)
    refine ⟨hsame.trans hkeys, fun slot => ?_⟩
    rw [List.foldl_cons, hgetD]
    by_cases hslot : row.1.slot = slot
    · subst hslot
      rw [List.filter_cons_of_pos (by simp), List.length_cons]
      simp only [Dict.getD, get?_set, if_pos, Option.getD_some]
      omega
    · rw [List.filter_cons_of_neg (by simpa using hslot)]
      simp only [Dict.getD, get?_set, if_neg (Ne.symm hslot)]

theorem missingAfterBulk_eq (hdistinct : (queryList.map Claim.slot).Nodup)
    (hasked : ∀ row ∈ rows, row.1.slot ∈ queryList.map Claim.slot) :
    missingAfterBulk queryList rows = queryList.filterMap fun c =>
      c.beyond (rows.filter fun row => row.1.slot = c.slot).length := by
  have hitems : (queryList.foldl (fun d c => d.set c.slot c.count) (.empty : Dict Slot ℤ)).items =
      queryList.map fun c => (c.slot, c.count) := by
    have hset := items_foldl_set (d := (Dict.empty : Dict Slot ℤ))
      (l := queryList.map fun c => (c.slot, c.count)) (by
        show ((queryList.map fun c => (c.slot, c.count)).map Prod.fst).Nodup
        rw [map_map]
        exact hdistinct)
    rw [List.foldl_map] at hset
    exact hset
  have hkeys : (queryList.foldl (fun d c => d.set c.slot c.count) (.empty : Dict Slot ℤ)).keys =
      queryList.map Claim.slot := by
    rw [Dict.keys, hitems, map_map]
    rfl
  obtain ⟨hsame, hgetD⟩ := foldl_countDown fun row hrow => hkeys ▸ hasked row hrow
  have hcounts : ∀ c ∈ queryList,
      (queryList.foldl (fun d c => d.set c.slot c.count) (.empty : Dict Slot ℤ)).getD c.slot 0 = c.count := by
    intro c hc
    refine getD_of_get? (get?_eq_some_iff.mpr ?_) 0
    rw [hitems]
    exact List.mem_map.mpr ⟨c, hc, rfl⟩
  unfold missingAfterBulk
  dsimp only
  rw [items_eq_map_keys _ 0, hsame, hkeys, map_map, List.filter_map, map_map,
    ← List.filterMap_eq_map, List.filterMap_filter]
  refine List.filterMap_congr fun c hc => ?_
  simp only [Function.comp_apply, hgetD, hcounts c hc, decide_eq_true_eq]
  rfl

/-- **What a claim is served**: the oldest keys of each entry, as many as it asks for or as there are, leave
the table and are in the answer; the shortfalls are what is missing. -/
structure Serves (table : OtkTable) (queryList : List Claim) (taken : List Otk)
    (found : (Claimed × List Claim) × OtkTable) : Prop where
  selection : Selection table queryList taken found.2
  returned : ∀ name row, found.1.1.get? name = some row ↔ ∃ key, key.name = name ∧ (key, row) ∈ taken
  missing : found.1.2 = queryList.filterMap (shortfall table)

/-- The transactions of a claim, one after another, take what it is served. -/
theorem serves_claimE2eOneTimeKeys (engine : DatabaseEngine) (order : TieBreak)
    (hdistinct : (queryList.map Claim.slot).Nodup) (hcount : ∀ c ∈ queryList, 0 < c.count) (table : OtkTable) :
    Serves table queryList (Transaction.runAll order (transactions engine queryList) table).1
      (claimE2eOneTimeKeys engine order queryList table) := by
  have hclaims := claims_transactions engine queryList
  have hsel := @runAll_selection order (transactions engine queryList) (hclaims.symm ▸ hdistinct)
    (fun c hc => hcount c (hclaims ▸ hc)) table
  rw [hclaims] at hsel
  cases engine with
  | postgres =>
    refine ⟨hsel, fun name row => get?_addResults hsel.takes.nodup, ?_⟩
    show missingAfterBulk queryList (Transaction.runAll order (transactions .postgres queryList) table).1 = _
    rw [missingAfterBulk_eq hdistinct fun row hrow => hsel.takes.asked row hrow]
    exact List.filterMap_congr fun c hc => hsel.beyond_eq hc
  | sqlite =>
    have hloop := foldl_claimOneByOne order hdistinct hcount .empty [] table
    rw [show claimE2eOneTimeKeys .sqlite order queryList table = _ from hloop]
    exact ⟨hsel, fun name row => get?_addResults hsel.takes.nodup, nil_append _⟩

/-- **Agreement up to ties**: of each entry, keys of the same age are taken, and the same keys where no two have
one age. -/
structure AgreeUpToTies (table : OtkTable) (queryList : List Claim) (taken taken' : List Otk) : Prop where
  times : ∀ c ∈ queryList, ((taken.filter fun row => row.1.slot = c.slot).map Otk.time).Perm
    ((taken'.filter fun row => row.1.slot = c.slot).map Otk.time)
  same : ∀ c ∈ queryList, ((available table c.slot).map Otk.time).Nodup →
    ∀ row, row.1.slot = c.slot → (row ∈ taken ↔ row ∈ taken')

theorem Serves.agree {taken' : List Otk} {found found' : (Claimed × List Claim) × OtkTable}
    (h : Serves table queryList taken found)
    (h' : Serves table queryList taken' found') : AgreeUpToTies table queryList taken taken' where
  times := fun c hc => (h.selection.oldest c hc).perm_map (h'.selection.oldest c hc) (nodup_available _ _)
  same := by
    intro c hc htimes row hslot
    have hmem := (h.selection.oldest c hc).mem_iff (h'.selection.oldest c hc) (nodup_available _ _)
      (fun a ha b hb heq => List.inj_on_of_nodup_map htimes ha hb heq) (a := row)
    rw [mem_filter, mem_filter] at hmem
    simpa only [hslot, decide_true, and_true] using hmem

/-- The rows of a table are those taken and those left. -/
theorem Takes.items_perm {slots : List Slot}
    (h : Takes table slots taken table') : (taken ++ table'.items).Perm table.items := by
  have hleft : ∀ row, row ∈ table'.items ↔ table.get? row.1 = some row.2 ∧ row.1 ∉ taken.map Prod.fst := by
    intro row
    rw [← get?_eq_some_iff, h.left]
    split
    · rename_i hin
      exact ⟨fun hnone => absurd hnone (Option.not_mem_none _), fun hnot => absurd hin hnot.2⟩
    · rename_i hnot
      exact ⟨fun hrow => ⟨hrow, hnot⟩, And.left⟩
  have hnodup : (taken ++ table'.items).Nodup := by
    refine List.nodup_append.mpr ⟨List.Nodup.of_map _ h.nodup, nodup_items table', fun a ha b hb heq => ?_⟩
    exact ((hleft b).mp hb).2 (heq ▸ mem_map_of_mem ha)
  refine (List.perm_ext_iff_of_nodup hnodup (nodup_items table)).mpr fun row => ?_
  rw [List.mem_append, hleft, ← get?_eq_some_iff]
  constructor
  · rintro (hin | ⟨hrow, -⟩)
    · exact h.stored row hin
    · exact hrow
  intro hrow
  by_cases hin : row.1 ∈ taken.map Prod.fst
  · obtain ⟨x, hx, heq⟩ := List.mem_map.mp hin
    have hvalue : some x.2 = some row.2 := by rw [← h.stored x hx, heq, hrow]
    exact .inl (Prod.ext heq (Option.some.inj hvalue) ▸ hx)
  · exact .inr ⟨hrow, hin⟩

end Setka.Storage.EndToEndKeys
