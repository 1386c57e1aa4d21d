/-
# Setka.Handlers.E2eKeys — one-time keys, uploaded and claimed.

Clients upload one-time keys, others claim them. An upload looks up what is there already and inserts the rest;
a claim takes its keys in several transactions; these interleave. What a claim does not find it makes up for
with fallback keys.

A key is the canonical text of its JSON. Whether two such texts are the same key, signatures apart, is a
parameter. The lock that an upload takes is left out: nothing depends on it.
-/
import Setka.Storage.FallbackKeys

namespace Setka.Handlers.E2eKeys

open Setka.Lib Setka.Storage.EndToEndKeys
open List (flatMap_cons map_append map_map append_assoc)

/-! ## §1 Claiming keys of local users -/

/-- The number of keys that can be claimed at once is capped. -/
def cap (c : Claim) : Claim := { c with count := min c.count 5 }

/-- A key that an application service provides. -/
structure AppserviceKey where
  keyJson : String
  fallback : Bool

abbrev AppserviceResults := Dict (String × String × String) AppserviceKey

/-- What `claim_local_one_time_keys` returns. -/
structure Results where
  otkResults : Claimed
  appserviceResults : AppserviceResults
  fallbackResults : FallbackResults

/-- The item of an answer is about the claim: `key_id.startswith(f"{algorithm}:")`. -/
def isFor (c : Claim) (name : String × String × String) : Bool :=
  name.1 = c.userId && name.2.1 = c.deviceId && PyStr.startsWith (keyName c.algorithm "") name.2.2

/-- The fallback keys to ask for. With `always_include_fallback_keys` it is those of every claim for which no
application service gave one, and they are marked if there is no key for the claim at all. -/
def fallbackQuery (alwaysIncludeFallbackKeys : Bool) (localQuery notFound : List Claim) (otkResults : Claimed)
    (appserviceResults : AppserviceResults) : List FallbackClaim :=
  if alwaysIncludeFallbackKeys then
    localQuery.filterMap fun c =>
      let asResult := appserviceResults.items.filter fun x => isFor c x.1
      if asResult.any fun x => x.2.fallback then none
      else some ⟨c.userId, c.deviceId, c.algorithm, asResult.isEmpty && !otkResults.items.any fun x => isFor c x.1⟩
  else notFound.map fun c => ⟨c.userId, c.deviceId, c.algorithm, true⟩

/-- `claim_local_one_time_keys`: the results and the two tables. Without a query to the application services
there are no results of theirs. -/
def claimLocalOneTimeKeys (engine : DatabaseEngine) (order : TieBreak)
    (queryAppservices : Option (List Claim → AppserviceResults × List Claim)) (localQuery : List Claim)
    (alwaysIncludeFallbackKeys : Bool) (table : OtkTable) (fallbacks : FallbackTable) :
    Results × OtkTable × FallbackTable :=
  let localQuery := localQuery.map cap
  let ((otkResults, notFound), table) := claimE2eOneTimeKeys engine order localQuery table
  let (appserviceResults, notFound) := (queryAppservices.map fun query => query notFound).getD (.empty, notFound)
  let (fallbackResults, fallbacks) := claimE2eFallbackKeys engine
    (fallbackQuery alwaysIncludeFallbackKeys localQuery notFound otkResults appserviceResults) fallbacks
  (⟨otkResults, appserviceResults, fallbackResults⟩, table, fallbacks)

/-! ## §2 Uploads and claims, step by step -/

/-- A key that is uploaded. -/
structure NewKey where
  algorithm : Algorithm
  keyId : String
  key : String

/-- `algorithm, key_id = key_id.split(":")`. -/
def splitName (name : String) : Option (Algorithm × String) :=
  match PyStr.split ':' name with
  | [algorithm, keyId] => if h : ':' ∉ algorithm.toList then some (⟨algorithm, h⟩, keyId) else none
  | _ => none

/-- An upload: what it is about, the ids still to be looked up, and the keys found for those before. -/
structure Upload where
  userId : String
  deviceId : String
  timeNow : ℤ
  keyList : List NewKey
  unread : List (List String)
  existing : Dict (Algorithm × String) String

/-- A claim: its transactions still to come, and the rows that it has. -/
structure ClaimTask where
  todo : List Transaction
  otkRows : List Otk

/-- The results, as far as they go. -/
def ClaimTask.answer (t : ClaimTask) : Claimed := addResults .empty t.otkRows

/-- The table, and what is running. `stored` has every row that was ever inserted. -/
structure World where
  table : OtkTable
  uploads : List Upload
  claims : List ClaimTask
  stored : List Otk

/-- A request begins or goes on. At each transaction the database sorts in its own way. -/
inductive Action
  | upload (userId deviceId : String) (timeNow : ℤ) (oneTimeKeys : List (String × String))
  | check (upload : ℕ)
  | insert (upload : ℕ)
  | claim (localQuery : List Claim)
  | take (order : TieBreak) (claim : ℕ)

namespace World

def new : World := ⟨.empty, [], [], []⟩

/-- An upload begins, unless a name does not have the form that it must have. -/
def upload (userId deviceId : String) (timeNow : ℤ) (oneTimeKeys : List (String × String)) (w : World) : World :=
  match oneTimeKeys.mapM fun x => (splitName x.1).map fun name => NewKey.mk name.1 name.2 x.2 with
  | some keyList =>
    { w with uploads := w.uploads ++
      [⟨userId, deviceId, timeNow, keyList, (keyList.map NewKey.keyId).toChunks 100, .empty⟩] }
  | none => w

/-- One query of `get_e2e_one_time_keys`. -/
def check (i : ℕ) (u : Upload) (batch : List String) (unread : List (List String)) (w : World) : World :=
  let rows := w.table.items.filter fun row =>
    row.1.userId = u.userId && row.1.deviceId = u.deviceId && batch.contains row.1.keyId
  let existing := rows.foldl (fun d row => d.set (row.1.algorithm, row.1.keyId) row.2.keyJson) u.existing
  { w with uploads := w.uploads.set i { u with unread, existing } }

/-- The keys to insert; none at all if a key is there and another than the new one. -/
def newKeys (sameKey : String → String → Bool) (u : Upload) : Option (List NewKey) :=
  if u.keyList.all fun k => ((u.existing.get? (k.algorithm, k.keyId)).map fun exJson => sameKey exJson k.key).getD true
  then some (u.keyList.filter fun k => (u.existing.get? (k.algorithm, k.keyId)).isNone)
  else none

/-- The rows of an insertion. -/
def newRows (u : Upload) (keys : List NewKey) (rowId : ℕ) : List Otk :=
  keys.zipIdx.map fun x => (⟨u.userId, u.deviceId, x.1.algorithm, x.1.keyId⟩, ⟨u.timeNow, x.1.key, rowId + x.2⟩)

/-- `_add_e2e_one_time_keys_txn` inserts all rows, or none if the table would have two with the same key. -/
def addRows (rows : List Otk) (w : World) : World :=
  if ((w.table.items ++ rows).map Prod.fst).Nodup then
    { w with
      table := rows.foldl (fun table row => table.set row.1 row.2) w.table
      stored := w.stored ++ rows }
  else w

/-- An upload ends. -/
def insert (sameKey : String → String → Bool) (i : ℕ) (u : Upload) (w : World) : World :=
  let ended := { w with uploads := w.uploads.eraseIdx i }
  match newKeys sameKey u with
  | some keys => ended.addRows (newRows u keys w.stored.length)
  | none => ended

/-- One transaction of a claim. -/
def take (order : TieBreak) (j : ℕ) (t : ClaimTask) (txn : Transaction) (todo : List Transaction)
    (w : World) : World :=
  let (otkRows, table) := txn.run order w.table
  { w with table, claims := w.claims.set j ⟨todo, t.otkRows ++ otkRows⟩ }

/-- One step. A query is made from a mapping by user, device and algorithm: its entries are distinct. -/
def step (engine : DatabaseEngine) (sameKey : String → String → Bool) (w : World) : Action → Option World
  | .upload userId deviceId timeNow oneTimeKeys => some (w.upload userId deviceId timeNow oneTimeKeys)
  | .check i =>
    match w.uploads[i]? with
    | some ⟨userId, deviceId, timeNow, keyList, batch :: unread, existing⟩ =>
      some (w.check i ⟨userId, deviceId, timeNow, keyList, batch :: unread, existing⟩ batch unread)
    | _ => none
  | .insert i =>
    match w.uploads[i]? with
    | some ⟨userId, deviceId, timeNow, keyList, [], existing⟩ =>
      some (w.insert sameKey i ⟨userId, deviceId, timeNow, keyList, [], existing⟩)
    | _ => none
  | .claim localQuery =>
    if (localQuery.map Claim.slot).Nodup then
      some { w with claims := w.claims ++ [⟨transactions engine (localQuery.map cap), []⟩] }
    else none
  | .take order j =>
    match w.claims[j]? with
    | some ⟨txn :: todo, otkRows⟩ => some (w.take order j ⟨txn :: todo, otkRows⟩ txn todo)
    | _ => none

def run (engine : DatabaseEngine) (sameKey : String → String → Bool) (w : World) (actions : List Action) :
    Option World := actions.foldlM (step engine sameKey) w

/-- What all claims return together. -/
def returned (w : World) : List ((String × String × String) × OtkRow) :=
  w.claims.flatMap fun t => t.answer.items

/-- **What is asked of every state**: a row that was stored is returned at most once, and is in the table as long
as it is not returned. Nothing else is in the table or returned. -/
structure Safe (w : World) : Prop where
  once : (w.returned.map fun x => x.2.rowId).Nodup
  rowIds : (w.stored.map fun row => row.2.rowId).Nodup
  leaves : ∀ row ∈ w.stored, w.table.get? row.1 = some row.2 ↔ (row.1.name, row.2) ∉ w.returned
  known : ∀ key row, w.table.get? key = some row → (key, row) ∈ w.stored
  mine : ∀ x ∈ w.returned, ∃ row ∈ w.stored, x = (row.1.name, row.2)

end World

/-! ## §3 No row is lost, none is given twice -/

/-- What a claim has still to do is about other slots than the rows that it has. -/
structure ClaimTask.Inv (t : ClaimTask) : Prop where
  nodup : (t.otkRows.map Prod.fst).Nodup
  todo : ((t.todo.flatMap Transaction.claims).map Claim.slot).Nodup
  others : ∀ row ∈ t.otkRows, row.1.slot ∉ (t.todo.flatMap Transaction.claims).map Claim.slot

theorem ClaimTask.Inv.items_answer {t : ClaimTask} (h : t.Inv) :
    t.answer.items = t.otkRows.map fun row => (row.1.name, row.2) := items_addResults h.nodup

/-- A claim has taken some rows, and goes on. -/
theorem ClaimTask.Inv.take {txn : Transaction} {todo : List Transaction} {otkRows : List Otk}
    (h : ClaimTask.Inv ⟨txn :: todo, otkRows⟩) (order : TieBreak) (table : OtkTable) :
    ClaimTask.Inv ⟨todo, otkRows ++ (txn.run order table).1⟩ := by
  have htakes := txn.takes order table
  have htodo := h.todo
  simp only [flatMap_cons, map_append, List.nodup_append] at htodo
  refine ⟨?_, htodo.2.1, fun row hrow => ?_⟩
  · simp only [map_append]
    refine List.nodup_append.mpr ⟨h.nodup, htakes.nodup, fun a ha b hb heq => ?_⟩
    obtain ⟨row, hrow, rfl⟩ := List.mem_map.mp ha
    obtain ⟨row', hrow', rfl⟩ := List.mem_map.mp hb
    refine h.others row hrow ?_
    simp only [flatMap_cons, map_append]
    exact List.mem_append_left _ (heq ▸ htakes.asked row' hrow')
  · rcases List.mem_append.mp hrow with hrow | hrow
    · refine fun hin => h.others row hrow ?_
      simp only [flatMap_cons, map_append]
      exact List.mem_append_right _ hin
    · exact fun hin => htodo.2.2 _ (htakes.asked row hrow) _ hin rfl

namespace World

variable {w w' : World}

/-- **Conservation**: the rows that were stored are those in the table and those that claims have. -/
structure Inv (w : World) : Prop where
  conserved : (w.claims.flatMap ClaimTask.otkRows ++ w.table.items).Perm w.stored
  rowIds : w.stored.map (fun row => row.2.rowId) = List.range w.stored.length
  claims : ∀ t ∈ w.claims, t.Inv

theorem Inv.returned_eq (h : Inv w) :
    w.returned = (w.claims.flatMap ClaimTask.otkRows).map fun row => (row.1.name, row.2) := by
  rw [List.map_flatMap]
  exact List.flatMap_congr fun t ht => (h.claims t ht).items_answer

theorem Inv.nodup_rowIds (h : Inv w) : (w.stored.map fun row => row.2.rowId).Nodup := by
  rw [h.rowIds]
  exact List.nodup_range

theorem Inv.safe (h : Inv w) : Safe w := by
  have hnodup : ((w.claims.flatMap ClaimTask.otkRows ++ w.table.items).map fun row => row.2.rowId).Nodup :=
    ((h.conserved.map _).nodup_iff).mpr h.nodup_rowIds
  have hrows := List.nodup_append.mp (List.Nodup.of_map _ hnodup)
  have hmem : ∀ row, row ∈ w.stored ↔ row ∈ w.claims.flatMap ClaimTask.otkRows ∨ w.table.get? row.1 = some row.2 :=
    fun row => by rw [← h.conserved.mem_iff, List.mem_append, Dict.get?_eq_some_iff]
  have hname : ∀ row, (row.1.name, row.2) ∈ w.returned ↔ row ∈ w.claims.flatMap ClaimTask.otkRows := by
    intro row
    rw [h.returned_eq, List.mem_map]
    constructor
    · rintro ⟨row', hrow', heq⟩
      obtain ⟨hname, hvalue⟩ := Prod.mk.inj heq
      exact Prod.ext (OtkKey.name_injective hname) hvalue ▸ hrow'
    · exact fun hrow => ⟨row, hrow, rfl⟩
  refine ⟨?_, h.nodup_rowIds, fun row hrow => ?_, fun key row hget => ?_, fun x hx => ?_⟩
  · rw [h.returned_eq, map_map]
    rw [map_append] at hnodup
    exact (List.nodup_append.mp hnodup).1
  · rw [hname]
    constructor
    · intro hget hin
      exact hrows.2.2 row hin row (Dict.get?_eq_some_iff.mp hget) rfl
    · exact fun hnot => ((hmem row).mp hrow).resolve_left hnot
  · exact (hmem (key, row)).mpr (.inr hget)
  · rw [h.returned_eq, List.mem_map] at hx
    obtain ⟨row, hrow, rfl⟩ := hx
    exact ⟨row, (hmem row).mpr (.inl hrow), rfl⟩

theorem inv_new : Inv new := ⟨.refl _, rfl, fun _ ht => absurd ht List.not_mem_nil⟩

/-- Rows are inserted. -/
theorem Inv.addRows (h : Inv w) {rows : List Otk}
    (hids : rows.map (fun row => row.2.rowId) = List.range' w.stored.length rows.length) : Inv (w.addRows rows) := by
  unfold World.addRows
  split
  · rename_i hnodup
    refine ⟨?_, ?_, h.claims⟩
    · show (w.claims.flatMap ClaimTask.otkRows ++
        (rows.foldl (fun table row => table.set row.1 row.2) w.table).items).Perm (w.stored ++ rows)
      rw [Dict.items_foldl_set hnodup, ← append_assoc]
      exact h.conserved.append_right rows
    · show (w.stored ++ rows).map _ = List.range (w.stored ++ rows).length
      have happend := List.range'_append_1 (s := 0) (m := w.stored.length) (n := rows.length)
      rw [Nat.zero_add] at happend
      rw [map_append, h.rowIds, hids, List.length_append, List.range_eq_range', List.range_eq_range', happend]
  · exact h

theorem rowIds_newRows (u : Upload) (keys : List NewKey) (rowId : ℕ) :
    (newRows u keys rowId).map (fun row => row.2.rowId) = List.range' rowId (newRows u keys rowId).length := by
  unfold newRows
  rw [map_map, List.length_map, List.length_zipIdx]
  show keys.zipIdx.map ((fun n => rowId + n) ∘ Prod.snd) = _
  rw [← map_map, List.zipIdx_map_snd, List.map_add_range', Nat.add_zero]

/-- What a list has together, when an entry is replaced that has some more. -/
theorem perm_flatMap_set {α β : Type} {f : α → List β} {l : List α} {j : ℕ} {a b : α} {more : List β}
    (h : l[j]? = some a) (hmore : f b = f a ++ more) : ((l.set j b).flatMap f).Perm (l.flatMap f ++ more) := by
  induction l generalizing j with
  | nil => cases h
  | cons x l ih =>
    cases j with
    | zero =>
      obtain rfl : x = a := Option.some.inj h
      rw [List.set_cons_zero, flatMap_cons, flatMap_cons, hmore, append_assoc, append_assoc]
      exact List.perm_append_comm.append_left (f x)
    | succ j =>
      rw [List.set_cons_succ, flatMap_cons, flatMap_cons, append_assoc]
      exact (ih h).append_left (f x)

theorem Inv.take (h : Inv w) (order : TieBreak) {j : ℕ} {txn : Transaction} {todo : List Transaction}
    {otkRows : List Otk} (ht : w.claims[j]? = some ⟨txn :: todo, otkRows⟩) :
    Inv (w.take order j ⟨txn :: todo, otkRows⟩ txn todo) := by
  refine ⟨?_, h.rowIds, fun t hin => ?_⟩
  · have hset := perm_flatMap_set (f := ClaimTask.otkRows) (b := ⟨todo, otkRows ++ (txn.run order w.table).1⟩) ht rfl
    refine (hset.append_right _).trans ?_
    rw [append_assoc]
    exact ((txn.takes order w.table).items_perm.append_left _).trans h.conserved
  · rcases List.mem_or_eq_of_mem_set hin with hin | rfl
    · exact h.claims t hin
    · exact (h.claims _ (List.mem_of_getElem? ht)).take order w.table

theorem inv_step {engine : DatabaseEngine} {sameKey : String → String → Bool} {a : Action} (h : Inv w)
    (hstep : step engine sameKey w a = some w') : Inv w' := by
  cases a with
  | upload userId deviceId timeNow oneTimeKeys =>
    obtain rfl := Option.some.inj hstep
    unfold World.upload
    split
    · exact ⟨h.conserved, h.rowIds, h.claims⟩
    · exact h
  | check i =>
    simp only [step] at hstep
    split at hstep
    · obtain rfl := Option.some.inj hstep
      exact ⟨h.conserved, h.rowIds, h.claims⟩
    · cases hstep
  | insert i =>
    simp only [step] at hstep
    split at hstep
    · obtain rfl := Option.some.inj hstep
      unfold World.insert
      have hended : ∀ uploads, Inv { w with uploads } := fun _ => ⟨h.conserved, h.rowIds, h.claims⟩
      split
      · exact (hended _).addRows (rowIds_newRows _ _ _)
      · exact hended _
    · cases hstep
  | claim localQuery =>
    simp only [step] at hstep
    split at hstep
    · rename_i hdistinct
      obtain rfl := Option.some.inj hstep
      refine ⟨?_, h.rowIds, fun t hin => ?_⟩
      · simpa using h.conserved
      rcases List.mem_append.mp hin with hin | hin
      · exact h.claims t hin
      obtain rfl := List.mem_singleton.mp hin
      refine ⟨List.nodup_nil, ?_, fun row hrow => absurd hrow List.not_mem_nil⟩
      rw [claims_transactions, map_map]
      exact hdistinct
    · cases hstep
  | take order j =>
    simp only [step] at hstep
    split at hstep
    · rename_i ht
      obtain rfl := Option.some.inj hstep
      exact h.take order ht
    · cases hstep

theorem inv_run {engine : DatabaseEngine} {sameKey : String → String → Bool} {actions : List Action} (h : Inv w)
    (hrun : run engine sameKey w actions = some w') : Inv w' := by
  induction actions generalizing w with
  | nil =>
    obtain rfl := Option.some.inj hrun
    exact h
  | cons a actions ih =>
    obtain ⟨r, hr, hrest⟩ := Option.bind_eq_some_iff.mp hrun
    exact ih (inv_step h hr) hrest

end World

/-! ## §4 What claims are given -/

/-- What is missing is missing of its own slot. -/
theorem slot_of_shortfall {table : OtkTable} {c c' : Claim} (h : shortfall table c = some c') : c'.slot = c.slot := by
  unfold shortfall Claim.beyond at h
  split at h
  · obtain rfl := Option.some.inj h
    rfl
  · cases h

theorem map_slot_shortfall (table : OtkTable) (localQuery : List Claim) :
    ((localQuery.map cap).filterMap (shortfall table)).map Claim.slot =
      (localQuery.filter fun c => (shortfall table (cap c)).isSome).map Claim.slot := by
  induction localQuery with
  | nil => rfl
  | cons c rest ih =>
    rw [List.map_cons, List.filterMap_cons, List.filter_cons]
    split
    · rename_i hnone
      rw [ih, if_neg (by simp [hnone])]
    rename_i c' hsome
    rw [List.map_cons, ih, slot_of_shortfall hsome, if_pos (by simp [hsome])]
    rfl

/-- Without application services, fallback keys are marked for what was not found. -/
theorem marks_claimLocalOneTimeKeys (engine : DatabaseEngine) (order : TieBreak) {localQuery : List Claim}
    (hdistinct : (localQuery.map Claim.slot).Nodup) (hcount : ∀ c ∈ localQuery, 0 < c.count) (table : OtkTable)
    (fallbacks : FallbackTable) :
    Marks fallbacks ((localQuery.filter fun c => (shortfall table (cap c)).isSome).map Claim.slot)
      ((claimLocalOneTimeKeys engine order none localQuery false table fallbacks).1.fallbackResults,
        (claimLocalOneTimeKeys engine order none localQuery false table fallbacks).2.2) := by
  have hcapped : ((localQuery.map cap).map Claim.slot).Nodup := by
    rw [map_map]
    exact hdistinct
  have hpositive : ∀ c ∈ localQuery.map cap, 0 < c.count := by
    intro c hc
    obtain ⟨c', hc', rfl⟩ := List.mem_map.mp hc
    have hpos := hcount c' hc'
    show 0 < min c'.count 5
    omega
  have hserves := serves_claimE2eOneTimeKeys engine order hcapped hpositive table
  have hslots : ((claimE2eOneTimeKeys engine order (localQuery.map cap) table).1.2.map fun c =>
      FallbackClaim.mk c.userId c.deviceId c.algorithm true).map FallbackClaim.slot =
      (localQuery.filter fun c => (shortfall table (cap c)).isSome).map Claim.slot := by
    rw [hserves.missing, map_map]
    exact map_slot_shortfall table localQuery
  rw [← hslots]
  exact marks_claimE2eFallbackKeys engine (fun c hc => by obtain ⟨c', -, rfl⟩ := List.mem_map.mp hc; rfl) fallbacks

/-- **One-time keys are handed out once.** In every run of uploads and claims a row that was stored is returned
at most once and leaves the table when it is; every claim is served the oldest keys and told what is missing, by
both engines, which agree up to ties; and fallback keys make up for exactly what is missing. -/
theorem handed_out_once : (∀ engine sameKey actions w, World.run engine sameKey .new actions = some w → w.Safe) ∧
    (∀ (order order' : TieBreak) (queryList : List Claim), (queryList.map Claim.slot).Nodup →
      (∀ c ∈ queryList, 0 < c.count) → ∀ table, ∃ taken taken',
        Serves table queryList taken (claimE2eOneTimeKeys .postgres order queryList table) ∧
        Serves table queryList taken' (claimE2eOneTimeKeys .sqlite order' queryList table) ∧
        AgreeUpToTies table queryList taken taken') ∧
    (∀ engine (order : TieBreak) (localQuery : List Claim), (localQuery.map Claim.slot).Nodup →
      (∀ c ∈ localQuery, 0 < c.count) → ∀ table fallbacks,
        Marks fallbacks ((localQuery.filter fun c => (shortfall table (cap c)).isSome).map Claim.slot)
          ((claimLocalOneTimeKeys engine order none localQuery false table fallbacks).1.fallbackResults,
            (claimLocalOneTimeKeys engine order none localQuery false table fallbacks).2.2)) := by
  refine ⟨fun engine sameKey actions w hrun => (World.inv_run World.inv_new hrun).safe, ?_, ?_⟩
  · intro order order' queryList hdistinct hcount table
    have hbulk := serves_claimE2eOneTimeKeys .postgres order hdistinct hcount table
    have hloop := serves_claimE2eOneTimeKeys .sqlite order' hdistinct hcount table
    exact ⟨_, _, hbulk, hloop, hbulk.agree hloop⟩
  · intro engine order localQuery hdistinct hcount table fallbacks
    exact marks_claimLocalOneTimeKeys engine order hdistinct hcount table fallbacks

/-- Two keys of a device are uploaded, and two claims of one key each take turns. -/
def exampleRun : List Action :=
  [.upload "@a:x" "D" 5 [("curve:1", "k1"), ("curve:2", "k2")], .claim [⟨"@a:x", "D", "curve", 1⟩], .check 0,
    .insert 0, .claim [⟨"@a:x", "D", "curve", 1⟩], .take .stable 1, .take .stable 0]

/-- Three keys are asked for where there are two, and of another device one where there is none. -/
def exampleQuery : List Claim := [⟨"@a:x", "D", "curve", 3⟩, ⟨"@a:x", "E", "curve", 1⟩]

def exampleTable : OtkTable :=
  (Dict.empty.set ⟨"@a:x", "D", ⟨"curve", by decide⟩, "1"⟩ ⟨5, "k1", 0⟩).set
    ⟨"@a:x", "D", ⟨"curve", by decide⟩, "2"⟩ ⟨4, "k2", 1⟩

def exampleFallbacks : FallbackTable := Dict.empty.set ⟨"@a:x", "E", ⟨"curve", by decide⟩⟩ ⟨"f", "kf", false⟩

theorem handed_out_once_example :
    (∃ w, World.run .postgres (fun a b => a = b) .new exampleRun = some w ∧ w.Safe ∧ w.returned.length = 2) ∧
    (∃ taken taken', Serves exampleTable exampleQuery taken
        (claimE2eOneTimeKeys .postgres .stable exampleQuery exampleTable) ∧
      Serves exampleTable exampleQuery taken' (claimE2eOneTimeKeys .sqlite .stable exampleQuery exampleTable) ∧
      AgreeUpToTies exampleTable exampleQuery taken taken') ∧
    Marks exampleFallbacks ((exampleQuery.filter fun c => (shortfall exampleTable (cap c)).isSome).map Claim.slot)
      ((claimLocalOneTimeKeys .sqlite .stable none exampleQuery false exampleTable
          exampleFallbacks).1.fallbackResults,
        (claimLocalOneTimeKeys .sqlite .stable none exampleQuery false exampleTable exampleFallbacks).2.2) := by
  have hrun : (World.run .postgres (fun a b => a = b) .new exampleRun).any
      (fun w => w.returned.length = 2) = true := by decide +kernel
  obtain ⟨w, hw, hlength⟩ := (Option.any_eq_true _ _).mp hrun
  have hdistinct : (exampleQuery.map Claim.slot).Nodup := by decide
  have hcount : ∀ c ∈ exampleQuery, 0 < c.count := by decide
  exact ⟨⟨w, hw, handed_out_once.1 .postgres _ exampleRun w hw, of_decide_eq_true hlength⟩,
    handed_out_once.2.1 .stable .stable exampleQuery hdistinct hcount exampleTable,
    handed_out_once.2.2 .sqlite .stable exampleQuery hdistinct hcount exampleTable exampleFallbacks⟩

end Setka.Handlers.E2eKeys
