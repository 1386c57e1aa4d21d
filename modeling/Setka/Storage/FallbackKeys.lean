/-
# Setka.Storage.FallbackKeys — fallback keys, which stay when they are used.

A device has one fallback key for an algorithm. It is claimed when there are not enough one-time keys, and
marked as used rather than deleted. The query for PostgreSQL and the loop for SQLite give the same answers and
leave the same marks.
-/
import Setka.Lib.Rows
import Setka.Storage.EndToEndKeys

namespace Setka.Storage.EndToEndKeys

open Setka.Lib Dict

/-! ## §1 The table and the two ways to claim from it -/

/-- What makes a row of `e2e_fallback_keys_json` unique. -/
structure FallbackKey where
  userId : String
  deviceId : String
  algorithm : Algorithm
  deriving DecidableEq

def FallbackKey.slot (k : FallbackKey) : Slot := (k.userId, k.deviceId, k.algorithm.1)

structure FallbackRow where
  keyId : String
  keyJson : String
  used : Bool
  deriving DecidableEq

abbrev FallbackTable := Dict FallbackKey FallbackRow

/-- An entry of a query for fallback keys. -/
structure FallbackClaim where
  userId : String
  deviceId : String
  algorithm : String
  markAsUsed : Bool
  deriving DecidableEq

def FallbackClaim.slot (c : FallbackClaim) : Slot := (c.userId, c.deviceId, c.algorithm)

/-- Fallback keys by user, device and name. -/
abbrev FallbackResults := Dict (String × String × String) String

/-- Where a row stands in an answer, and its key. -/
def answerOf (row : FallbackKey × FallbackRow) : (String × String × String) × String :=
  ((row.1.userId, row.1.deviceId, keyName row.1.algorithm.1 row.2.keyId), row.2.keyJson)

def addAnswers (results : FallbackResults) (rows : List (FallbackKey × FallbackRow)) : FallbackResults :=
  rows.foldl (fun results row => results.set (answerOf row).1 (answerOf row).2) results

/-- The query of `_claim_e2e_fallback_keys_bulk_txn`: the rows, and the table with those marked that are to be.
Of several claims for one row PostgreSQL takes one. -/
def markPage (claims : List FallbackClaim) (fallbacks : FallbackTable) :
    List (FallbackKey × FallbackRow) × FallbackTable :=
  (fallbacks.items.filter fun row => claims.any fun c => c.slot = row.1.slot,
    fallbacks.updateWhere (fun key _ => (claims.find? fun c => c.slot = key.slot).any FallbackClaim.markAsUsed)
      fun row => { row with used := true })

/-- `_claim_e2e_fallback_keys_bulk_txn`, a hundred values with each query. -/
def claimE2eFallbackKeysBulk (queryList : List FallbackClaim) (fallbacks : FallbackTable) :
    FallbackResults × FallbackTable :=
  (queryList.toChunks 100).foldl (fun (results, fallbacks) page =>
    let (rows, fallbacks) := markPage page fallbacks
    (addAnswers results rows, fallbacks)) (.empty, fallbacks)

/-- The loop of `_claim_e2e_fallback_keys_simple`. -/
def claimFallback (found : FallbackResults × FallbackTable) (c : FallbackClaim) : FallbackResults × FallbackTable :=
  match found.2.items.find? fun row => row.1.slot = c.slot with
  | none => found
  | some (key, row) =>
    (addAnswers found.1 [(key, row)],
      if !row.used && c.markAsUsed then found.2.set key { row with used := true } else found.2)

def claimE2eFallbackKeysSimple (queryList : List FallbackClaim) (fallbacks : FallbackTable) :
    FallbackResults × FallbackTable :=
  queryList.foldl claimFallback (.empty, fallbacks)

/-- `claim_e2e_fallback_keys`. -/
def claimE2eFallbackKeys (engine : DatabaseEngine) (queryList : List FallbackClaim)
    (fallbacks : FallbackTable) : FallbackResults × FallbackTable :=
  match engine with
  | .postgres => claimE2eFallbackKeysBulk queryList fallbacks
  | .sqlite => claimE2eFallbackKeysSimple queryList fallbacks

/-! ## §2 What is answered and marked -/

/-- **Fallback keys taken**: those of some slots are in the answer, and marked as used. -/
structure Marks (fallbacks : FallbackTable) (slots : List Slot) (found : FallbackResults × FallbackTable) :
    Prop where
  answered : ∀ name json, found.1.get? name = some json ↔
    ∃ row ∈ fallbacks.items, row.1.slot ∈ slots ∧ answerOf row = (name, json)
  marked : ∀ key, found.2.get? key =
    (fallbacks.get? key).map fun row => if key.slot ∈ slots then { row with used := true } else row

theorem FallbackKey.eq_of_slot {k k' : FallbackKey} (h : k.slot = k'.slot) : k = k' := by
  cases k with
  | mk userId deviceId algorithm =>
    cases k' with
    | mk userId' deviceId' algorithm' =>
      obtain ⟨rfl, hrest⟩ := Prod.mk.inj h
      obtain ⟨rfl, halgorithm⟩ := Prod.mk.inj hrest
      obtain rfl : algorithm = algorithm' := Subtype.ext halgorithm
      rfl

/-- The name of a fallback key tells whose it is. -/
theorem eq_of_answerOf {a b : FallbackKey × FallbackRow} (h : (answerOf a).1 = (answerOf b).1) : a.1 = b.1 := by
  obtain ⟨huser, hrest⟩ := Prod.mk.inj h
  obtain ⟨hdevice, hname⟩ := Prod.mk.inj hrest
  have hkey : (⟨a.1.userId, a.1.deviceId, a.1.algorithm, a.2.keyId⟩ : OtkKey) =
      ⟨b.1.userId, b.1.deviceId, b.1.algorithm, b.2.keyId⟩ :=
    OtkKey.name_injective (by simp only [OtkKey.name, huser, hdevice, hname])
  obtain ⟨-, -, halgorithm, -⟩ := OtkKey.mk.inj hkey
  refine FallbackKey.eq_of_slot ?_
  rw [FallbackKey.slot, FallbackKey.slot, huser, hdevice, halgorithm]

/-- Answers are added to others. Those under one name are the same, so none is lost. -/
theorem get?_addAnswers {R : String × String × String → String → Prop}
    (hfun : ∀ name json json', R name json → R name json' → json = json')
    {rows : List (FallbackKey × FallbackRow)} (hrows : ∀ row ∈ rows, R (answerOf row).1 (answerOf row).2)
    {results : FallbackResults} (hresults : ∀ name json, results.get? name = some json → R name json)
    (name : String × String × String) (json : String) :
    (addAnswers results rows).get? name = some json ↔
      results.get? name = some json ∨ ∃ row ∈ rows, answerOf row = (name, json) := by
  induction rows generalizing results with
  | nil => simp [addAnswers]
  | cons row rows ih =>
    have hrow := hrows row List.mem_cons_self
    have hnext : ∀ name json, (results.set (answerOf row).1 (answerOf row).2).get? name = some json →
        R name json := by
      intro name json hget
      rcases of_get?_set hget with ⟨heq, rfl⟩ | ⟨-, hget⟩
      · exact heq ▸ hrow
      · exact hresults name json hget
    have hset : (results.set (answerOf row).1 (answerOf row).2).get? name = some json ↔
        results.get? name = some json ∨ answerOf row = (name, json) := by
      rw [get?_set]
      by_cases heq : name = (answerOf row).1
      · subst heq
        rw [if_pos rfl, Option.some.injEq]
        constructor
        · rintro rfl
          exact .inr rfl
        rintro (hget | hanswer)
        · exact hfun _ _ _ hrow (hresults _ _ hget)
        · rw [hanswer]
      · rw [if_neg heq]
        refine ⟨.inl, fun h => h.resolve_right fun hanswer => heq ?_⟩
        rw [hanswer]
    have hrest := ih (fun r hr => hrows r (List.mem_cons_of_mem row hr)) hnext
    rw [show addAnswers results (row :: rows) =
      addAnswers (results.set (answerOf row).1 (answerOf row).2) rows from rfl, hrest, hset, or_assoc]
    simp only [List.mem_cons, exists_eq_or_imp]

/-- Marking a row leaves its answer as it is. -/
theorem Marks.mem_items {fallbacks : FallbackTable} {slots : List Slot} {found : FallbackResults × FallbackTable}
    (h : Marks fallbacks slots found) (key : FallbackKey) (answer : (String × String × String) × String) :
    (∃ row, (key, row) ∈ found.2.items ∧ answerOf (key, row) = answer) ↔
      ∃ row, (key, row) ∈ fallbacks.items ∧ answerOf (key, row) = answer := by
  simp only [← get?_eq_some_iff, h.marked key, Option.map_eq_some_iff]
  constructor
  · rintro ⟨row, ⟨row', hrow', rfl⟩, hanswer⟩
    refine ⟨row', hrow', hanswer ▸ ?_⟩
    split <;> rfl
  rintro ⟨row, hrow, hanswer⟩
  refine ⟨_, ⟨row, hrow, rfl⟩, hanswer ▸ ?_⟩
  split <;> rfl

/-- The fallback keys of more slots are taken. -/
theorem Marks.append {fallbacks fallbacks' : FallbackTable} {done slots : List Slot}
    {found : FallbackResults × FallbackTable} (h : Marks fallbacks done found)
    {rows : List (FallbackKey × FallbackRow)}
    (hrows : ∀ row, row ∈ rows ↔ row ∈ found.2.items ∧ row.1.slot ∈ slots)
    (hmarked : ∀ key, fallbacks'.get? key =
      (found.2.get? key).map fun row => if key.slot ∈ slots then { row with used := true } else row) :
    Marks fallbacks (done ++ slots) (addAnswers found.1 rows, fallbacks') := by
  have horiginal : ∀ answer, (∃ row ∈ rows, answerOf row = answer) ↔
      ∃ row ∈ fallbacks.items, row.1.slot ∈ slots ∧ answerOf row = answer := by
    intro answer
    constructor
    · rintro ⟨⟨key, row⟩, hrow, hanswer⟩
      obtain ⟨hmem, hslot⟩ := (hrows _).mp hrow
      obtain ⟨row', hmem', hanswer'⟩ := (h.mem_items key answer).mp ⟨row, hmem, hanswer⟩
      exact ⟨(key, row'), hmem', hslot, hanswer'⟩
    · rintro ⟨⟨key, row⟩, hmem, hslot, hanswer⟩
      obtain ⟨row', hmem', hanswer'⟩ := (h.mem_items key answer).mpr ⟨row, hmem, hanswer⟩
      exact ⟨(key, row'), (hrows _).mpr ⟨hmem', hslot⟩, hanswer'⟩
  refine ⟨fun name json => ?_, fun key => ?_⟩
  · have hadd := @get?_addAnswers (fun name json => ∃ row ∈ fallbacks.items, answerOf row = (name, json))
      ?_ rows ?_ found.1 ?_ name json
    · rw [hadd, h.answered, horiginal]
      simp only [List.mem_append]
      constructor
      · rintro (⟨row, hrow, hslot, hanswer⟩ | ⟨row, hrow, hslot, hanswer⟩)
        · exact ⟨row, hrow, .inl hslot, hanswer⟩
        · exact ⟨row, hrow, .inr hslot, hanswer⟩
      rintro ⟨row, hrow, hslot | hslot, hanswer⟩
      · exact .inl ⟨row, hrow, hslot, hanswer⟩
      · exact .inr ⟨row, hrow, hslot, hanswer⟩
    · rintro name json json' ⟨a, ha, hanswer⟩ ⟨b, hb, hanswer'⟩
      have hkey : a.1 = b.1 := eq_of_answerOf (by rw [hanswer, hanswer'])
      obtain rfl : a = b := List.inj_on_of_nodup_map fallbacks.nodup ha hb hkey
      exact (Prod.mk.inj (hanswer.symm.trans hanswer')).2
    · intro row hrow
      obtain ⟨row', hmem, -, hanswer⟩ := (horiginal _).mp ⟨row, hrow, rfl⟩
      exact ⟨row', hmem, hanswer⟩
    · intro name json hget
      obtain ⟨row, hmem, -, hanswer⟩ := (h.answered name json).mp hget
      exact ⟨row, hmem, hanswer⟩
  · rw [hmarked, h.marked, Option.map_map]
    congr 1
    funext row
    by_cases hdone : key.slot ∈ done <;> by_cases hslot : key.slot ∈ slots <;> simp [hdone, hslot]

theorem Marks.start (fallbacks : FallbackTable) : Marks fallbacks [] (.empty, fallbacks) where
  answered := fun name json => by simp
  marked := fun key => by simp

section AllMarked

variable {fallbacks : FallbackTable} {done : List Slot} {found : FallbackResults × FallbackTable}

theorem Marks.markPage (h : Marks fallbacks done found) {page : List FallbackClaim}
    (hmark : ∀ c ∈ page, c.markAsUsed = true) :
    Marks fallbacks (done ++ page.map FallbackClaim.slot)
      (addAnswers found.1 (markPage page found.2).1, (markPage page found.2).2) := by
  refine h.append (fun row => ?_) fun key => ?_
  · unfold EndToEndKeys.markPage
    simp only [List.mem_filter, List.any_eq_true, decide_eq_true_eq, List.mem_map]
  have hfound : (page.find? fun c => c.slot = key.slot).any FallbackClaim.markAsUsed = true ↔
      key.slot ∈ page.map FallbackClaim.slot := by
    rw [Option.any_eq_true, List.mem_map]
    constructor
    · rintro ⟨c, hc, -⟩
      exact ⟨c, List.mem_of_find?_eq_some hc, by simpa using List.find?_some hc⟩
    rintro ⟨c, hc, hslot⟩
    obtain ⟨c', hc'⟩ := Option.isSome_iff_exists.mp
      ((List.find?_isSome (p := fun c => c.slot = key.slot)).mpr ⟨c, hc, decide_eq_true hslot⟩)
    exact ⟨c', hc', hmark c' (List.mem_of_find?_eq_some hc')⟩
  unfold EndToEndKeys.markPage
  rw [get?_updateWhere]
  simp only [hfound]

/-- One turn of the loop is about the only row that there may be of its slot. -/
theorem Marks.claimFallback (h : Marks fallbacks done found) {c : FallbackClaim} (hmark : c.markAsUsed = true) :
    Marks fallbacks (done ++ [c.slot]) (claimFallback found c) := by
  unfold EndToEndKeys.claimFallback
  split
  · rename_i hnone
    have hno : ∀ row ∈ found.2.items, row.1.slot ≠ c.slot := by
      simpa using hnone
    refine @Marks.append _ _ _ _ _ h [] (fun row => ?_) fun key => ?_
    · refine ⟨fun hin => absurd hin List.not_mem_nil, fun ⟨hrow, hslot⟩ => ?_⟩
      exact absurd (List.mem_singleton.mp hslot) (hno row hrow)
    cases hget : found.2.get? key with
    | none => rfl
    | some row =>
      have hslot := hno (key, row) (get?_eq_some_iff.mp hget)
      rw [Option.map_some, if_neg (fun hin => hslot (List.mem_singleton.mp hin))]
  · rename_i key row hsome
    have hmem := List.mem_of_find?_eq_some hsome
    have hslot : key.slot = c.slot := by simpa using List.find?_some hsome
    have hget := get?_eq_some_iff.mpr hmem
    have hkey : ∀ key' : FallbackKey, key'.slot ∈ [c.slot] ↔ key' = key := fun key' => by
      rw [List.mem_singleton, ← hslot]
      exact ⟨FallbackKey.eq_of_slot, fun heq => heq ▸ rfl⟩
    refine h.append (fun row' => ?_) fun key' => ?_
    · rw [List.mem_singleton, hkey]
      constructor
      · rintro rfl
        exact ⟨hmem, rfl⟩
      rintro ⟨hrow', rfl⟩
      have hvalue := (get?_eq_some_iff.mpr hrow').symm.trans hget
      exact Prod.ext rfl (Option.some.inj hvalue)
    simp only [hkey, hmark, Bool.and_true]
    by_cases heq : key' = key
    · subst heq
      rw [hget]
      cases hused : row.used with
      | false => simp
      | true => simp [hget, ← hused]
    · split <;> simp [heq]

end AllMarked

/-- Where all claims are to mark what they take, both engines take the same. -/
theorem marks_claimE2eFallbackKeys (engine : DatabaseEngine) {queryList : List FallbackClaim}
    (hmark : ∀ c ∈ queryList, c.markAsUsed = true) (fallbacks : FallbackTable) :
    Marks fallbacks (queryList.map FallbackClaim.slot) (claimE2eFallbackKeys engine queryList fallbacks) := by
  cases engine with
  | postgres =>
    have hpages : ∀ (pages : List (List FallbackClaim)) (done : List Slot)
        (found : FallbackResults × FallbackTable), (∀ c ∈ pages.flatten, c.markAsUsed = true) →
        Marks fallbacks done found → Marks fallbacks (done ++ pages.flatten.map FallbackClaim.slot)
          (pages.foldl (fun found page =>
            (addAnswers found.1 (markPage page found.2).1, (markPage page found.2).2)) found) := by
      intro pages
      induction pages with
      | nil =>
        intro done found _ h
        simpa using h
      | cons page pages ih =>
        intro done found hmark h
        rw [List.flatten_cons, List.map_append, ← List.append_assoc]
        exact ih _ _ (fun c hc => hmark c (List.mem_append_right page hc))
          (h.markPage fun c hc => hmark c (List.mem_append_left _ hc))
    have hall := hpages (queryList.toChunks 100) [] (.empty, fallbacks)
      (by rw [flatten_toChunks]; exact hmark) (Marks.start fallbacks)
    rw [flatten_toChunks] at hall
    exact hall
  | sqlite =>
    have hclaims : ∀ (claims : List FallbackClaim) (done : List Slot)
        (found : FallbackResults × FallbackTable), (∀ c ∈ claims, c.markAsUsed = true) →
        Marks fallbacks done found → Marks fallbacks (done ++ claims.map FallbackClaim.slot)
          (claims.foldl claimFallback found) := by
      intro claims
      induction claims with
      | nil =>
        intro done found _ h
        simpa using h
      | cons c claims ih =>
        intro done found hmark h
        rw [List.map_cons, ← List.singleton_append, ← List.append_assoc]
        exact ih _ _ (fun c' hc' => hmark c' (List.mem_cons_of_mem c hc'))
          (h.claimFallback (hmark c List.mem_cons_self))
    exact hclaims queryList [] (.empty, fallbacks) hmark (Marks.start fallbacks)

end Setka.Storage.EndToEndKeys
