/-
# Setka.Types.StateFilterSql — the ways in which a filter is read.

A filter is asked about a key, runs over a state in memory, is written as a condition for the database, and is split
into one for the cache of members and one for the other cache. All four say the same.
-/
import Setka.Lib.SqlClause
import Setka.Types.StateFilter

namespace Setka.Types.StateFilter

open Setka.Events Setka.Lib Dict

/-! ## §1 The readings -/

/-- `__contains__`, of a pair of strings. -/
def contains (f : StateFilter) (key : String × String) : Bool :=
  match f.types.get? key.1 with
  | some stateKeys => stateKeys.isNone || stateKeys.any fun names => key.2 ∈ names
  | .none => f.includeOthers

/-- What one type adds to the clauses and to the arguments of `make_sql_filter_clause`. -/
def clausesOf (order : IterOrder String) (item : String × Option (Finset String)) : List (String × List String) :=
  match item.2 with
  | .none => [("(type = ?)", [item.1])]
  | some stateKeys => (order.list stateKeys).map fun stateKey => ("(type = ? AND state_key = ?)", [item.1, stateKey])

/-- `make_sql_filter_clause`. -/
def makeSqlFilterClause (order : IterOrder String) (f : StateFilter) : String × List String :=
  if f.isFull then ("", [])
  else if !f.includeOthers && f.types.items.isEmpty then ("1 = 2", [])
  else
    let clauses := f.types.items.flatMap (clausesOf order)
    let whereClause := PyStr.join " OR " (clauses.map Prod.fst)
    let whereArgs := clauses.flatMap Prod.snd
    if f.includeOthers then
      let whereClause := if whereClause = "" then whereClause else whereClause ++ " OR "
      (whereClause ++ ("type NOT IN (" ++ PyStr.join "," (List.replicate f.types.items.length "?") ++ ")"),
        whereArgs ++ f.types.keys)
    else (whereClause, whereArgs)

/-- The columns of a row of `state_groups_state` and of `current_state_events` that a clause is about. -/
def columns (key : String × String) (column : String) : Option String :=
  if column = "type" then some key.1 else if column = "state_key" then some key.2 else .none

/-- Whether a clause with its arguments selects a key. The empty clause selects all. -/
def selectsKey (clause : String × List String) (key : String × String) : Option Bool :=
  if clause.1 = "" then some true else SqlClause.selects clause.1 clause.2 (columns key)

/-- `max_entries_returned`. -/
def maxEntriesReturned (order : IterOrder String) (f : StateFilter) : Option ℕ :=
  if f.hasWildcards then .none else some (f.concreteTypes order).length

/-! ## §2 What the clauses say -/

theorem says_type (key : String × String) (type : String) :
    SqlClause.Says (columns key) "(type = ?)" [type] (decide (key.1 = type)) := by
  have htokens : SqlClause.tokens "(type = ?)" = [.opening, .name "type", .equals, .placeholder, .closing] := by
    decide +kernel
  refine ⟨.equal (.column "type") .placeholder, fun fuel rest => ?_, fun rest => ?_⟩
  · rw [htokens]
    rfl
  · show some (decide (SqlClause.Value.text key.1 = SqlClause.Value.text type), rest) = _
    simp only [SqlClause.Value.text.injEq]

theorem says_typeAndStateKey (key : String × String) (type stateKey : String) :
    SqlClause.Says (columns key) "(type = ? AND state_key = ?)" [type, stateKey]
      (decide (key.1 = type) && decide (key.2 = stateKey)) := by
  have htokens : SqlClause.tokens "(type = ? AND state_key = ?)" =
      [.opening, .name "type", .equals, .placeholder, .and, .name "state_key", .equals, .placeholder, .closing] := by
    decide +kernel
  refine ⟨.both (.equal (.column "type") .placeholder) (.equal (.column "state_key") .placeholder),
    fun fuel rest => ?_, fun rest => ?_⟩
  · rw [htokens]
    rfl
  show some (decide (SqlClause.Value.text key.1 = SqlClause.Value.text type) &&
    decide (SqlClause.Value.text key.2 = SqlClause.Value.text stateKey), rest) = _
  simp only [SqlClause.Value.text.injEq]

theorem says_notIn (key : String × String) {types : List String} (hne : types ≠ []) :
    SqlClause.Says (columns key) ("type NOT IN (" ++ PyStr.join "," (List.replicate types.length "?") ++ ")") types
      (decide (key.1 ∉ types)) := by
  have htokens : ∀ s, SqlClause.tokens ("type NOT IN (" ++ s) =
      .name "type" :: .not :: .among :: .opening :: SqlClause.tokens s := by
    intro s
    have hchars : ("type NOT IN (" ++ s).toList = "type NOT IN".toList ++ ' ' :: '(' :: s.toList := by simp
    have hwords : SqlClause.tokensFrom [] "type NOT IN".toList = [.name "type", .not, .among] := by decide +kernel
    rw [SqlClause.tokens, hchars, SqlClause.tokensFrom_blank, hwords]
    rfl
  obtain ⟨n, hn⟩ : ∃ n, types.length = n + 1 := Nat.exists_eq_succ_of_ne_zero (by simpa using hne)
  refine ⟨.notIn (.column "type") (List.replicate types.length .placeholder), fun fuel rest => ?_, fun rest => ?_⟩
  · rw [String.append_assoc, htokens]
    show SqlClause.readOne (fuel + 4 + 1) (.name "type" :: .not :: .among :: .opening :: (SqlClause.tokens _ ++ rest)) = _
    rw [SqlClause.readOne_notIn, hn, SqlClause.tokens_placeholders]
    rfl
  · rw [SqlClause.Condition.holds, SqlClause.Operand.value, columns, if_pos rfl, Option.map_some, Option.bind_some]
    dsimp only
    rw [SqlClause.values_placeholders]
    simp

variable {order : IterOrder String}

/-- What the clauses of one type say, and of which keys one of them holds. -/
theorem says_clausesOf (key : String × String) {item : String × Option (Finset String)}
    {p : String × List String} (hp : p ∈ clausesOf order item) :
    p.1 ≠ "" ∧ ∃ b, SqlClause.Says (columns key) p.1 p.2 b := by
  have htype : "(type = ?)" ≠ "" := by decide +kernel
  have hboth : "(type = ? AND state_key = ?)" ≠ "" := by decide +kernel
  rw [clausesOf] at hp
  split at hp
  · rw [List.mem_singleton] at hp
    subst hp
    exact ⟨htype, _, says_type key item.1⟩
  · obtain ⟨stateKey, -, rfl⟩ := List.mem_map.mp hp
    exact ⟨hboth, _, says_typeAndStateKey key item.1 stateKey⟩

theorem exists_says_clausesOf {order : IterOrder String} {key : String × String}
    {item : String × Option (Finset String)} :
    (∃ p ∈ clausesOf order item, SqlClause.Says (columns key) p.1 p.2 true) ↔
      key.1 = item.1 ∧ ∀ keys, item.2 = some keys → key.2 ∈ keys := by
  obtain ⟨type, stateKeys⟩ := item
  cases stateKeys with
  | none =>
    have hsaid : SqlClause.Says (columns key) "(type = ?)" [type] true ↔ key.1 = type :=
      ⟨fun h => of_decide_eq_true ((says_type key type).unique h), fun h => by simpa [h] using says_type key type⟩
    simp [clausesOf, hsaid]
  | some names =>
    have hsaid : ∀ stateKey, SqlClause.Says (columns key) "(type = ? AND state_key = ?)" [type, stateKey] true ↔
        key.1 = type ∧ key.2 = stateKey := by
      intro stateKey
      have hkey := says_typeAndStateKey key type stateKey
      constructor
      · intro h
        simpa using hkey.unique h
      · rintro ⟨htype, hstateKey⟩
        simpa [htype, hstateKey] using hkey
    simp [clausesOf, hsaid, and_comm]

/-- Of which keys a clause of `types` holds. -/
theorem exists_says_types {order : IterOrder String} {f : StateFilter} {key : String × String} :
    (∃ p ∈ f.types.items.flatMap (clausesOf order), SqlClause.Says (columns key) p.1 p.2 true) ↔
      ∃ stateKeys, f.types.get? key.1 = some stateKeys ∧ ∀ keys, stateKeys = some keys → key.2 ∈ keys := by
  constructor
  · rintro ⟨p, hp, hsaid⟩
    obtain ⟨item, hitem, hp⟩ := List.mem_flatMap.mp hp
    obtain ⟨htype, hkeys⟩ := exists_says_clausesOf.mp ⟨p, hp, hsaid⟩
    exact ⟨item.2, get?_eq_some_iff.mpr (htype ▸ hitem), hkeys⟩
  · rintro ⟨stateKeys, hget, hkeys⟩
    obtain ⟨p, hp, hsaid⟩ := (@exists_says_clausesOf order key (key.1, stateKeys)).mpr ⟨rfl, hkeys⟩
    exact ⟨p, List.mem_flatMap.mpr ⟨_, get?_eq_some_iff.mp hget, hp⟩, hsaid⟩

/-- Of which keys a filter holds that names types or includes others. -/
theorem admits_iff_types (f : StateFilter) (key : String × String) : f.admits key = true ↔
      (∃ stateKeys, f.types.get? key.1 = some stateKeys ∧ ∀ keys, stateKeys = some keys → key.2 ∈ keys) ∨
        f.includeOthers = true ∧ key.1 ∉ f.types.keys := by
  rw [admits, admitsKey, ← get?_eq_none_iff]
  cases f.types.get? key.1 with
  | none => simp
  | some stateKeys =>
    cases stateKeys with
    | none => simp
    | some keys => simp

theorem join_ne_empty {p : String × List String} {parts : List (String × List String)} (h : p.1 ≠ "") :
    PyStr.join " OR " ((p :: parts).map Prod.fst) ≠ "" := by
  cases parts with
  | nil => simpa [PyStr.join] using h
  | cons q parts =>
    rw [List.map_cons, List.map_cons, PyStr.join, String.intercalate_cons_cons]
    intro hempty
    have hchars := congrArg String.toList hempty
    simp at hchars

/-- A type that is named has a clause, since an empty set of keys is not kept without `include_others`. -/
theorem flatMap_clausesOf_ne_nil {f : StateFilter} (hothers : f.includeOthers = false)
    (hitems : f.types.items ≠ []) : f.types.items.flatMap (clausesOf order) ≠ [] := by
  obtain ⟨item, hitem⟩ := List.exists_mem_of_ne_nil _ hitems
  have hget := get?_eq_some_iff.mpr hitem
  have hcanonical := f.canonical _ _ hget
  rw [Canonical, hothers, if_neg Bool.false_ne_true] at hcanonical
  obtain ⟨stateKey, hstateKey⟩ : ∃ stateKey, ∀ keys, item.2 = some keys → stateKey ∈ keys := by
    cases hkeys : item.2 with
    | none => exact ⟨"", by rintro keys ⟨⟩⟩
    | some keys =>
      rw [hkeys, ne_eq, Option.some.injEq] at hcanonical
      obtain ⟨stateKey, hmem⟩ := Finset.nonempty_iff_ne_empty.mpr hcanonical
      refine ⟨stateKey, ?_⟩
      rintro keys' ⟨⟩
      exact hmem
  obtain ⟨p, hp, -⟩ := (@exists_says_types order f (item.1, stateKey)).mpr ⟨item.2, hget, hstateKey⟩
  exact List.ne_nil_of_mem hp

/-- The clause is made of alternatives: those of the types, and that the type is none of these. -/
theorem makeSqlFilterClause_eq {order : IterOrder String} {f : StateFilter} (hfull : f.isFull = false)
    (hany : (!f.includeOthers && f.types.items.isEmpty) = false) :
    ∃ parts, parts ≠ [] ∧
      f.makeSqlFilterClause order = (PyStr.join " OR " (parts.map Prod.fst), parts.flatMap Prod.snd) ∧
      ∀ key, (∀ p ∈ parts, p.1 ≠ "" ∧ ∃ b, SqlClause.Says (columns key) p.1 p.2 b) ∧
        ((∃ p ∈ parts, SqlClause.Says (columns key) p.1 p.2 true) ↔ f.admits key = true) := by
  have hsaid : ∀ key, ∀ p ∈ f.types.items.flatMap (clausesOf order),
      p.1 ≠ "" ∧ ∃ b, SqlClause.Says (columns key) p.1 p.2 b := by
    intro key p hp
    obtain ⟨item, -, hp⟩ := List.mem_flatMap.mp hp
    exact says_clausesOf key hp
  rw [makeSqlFilterClause, if_neg (by simp [hfull]), if_neg (by simp [hany])]
  cases hothers : f.includeOthers with
  | false =>
    have hitems : f.types.items ≠ [] := by
      intro hempty
      rw [hothers, hempty] at hany
      cases hany
    refine ⟨_, flatMap_clausesOf_ne_nil hothers hitems, by simp, fun key => ⟨hsaid key, ?_⟩⟩
    rw [exists_says_types, admits_iff_types, hothers]
    simp
  | true =>
    have hitems : f.types.items ≠ [] := by
      intro hempty
      rw [isFull, hothers, hempty] at hfull
      cases hfull
    have hkeys : f.types.keys ≠ [] := by simpa [Dict.keys] using hitems
    have hlength : f.types.keys.length = f.types.items.length := by simp [Dict.keys]
    have hnotIn := fun key => says_notIn key hkeys
    rw [hlength] at hnotIn
    generalize htext : "type NOT IN (" ++ PyStr.join "," (List.replicate f.types.items.length "?") ++ ")" = text at *
    have hne : text ≠ "" := by
      rintro rfl
      have hchars := congrArg String.toList htext
      simp at hchars
    refine ⟨f.types.items.flatMap (clausesOf order) ++ [(text, f.types.keys)], by simp, ?_, fun key => ⟨?_, ?_⟩⟩
    · dsimp only
      rw [if_pos rfl]
      cases hclauses : f.types.items.flatMap (clausesOf order) with
      | nil => simp [PyStr.join]
      | cons p parts =>
        have hp : p ∈ f.types.items.flatMap (clausesOf order) := by
          rw [hclauses]
          exact List.mem_cons_self
        rw [if_neg (join_ne_empty (hsaid ("", "") p hp).1), List.map_append, PyStr.join, PyStr.join,
          String.intercalate_append_of_ne_nil (by simp) (by simp)]
        simp
    · intro p hp
      rcases List.mem_append.mp hp with hp | hp
      · exact hsaid key p hp
      · rw [List.mem_singleton.mp hp]
        exact ⟨hne, _, hnotIn key⟩
    · have hothersSaid : SqlClause.Says (columns key) text f.types.keys true ↔ key.1 ∉ f.types.keys := by
        constructor
        · intro h
          exact of_decide_eq_true ((hnotIn key).unique h)
        · intro h
          simpa [h] using hnotIn key
      rw [admits_iff_types, ← @exists_says_types order, hothers]
      simp only [List.mem_append, List.mem_singleton, or_and_right, exists_or, exists_eq_left, hothersSaid, true_and]

/-- **The clause** selects what the filter admits. -/
theorem selectsKey_makeSqlFilterClause (order : IterOrder String) (f : StateFilter) (key : String × String) :
    selectsKey (f.makeSqlFilterClause order) key = some (f.admits key) := by
  cases hfull : f.isFull with
  | true => rw [makeSqlFilterClause, if_pos hfull, selectsKey, if_pos rfl, admits_of_isFull hfull]
  | false =>
    cases hany : !f.includeOthers && f.types.items.isEmpty with
    | true =>
      have hnone : f.admits key = false := by
        obtain ⟨hothers, hempty⟩ := Bool.and_eq_true_iff.mp hany
        have hget : f.types.get? key.1 = .none := by
          show f.types.items.lookup key.1 = _
          rw [List.isEmpty_iff.mp hempty]
          rfl
        rw [admits, admitsKey, hget]
        simpa using hothers
      rw [makeSqlFilterClause, if_neg (by simp [hfull]), if_pos hany, hnone]
      rfl
    | false =>
      obtain ⟨parts, hne, heq, hsaid⟩ := @makeSqlFilterClause_eq order f hfull hany
      obtain ⟨hparts, hadmits⟩ := hsaid key
      obtain ⟨b, hselects, hb⟩ := SqlClause.selects_join parts hne fun p hp => (hparts p hp).2
      have hclause : PyStr.join " OR " (parts.map Prod.fst) ≠ "" := by
        cases parts with
        | nil => exact absurd rfl hne
        | cons p parts => exact join_ne_empty (hparts p List.mem_cons_self).1
      rw [selectsKey, heq, if_neg hclause, hselects, Option.some.injEq, Bool.eq_iff_iff, hb, hadmits]

/-! ## §3 One meaning -/

theorem contains_eq_admits (f : StateFilter) (key : String × String) : f.contains key = f.admits key := by
  rw [contains, admits, admitsKey]
  cases f.types.get? key.1 with
  | none => rfl
  | some stateKeys => cases stateKeys <;> rfl

variable {ν : Type}

/-- Without wildcards, the entries that are kept are among the concrete ones. -/
theorem length_filterState_le {f : StateFilter} (hwild : f.hasWildcards = false) (state : StateMap ν) :
    (f.filterState state).items.length ≤ (f.concreteTypes order).length := by
  have hsubset : (f.filterState state).keys ⊆ f.concreteTypes order := by
    intro key hkey
    obtain ⟨value, hget⟩ := mem_keys_iff.mp hkey
    apply mem_concreteTypes_of_admits hwild
    by_contra hnot
    rw [get?_filterState, if_neg hnot] at hget
    cases hget
  have hlength := ((f.filterState state).nodup.subperm hsubset).length_le
  rwa [List.length_map] at hlength

/-- The two filters of `get_member_split` on the two parts of a state, and what they give together. -/
def filterSplit {ν : Type} (f : StateFilter) (state : StateMap ν) : StateMap ν :=
  (f.getMemberSplit.1.filterState (state.filter fun key _ => key.1 = member)).update
    (f.getMemberSplit.2.filterState (state.filter fun key _ => key.1 ≠ member))

theorem get?_filterPart (f : StateFilter) (state : StateMap ν) (part : String × String → Bool)
    (key : String × String) : (f.filterState (state.filter fun key _ => part key)).get? key =
      if part key ∧ f.admits key = true then state.get? key else .none := by
  rw [get?_filterState]
  refine Option.ext fun value => ?_
  by_cases hadmits : f.admits key = true
  · rw [if_pos hadmits, get?_filter]
    by_cases hpart : part key = true
    · simp [hpart, hadmits]
    · simp [hpart]
  · simp [hadmits]

theorem get?_filterSplit (f : StateFilter) (state : StateMap ν) (key : String × String) :
    (f.filterSplit state).get? key = (f.filterState state).get? key := by
  obtain ⟨hmembers, hrest⟩ := f.admits_getMemberSplit key
  rw [filterSplit, get?_update, get?_filterPart, get?_filterPart, get?_filterState]
  by_cases hkey : key.1 = member
  · simp [hkey, hmembers hkey]
  · simp [hkey, hrest hkey]

/-- **One meaning.** In memory, in the database and in the caches a filter keeps the entries whose keys it contains,
and no more of them than it announces. -/
theorem readings_agree {ν : Type} (order : IterOrder String) (f : StateFilter) (state : StateMap ν) :
    (∀ key, (f.filterState state).get? key = if f.contains key = true then state.get? key else .none) ∧
      (∀ key, selectsKey (f.makeSqlFilterClause order) key = some (f.contains key)) ∧
      (∀ key, (f.filterSplit state).get? key = (f.filterState state).get? key) ∧
      ∀ n, f.maxEntriesReturned order = some n → (f.filterState state).items.length ≤ n := by
  refine ⟨fun key => ?_, fun key => ?_, f.get?_filterSplit state, fun n hn => ?_⟩
  · rw [get?_filterState, contains_eq_admits]
  · rw [selectsKey_makeSqlFilterClause, contains_eq_admits]
  · rw [maxEntriesReturned] at hn
    split at hn
    · cases hn
    next hwild =>
      rw [← Option.some.inj hn]
      exact length_filterState_le (Bool.not_eq_true _ ▸ hwild) state

end Setka.Types.StateFilter
