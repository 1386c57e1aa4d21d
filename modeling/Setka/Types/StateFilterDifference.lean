/-
# Setka.Types.StateFilterDifference — what one filter asks for beyond another.

Each filter is taken apart into four sets, the sets are subtracted, and the result is put together again. A filter
cannot name all keys of a type but some, so the difference may keep too much; no filter would keep less.
-/
import Mathlib.Data.Set.Finite.Basic
import Setka.Types.StateFilter

namespace Setka.Types.StateFilter

open Setka.Lib Dict

/-! ## §1 Four parts -/

/-- What `_decompose_into_four_parts` returns: all types or none, the types that all does not stand for, the types
that are wanted whole, and single keys. -/
structure FourParts where
  isAll : Bool
  excludedTypes : Finset String
  wildcardTypes : Finset String
  concreteKeys : Finset (String × String)

/-- The orders in which the sets of types and of keys are gone through. -/
structure SetOrders where
  types : IterOrder String
  keys : IterOrder (String × String)

/-- `_decompose_into_four_parts`. -/
def decomposeIntoFourParts (orders : SetOrders) (f : StateFilter) : FourParts where
  isAll := f.includeOthers
  excludedTypes := (f.types.keys.filter fun _ => f.includeOthers).toFinset
  wildcardTypes := ((f.types.items.filter fun item => item.2.isNone).map Prod.fst).toFinset
  concreteKeys := (f.concreteTypes orders.types).toFinset

/-- `freeze`. -/
def freeze (types : Dict String (Option (Finset String))) (includeOthers : Bool) : StateFilter :=
  new types includeOthers

/-- One turn of the last loop of `_recompose_from_four_parts`. -/
def addStateKey (allPart : Bool) (newTypes : Dict String (Option (Finset String))) (key : String × String) :
    Dict String (Option (Finset String)) :=
  match newTypes.get? key.1 with
  | some (some entry) => newTypes.set key.1 (some (insert key.2 entry))
  | some .none => newTypes
  | .none => if allPart then newTypes else newTypes.set key.1 (some {key.2})

/-- `_recompose_from_four_parts`. -/
def recomposeFromFourParts (orders : SetOrders) (p : FourParts) : StateFilter :=
  let excluded := if p.isAll then Dict.ofKeys (orders.types.list p.excludedTypes) fun _ => some ∅ else .empty
  let newTypes := excluded.update (Dict.ofKeys (orders.types.list p.wildcardTypes) fun _ => .none)
  freeze ((orders.keys.list p.concreteKeys).foldl (addStateKey p.isAll) newTypes) p.isAll

/-- The sets that `approx_difference` makes of those of `self` and of `other`. -/
def FourParts.minus (self other : FourParts) : FourParts :=
  let newExcludes := self.excludedTypes ∪ other.wildcardTypes
  let newWildcards := self.wildcardTypes \ other.wildcardTypes
  let newConcreteKeys := (self.concreteKeys.filter fun key => key.1 ∉ other.wildcardTypes) \ other.concreteKeys
  if other.isAll then
    let newWildcards :=
      if self.isAll then newWildcards ∪ (other.excludedTypes \ self.excludedTypes) else newWildcards
    { isAll := false
      excludedTypes := ∅
      wildcardTypes := newWildcards ∩ other.excludedTypes
      concreteKeys := newConcreteKeys.filter fun key => key.1 ∈ other.excludedTypes }
  else
    { isAll := self.isAll
      excludedTypes := newExcludes
      wildcardTypes := newWildcards
      concreteKeys := newConcreteKeys }

/-- `approx_difference`. -/
def approxDifference (orders : SetOrders) (self other : StateFilter) : StateFilter :=
  recomposeFromFourParts orders ((self.decomposeIntoFourParts orders).minus (other.decomposeIntoFourParts orders))

/-! ## §2 What the parts stand for -/

/-- `all? - minus_wildcards + plus_wildcards + plus_state_keys`. -/
def FourParts.Has (p : FourParts) (key : String × String) : Prop :=
  (p.isAll = true ∧ key.1 ∉ p.excludedTypes) ∨ key.1 ∈ p.wildcardTypes ∨ key ∈ p.concreteKeys

/-- A single key is added, if the type is not wanted whole. -/
theorem admitsKey_addStateKey (allPart : Bool) (newTypes : Dict String (Option (Finset String)))
    (added key : String × String) :
    admitsKey (addStateKey allPart newTypes added) allPart key = true ↔
      admitsKey newTypes allPart key = true ∨ key = added := by
  obtain ⟨type, stateKey⟩ := added
  by_cases htype : key.1 = type
  · subst htype
    unfold addStateKey admitsKey
    cases hget : newTypes.get? key.1 with
    | none =>
      cases allPart with
      | true => simp [hget]
      | false => simp [Prod.ext_iff]
    | some keys =>
      cases keys with
      | none => simp [hget]
      | some keys => simp [Prod.ext_iff, or_comm]
  · have hsame : (addStateKey allPart newTypes (type, stateKey)).get? key.1 = newTypes.get? key.1 := by
      unfold addStateKey
      split
      · rw [get?_set, if_neg htype]
      · rfl
      · split
        · rfl
        · rw [get?_set, if_neg htype]
    simp only [admitsKey, hsame, Prod.ext_iff, htype, false_and, or_false]

theorem admitsKey_foldl_addStateKey (allPart : Bool) (added : List (String × String)) (key : String × String)
    (newTypes : Dict String (Option (Finset String))) :
    admitsKey (added.foldl (addStateKey allPart) newTypes) allPart key = true ↔
      admitsKey newTypes allPart key = true ∨ key ∈ added := by
  induction added generalizing newTypes with
  | nil => simp
  | cons first rest ih => rw [List.foldl_cons, ih, admitsKey_addStateKey, List.mem_cons, or_assoc]

/-- **Put together**, a filter admits what the parts stand for. -/
theorem admits_recomposeFromFourParts (orders : SetOrders) (p : FourParts) (key : String × String) :
    (recomposeFromFourParts orders p).admits key = true ↔ p.Has key := by
  rw [recomposeFromFourParts, freeze, admits_new, admitsKey_foldl_addStateKey, IterOrder.mem_list, FourParts.Has,
    ← or_assoc]
  refine or_congr_left ?_
  rw [admitsKey, get?_update, get?_ofKeys]
  by_cases hwild : key.1 ∈ p.wildcardTypes
  · simp [hwild]
  cases hall : p.isAll with
  | false => simp [hwild]
  | true =>
    rw [if_pos rfl, get?_ofKeys]
    by_cases hexcluded : key.1 ∈ p.excludedTypes
    · simp [hwild, hexcluded]
    · simp [hwild, hexcluded]

/-! ## §3 A filter, type by type -/

/-- The keys of a type that a filter asks for, `none` for all of them. -/
def keysOf (f : StateFilter) (type : String) : Option (Finset String) :=
  (f.types.get? type).getD (if f.includeOthers then .none else some ∅)

theorem admits_iff_keysOf (f : StateFilter) (key : String × String) :
    f.admits key = true ↔ ∀ keys, f.keysOf key.1 = some keys → key.2 ∈ keys := by
  rw [admits, admitsKey, keysOf]
  cases f.types.get? key.1 with
  | none =>
    cases f.includeOthers with
    | false => simp
    | true => simp
  | some keys =>
    cases keys with
    | none => simp
    | some keys => simp

theorem admits_of_keysOf_eq_none {f : StateFilter} {key : String × String} (h : f.keysOf key.1 = .none) :
    f.admits key = true := by
  rw [admits_iff_keysOf, h]
  rintro keys ⟨⟩

theorem admits_iff_of_keysOf {f : StateFilter} {key : String × String} {keys : Finset String}
    (h : f.keysOf key.1 = some keys) : f.admits key = true ↔ key.2 ∈ keys := by
  rw [admits_iff_keysOf, h]
  simp

variable {orders : SetOrders} {f : StateFilter} {type : String}

/-- What stands in a filter is canonical, so the three sets say of each type what the filter asks for. -/
theorem mem_excludedTypes :
    type ∈ (f.decomposeIntoFourParts orders).excludedTypes ↔ f.includeOthers = true ∧ f.keysOf type ≠ .none := by
  rw [decomposeIntoFourParts, List.mem_toFinset, List.mem_filter, mem_keys_iff, and_comm, keysOf]
  refine and_congr_right fun hothers => ?_
  cases hget : f.types.get? type with
  | none => simp [hothers]
  | some keys =>
    have hcanonical := f.canonical type keys hget
    rw [Canonical, if_pos hothers] at hcanonical
    simpa using hcanonical

theorem mem_wildcardTypes :
    type ∈ (f.decomposeIntoFourParts orders).wildcardTypes ↔ f.includeOthers = false ∧ f.keysOf type = .none := by
  have hmem : type ∈ (f.decomposeIntoFourParts orders).wildcardTypes ↔ f.types.get? type = some .none := by
    rw [decomposeIntoFourParts, List.mem_toFinset, List.mem_map, get?_eq_some_iff]
    constructor
    · rintro ⟨⟨type', keys⟩, hitem, rfl⟩
      obtain ⟨hitem, hkeys⟩ := List.mem_filter.mp hitem
      obtain rfl : keys = .none := Option.isNone_iff_eq_none.mp hkeys
      exact hitem
    · intro hitem
      exact ⟨(type, .none), List.mem_filter.mpr ⟨hitem, rfl⟩, rfl⟩
  rw [hmem, keysOf]
  cases hget : f.types.get? type with
  | none => cases f.includeOthers <;> simp
  | some keys =>
    have hcanonical := f.canonical type keys hget
    rw [Canonical] at hcanonical
    cases hothers : f.includeOthers with
    | false => simp
    | true =>
      rw [hothers, if_pos rfl] at hcanonical
      simpa using hcanonical

theorem mem_concreteKeys {key : String × String} :
    key ∈ (f.decomposeIntoFourParts orders).concreteKeys ↔ ∃ keys, f.keysOf key.1 = some keys ∧ key.2 ∈ keys := by
  rw [decomposeIntoFourParts, List.mem_toFinset, mem_concreteTypes, keysOf]
  cases f.types.get? key.1 with
  | none => cases f.includeOthers <;> simp
  | some keys => simp

/-- Of a type that it does not ask for whole, a filter names finitely many keys. -/
theorem finite_of_keysOf {keys : Finset String} (h : f.keysOf type = some keys) :
    {stateKey | f.admits (type, stateKey) = true}.Finite :=
  keys.finite_toSet.subset fun stateKey hkey => (@admits_iff_of_keysOf f (type, stateKey) keys h).mp hkey

/-! ## §4 The difference -/

/-- The parts of the difference, in terms of the keys that both ask for. -/
theorem has_minus (orders : SetOrders) (self other : StateFilter) (key : String × String) :
    ((self.decomposeIntoFourParts orders).minus (other.decomposeIntoFourParts orders)).Has key ↔
      other.keysOf key.1 ≠ .none ∧
        (self.keysOf key.1 = .none ∨
          key ∈ (self.decomposeIntoFourParts orders).concreteKeys ∧
            key ∉ (other.decomposeIntoFourParts orders).concreteKeys) := by
  have hselfAll : (self.decomposeIntoFourParts orders).isAll = self.includeOthers := rfl
  have hotherAll : (other.decomposeIntoFourParts orders).isAll = other.includeOthers := rfl
  rw [FourParts.Has, FourParts.minus, hselfAll, hotherAll]
  -- the four ways in which the two may include others: what is excluded, and what is wanted whole, changes its side
  cases hself : self.includeOthers with
  | false =>
    cases hother : other.includeOthers with
    | false =>
      simp [mem_wildcardTypes, hself, hother]
      grind
    | true =>
      simp [mem_wildcardTypes, mem_excludedTypes, hself, hother]
      grind
  | true =>
    cases hother : other.includeOthers with
    | false =>
      simp [mem_wildcardTypes, mem_excludedTypes, hself, hother]
      grind
    | true =>
      simp [mem_wildcardTypes, mem_excludedTypes, hself, hother]
      grind

/-- **The difference** of two filters, type by type: of a type wanted whole all keys, unless the other wants it
whole too; of another type the keys that the other does not admit. -/
theorem admits_approxDifference (orders : SetOrders) (self other : StateFilter) (key : String × String) :
    (self.approxDifference orders other).admits key = true ↔
      self.admits key = true ∧
        if self.keysOf key.1 = .none then other.keysOf key.1 ≠ .none else other.admits key = false := by
  rw [approxDifference, admits_recomposeFromFourParts, has_minus, mem_concreteKeys, mem_concreteKeys,
    ← Bool.not_eq_true, admits_iff_keysOf, admits_iff_keysOf]
  cases self.keysOf key.1 with
  | none => simp
  | some keys =>
    cases other.keysOf key.1 with
    | none => simp
    | some otherKeys => simp

/-- What `approx_difference` must keep, and what it must not. -/
structure IsDifference (f other difference : StateFilter) : Prop where
  covers : ∀ key, f.admits key = true → other.admits key = false → difference.admits key = true
  within : ∀ key, difference.admits key = true → f.admits key = true

theorem isDifference_approxDifference (orders : SetOrders) (self other : StateFilter) :
    IsDifference self other (self.approxDifference orders other) where
  covers key hself hother := by
    refine (admits_approxDifference orders self other key).mpr ⟨hself, ?_⟩
    split
    · intro hnone
      rw [admits_of_keysOf_eq_none hnone] at hother
      cases hother
    · exact hother
  within key h := ((admits_approxDifference orders self other key).mp h).1

/-- A type that the other does not want whole has keys that only a filter for the whole type admits all of. -/
theorem IsDifference.keysOf_eq_none {self other difference : StateFilter}
    (h : IsDifference self other difference) (hself : self.keysOf type = .none)
    (hother : other.keysOf type ≠ .none) : difference.keysOf type = .none := by
  by_contra hsome
  obtain ⟨keys, hkeys⟩ := Option.ne_none_iff_exists'.mp hother
  obtain ⟨left, hleft⟩ := Option.ne_none_iff_exists'.mp hsome
  -- all keys of the type would be among those that one of the two names
  have hall : (Set.univ : Set String) ⊆
      {stateKey | difference.admits (type, stateKey) = true} ∪ {stateKey | other.admits (type, stateKey) = true} := by
    intro stateKey _
    cases hadmits : other.admits (type, stateKey) with
    | true => exact Or.inr hadmits
    | false => exact Or.inl (h.covers _ (@admits_of_keysOf_eq_none self (type, stateKey) hself) hadmits)
  exact Set.infinite_univ (((finite_of_keysOf hleft).union (finite_of_keysOf hkeys)).subset hall)

/-- **`approx_difference`** is a difference, and it keeps no more than any other. -/
theorem approxDifference_tightest (orders : SetOrders) (self other : StateFilter) :
    IsDifference self other (self.approxDifference orders other) ∧
      ∀ difference, IsDifference self other difference →
        ∀ key, (self.approxDifference orders other).admits key = true → difference.admits key = true := by
  refine ⟨isDifference_approxDifference orders self other, fun difference h key hkey => ?_⟩
  obtain ⟨hself, hother⟩ := (admits_approxDifference orders self other key).mp hkey
  split at hother
  · next hwhole => exact admits_of_keysOf_eq_none (h.keysOf_eq_none hwhole hother)
  · exact h.covers key hself hother

end Setka.Types.StateFilter
