/-
# Setka.Types.StateFilter — which entries of a state are asked for.

A filter names types, with the state keys that are wanted or all of them, and says whether other types are
wanted. A filter is split into one for members and one for the rest, and is made wider before the database is
asked; both are right about each entry.
-/
import Setka.Events.EventBase
import Setka.Lib.IterOrder

namespace Setka.Types

open Setka.Events Setka.Lib Dict

/-- `EventTypes.Member`. -/
def member : String := "m.room.member"

/-- What `__attrs_post_init__` leaves: no wildcards beside `include_others`, and no empty sets without. -/
def Canonical (includeOthers : Bool) (keys : Option (Finset String)) : Prop :=
  if includeOthers then keys ≠ none else keys ≠ some ∅

instance (includeOthers : Bool) (keys : Option (Finset String)) : Decidable (Canonical includeOthers keys) :=
  inferInstanceAs (Decidable (if includeOthers then keys ≠ none else keys ≠ some ∅))

/-- `StateFilter`. -/
structure StateFilter where
  types : Dict String (Option (Finset String))
  includeOthers : Bool
  canonical : ∀ type keys, types.get? type = some keys → Canonical includeOthers keys

namespace StateFilter

/-! ## §1 Filters -/

/-- `StateFilter(types, include_others)`. -/
def new (types : Dict String (Option (Finset String))) (includeOthers : Bool) : StateFilter where
  types := types.filter fun _ keys => Canonical includeOthers keys
  includeOthers
  canonical := fun _ _ h => of_decide_eq_true (Dict.get?_filter.mp h).2

def all : StateFilter := new .empty true
def none : StateFilter := new .empty false

/-- One turn of the loop of `from_types`. -/
def addType (types : Dict String (Option (Finset String))) (entry : String × Option String) :
    Dict String (Option (Finset String)) :=
  if types.get? entry.1 = some .none then types
  else
    match entry.2 with
    | .none => types.set entry.1 .none
    | some key => types.set entry.1 (some (insert key ((types.getD entry.1 .none).getD ∅)))

/-- `from_types`. A state key of `None` stands for every state event of the type. -/
def fromTypes (types : List (String × Option String)) : StateFilter :=
  new (types.foldl addType .empty) false

/-- `to_types`. -/
def toTypes (order : IterOrder String) (f : StateFilter) : List (String × Option String) :=
  f.types.items.flatMap fun item =>
    match item.2 with
    | .none => [(item.1, .none)]
    | some keys => (order.list keys).map fun key => (item.1, some key)

/-- `_ALL_NON_MEMBER_STATE_FILTER`. -/
def allNonMember : StateFilter := new (Dict.empty.set member (some ∅)) true

def isFull (f : StateFilter) : Bool := f.includeOthers && f.types.items.isEmpty

def hasWildcards (f : StateFilter) : Bool := f.includeOthers || f.types.values.any fun keys => keys.isNone

/-- `concrete_types`. -/
def concreteTypes (order : IterOrder String) (f : StateFilter) : List (String × String) :=
  f.types.items.flatMap fun item =>
    match item.2 with
    | .none => []
    | some keys => (order.list keys).map (Prod.mk item.1)

/-- The test of `filter_state`. -/
def admitsKey (types : Dict String (Option (Finset String))) (includeOthers : Bool) (key : String × String) : Bool :=
  match types.get? key.1 with
  | some .none => true
  | some (some keys) => key.2 ∈ keys
  | .none => includeOthers

def admits (f : StateFilter) : String × String → Bool := admitsKey f.types f.includeOthers

/-- `filter_state`. -/
def filterState {ν : Type} (f : StateFilter) (state : StateMap ν) : StateMap ν :=
  if f.isFull then state else state.filter fun key _ => f.admits key

/-- `return_expanded`. -/
def returnExpanded (f : StateFilter) : StateFilter :=
  if f.isFull then f
  else if !f.hasWildcards then f
  else
    let getAllMembers :=
      match f.types.get? member with
      | some keys => keys.isNone
      | .none => f.includeOthers
    let hasNonMemberWildcard :=
      f.includeOthers || f.types.items.any fun item => item.2.isNone && item.1 ≠ member
    if !hasNonMemberWildcard then f
    else if getAllMembers then all
    else
      match f.types.get? member with
      | some keys => new (Dict.empty.set member keys) true
      | .none => allNonMember

/-- `get_member_split`. -/
def getMemberSplit (f : StateFilter) : StateFilter × StateFilter :=
  (match f.types.get? member with
    | some .none => all
    | some (some keys) => new (Dict.empty.set member (some keys)) false
    | .none => if f.includeOthers then all else none,
    new (f.types.filter fun type _ => type ≠ member) f.includeOthers)

/-! ## §2 What they admit -/

theorem get?_new {types : Dict String (Option (Finset String))} {includeOthers : Bool} {type : String}
    {keys : Option (Finset String)} :
    (new types includeOthers).types.get? type = some keys ↔
      types.get? type = some keys ∧ Canonical includeOthers keys := by
  rw [new, get?_filter, decide_eq_true_eq]

/-- What is left out of the types says nothing that `include_others` does not say. -/
theorem admits_new (types : Dict String (Option (Finset String))) (includeOthers : Bool)
    (key : String × String) : (new types includeOthers).admits key = admitsKey types includeOthers key := by
  show admitsKey (new types includeOthers).types includeOthers key = _
  cases htype : types.get? key.1 with
  | none =>
    have hnone : (new types includeOthers).types.get? key.1 = .none :=
      Option.eq_none_iff_forall_ne_some.mpr fun keys h => by
        rw [get?_new, htype] at h
        cases h.1
    simp only [admitsKey, hnone, htype]
  | some keys =>
    by_cases hcanonical : Canonical includeOthers keys
    · have hsome := get?_new.mpr ⟨htype, hcanonical⟩
      simp only [admitsKey, hsome, htype]
    have hnone : (new types includeOthers).types.get? key.1 = .none :=
      Option.eq_none_iff_forall_ne_some.mpr fun keys' h => by
        obtain ⟨hkeys, hcanonical'⟩ := get?_new.mp h
        rw [htype, Option.some.injEq] at hkeys
        exact hcanonical (hkeys ▸ hcanonical')
    simp only [admitsKey, hnone, htype]
    rw [Canonical] at hcanonical
    split at hcanonical
    · next hothers => rw [hothers, not_not.mp hcanonical]
    · next hothers => simp [hothers, not_not.mp hcanonical]

@[simp] theorem admits_all (key : String × String) : all.admits key = true := rfl

@[simp] theorem admits_allNonMember (key : String × String) : allNonMember.admits key = decide (key.1 ≠ member) := by
  rw [allNonMember, admits_new, admitsKey, get?_set]
  by_cases hkey : key.1 = member
  · simp [hkey]
  · simp [hkey]

theorem admitsKey_addType (types : Dict String (Option (Finset String))) (entry : String × Option String)
    (key : String × String) :
    admitsKey (addType types entry) false key = true ↔
      admitsKey types false key = true ∨ entry = (key.1, .none) ∨ entry = (key.1, some key.2) := by
  obtain ⟨type, stateKey⟩ := entry
  by_cases htype : key.1 = type
  · subst htype
    unfold addType admitsKey
    cases hget : types.get? key.1 with
    | none => cases stateKey <;> simp [Dict.getD, hget, eq_comm]
    | some keys =>
      cases keys with
      | none => simp [hget]
      | some keys =>
        cases stateKey with
        | none => simp
        | some k => simp [getD_of_get? hget, or_comm, eq_comm (a := k)]
  · have hsame : (addType types (type, stateKey)).get? key.1 = types.get? key.1 := by
      unfold addType
      split
      · rfl
      · split <;> rw [get?_set, if_neg htype]
    simp only [admitsKey, hsame, Prod.mk.injEq, Ne.symm htype, false_and, or_false]

/-- A filter from types admits what one of its entries names. -/
theorem admits_fromTypes (types : List (String × Option String)) (key : String × String) :
    (fromTypes types).admits key = true ↔ (key.1, .none) ∈ types ∨ (key.1, some key.2) ∈ types := by
  have hfold : ∀ d, admitsKey (types.foldl addType d) false key = true ↔
      admitsKey d false key = true ∨ (key.1, .none) ∈ types ∨ (key.1, some key.2) ∈ types := by
    induction types with
    | nil => simp
    | cons entry types ih =>
      intro d
      rw [List.foldl_cons, ih, admitsKey_addType, List.mem_cons, List.mem_cons]
      grind
  rw [fromTypes, admits_new, hfold]
  simp [admitsKey]

variable {f : StateFilter}

theorem admits_of_isFull (h : f.isFull = true) (key : String × String) : f.admits key = true := by
  obtain ⟨hothers, hempty⟩ := Bool.and_eq_true_iff.mp h
  have hnone : f.types.get? key.1 = .none := by
    show f.types.items.lookup key.1 = _
    rw [List.isEmpty_iff.mp hempty]
    rfl
  simp only [admits, admitsKey, hnone, hothers]

/-- **`filter_state`** keeps what is admitted. -/
theorem get?_filterState {ν : Type} (f : StateFilter) (state : StateMap ν) (key : String × String) :
    (f.filterState state).get? key = if f.admits key then state.get? key else .none := by
  by_cases hfull : f.isFull
  · rw [filterState, if_pos hfull, if_pos (admits_of_isFull hfull key)]
  rw [filterState, if_neg hfull]
  refine Option.ext fun value => ?_
  rw [get?_filter]
  split
  · next hadmits => simp [hadmits]
  · next hadmits => simp [hadmits]

variable {order : IterOrder String} {key : String × String}

theorem mem_toTypes {type : String} {stateKey : Option String} : (type, stateKey) ∈ f.toTypes order ↔
    ∃ keys, f.types.get? type = some keys ∧
      keys.elim (stateKey = .none) fun keys => ∃ key ∈ keys, stateKey = some key := by
  simp only [toTypes, List.mem_flatMap, Prod.exists, ← get?_eq_some_iff]
  constructor
  · rintro ⟨name, keys, hget, hmem⟩
    cases keys with
    | none =>
      cases List.mem_singleton.mp hmem
      exact ⟨_, hget, rfl⟩
    | some keys =>
      obtain ⟨key, hkey, heq⟩ := List.mem_map.mp hmem
      cases heq
      exact ⟨_, hget, key, order.mem_list.mp hkey, rfl⟩
  · rintro ⟨keys, hget, hkeys⟩
    refine ⟨type, keys, hget, ?_⟩
    cases keys with
    | none => exact List.mem_singleton.mpr (congrArg _ hkeys)
    | some keys =>
      obtain ⟨key, hkey, rfl⟩ := hkeys
      exact List.mem_map.mpr ⟨key, order.mem_list.mpr hkey, rfl⟩

/-- **`to_types` is read back** as the filter without `include_others`: what is admitted of the types that are named. -/
theorem admits_fromTypes_toTypes (f : StateFilter) (order : IterOrder String) (key : String × String) :
    (fromTypes (f.toTypes order)).admits key = true ↔ f.admits key = true ∧ (f.types.get? key.1).isSome := by
  rw [admits_fromTypes, mem_toTypes, mem_toTypes, admits, admitsKey]
  cases hget : f.types.get? key.1 with
  | none => simp
  | some keys => cases keys <;> simp

/-- A concrete entry is admitted. -/
theorem mem_concreteTypes :
    key ∈ f.concreteTypes order ↔ ∃ keys, f.types.get? key.1 = some (some keys) ∧ key.2 ∈ keys := by
  rw [concreteTypes, List.mem_flatMap]
  constructor
  · rintro ⟨⟨type, keys⟩, hitem, hkey⟩
    cases keys with
    | none => cases hkey
    | some keys =>
      obtain ⟨stateKey, hstateKey, rfl⟩ := List.mem_map.mp hkey
      exact ⟨keys, get?_eq_some_iff.mpr hitem, order.mem_list.mp hstateKey⟩
  · rintro ⟨keys, hkeys, hin⟩
    exact ⟨(key.1, some keys), get?_eq_some_iff.mp hkeys,
      List.mem_map.mpr ⟨key.2, order.mem_list.mpr hin, rfl⟩⟩

theorem admits_of_mem_concreteTypes (h : key ∈ f.concreteTypes order) : f.admits key = true := by
  obtain ⟨keys, hkeys, hin⟩ := mem_concreteTypes.mp h
  simp only [admits, admitsKey, hkeys, decide_eq_true_eq]
  exact hin

/-- Without wildcards, all that is admitted is concrete. -/
theorem mem_concreteTypes_of_admits (hwild : f.hasWildcards = false)
    (h : f.admits key = true) : key ∈ f.concreteTypes order := by
  obtain ⟨hothers, hvalues⟩ := Bool.or_eq_false_iff.mp hwild
  rw [admits, admitsKey] at h
  split at h
  · next hnone =>
      have hvalue := List.any_eq_false.mp hvalues _ (mem_values_iff.mpr ⟨key.1, hnone⟩)
      exact absurd rfl hvalue
  · next keys hkeys => exact mem_concreteTypes.mpr ⟨keys, hkeys, of_decide_eq_true h⟩
  · rw [hothers] at h
    cases h

/-- The five filters that `return_expanded` returns, and when. -/
theorem returnExpanded_cases (f : StateFilter) :
    (f.returnExpanded = f ∧ ∀ type, f.types.get? type = some .none → type = member) ∨
      (f.returnExpanded = all ∧ ∀ stateKey, f.admits (member, stateKey) = true) ∨
      (∃ keys, f.types.get? member = some (some keys) ∧
        f.returnExpanded = new (Dict.empty.set member (some keys)) true) ∨
      (f.types.get? member = .none ∧ f.includeOthers = false ∧ f.returnExpanded = allNonMember) := by
  have hunfold : f.returnExpanded = f.returnExpanded := rfl
  conv at hunfold => rhs; unfold returnExpanded
  split at hunfold
  · next hfull =>
      refine Or.inl ⟨hunfold, fun type htype => ?_⟩
      have hempty := List.isEmpty_iff.mp (Bool.and_eq_true_iff.mp hfull).2
      have hitem := get?_eq_some_iff.mp htype
      rw [hempty] at hitem
      cases hitem
  split at hunfold
  · next hwild =>
      refine Or.inl ⟨hunfold, fun type htype => ?_⟩
      rw [Bool.not_eq_true', hasWildcards, Bool.or_eq_false_iff] at hwild
      exact absurd rfl (List.any_eq_false.mp hwild.2 _ (mem_values_iff.mpr ⟨type, htype⟩))
  dsimp only at hunfold
  split at hunfold
  · next hothers =>
      refine Or.inl ⟨hunfold, fun type htype => ?_⟩
      rw [Bool.not_eq_true', Bool.or_eq_false_iff] at hothers
      have hitem := List.any_eq_false.mp hothers.2 _ (get?_eq_some_iff.mp htype)
      simpa using hitem
  cases hmember : f.types.get? member with
  | none =>
    simp only [hmember] at hunfold
    split at hunfold
    · next hothers => exact Or.inr (Or.inl ⟨hunfold, fun stateKey => by simp [admits, admitsKey, hmember, hothers]⟩)
    · next hothers => exact Or.inr (Or.inr (Or.inr ⟨rfl, by simpa using hothers, hunfold⟩))
  | some keys =>
    cases keys with
    | none =>
      refine Or.inr (Or.inl ⟨?_, fun stateKey => by simp [admits, admitsKey, hmember]⟩)
      simpa [hmember] using hunfold
    | some keys =>
      refine Or.inr (Or.inr (Or.inl ⟨keys, rfl, ?_⟩))
      simpa [hmember] using hunfold

/-- With only members told apart: the members that are named, and all else. -/
theorem admits_onlyMembers (keys : Finset String) (key : String × String) :
    (new (Dict.empty.set member (some keys)) true).admits key =
      if key.1 = member then decide (key.2 ∈ keys) else true := by
  rw [admits_new, admitsKey, get?_set]
  by_cases hkey : key.1 = member
  · simp only [if_pos hkey]
  · simp only [if_neg hkey, get?_empty]

/-- **A wider filter** asks for the same members. -/
theorem admits_member_returnExpanded (f : StateFilter) (stateKey : String) :
    f.returnExpanded.admits (member, stateKey) = f.admits (member, stateKey) := by
  obtain ⟨hsame, -⟩ | ⟨hall, hmembers⟩ | ⟨keys, hkeys, honly⟩ | ⟨hnone, hothers, hrest⟩ := f.returnExpanded_cases
  · rw [hsame]
  · rw [hall, hmembers, admits_all]
  · rw [honly, admits_onlyMembers, if_pos rfl, admits, admitsKey, hkeys]
  · rw [hrest, admits_allNonMember, admits, admitsKey, hnone, hothers]
    exact decide_eq_false (not_not.mpr rfl)

/-- It asks for the same of the rest, or for all of it. -/
theorem admits_rest_returnExpanded (f : StateFilter) :
    (f.returnExpanded = f) ∨ ∀ key : String × String, key.1 ≠ member → f.returnExpanded.admits key = true := by
  obtain ⟨hsame, -⟩ | ⟨hall, -⟩ | ⟨keys, -, honly⟩ | ⟨-, -, hrest⟩ := f.returnExpanded_cases
  · exact Or.inl hsame
  · exact Or.inr fun key _ => by rw [hall, admits_all]
  · exact Or.inr fun key hkey => by rw [honly, admits_onlyMembers, if_neg hkey]
  · exact Or.inr fun key hkey => by rw [hrest, admits_allNonMember, decide_eq_true hkey]

/-- It admits what the filter admits. -/
theorem admits_returnExpanded (h : f.admits key = true) : f.returnExpanded.admits key = true := by
  by_cases hkey : key.1 = member
  · obtain ⟨type, stateKey⟩ := key
    rw [show type = member from hkey] at h ⊢
    rw [admits_member_returnExpanded, h]
  obtain hsame | hrest := f.admits_rest_returnExpanded
  · rw [hsame, h]
  · exact hrest key hkey

/-- **Wildcards** are left for members only. -/
theorem returnExpanded_wildcard {type : String}
    (h : f.returnExpanded.types.get? type = some .none) : type = member := by
  obtain ⟨hsame, hwild⟩ | ⟨hall, -⟩ | ⟨keys, -, honly⟩ | ⟨-, -, hrest⟩ := f.returnExpanded_cases
  · rw [hsame] at h
    exact hwild type h
  -- of the others, each includes what it does not name, and so has no wildcard at all
  · rw [hall, all, get?_new] at h
    exact absurd rfl h.2
  · rw [honly, get?_new] at h
    exact absurd rfl h.2
  · rw [hrest, allNonMember, get?_new] at h
    exact absurd rfl h.2

/-- **`return_expanded`** admits what the filter admits, of members no more, of the rest all or no more, and has
no wildcard over another type. -/
theorem returnExpanded_spec (f : StateFilter) : (∀ key, f.admits key = true → f.returnExpanded.admits key = true) ∧
      (∀ stateKey, f.returnExpanded.admits (member, stateKey) = f.admits (member, stateKey)) ∧
      ((∀ key : String × String, key.1 ≠ member → f.returnExpanded.admits key = true) ∨
        ∀ key : String × String, key.1 ≠ member → f.returnExpanded.admits key = f.admits key) ∧
      ∀ type, type ≠ member → f.returnExpanded.types.get? type ≠ some .none := by
  refine ⟨fun key => admits_returnExpanded, f.admits_member_returnExpanded, ?_, ?_⟩
  · obtain hsame | hrest := f.admits_rest_returnExpanded
    · exact Or.inr fun key _ => by rw [hsame]
    · exact Or.inl hrest
  · intro type hother htype
    exact hother (returnExpanded_wildcard htype)

/-- **The split** is right about members, and about the rest. -/
theorem admits_getMemberSplit (f : StateFilter) (key : String × String) :
    (key.1 = member → f.getMemberSplit.1.admits key = f.admits key) ∧
      (key.1 ≠ member → f.getMemberSplit.2.admits key = f.admits key) := by
  constructor
  · intro hkey
    show _ = admitsKey f.types f.includeOthers key
    rw [getMemberSplit, admitsKey, hkey]
    cases f.types.get? member with
    | none =>
      cases f.includeOthers with
      | false => rfl
      | true => rfl
    | some keys =>
      cases keys with
      | none => rfl
      | some keys =>
        rw [admits_new, admitsKey, get?_set, if_pos hkey]
  · intro hkey
    have hsame : (f.types.filter fun type _ => type ≠ member).get? key.1 = f.types.get? key.1 :=
      Option.ext fun keys => by
        rw [get?_filter]
        simp [hkey]
    rw [getMemberSplit, admits_new, admitsKey, hsame]
    rfl

end StateFilter

end Setka.Types
