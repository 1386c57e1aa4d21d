/-
# Setka.Lib.Json — JSON values.

The values that event content is made of, as a JSON decoder hands them to Python: integers apart from
floating point numbers, objects as their key-value pairs in order. Of a key that occurs twice the
decoder keeps the last value.
-/
import Setka.Lib.PyFloat

namespace Setka.Lib

/-- A decoded JSON value. -/
inductive Json
  | null
  | bool (b : Bool)
  | int (n : Int)
  | float (x : PyFloat)
  | str (s : String)
  | arr (xs : List Json)
  | obj (members : List (String × Json))
  deriving Inhabited

namespace Json

/-- The value of a key among the members of an object. -/
def member? (members : List (String × Json)) (k : String) : Option Json :=
  members.reverse.lookup k

/-- `v.get(k)` on an object, nothing on any other value. -/
def get? : Json → String → Option Json
  | obj members, k => member? members k
  | _, _ => none

/-- `bool(v)`. -/
def truthy : Json → Bool
  | null => false
  | bool b => b
  | int n => n ≠ 0
  | float (.finite q) => q ≠ 0
  | float _ => true
  | str s => s ≠ ""
  | arr xs => !xs.isEmpty
  | obj members => !members.isEmpty

/-- A value that is there and truthy, as `v or …` has it. -/
def truthy? (v : Option Json) : Option Json := v.filter truthy

/-! ## Objects put together from parts -/

@[simp] theorem member?_nil (k : String) : member? [] k = none := rfl

/-- Of two parts the later one decides. -/
theorem member?_append (a b : List (String × Json)) (k : String) :
    member? (a ++ b) k = (member? b k).or (member? a k) := by
  rw [member?, List.reverse_append, List.lookup_append]
  rfl

theorem member?_cons (key : String) (v : Json) (rest : List (String × Json)) (k : String) :
    member? ((key, v) :: rest) k = (member? rest k).or (if k = key then some v else none) := by
  rw [← List.singleton_append, member?_append]
  congr 1
  by_cases hk : k = key
  · simp [member?, hk]
  · simp [member?, hk, List.lookup_cons, beq_false_of_ne hk]

/-- A key with a value is the key of a member. -/
theorem mem_keys_of_member? {members : List (String × Json)} {k : String}
    (h : (member? members k).isSome = true) : k ∈ members.map Prod.fst := by
  induction members with
  | nil => simp at h
  | cons member rest ih =>
    obtain ⟨key, v⟩ := member
    rw [member?_cons] at h
    by_cases hk : k = key
    · exact List.mem_cons.mpr (Or.inl hk)
    · rw [if_neg hk, Option.or_none] at h
      exact List.mem_cons_of_mem _ (ih h)

/-- A member that is there or not. -/
theorem member?_optional {α : Type} (o : Option α) (key : String) (f : α → Json) (k : String) :
    member? (o.map fun v => (key, f v)).toList k = if k = key then o.map f else none := by
  cases o with
  | none => simp
  | some v => rw [Option.map_some, Option.toList_some, member?_cons, member?_nil, Option.none_or]; rfl

end Json

end Setka.Lib
