/-
# Setka.Lib.JsonLoads — `json.loads` and `json.dumps` as they are without arguments.

The decoder that is not told otherwise also reads `NaN`, `Infinity` and `-Infinity`. What the strict decoder reads
it reads in the same way, so it reads back what was encoded, with the keys in order.
-/
import Mathlib.Data.List.Sort
import Setka.Lib.Dict
import Setka.Lib.JsonText

namespace Setka.Lib.JsonText

/-! ## §1 Reading -/

/-- A constant for a number that JSON does not have. -/
def scanConstant : List Char → Option (Json × List Char)
  | 'N' :: 'a' :: 'N' :: rest => some (.float .nan, rest)
  | 'I' :: 'n' :: 'f' :: 'i' :: 'n' :: 'i' :: 't' :: 'y' :: rest => some (.float .inf, rest)
  | '-' :: 'I' :: 'n' :: 'f' :: 'i' :: 'n' :: 'i' :: 't' :: 'y' :: rest => some (.float .negInf, rest)
  | _ => none

/-- `scan_once` with the constants. -/
def scanLoose (ft : FloatText) : ℕ → List Char → Option (Json × List Char)
  | 0, _ => none
  | n + 1, cs =>
    match cs with
    | '[' :: cs => (scanBracket (scanLoose ft n) ']' cs).map fun (xs, rest) => (.arr xs, rest)
    | '\x7b' :: cs =>
      (scanBracket (scanMember (scanLoose ft n)) '\x7d' cs).map fun (ms, rest) => (.obj ms, rest)
    | cs => (scanConstant cs).or (scanOnce ft 1 cs)

/-- `json.loads(s)`, `none` where it raises. -/
def loads (ft : FloatText) (s : String) : Option Json := do
  let (v, rest) ← scanLoose ft (s.toList.length + 1) (skipSpace s.toList)
  if skipSpace rest = [] then pure v else none

/-! ## §2 What the strict decoder reads -/

/-- What one scanner reads another reads in the same way. -/
def Extends {α : Type} (scan scan' : List Char → Option (α × List Char)) : Prop :=
  ∀ cs r, scan cs = some r → scan' cs = some r

section Extends

variable {α : Type} {scan scan' : List Char → Option (α × List Char)}

theorem Extends.scanParts (h : Extends scan scan') (closing : Char) (n : ℕ) :
    Extends (scanParts scan closing n) (scanParts scan' closing n) := by
  induction n with
  | zero => exact fun _ _ h => h
  | succ n ih =>
    intro cs r hr
    obtain ⟨⟨v, rest⟩, hv, hr⟩ := Option.bind_eq_some_iff.mp hr
    refine Option.bind_eq_some_iff.mpr ⟨(v, rest), h cs _ hv, ?_⟩
    dsimp only at hr ⊢
    cases hrest : skipSpace rest with
    | nil =>
      rw [hrest] at hr
      exact hr
    | cons c rest =>
      rw [hrest] at hr
      dsimp only at hr ⊢
      split at hr
      · rename_i hcomma
        rw [if_pos hcomma]
        obtain ⟨⟨vs, rest'⟩, hvs, hr⟩ := Option.bind_eq_some_iff.mp hr
        exact Option.bind_eq_some_iff.mpr ⟨(vs, rest'), ih _ _ hvs, hr⟩
      · rename_i hcomma
        rw [if_neg hcomma]
        exact hr

theorem Extends.scanBracket (h : Extends scan scan') (closing : Char) :
    Extends (scanBracket scan closing) (scanBracket scan' closing) := by
  intro cs r hr
  unfold JsonText.scanBracket at hr ⊢
  cases hcs : skipSpace cs with
  | nil =>
    rw [hcs] at hr
    exact hr
  | cons c rest =>
    rw [hcs] at hr
    dsimp only at hr ⊢
    split at hr
    · rename_i hclosing
      rw [if_pos hclosing]
      exact hr
    rename_i hclosing
    rw [if_neg hclosing]
    exact h.scanParts closing cs.length _ _ hr

theorem Extends.scanMember (h : Extends scan scan') : Extends (scanMember scan) (scanMember scan') := by
  intro cs r hr
  unfold JsonText.scanMember at hr ⊢
  split at hr
  · rename_i cs
    obtain ⟨⟨key, rest⟩, hkey, hr⟩ := Option.bind_eq_some_iff.mp hr
    refine Option.bind_eq_some_iff.mpr ⟨(key, rest), hkey, ?_⟩
    dsimp only at hr ⊢
    split at hr
    · obtain ⟨⟨v, rest'⟩, hv, hr⟩ := Option.bind_eq_some_iff.mp hr
      exact Option.bind_eq_some_iff.mpr ⟨(v, rest'), h _ _ hv, hr⟩
    · cases hr
  · cases hr

end Extends

variable {ft : FloatText}

/-- The constants are not read by the strict decoder. -/
theorem scanConstant_of_scanOnce {cs : List Char} {r : Json × List Char}
    (h : scanOnce ft 1 cs = some r) : scanConstant cs = none := by
  unfold scanConstant
  split
  · cases h
  · cases h
  · cases h
  · rfl

theorem extends_scanLoose (ft : FloatText) (n : ℕ) : Extends (scanOnce ft n) (scanLoose ft n) := by
  induction n with
  | zero => exact fun _ _ h => h
  | succ n ih =>
    intro cs r hr
    unfold scanLoose
    split
    · rename_i cs
      obtain ⟨parts, hparts, rfl⟩ := Option.map_eq_some_iff.mp hr
      rw [ih.scanBracket _ _ _ hparts]
      rfl
    · rename_i cs
      obtain ⟨parts, hparts, rfl⟩ := Option.map_eq_some_iff.mp hr
      rw [ih.scanMember.scanBracket _ _ _ hparts]
      rfl
    · rename_i hlist hobject
      -- no brackets, so nothing is read at a lower level
      have hflat : scanOnce ft 1 cs = some r := by
        unfold scanOnce at hr ⊢
        split at hr
        · exact hr
        · exact absurd rfl (hlist _)
        · exact absurd rfl (hobject _)
        · exact hr
        · exact hr
        · exact hr
        · exact hr
      rw [scanConstant_of_scanOnce hflat, hflat]
      rfl

/-- **What the strict decoder reads, `json.loads` reads.** -/
theorem loads_of_decode {s : String} {v : Json} (h : decode ft s = some v) : loads ft s = some v := by
  obtain ⟨⟨w, rest⟩, hw, h⟩ := Option.bind_eq_some_iff.mp h
  exact Option.bind_eq_some_iff.mpr ⟨(w, rest), extends_scanLoose ft _ _ _ hw, h⟩

/-! ## §3 Writing -/

/-- `json.dumps(members, separators=(",", ":"), sort_keys=True)`, `none` where it raises. -/
def dumpsSorted (ft : FloatText) (members : List (String × Json)) : Option String :=
  (encode ft (.obj (members.insertionSort fun a b => a.1 ≤ b.1))).map String.ofList

/-- The keys are written in order. -/
theorem perm_sorted (members : List (String × Json)) : members.Perm (members.insertionSort fun a b => a.1 ≤ b.1) :=
  (List.perm_insertionSort _ members).symm

/-- No float is among the values at the leaves. -/
def NoFloats (vs : List Json) : Prop := ∀ x, .float x ∉ vs

variable {members : List (String × Json)}

theorem mem_leavesMembers {x : Json} : x ∈ leavesMembers members ↔ ∃ m ∈ members, x ∈ leaves m.2 := by
  induction members with
  | nil => simp [leavesMembers]
  | cons m members ih =>
    rw [leavesMembers, List.mem_append, ih, List.exists_mem_cons_iff]

/-- **What was written is read back**, with the keys in order. -/
theorem loads_dumpsSorted {text : String} (h : dumpsSorted ft members = some text)
    (hfloats : NoFloats (leavesMembers members)) :
    loads ft text = some (.obj (members.insertionSort fun a b => a.1 ≤ b.1)) := by
  obtain ⟨t, ht, rfl⟩ := Option.map_eq_some_iff.mp h
  refine loads_of_decode (decode_encode ht fun x hx => absurd ?_ (hfloats x))
  obtain ⟨m, hm, hx⟩ := mem_leavesMembers.mp hx
  exact mem_leavesMembers.mpr ⟨m, (List.mem_insertionSort _).mp hm, hx⟩

theorem isSome_dumpsSorted (ft : FloatText) (hfloats : NoFloats (leavesMembers members))
    (hprintable : Printable (leavesMembers members)) : (dumpsSorted ft members).isSome = true := by
  have hsorted : ∀ x, x ∈ leavesMembers (members.insertionSort fun a b => a.1 ≤ b.1) →
      x ∈ leavesMembers members := by
    intro x hx
    obtain ⟨m, hm, hx⟩ := mem_leavesMembers.mp hx
    exact mem_leavesMembers.mpr ⟨m, (List.mem_insertionSort _).mp hm, hx⟩
  unfold dumpsSorted
  rw [Option.isSome_map]
  exact (isSome_encode ft fun x hx => absurd (hsorted _ hx) (hfloats x)).mpr fun n hn =>
    hprintable n (hsorted _ hn)

end Setka.Lib.JsonText
