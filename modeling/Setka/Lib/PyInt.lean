/-
# Setka.Lib.PyInt — integers written as strings.

`int(s)` in base ten: white space around it, a sign, digits with single underscores between them, and
at most 4300 of these. `str(n)` has the same limit, and within it `int(str(n))` is `n`.
-/
import Setka.Lib.PyFloat

namespace Setka.Lib.PyInt

/-- `int(s)`, `none` for a `ValueError`. -/
def parse (s : String) : Option ℤ :=
  let (neg, cs) := PyFloat.sign (PyStr.strip s).toList
  match PyFloat.digits cs with
  | some (v, n, []) => if 4300 < n then none else some (if neg then -v else v)
  | _ => none

example : parse " -1_000" = some (-1000) := by decide +kernel

example : parse "10.5" = none := by decide +kernel

/-! ## §1 Digits of other scripts -/

/-- The Unicode tables behind `int` and `str.isdigit`: the decimal digits of every script and, in
`isDigit`, also those that are not decimal (superscripts). -/
structure Digits where
  decimal : Char → Option (Fin 10)
  isDigit : Char → Bool
  isDigit_ascii : ∀ c : Char, c.toNat < 128 → isDigit c = c.isDigit

/-- Tables that know the digits of ASCII only. -/
def Digits.ascii : Digits := ⟨fun _ => none, Char.isDigit, fun _ _ => rfl⟩

/-- A decimal digit as the ASCII digit of its value. -/
def Digits.toAscii (u : Digits) (c : Char) : Char :=
  if c.toNat < 128 then c else (u.decimal c).elim c fun d => Nat.digitChar d

/-- `int(s)` for any script, `none` for a `ValueError`. -/
def int (u : Digits) (s : String) : Option ℤ :=
  parse (String.ofList (s.toList.map u.toAscii))

/-! ## §2 Writing integers and reading them back -/

/-- Whether `str(n)` stays within the limit on digits. -/
def Printable (n : ℤ) : Prop := (Nat.toDigits 10 n.natAbs).length ≤ 4300

instance (n : ℤ) : Decidable (Printable n) := inferInstanceAs (Decidable (_ ≤ _))

/-- `str(n)`, `none` for a `ValueError`. -/
def str (n : ℤ) : Option String := if Printable n then some (toString n) else none

/-- A run of digits is read to its end. -/
theorem digits_go_eq {l : List Char} (hl : ∀ c ∈ l, c.isDigit = true) (v n : ℕ) :
    PyFloat.digits.go (some (v, n)) l = some (Nat.ofDigitChars 10 l v, n + l.length, []) := by
  induction l generalizing v n with
  | nil => simp [PyFloat.digits.go]
  | cons c l ih =>
    have hc := hl c List.mem_cons_self
    rw [PyFloat.digits.go.eq_def]
    simp only [hc, if_true, Option.getD_some]
    rw [ih fun d hd => hl d (List.mem_cons_of_mem c hd), List.length_cons]
    have hlen : n + 1 + l.length = n + (l.length + 1) := by omega
    rw [hlen]
    rfl

theorem digits_eq {l : List Char} (hne : l ≠ []) (hl : ∀ c ∈ l, c.isDigit = true) :
    PyFloat.digits l = some (Nat.ofDigitChars 10 l 0, l.length, []) := by
  cases l with
  | nil => exact absurd rfl hne
  | cons c l =>
    unfold PyFloat.digits
    have hc := hl c List.mem_cons_self
    rw [PyFloat.digits.go.eq_def]
    simp only [hc, if_true, Option.getD_none]
    rw [digits_go_eq fun d hd => hl d (List.mem_cons_of_mem c hd), List.length_cons,
      Nat.zero_add, Nat.add_comm 1 l.length, Nat.ofDigitChars_cons, Nat.mul_zero, Nat.zero_add]
    rfl

/-- The characters of a number: a sign that may be there, and digits. -/
theorem toList_toString (n : ℤ) :
    (toString n).toList = (if n < 0 then ['-'] else []) ++ Nat.toDigits 10 n.natAbs := by
  cases n with
  | ofNat m =>
    show (Nat.repr m).toList = _
    simp
  | negSucc m =>
    show ("-" ++ Nat.repr (m + 1)).toList = _
    simp

variable {c : Char}

theorem isDigit_of_mem_toDigits {n : ℕ} (h : c ∈ Nat.toDigits 10 n) : c.isDigit = true :=
  Nat.isDigit_of_mem_toDigits (by omega) (by omega) h

theorem isSpace_of_isDigit (h : c.isDigit = true) : PyStr.isSpace c = false := by
  have hval : 48 ≤ c.toNat ∧ c.toNat ≤ 57 := by simpa [Char.isDigit_iff_toNat] using h
  simp [PyStr.isSpace]
  omega

variable {n : ℤ}

/-- What a printed number consists of. -/
theorem mem_toString (h : c ∈ (toString n).toList) : c = '-' ∨ c.isDigit = true := by
  rw [toList_toString] at h
  rcases List.mem_append.mp h with hsign | hdigit
  · split at hsign
    · exact Or.inl (List.mem_singleton.mp hsign)
    · cases hsign
  · exact Or.inr (isDigit_of_mem_toDigits hdigit)

theorem ascii_of_mem_toString (h : c ∈ (toString n).toList) : c.toNat < 128 := by
  rcases mem_toString h with rfl | hdigit
  · decide
  · have hval : 48 ≤ c.toNat ∧ c.toNat ≤ 57 := by simpa [Char.isDigit_iff_toNat] using hdigit
    omega

/-- A printed number contains no separator. -/
theorem not_mem_toString (hminus : c ≠ '-') (hdigit : c.isDigit = false) : c ∉ (toString n).toList := by
  intro h
  rcases mem_toString h with rfl | hc
  · exact hminus rfl
  · rw [hdigit] at hc
    cases hc

theorem parse_toString (h : Printable n) : parse (toString n) = some n := by
  have hne : Nat.toDigits 10 n.natAbs ≠ [] :=
    List.ne_nil_of_length_pos Nat.length_toDigits_pos
  have hdigits := digits_eq hne fun c hc => isDigit_of_mem_toDigits hc
  rw [Nat.ofDigitChars_ten_toDigits] at hdigits
  have hstrip : PyStr.strip (toString n) = toString n := by
    refine PyStr.strip_of_not_space fun c hc => ?_
    rcases mem_toString hc with rfl | hdigit
    · decide
    · exact isSpace_of_isDigit hdigit
  have hsign : PyFloat.sign (toString n).toList = (decide (n < 0), Nat.toDigits 10 n.natAbs) := by
    rw [toList_toString]
    by_cases hneg : n < 0
    · simp [hneg, PyFloat.sign]
    simp only [hneg, if_false, List.nil_append, decide_false]
    cases hl : Nat.toDigits 10 n.natAbs with
    | nil => exact absurd hl hne
    | cons c l =>
      -- the first character is a digit, so no sign
      have hc : c.isDigit = true := isDigit_of_mem_toDigits (hl ▸ List.mem_cons_self)
      unfold PyFloat.sign
      split
      · simp_all
      · simp_all
      · rfl
  unfold parse
  rw [hstrip, hsign]
  simp only [hdigits]
  rw [if_neg (not_lt.mpr h)]
  by_cases hneg : n < 0
  · have habs : (n.natAbs : ℤ) = -n := by omega
    rw [decide_eq_true hneg, if_pos rfl, habs, neg_neg]
  · have habs : (n.natAbs : ℤ) = n := by omega
    rw [decide_eq_false hneg, if_neg Bool.false_ne_true, habs]

/-- **`int(str(n))` is `n`.** -/
theorem int_toString (u : Digits) (h : Printable n) : int u (toString n) = some n := by
  have hmap : (toString n).toList.map u.toAscii = (toString n).toList := by
    refine (List.map_congr_left fun c hc => ?_).trans (List.map_id _)
    exact if_pos (ascii_of_mem_toString hc)
  unfold int
  rw [hmap, String.ofList_toList, parse_toString h]

end Setka.Lib.PyInt
