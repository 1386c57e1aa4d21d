/-
# Setka.Lib.PyFloat — floating point numbers.

A finite number stands for the exact rational it is written as: rounding to binary is not modelled,
and there is one zero. Parsing, formatting with two decimals and rounding to two decimals are those
of Python on that reading.
-/
import Mathlib.Data.Rat.Floor
import Mathlib.Tactic.Positivity
import Setka.Lib.PyStr

namespace Setka.Lib

/-- A Python `float`. -/
inductive PyFloat
  | finite (q : ℚ)
  | inf
  | negInf
  | nan
  deriving DecidableEq

namespace PyFloat

/-- Whether a number exceeds zero. -/
def isPos : PyFloat → Bool
  | finite q => 0 < q
  | inf => true
  | negInf => false
  | nan => false

/-- The nearest integer, to the even one from halfway. -/
def roundHalfEven (q : ℚ) : ℤ :=
  if q - ⌊q⌋ < 1 / 2 then ⌊q⌋
  else if 1 / 2 < q - ⌊q⌋ then ⌊q⌋ + 1
  else if ⌊q⌋ % 2 = 0 then ⌊q⌋ else ⌊q⌋ + 1

/-- `round(x, 2)`. -/
def round2 : PyFloat → PyFloat
  | finite q => finite (roundHalfEven (q * 100) / 100)
  | x => x

/-- `f"{x:.2f}"`. -/
def format2 : PyFloat → String
  | finite q =>
    let cents := (roundHalfEven (|q| * 100)).toNat
    (if q < 0 then "-" else "") ++ toString (cents / 100) ++ "." ++
      toString (cents % 100 / 10) ++ toString (cents % 10)
  | inf => "inf"
  | negInf => "-inf"
  | nan => "nan"

/-! ## §1 Parsing -/

/-- A nonempty run of digits, single underscores allowed between them: its value, its number of
digits and the rest. -/
def digits : List Char → Option (ℕ × ℕ × List Char) :=
  go none
where
  /-- `acc` is the value and length of the digits read so far. -/
  go : Option (ℕ × ℕ) → List Char → Option (ℕ × ℕ × List Char)
    | acc, c :: cs =>
      if c.isDigit then
        let (v, n) := acc.getD (0, 0)
        go (some (10 * v + (c.toNat - 48), n + 1)) cs
      else if c = '_' then
        match acc, cs with
        | some (v, n), d :: ds =>
          if d.isDigit then go (some (10 * v + (d.toNat - 48), n + 1)) ds
          else some (v, n, c :: cs)
        | some (v, n), [] => some (v, n, [c])
        | none, _ => none
      else acc.map fun (v, n) => (v, n, c :: cs)
    | acc, [] => acc.map fun (v, n) => (v, n, [])

/-- A sign that may be there, whether it is a minus, and the rest. -/
def sign : List Char → Bool × List Char
  | '-' :: cs => (true, cs)
  | '+' :: cs => (false, cs)
  | cs => (false, cs)

/-- An exponent, and nothing after it. -/
def exponent : List Char → Option ℤ
  | [] => some 0
  | c :: cs =>
    if c = 'e' ∨ c = 'E' then
      let (neg, cs) := sign cs
      match digits cs with
      | some (v, _, []) => some (if neg then -v else v)
      | _ => none
    else none

/-- An unsigned decimal number. -/
def decimal (cs : List Char) : Option ℚ :=
  match digits cs with
  | some (v, _, '.' :: rest) =>
    match digits rest with
    | some (w, n, rest) => (exponent rest).map fun e => ((v : ℚ) + w / 10 ^ n) * 10 ^ e
    | none => (exponent rest).map fun e => (v : ℚ) * 10 ^ e
  | some (v, _, rest) => (exponent rest).map fun e => (v : ℚ) * 10 ^ e
  | none =>
    match cs with
    | '.' :: rest =>
      match digits rest with
      | some (w, n, rest) => (exponent rest).map fun e => ((w : ℚ) / 10 ^ n) * 10 ^ e
      | none => none
    | _ => none

/-- `float(s)`, `none` for a `ValueError`. -/
def parse (s : String) : Option PyFloat :=
  let (neg, cs) := sign (PyStr.strip s).toList
  let word := PyStr.lower (String.ofList cs)
  if word = "inf" ∨ word = "infinity" then some (if neg then negInf else inf)
  else if word = "nan" then some nan
  else (decimal cs).map fun q => finite (if neg then -q else q)

/-! ## §2 Comparison and rounding -/

/-- `x <= y`: nothing compares to a number that is not one. -/
def le : PyFloat → PyFloat → Bool
  | finite p, finite q => p ≤ q
  | finite _, inf => true
  | negInf, finite _ => true
  | negInf, inf => true
  | inf, inf => true
  | negInf, negInf => true
  | _, _ => false

variable {x : PyFloat}

theorem le_trans {y z : PyFloat} (hxy : x.le y) (hyz : y.le z) : x.le z := by
  cases x <;> cases y <;> cases z <;> simp_all [le]
  exact hxy.trans hyz

@[simp] theorem roundHalfEven_intCast (n : ℤ) : roundHalfEven n = n := by
  simp [roundHalfEven]

@[simp] theorem round2_cents (n : ℤ) : round2 (finite (n / 100)) = finite (n / 100) := by
  have h : ((n : ℚ) / 100) * 100 = n := by ring
  rw [round2, h, roundHalfEven_intCast]

theorem round2_round2 (x : PyFloat) : x.round2.round2 = x.round2 := by
  cases x with
  | finite q => exact round2_cents _
  | inf => rfl
  | negInf => rfl
  | nan => rfl

theorem le_roundHalfEven {q : ℚ} (h : 0 ≤ q) : 0 ≤ roundHalfEven q := by
  have hfloor : 0 ≤ ⌊q⌋ := Int.floor_nonneg.mpr h
  unfold roundHalfEven
  split
  · exact hfloor
  split
  · omega
  · split <;> omega

/-- A rounded positive number is a number of cents, or infinite. -/
theorem round2_of_isPos (h : x.isPos) : (∃ n : ℕ, x.round2 = finite ((n : ℚ) / 100)) ∨ x.round2 = inf := by
  cases x with
  | finite q =>
    have hq : 0 < q := by simpa [isPos] using h
    obtain ⟨n, hn⟩ := Int.eq_ofNat_of_zero_le (le_roundHalfEven (q := q * 100) (by linarith))
    refine Or.inl ⟨n, ?_⟩
    rw [round2, hn]
    rfl
  | inf => exact Or.inr rfl
  | negInf => cases h
  | nan => cases h

theorem le_self_round2 (h : x.isPos) : x.round2.le x.round2 := by
  rcases round2_of_isPos h with ⟨n, hn⟩ | hinf
  · rw [hn]
    exact decide_eq_true le_rfl
  · rw [hinf]
    rfl

/-! ## §3 What is written with two decimals is read back -/

theorem digits_go_append {cs rest : List Char} (hcs : ∀ c ∈ cs, c.isDigit)
    (hrest : ∀ v n, digits.go (some (v, n)) rest = some (v, n, rest)) (v n : ℕ) :
    digits.go (some (v, n)) (cs ++ rest) = some (Nat.ofDigitChars 10 cs v, n + cs.length, rest) := by
  induction cs generalizing v n with
  | nil => simpa using hrest v n
  | cons c cs ih =>
    have hc : c.isDigit = true := hcs c List.mem_cons_self
    rw [List.cons_append]
    unfold digits.go
    rw [if_pos hc]
    show digits.go (some (10 * v + (c.toNat - 48), n + 1)) (cs ++ rest) = _
    rw [ih (fun d hd => hcs d (List.mem_cons_of_mem c hd)), Nat.ofDigitChars_cons, List.length_cons]
    congr 3
    omega

/-- A run of digits is read up to its end. -/
theorem digits_append {cs rest : List Char} (hne : cs ≠ []) (hcs : ∀ c ∈ cs, c.isDigit)
    (hrest : ∀ v n, digits.go (some (v, n)) rest = some (v, n, rest)) :
    digits (cs ++ rest) = some (Nat.ofDigitChars 10 cs 0, cs.length, rest) := by
  cases cs with
  | nil => exact absurd rfl hne
  | cons c cs =>
    have hc : c.isDigit = true := hcs c List.mem_cons_self
    show digits.go none (c :: (cs ++ rest)) = _
    unfold digits.go
    rw [if_pos hc]
    show digits.go (some (10 * 0 + (c.toNat - 48), 0 + 1)) (cs ++ rest) = _
    rw [digits_go_append (fun d hd => hcs d (List.mem_cons_of_mem c hd)) hrest,
      Nat.ofDigitChars_cons, List.length_cons]
    congr 3
    omega

theorem isDigit_of_mem_repr {n : ℕ} {c : Char} (h : c ∈ (toString n).toList) : c.isDigit := by
  rw [Nat.toString_eq_ofList_toDigits, String.toList_ofList] at h
  exact Nat.isDigit_of_mem_toDigits (by decide) (by decide) h

theorem ofDigitChars_repr (n : ℕ) : Nat.ofDigitChars 10 (toString n).toList 0 = n := by
  rw [Nat.toString_eq_ofList_toDigits, String.toList_ofList, Nat.ofDigitChars_ten_toDigits]

theorem repr_ne_nil (n : ℕ) : (toString n).toList ≠ [] := by
  rw [Nat.toString_eq_ofList_toDigits, String.toList_ofList]
  exact Nat.toDigits_ne_nil

/-- The two digits after the point. -/
theorem repr_digit {d : ℕ} (h : d < 10) : (toString d).toList = [d.digitChar] := by
  rw [Nat.toString_eq_ofList_toDigits, String.toList_ofList, Nat.toDigits_of_lt_base h]

/-- The two digits after the point, read together. -/
theorem digits_cents (n : ℕ) : digits ((toString (n % 100 / 10)).toList ++ (toString (n % 10)).toList) =
      some (n % 100, 2, []) := by
  have htens : n % 100 / 10 < 10 := by omega
  have hunits : n % 10 < 10 := by omega
  have hread := @digits_append ((toString (n % 100 / 10)).toList ++ (toString (n % 10)).toList) [] (by simp)
    (fun c hc => (List.mem_append.mp hc).elim isDigit_of_mem_repr isDigit_of_mem_repr)
    (fun v n => by unfold digits.go; rfl)
  rw [List.append_nil, Nat.ofDigitChars_append, ofDigitChars_repr, repr_digit htens,
    repr_digit hunits, Nat.ofDigitChars_cons_digitChar_of_lt_ten hunits, Nat.ofDigitChars_nil]
    at hread
  rw [repr_digit htens, repr_digit hunits, hread]
  show some (10 * (n % 100 / 10) + n % 10, 2, []) = _
  congr 2
  omega

theorem decimal_cents (n : ℕ) : decimal ((toString (n / 100)).toList ++ '.' :: ((toString (n % 100 / 10)).toList ++
      (toString (n % 10)).toList)) = some ((n : ℚ) / 100) := by
  have hint := @digits_append _ ('.' :: ((toString (n % 100 / 10)).toList ++
    (toString (n % 10)).toList)) (repr_ne_nil (n / 100)) (fun c => isDigit_of_mem_repr)
    (fun v n => by unfold digits.go; rfl)
  have hsplit : ((n / 100 : ℕ) : ℚ) * 100 + ((n % 100 : ℕ) : ℚ) = n := by
    exact_mod_cast Nat.div_add_mod' n 100
  rw [ofDigitChars_repr] at hint
  unfold decimal
  rw [hint]
  simp only [digits_cents]
  show some ((((n / 100 : ℕ) : ℚ) + ((n % 100 : ℕ) : ℚ) / 10 ^ 2) * 10 ^ (0 : ℤ)) = _
  rw [← hsplit]
  congr 1
  ring

theorem format2_cents (n : ℕ) : (format2 (finite ((n : ℚ) / 100))).toList = (toString (n / 100)).toList ++
      '.' :: ((toString (n % 100 / 10)).toList ++ (toString (n % 10)).toList) := by
  have hpos : (0 : ℚ) ≤ (n : ℚ) / 100 := by positivity
  have hcents : (roundHalfEven (|(n : ℚ) / 100| * 100)).toNat = n := by
    rw [abs_of_nonneg hpos, div_mul_cancel₀ _ (by norm_num)]
    show (roundHalfEven ((n : ℤ) : ℚ)).toNat = n
    rw [roundHalfEven_intCast, Int.toNat_natCast]
  unfold format2
  dsimp only
  rw [hcents, if_neg (not_lt.mpr hpos)]
  simp [String.toList_append]

/-- A digit is taken neither for white space nor for a sign, and starts no word. -/
theorem isDigit_spec {c : Char} (h : c.isDigit) :
    PyStr.isSpace c = false ∧ c ≠ '-' ∧ c ≠ '+' ∧ c.toLower = c ∧ c ≠ 'i' ∧ c ≠ 'n' := by
  have hall : ∀ d < 10, PyStr.isSpace (Char.ofNat (48 + d)) = false ∧ Char.ofNat (48 + d) ≠ '-' ∧
      Char.ofNat (48 + d) ≠ '+' ∧ (Char.ofNat (48 + d)).toLower = Char.ofNat (48 + d) ∧
      Char.ofNat (48 + d) ≠ 'i' ∧ Char.ofNat (48 + d) ≠ 'n' := by decide
  have hrange : 48 ≤ c.toNat ∧ c.toNat ≤ 57 := by
    simpa [Char.isDigit, UInt32.le_iff_toNat_le] using h
  have hspec := hall (c.toNat - 48) (by omega)
  rwa [Nat.add_sub_cancel' hrange.1, Char.ofNat_toNat] at hspec

/-- **What `f"{x:.2f}"` writes of a number of cents is read back by `float`.** -/
theorem parse_format2 (n : ℕ) : parse (format2 (finite ((n : ℚ) / 100))) = some (finite ((n : ℚ) / 100)) := by
  obtain ⟨c, cs, hcs⟩ := List.exists_cons_of_ne_nil (repr_ne_nil (n / 100))
  have hunits : (toString (n % 10)).toList = [(n % 10).digitChar] := repr_digit (by omega)
  obtain ⟨hspace, hminus, hplus, hlower, hi, hn⟩ := isDigit_spec (c := c)
    (isDigit_of_mem_repr (n := n / 100) (by rw [hcs]; exact List.mem_cons_self))
  have hlast := isDigit_spec (isDigit_of_mem_repr (n := n % 10) (c := (n % 10).digitChar)
    (by rw [hunits]; exact List.mem_cons_self))
  have htext := format2_cents n
  have hval := decimal_cents n
  rw [hcs, List.cons_append] at hval htext
  have hends : (format2 (finite ((n : ℚ) / 100))).toList =
      c :: ((cs ++ '.' :: (toString (n % 100 / 10)).toList) ++ [(n % 10).digitChar]) := by
    rw [htext, hunits]
    simp
  -- the text starts with a digit, so it is no word and has no sign
  have hword : ∀ (w : String) (d : Char) (ds : List Char), w.toList = d :: ds → c ≠ d →
      PyStr.lower (String.ofList (format2 (finite ((n : ℚ) / 100))).toList) ≠ w := by
    intro w d ds hw hne h
    rw [← h, PyStr.lower, htext, String.toList_ofList, String.toList_ofList, List.map_cons, hlower] at hw
    exact hne (List.cons.inj hw).1
  unfold parse
  rw [PyStr.strip_of_ends hends hspace hlast.1]
  have hsign : sign (format2 (finite ((n : ℚ) / 100))).toList =
      (false, (format2 (finite ((n : ℚ) / 100))).toList) := by
    rw [htext]
    unfold sign
    split
    · rename_i h
      exact absurd (List.cons.inj h).1 hminus
    · rename_i h
      exact absurd (List.cons.inj h).1 hplus
    · rfl
  rw [hsign]
  dsimp only
  rw [if_neg (not_or.mpr ⟨hword _ 'i' _ rfl hi, hword _ 'i' _ rfl hi⟩), if_neg (hword _ 'n' _ rfl hn), htext, hval]
  rfl

theorem parse_format2_round2 (h : x.isPos) : parse x.round2.format2 = some x.round2 := by
  rcases round2_of_isPos h with ⟨n, hn⟩ | hinf
  · rw [hn]
    exact parse_format2 n
  · rw [hinf]
    decide +kernel

example : format2 (finite (5 / 2)) = "2.50" := by decide +kernel

example : parse " 299.50" = some (finite (599 / 2)) := by decide +kernel

end PyFloat

end Setka.Lib
