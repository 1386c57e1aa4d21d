/-
# Setka.Lib.JsonText — JSON written and read.

The encoder and the decoder of Python's `json`: compact separators, everything but printable ASCII
escaped, constants such as `NaN` refused both ways. What was encoded is decoded again, and the text has
no line break. A lone surrogate is no character here, so a text with one is refused; nesting is not
bounded.
-/
import Setka.Lib.Json
import Setka.Lib.PyInt

namespace Setka.Lib.JsonText

open PyInt
open List (cons_append append_assoc length_append length_cons mem_append append_nil mem_cons_self Forall₂ mem_cons
  mem_cons_of_mem nil_append)
open Option (bind_eq_bind bind_some isSome_map)
open String (ofList ofList_toList)

/-- How floating point numbers are written and read: `float.__repr__` and `float(s)`. -/
structure FloatText where
  repr : ℚ → String
  float : String → PyFloat

/-! ## §1 Encoding -/

/-- The letter of a two-character escape. -/
def shortEscape (c : Char) : Option Char :=
  if c = '"' then some '"'
  else if c = '\\' then some '\\'
  else if c = '\x08' then some 'b'
  else if c = '\x0c' then some 'f'
  else if c = '\n' then some 'n'
  else if c = '\r' then some 'r'
  else if c = '\t' then some 't'
  else none

/-- Four hexadecimal digits. -/
def hex4 (n : ℕ) : List Char :=
  [Nat.digitChar (n / 4096 % 16), Nat.digitChar (n / 256 % 16), Nat.digitChar (n / 16 % 16), Nat.digitChar (n % 16)]

/-- A character inside a string: above the basic plane it is a pair of surrogates. -/
def escape (c : Char) : List Char :=
  match shortEscape c with
  | some d => ['\\', d]
  | none =>
    if 0x20 ≤ c.toNat ∧ c.toNat ≤ 0x7e then [c]
    else if c.toNat < 0x10000 then '\\' :: 'u' :: hex4 c.toNat
    else
      '\\' :: 'u' :: hex4 (0xd800 + (c.toNat - 0x10000) / 0x400) ++
        '\\' :: 'u' :: hex4 (0xdc00 + (c.toNat - 0x10000) % 0x400)

def quote (s : String) : List Char := '"' :: s.toList.flatMap escape ++ ['"']

/-- The parts with commas between them, in brackets. -/
def bracket (opening closing : Char) (parts : List (List Char)) : List Char :=
  opening :: [','].intercalate parts ++ [closing]

mutual

/-- `json_encoder.encode(v)`, `none` for a `ValueError`: a number that is none, or an integer with too
many digits. -/
def encode (ft : FloatText) : Json → Option (List Char)
  | .null => some ['n', 'u', 'l', 'l']
  | .bool true => some ['t', 'r', 'u', 'e']
  | .bool false => some ['f', 'a', 'l', 's', 'e']
  | .int n => (PyInt.str n).map String.toList
  | .float (.finite q) => some (ft.repr q).toList
  | .float _ => none
  | .str s => some (quote s)
  | .arr xs => (encodeItems ft xs).map (bracket '[' ']')
  | .obj members => (encodeMembers ft members).map (bracket '\x7b' '\x7d')

def encodeItems (ft : FloatText) : List Json → Option (List (List Char))
  | [] => some []
  | x :: xs => do
      let part ← encode ft x
      let parts ← encodeItems ft xs
      pure (part :: parts)

def encodeMembers (ft : FloatText) : List (String × Json) → Option (List (List Char))
  | [] => some []
  | (key, v) :: members => do
      let part ← encode ft v
      let parts ← encodeMembers ft members
      pure ((quote key ++ ':' :: part) :: parts)

end

/-! ## §2 Decoding -/

/-- White space between the parts of a text. -/
def isSpace (c : Char) : Bool := c = ' ' ∨ c = '\t' ∨ c = '\n' ∨ c = '\r'

def skipSpace (cs : List Char) : List Char := cs.dropWhile isSpace

def unescape (c : Char) : Option Char :=
  if c = '"' then some '"'
  else if c = '\\' then some '\\'
  else if c = '/' then some '/'
  else if c = 'b' then some '\x08'
  else if c = 'f' then some '\x0c'
  else if c = 'n' then some '\n'
  else if c = 'r' then some '\r'
  else if c = 't' then some '\t'
  else none

def hexVal (c : Char) : Option ℕ :=
  if 0x30 ≤ c.toNat ∧ c.toNat ≤ 0x39 then some (c.toNat - 0x30)
  else if 0x61 ≤ c.toNat ∧ c.toNat ≤ 0x66 then some (c.toNat - 0x61 + 10)
  else if 0x41 ≤ c.toNat ∧ c.toNat ≤ 0x46 then some (c.toNat - 0x41 + 10)
  else none

def scanHex4 : List Char → Option (ℕ × List Char)
  | a :: b :: c :: d :: rest => do
      let a ← hexVal a
      let b ← hexVal b
      let c ← hexVal c
      let d ← hexVal d
      pure (a * 4096 + b * 256 + c * 16 + d, rest)
  | _ => none

/-- The second half of a pair of surrogates. -/
def scanLow (high : ℕ) : List Char → Option (Char × List Char)
  | '\\' :: 'u' :: cs => do
      let (low, rest) ← scanHex4 cs
      if 0xdc00 ≤ low ∧ low ≤ 0xdfff then
        pure (Char.ofNat (0x10000 + ((high - 0xd800) * 0x400 + (low - 0xdc00))), rest)
      else none
  | _ => none

/-- One character inside a string, control characters refused. -/
def scanChar : List Char → Option (Char × List Char)
  | '\\' :: 'u' :: cs => do
      let (n, rest) ← scanHex4 cs
      if 0xd800 ≤ n ∧ n ≤ 0xdbff then scanLow n rest
      else if 0xdc00 ≤ n ∧ n ≤ 0xdfff then none
      else pure (Char.ofNat n, rest)
  | '\\' :: c :: rest => (unescape c).map fun d => (d, rest)
  | c :: rest => if c.toNat < 0x20 then none else some (c, rest)
  | [] => none

/-- The rest of a string behind its opening quote. -/
def scanString : ℕ → List Char → Option (List Char × List Char)
  | _, '"' :: rest => some ([], rest)
  | 0, _ => none
  | n + 1, cs => do
      let (c, rest) ← scanChar cs
      let (s, rest) ← scanString n rest
      pure (c :: s, rest)

/-- `\d*` and what follows. -/
def spanDigits (cs : List Char) : List Char × List Char :=
  (cs.takeWhile Char.isDigit, cs.dropWhile Char.isDigit)

/-- `0|[1-9]\d*`. -/
def scanNat : List Char → Option (List Char × List Char)
  | '0' :: rest => some (['0'], rest)
  | cs => if (spanDigits cs).1 = [] then none else some (spanDigits cs)

/-- `-?(0|[1-9]\d*)`. -/
def scanInteger : List Char → Option (List Char × List Char)
  | '-' :: cs => (scanNat cs).map fun (ds, rest) => ('-' :: ds, rest)
  | cs => scanNat cs

/-- `(\.\d+)?`. -/
def scanFraction : List Char → List Char × List Char
  | '.' :: cs =>
    if (spanDigits cs).1 = [] then ([], '.' :: cs)
    else ('.' :: (spanDigits cs).1, (spanDigits cs).2)
  | cs => ([], cs)

/-- `[-+]?`. -/
def scanSign : List Char → List Char × List Char
  | '-' :: cs => (['-'], cs)
  | '+' :: cs => (['+'], cs)
  | cs => ([], cs)

/-- `([eE][-+]?\d+)?`. -/
def scanExponent : List Char → List Char × List Char
  | c :: cs =>
    let (sign, ds) := scanSign cs
    if (c = 'e' ∨ c = 'E') ∧ (spanDigits ds).1 ≠ [] then
      (c :: sign ++ (spanDigits ds).1, (spanDigits ds).2)
    else ([], c :: cs)
  | [] => ([], [])

/-- A number: an integer unless it has a fraction or an exponent. -/
def scanNumber (ft : FloatText) (cs : List Char) : Option (Json × List Char) := do
  let (integer, cs) ← scanInteger cs
  let (fraction, cs) := scanFraction cs
  let (exponent, rest) := scanExponent cs
  if fraction = [] ∧ exponent = [] then
    let n ← PyInt.parse (String.ofList integer)
    pure (.int n, rest)
  else pure (.float (ft.float (String.ofList (integer ++ fraction ++ exponent))), rest)

section Brackets

variable {α : Type}

/-- Parts with commas between them, up to the closing bracket. -/
def scanParts (scan : List Char → Option (α × List Char)) (closing : Char) :
    ℕ → List Char → Option (List α × List Char)
  | 0, _ => none
  | n + 1, cs => do
      let (v, rest) ← scan cs
      match skipSpace rest with
      | c :: rest =>
        if c = ',' then do
          let (vs, rest) ← scanParts scan closing n (skipSpace rest)
          pure (v :: vs, rest)
        else if c = closing then pure ([v], rest)
        else none
      | [] => none

/-- What follows an opening bracket. -/
def scanBracket (scan : List Char → Option (α × List Char)) (closing : Char) (cs : List Char) :
    Option (List α × List Char) :=
  match skipSpace cs with
  | c :: rest => if c = closing then some ([], rest) else scanParts scan closing cs.length (c :: rest)
  | [] => none

/-- A key, a colon and a value. -/
def scanMember (scan : List Char → Option (α × List Char)) : List Char → Option ((String × α) × List Char)
  | '"' :: cs => do
      let (key, rest) ← scanString cs.length cs
      match skipSpace rest with
      | ':' :: rest =>
        let (v, rest) ← scan (skipSpace rest)
        pure ((String.ofList key, v), rest)
      | _ => none
  | _ => none

end Brackets

/-- `scan_once`: the value that a text starts with. -/
def scanOnce (ft : FloatText) : ℕ → List Char → Option (Json × List Char)
  | 0, _ => none
  | n + 1, cs =>
    match cs with
    | '"' :: cs => (scanString cs.length cs).map fun (s, rest) => (.str (String.ofList s), rest)
    | '[' :: cs => (scanBracket (scanOnce ft n) ']' cs).map fun (xs, rest) => (.arr xs, rest)
    | '\x7b' :: cs =>
      (scanBracket (scanMember (scanOnce ft n)) '\x7d' cs).map fun (ms, rest) => (.obj ms, rest)
    | 'n' :: 'u' :: 'l' :: 'l' :: rest => some (.null, rest)
    | 't' :: 'r' :: 'u' :: 'e' :: rest => some (.bool true, rest)
    | 'f' :: 'a' :: 'l' :: 's' :: 'e' :: rest => some (.bool false, rest)
    | cs => scanNumber ft cs

/-- `json_decoder.decode(s)`, `none` for a `ValueError`. -/
def decode (ft : FloatText) (s : String) : Option Json := do
  let (v, rest) ← scanOnce ft (s.toList.length + 1) (skipSpace s.toList)
  if skipSpace rest = [] then pure v else none

/-! ## §3 Strings -/

theorem hexVal_digitChar {d : ℕ} (h : d < 16) : hexVal (Nat.digitChar d) = some d := by
  have hall : ∀ d, d < 16 → hexVal (Nat.digitChar d) = some d := by decide
  exact hall d h

variable {n : ℕ}

theorem scanHex4_hex4 (h : n < 0x10000) (rest : List Char) : scanHex4 (hex4 n ++ rest) = some (n, rest) := by
  have hvalue : n / 4096 % 16 * 4096 + n / 256 % 16 * 256 + n / 16 % 16 * 16 + n % 16 = n := by omega
  show (do
    let a ← hexVal (Nat.digitChar (n / 4096 % 16))
    let b ← hexVal (Nat.digitChar (n / 256 % 16))
    let c ← hexVal (Nat.digitChar (n / 16 % 16))
    let d ← hexVal (Nat.digitChar (n % 16))
    pure (a * 4096 + b * 256 + c * 16 + d, rest)) = some (n, rest)
  rw [hexVal_digitChar (by omega), hexVal_digitChar (by omega), hexVal_digitChar (by omega),
    hexVal_digitChar (by omega)]
  exact congrArg (fun m => some (m, rest)) hvalue

variable {c d : Char}

theorem unescape_shortEscape (h : shortEscape c = some d) : unescape d = some c ∧ d ≠ 'u' := by
  unfold shortEscape at h
  split at h <;> [skip; split at h <;> [skip; split at h <;> [skip; split at h <;> [skip;
    split at h <;> [skip; split at h <;> [skip; split at h]]]]]]
  all_goals first
    | (obtain rfl := Option.some.inj h; subst_vars; decide)
    | cases h

/-- An escape by number. -/
theorem scanChar_unicode (h : n < 0x10000) (rest : List Char) : scanChar ('\\' :: 'u' :: (hex4 n ++ rest)) =
      if 0xd800 ≤ n ∧ n ≤ 0xdbff then scanLow n rest
      else if 0xdc00 ≤ n ∧ n ≤ 0xdfff then none
      else some (Char.ofNat n, rest) := by
  rw [scanChar, scanHex4_hex4 h]
  rfl

theorem scanLow_unicode (high : ℕ) (h : n < 0x10000) (rest : List Char) :
    scanLow high ('\\' :: 'u' :: (hex4 n ++ rest)) = if 0xdc00 ≤ n ∧ n ≤ 0xdfff then
        some (Char.ofNat (0x10000 + ((high - 0xd800) * 0x400 + (n - 0xdc00))), rest)
      else none := by
  rw [scanLow, scanHex4_hex4 h]
  rfl

theorem scanChar_short (hd : d ≠ 'u') (rest : List Char) :
    scanChar ('\\' :: d :: rest) = (unescape d).map fun d => (d, rest) := by
  rw [scanChar]
  rintro rfl
  exact hd rfl

theorem scanChar_plain (hback : c ≠ '\\') (hcontrol : ¬ c.toNat < 0x20)
    (rest : List Char) : scanChar (c :: rest) = some (c, rest) := by
  rw [scanChar, if_neg hcontrol]
  · rintro cs rfl
    exact absurd rfl hback
  · rintro d cs rfl
    exact absurd rfl hback

/-- **An escaped character is read back.** -/
theorem scanChar_escape (c : Char) (rest : List Char) : scanChar (escape c ++ rest) = some (c, rest) := by
  unfold escape
  cases hshort : shortEscape c with
  | some d =>
    obtain ⟨hd, hu⟩ := unescape_shortEscape hshort
    show scanChar ('\\' :: d :: rest) = _
    rw [scanChar_short hu, hd]
    rfl
  | none =>
    have hback : c ≠ '\\' := by
      rintro rfl
      exact absurd hshort (by decide)
    have hvalid : c.toNat < 0xd800 ∨ 0xdfff < c.toNat ∧ c.toNat < 0x110000 := c.valid
    generalize hn : c.toNat = n at hvalid
    have hchar : Char.ofNat n = c := by rw [← hn, Char.ofNat_toNat]
    by_cases hplain : 0x20 ≤ n ∧ n ≤ 0x7e
    · rw [if_pos hplain]
      exact scanChar_plain hback (by omega) rest
    rw [if_neg hplain]
    by_cases hbmp : n < 0x10000
    · rw [if_pos hbmp]
      show scanChar ('\\' :: 'u' :: (hex4 n ++ rest)) = _
      rw [scanChar_unicode hbmp, if_neg (by omega), if_neg (by omega), hchar]
    rw [if_neg hbmp, append_assoc]
    -- twenty bits, ten in each surrogate
    show scanChar ('\\' :: 'u' :: (hex4 (0xd800 + (n - 0x10000) / 0x400) ++
      ('\\' :: 'u' :: (hex4 (0xdc00 + (n - 0x10000) % 0x400) ++ rest)))) = _
    rw [scanChar_unicode (by omega), if_pos (by omega), scanLow_unicode _ (by omega), if_pos (by omega)]
    have hvalue : 0x10000 + ((0xd800 + (n - 0x10000) / 0x400 - 0xd800) * 0x400 +
        (0xdc00 + (n - 0x10000) % 0x400 - 0xdc00)) = n := by omega
    rw [hvalue, hchar]

theorem escape_ne_quote (c : Char) : ∃ d ds, escape c = d :: ds ∧ d ≠ '"' := by
  unfold escape
  cases hshort : shortEscape c with
  | some d => exact ⟨'\\', [d], rfl, by decide⟩
  | none =>
    dsimp only
    split
    · refine ⟨c, [], rfl, ?_⟩
      rintro rfl
      exact absurd hshort (by decide)
    split
    · exact ⟨'\\', _, rfl, by decide⟩
    · exact ⟨'\\', _, rfl, by decide⟩

/-- **A quoted string is read back.** -/
theorem scanString_escape {cs : List Char} (h : cs.length ≤ n) (rest : List Char) :
    scanString n (cs.flatMap escape ++ '"' :: rest) = some (cs, rest) := by
  induction cs generalizing n with
  | nil => cases n <;> rfl
  | cons c cs ih =>
    rw [length_cons] at h
    obtain ⟨m, rfl⟩ : ∃ m, n = m + 1 := ⟨n - 1, by omega⟩
    obtain ⟨d, ds, hescape, hquote⟩ := escape_ne_quote c
    have hchar := scanChar_escape c (cs.flatMap escape ++ '"' :: rest)
    rw [List.flatMap_cons, append_assoc]
    rw [hescape] at hchar ⊢
    rw [scanString, hchar]
    · simp only [bind_eq_bind, bind_some, ih (show cs.length ≤ m by omega)]
      rfl
    · intro _ heq
      exact hquote (List.cons.inj heq).1

theorem length_le_flatMap_escape (cs : List Char) : cs.length ≤ (cs.flatMap escape).length := by
  induction cs with
  | nil => exact Nat.le_refl 0
  | cons c cs ih =>
    obtain ⟨d, ds, hescape, -⟩ := escape_ne_quote c
    rw [List.flatMap_cons, length_append, hescape]
    simp only [length_cons]
    omega

/-- A string with its quotes, whatever follows. -/
theorem scanString_quote (s : String) (rest : List Char) :
    scanString (s.toList.flatMap escape ++ '"' :: rest).length
      (s.toList.flatMap escape ++ '"' :: rest) = some (s.toList, rest) := by
  refine scanString_escape ?_ rest
  have := length_le_flatMap_escape s.toList
  rw [length_append]
  omega

/-- A character that stands in a line as it is. -/
def Plain (c : Char) : Prop := 0x20 ≤ c.toNat ∧ c.toNat ≤ 0x7e

instance : DecidablePred Plain := fun _ => inferInstanceAs (Decidable (_ ∧ _))

theorem plain_of_all {cs : List Char} (h : (cs.all fun c => decide (Plain c)) = true) : ∀ c ∈ cs, Plain c :=
  fun c hc => of_decide_eq_true (List.all_eq_true.mp h c hc)

theorem plain_hex4 (h : c ∈ hex4 n) : Plain c := by
  have hall : ∀ d, d < 16 → Plain (Nat.digitChar d) := by decide
  simp only [hex4, mem_cons, List.not_mem_nil, or_false] at h
  rcases h with rfl | rfl | rfl | rfl
  all_goals exact hall _ (Nat.mod_lt _ (by omega))

theorem plain_shortEscape (h : shortEscape c = some d) : Plain d := by
  unfold shortEscape at h
  split at h <;> [skip; split at h <;> [skip; split at h <;> [skip; split at h <;> [skip;
    split at h <;> [skip; split at h <;> [skip; split at h]]]]]]
  all_goals first
    | (obtain rfl := Option.some.inj h; decide)
    | cases h

theorem plain_escape (h : d ∈ escape c) : Plain d := by
  have hback : Plain '\\' := by decide
  have hu : Plain 'u' := by decide
  unfold escape at h
  cases hshort : shortEscape c with
  | some e =>
    rw [hshort] at h
    rcases List.mem_pair.mp h with rfl | rfl
    · exact hback
    · exact plain_shortEscape hshort
  | none =>
    rw [hshort] at h
    dsimp only at h
    split at h
    · rename_i hplain
      rw [List.mem_singleton.mp h]
      exact hplain
    split at h
    · rcases List.mem_cons.mp h with rfl | h
      · exact hback
      · rcases List.mem_cons.mp h with rfl | h
        · exact hu
        · exact plain_hex4 h
    simp only [cons_append, mem_cons, mem_append] at h
    rcases h with rfl | rfl | h | rfl | rfl | h
    · exact hback
    · exact hu
    · exact plain_hex4 h
    · exact hback
    · exact hu
    · exact plain_hex4 h

theorem plain_quote {s : String} (h : c ∈ quote s) : Plain c := by
  simp only [quote, mem_cons, cons_append, mem_append, List.mem_flatMap,
    List.not_mem_nil, or_false] at h
  rcases h with rfl | ⟨d, -, h⟩ | rfl
  · decide
  · exact plain_escape h
  · decide

/-! ## §4 Numbers -/

/-- One or more digits. -/
def Digits (ds : List Char) : Prop := ds ≠ [] ∧ ∀ c ∈ ds, c.isDigit = true

/-- The shape of a number in a text: integer, fraction and exponent. -/
structure Numeral (integer fraction exponent : List Char) : Prop where
  integer : ∃ ds, Digits ds ∧ (ds = ['0'] ∨ ds.head? ≠ some '0') ∧
    (integer = ds ∨ integer = '-' :: ds)
  fraction : fraction = [] ∨ ∃ ds, Digits ds ∧ fraction = '.' :: ds
  exponent : exponent = [] ∨ ∃ sign ds, Digits ds ∧ (sign = [] ∨ sign = ['-'] ∨ sign = ['+']) ∧
    exponent = 'e' :: sign ++ ds

/-- What `repr` promises of a float: a number with a fraction or an exponent that reads back as it. -/
def FloatText.ReadsBack (ft : FloatText) (q : ℚ) : Prop :=
  ∃ integer fraction exponent, (ft.repr q).toList = integer ++ fraction ++ exponent ∧
    Numeral integer fraction exponent ∧ ¬ (fraction = [] ∧ exponent = []) ∧
    ft.float (ft.repr q) = .finite q

/-- The text goes on with nothing that `p` holds of. -/
def Ends (p : Char → Prop) (rest : List Char) : Prop := ∀ c ∈ rest.head?, ¬ p c

/-- What may follow a number. -/
abbrev Stops (rest : List Char) : Prop :=
  Ends (fun c => c.isDigit = true ∨ c = '.' ∨ c = 'e' ∨ c = 'E') rest

variable {rest : List Char}

theorem ends_cons {p : Char → Prop} (h : ¬ p c) : Ends p (c :: rest) := by
  intro d hd
  rw [List.head?_cons, Option.mem_some_iff] at hd
  exact hd ▸ h

variable {ds : List Char}

theorem spanDigits_append (hds : ∀ c ∈ ds, c.isDigit = true) (rest : List Char)
    (hrest : Ends (fun c => c.isDigit = true) rest) : spanDigits (ds ++ rest) = (ds, rest) := by
  have htail : rest.takeWhile Char.isDigit = [] ∧ rest.dropWhile Char.isDigit = rest := by
    cases rest with
    | nil => exact ⟨rfl, rfl⟩
    | cons c cs =>
      have hc : ¬ c.isDigit = true := hrest c rfl
      simp [hc]
  unfold spanDigits
  rw [List.takeWhile_append_of_pos hds, List.dropWhile_append_of_pos hds, htail.1, htail.2, append_nil]

theorem isDigit_head (h : Digits ds) : ∃ c cs, ds = c :: cs ∧ c.isDigit = true := by
  cases ds with
  | nil => exact absurd rfl h.1
  | cons c cs => exact ⟨c, cs, rfl, h.2 c mem_cons_self⟩

theorem scanNat_append (h : Digits ds) (hzero : ds = ['0'] ∨ ds.head? ≠ some '0')
    (hrest : Ends (fun c => c.isDigit = true) rest) : scanNat (ds ++ rest) = some (ds, rest) := by
  rcases hzero with rfl | hzero
  · rfl
  have hspan := spanDigits_append h.2 rest hrest
  obtain ⟨c, cs, rfl, -⟩ := isDigit_head h
  rw [scanNat, hspan, if_neg h.1]
  intro _ heq
  exact hzero (by rw [(List.cons.inj heq).1]; rfl)

variable {integer : List Char}

theorem scanInteger_append (h : Digits ds) (hzero : ds = ['0'] ∨ ds.head? ≠ some '0')
    (hsign : integer = ds ∨ integer = '-' :: ds) (hrest : Ends (fun c => c.isDigit = true) rest) :
    scanInteger (integer ++ rest) = some (integer, rest) := by
  have hnat := scanNat_append h hzero hrest
  rcases hsign with rfl | rfl
  · obtain ⟨c, cs, rfl, hc⟩ := isDigit_head h
    rw [scanInteger, hnat]
    intro _ heq
    rw [(List.cons.inj heq).1] at hc
    exact absurd hc (by decide)
  · rw [cons_append, scanInteger, hnat]
    rfl

variable {fraction : List Char}

theorem scanFraction_append (h : fraction = [] ∨ ∃ ds, Digits ds ∧ fraction = '.' :: ds)
    (hrest : Ends (fun c => c.isDigit = true ∨ c = '.') rest) :
    scanFraction (fraction ++ rest) = (fraction, rest) := by
  rcases h with rfl | ⟨ds, hds, rfl⟩
  · cases rest with
    | nil => rfl
    | cons c cs =>
      have hdot : c ≠ '.' := fun heq => hrest c rfl (Or.inr heq)
      rw [nil_append, scanFraction]
      intro _ heq
      exact hdot (List.cons.inj heq).1
  · have hspan := spanDigits_append hds.2 rest fun c hc hd => hrest c hc (Or.inl hd)
    rw [cons_append, scanFraction, hspan, if_neg hds.1]

theorem scanSign_append {sign : List Char} (hds : Digits ds) (h : sign = [] ∨ sign = ['-'] ∨ sign = ['+'])
    (rest : List Char) : scanSign (sign ++ (ds ++ rest)) = (sign, ds ++ rest) := by
  rcases h with rfl | rfl | rfl
  · obtain ⟨c, cs, rfl, hc⟩ := isDigit_head hds
    rw [nil_append, cons_append, scanSign]
    · intro _ heq
      rw [(List.cons.inj heq).1] at hc
      exact absurd hc (by decide)
    intro _ heq
    rw [(List.cons.inj heq).1] at hc
    exact absurd hc (by decide)
  · rfl
  · rfl

theorem scanExponent_append {exponent rest : List Char}
    (h : exponent = [] ∨ ∃ sign ds, Digits ds ∧ (sign = [] ∨ sign = ['-'] ∨ sign = ['+']) ∧
      exponent = 'e' :: sign ++ ds)
    (hrest : Ends (fun c => c.isDigit = true ∨ c = 'e' ∨ c = 'E') rest) :
    scanExponent (exponent ++ rest) = (exponent, rest) := by
  rcases h with rfl | ⟨sign, ds, hds, hsign, rfl⟩
  · cases rest with
    | nil => rfl
    | cons c cs =>
      have he : ¬ (c = 'e' ∨ c = 'E') := fun heq => hrest c rfl (Or.inr heq)
      exact if_neg fun h => he h.1
  · have hspan := spanDigits_append hds.2 rest fun c hc hd => hrest c hc (Or.inl hd)
    rw [append_assoc, cons_append, scanExponent, scanSign_append hds hsign]
    dsimp only
    rw [hspan, if_pos ⟨Or.inl rfl, hds.1⟩, cons_append]

/-- **A number is read to its end.** -/
theorem scanNumber_append (ft : FloatText) {exponent : List Char} (h : Numeral integer fraction exponent)
    (hrest : Stops rest) : scanNumber ft (integer ++ fraction ++ exponent ++ rest) =
      if fraction = [] ∧ exponent = [] then
        (PyInt.parse (ofList integer)).map fun n => (.int n, rest)
      else some (.float (ft.float (ofList (integer ++ fraction ++ exponent))), rest) := by
  obtain ⟨ds, hds, hzero, hsign⟩ := h.integer
  have hexp := @scanExponent_append _ rest h.exponent fun c hc hp => by
    rcases hp with hp | hp | hp
    · exact hrest c hc (Or.inl hp)
    · exact hrest c hc (Or.inr (Or.inr (Or.inl hp)))
    · exact hrest c hc (Or.inr (Or.inr (Or.inr hp)))
  have hfrac : scanFraction (fraction ++ (exponent ++ rest)) = (fraction, exponent ++ rest) := by
    refine scanFraction_append h.fraction ?_
    rcases h.exponent with rfl | ⟨sign, es, -, -, rfl⟩
    · intro c hc hp
      rcases hp with hp | hp
      · exact hrest c hc (Or.inl hp)
      · exact hrest c hc (Or.inr (Or.inl hp))
    · exact ends_cons (by decide)
  have hint : scanInteger (integer ++ (fraction ++ (exponent ++ rest))) =
      some (integer, fraction ++ (exponent ++ rest)) := by
    refine scanInteger_append hds hzero hsign ?_
    rcases h.fraction with rfl | ⟨fs, -, rfl⟩
    · rcases h.exponent with rfl | ⟨sign, es, -, -, rfl⟩
      · exact fun c hc hp => hrest c hc (Or.inl hp)
      · exact ends_cons (by decide)
    · exact ends_cons (by decide)
  rw [append_assoc, append_assoc]
  unfold scanNumber
  rw [hint]
  simp only [bind_eq_bind, bind_some, hfrac, hexp]
  split
  · cases PyInt.parse (ofList integer) <;> rfl
  · rfl

/-- The first digit of a number above zero is no zero. -/
theorem toDigits_head (n : ℕ) : Nat.toDigits 10 n = ['0'] ∨ (Nat.toDigits 10 n).head? ≠ some '0' := by
  induction n using Nat.strongRecOn with
  | ind n ih =>
    by_cases hsmall : n < 10
    · rw [Nat.toDigits_of_lt_base hsmall]
      by_cases hzero : n = 0
      · exact Or.inl (by rw [hzero]; rfl)
      · exact Or.inr (by simpa using hzero)
    have hbase : 10 ≤ n := by omega
    rw [Nat.toDigits_of_base_le (by omega) hbase]
    right
    rcases ih (n / 10) (by omega) with heq | hne
    · -- only zero is written as a single zero
      have hvalue : Nat.ofDigitChars 10 (Nat.toDigits 10 (n / 10)) 0 = n / 10 :=
        Nat.ofDigitChars_ten_toDigits
      rw [heq] at hvalue
      have : n / 10 = 0 := hvalue.symm
      omega
    · rw [List.head?_append_of_ne_nil _ Nat.toDigits_ne_nil]
      exact hne

theorem numeral_toString (n : ℤ) : Numeral (toString n).toList [] [] := by
  refine ⟨⟨Nat.toDigits 10 n.natAbs, ⟨Nat.toDigits_ne_nil, fun c hc =>
    isDigit_of_mem_toDigits hc⟩, toDigits_head _, ?_⟩, Or.inl rfl, Or.inl rfl⟩
  rw [toList_toString]
  split
  · exact Or.inr rfl
  · exact Or.inl rfl

theorem scanNumber_int (ft : FloatText) {n : ℤ} (h : PyInt.Printable n)
    (hrest : Stops rest) : scanNumber ft ((toString n).toList ++ rest) = some (.int n, rest) := by
  have hscan := scanNumber_append ft (numeral_toString n) hrest
  rw [append_nil, append_nil] at hscan
  rw [hscan, if_pos ⟨rfl, rfl⟩, ofList_toList, parse_toString h]
  rfl

variable {ft : FloatText}

theorem scanNumber_float {q : ℚ} (h : ft.ReadsBack q) (hrest : Stops rest) :
    scanNumber ft ((ft.repr q).toList ++ rest) = some (.float (.finite q), rest) := by
  obtain ⟨integer, fraction, exponent, htext, hshape, hfloat, hvalue⟩ := h
  rw [htext, scanNumber_append ft hshape hrest, if_neg hfloat, ← htext, ofList_toList, hvalue]

/-! ## §5 Brackets -/

section Brackets

variable {α : Type} {scan : List Char → Option (α × List Char)} {closing : Char}

/-- A part is read back, and starts with neither white space nor the closing bracket. -/
structure Part (scan : List Char → Option (α × List Char)) (closing : Char) (part : List Char) (v : α) : Prop where
  read : ∀ rest, Stops rest → scan (part ++ rest) = some (v, rest)
  starts : ∃ c cs, part = c :: cs ∧ isSpace c = false ∧ c ≠ closing

theorem skipSpace_cons {c : Char} (h : isSpace c = false) (rest : List Char) :
    skipSpace (c :: rest) = c :: rest := List.dropWhile_cons_of_neg (by rw [h]; exact Bool.false_ne_true)

variable {parts : List (List Char)} {vs : List α}

theorem scanParts_join (hclosing : isSpace closing = false) (hcomma : closing ≠ ',')
    (hstops : ∀ rest, Stops (closing :: rest)) (h : Forall₂ (Part scan closing) parts vs)
    (hne : parts ≠ []) {n : ℕ} (hn : parts.length ≤ n) (rest : List Char) :
    scanParts scan closing n ([','].intercalate parts ++ closing :: rest) = some (vs, rest) := by
  induction h generalizing n with
  | nil => exact absurd rfl hne
  | @cons part v parts vs hpart hparts ih =>
    rw [length_cons] at hn
    obtain ⟨m, rfl⟩ : ∃ m, n = m + 1 := ⟨n - 1, by omega⟩
    rw [scanParts]
    cases hparts with
    | nil =>
      rw [List.intercalate_singleton, hpart.read _ (hstops rest)]
      simp only [bind_eq_bind, bind_some, skipSpace_cons hclosing, if_neg hcomma, if_true]
      rfl
    | @cons part' v' parts vs hpart' hparts =>
      have hih := ih (by simp) (show _ ≤ m by omega)
      have hskip : skipSpace ([','].intercalate (part' :: parts) ++ closing :: rest) =
          [','].intercalate (part' :: parts) ++ closing :: rest := by
        obtain ⟨c, cs, rfl, hc, -⟩ := hpart'.starts
        rw [List.intercalate_cons_cons_left]
        exact skipSpace_cons hc _
      have hstop : Stops (',' :: ([','].intercalate (part' :: parts) ++ closing :: rest)) :=
        ends_cons (by decide)
      rw [List.intercalate_cons_cons, append_assoc, append_assoc, List.singleton_append,
        hpart.read _ hstop]
      simp only [bind_eq_bind, bind_some,
        skipSpace_cons (show isSpace ',' = false by decide), if_true, hskip, hih]
      rfl

theorem Part.ne_nil (h : Forall₂ (Part scan closing) parts vs) : ∀ part ∈ parts, part ≠ [] := by
  induction h with
  | nil => simp
  | cons hpart hparts ih =>
    obtain ⟨c, cs, rfl, -⟩ := hpart.starts
    exact List.forall_mem_cons.mpr ⟨List.cons_ne_nil c cs, ih⟩

theorem length_le_intercalate (h : ∀ part ∈ parts, part ≠ []) :
    parts.length ≤ ([','].intercalate parts).length := by
  induction parts with
  | nil => exact Nat.le_refl 0
  | cons part parts ih =>
    have hpart := List.length_pos_of_ne_nil (h part mem_cons_self)
    have hparts := ih fun p hp => h p (mem_cons_of_mem part hp)
    by_cases hnil : parts = []
    · subst hnil
      rw [List.intercalate_singleton]
      exact hpart
    · rw [List.intercalate_cons_of_ne_nil hnil, length_append, length_append, length_cons]
      omega

/-- **What stands in brackets is read back part by part.** -/
theorem scanBracket_join (hclosing : isSpace closing = false) (hcomma : closing ≠ ',')
    (hstops : ∀ rest, Stops (closing :: rest)) (h : Forall₂ (Part scan closing) parts vs)
    (rest : List Char) :
    scanBracket scan closing ([','].intercalate parts ++ closing :: rest) = some (vs, rest) := by
  have hlength := length_le_intercalate (Part.ne_nil h)
  unfold scanBracket
  cases h with
  | nil =>
    rw [List.intercalate_nil, nil_append, skipSpace_cons hclosing]
    exact if_pos rfl
  | @cons part v parts vs hpart hparts =>
    have hjoin := scanParts_join hclosing hcomma hstops (List.Forall₂.cons hpart hparts)
      (List.cons_ne_nil _ _) (n := ([','].intercalate (part :: parts) ++ closing :: rest).length)
      (by rw [length_append]; omega) rest
    obtain ⟨c, cs, rfl, hc, hne⟩ := hpart.starts
    rw [List.intercalate_cons_cons_left] at hjoin ⊢
    rw [cons_append] at hjoin ⊢
    rw [skipSpace_cons hc]
    dsimp only
    rw [if_neg hne]
    exact hjoin

end Brackets

/-! ## §6 Values -/

mutual

/-- The values at the leaves. -/
def leaves : Json → List Json
  | .arr xs => leavesItems xs
  | .obj members => leavesMembers members
  | v => [v]

def leavesItems : List Json → List Json
  | [] => []
  | x :: xs => leaves x ++ leavesItems xs

def leavesMembers : List (String × Json) → List Json
  | [] => []
  | (_, v) :: members => leaves v ++ leavesMembers members

end

/-- Every float at a leaf is a number, and `repr` writes it so that it reads back. -/
def FloatsReadBack (ft : FloatText) (vs : List Json) : Prop :=
  ∀ x, .float x ∈ vs → ∃ q, x = .finite q ∧ ft.ReadsBack q

/-- Every integer at a leaf has few enough digits to be written. -/
def Printable (vs : List Json) : Prop := ∀ n, .int n ∈ vs → PyInt.Printable n

variable {us vs : List Json}

theorem FloatsReadBack.left (h : FloatsReadBack ft (us ++ vs)) :
    FloatsReadBack ft us := fun x hx => h x (List.mem_append_left vs hx)

theorem FloatsReadBack.right (h : FloatsReadBack ft (us ++ vs)) :
    FloatsReadBack ft vs := fun x hx => h x (List.mem_append_right us hx)

theorem printable_append : Printable (us ++ vs) ↔ Printable us ∧ Printable vs := by
  simp only [Printable, mem_append]
  constructor
  · exact fun h => ⟨fun n hn => h n (Or.inl hn), fun n hn => h n (Or.inr hn)⟩
  rintro ⟨hu, hv⟩ n (hn | hn)
  · exact hu n hn
  · exact hv n hn

/-- The text of a value is read back as it, whatever follows. -/
def Reads (ft : FloatText) (n : ℕ) (t : List Char) (v : Json) : Prop :=
  ∀ rest, Stops rest → scanOnce ft n (t ++ rest) = some (v, rest)

/-- What the text of a value starts with. -/
def Opens (t : List Char) : Prop :=
  ∃ c cs, t = c :: cs ∧ (c = '-' ∨ c.isDigit = true ∨ c ∈ ['n', 't', 'f', '"', '[', '\x7b'])

theorem Opens.starts {t : List Char} (h : Opens t) {closing : Char} (hclosing : closing = ']' ∨ closing = '\x7d') :
    ∃ c cs, t = c :: cs ∧ isSpace c = false ∧ c ≠ closing := by
  obtain ⟨c, cs, rfl, hc⟩ := h
  refine ⟨c, cs, rfl, ?_⟩
  have hne : ∀ d : Char, d.isDigit = false ∧ d ≠ '-' ∧ d ∉ ['n', 't', 'f', '"', '[', '\x7b'] → c ≠ d := by
    rintro d ⟨hdigit, hminus, hmem⟩ rfl
    rcases hc with hc | hc | hc
    · exact hminus hc
    · rw [hdigit] at hc
      cases hc
    · exact hmem hc
  constructor
  · have := hne ' ' (by decide)
    simp [isSpace, *]
  · rcases hclosing with rfl | rfl
    · exact hne _ (by decide)
    · exact hne _ (by decide)

/-- A number is not taken for anything else. -/
theorem scanOnce_number (ft : FloatText) (n : ℕ) (hc : c = '-' ∨ c.isDigit = true)
    (cs : List Char) : scanOnce ft (n + 1) (c :: cs) = scanNumber ft (c :: cs) := by
  have hne : ∀ d : Char, d.isDigit = false ∧ d ≠ '-' → c ≠ d := by
    rintro d ⟨hdigit, hminus⟩ rfl
    rcases hc with hc | hc
    · exact hminus hc
    · rw [hdigit] at hc
      cases hc
  rw [scanOnce]
  all_goals
    intro _ heq
    exact hne _ (by decide) (List.cons.inj heq).1

variable {parts : List (List Char)}

theorem encodeItems_cons {x : Json} {xs : List Json} : encodeItems ft (x :: xs) = some parts ↔
      ∃ part, encode ft x = some part ∧ ∃ rest, encodeItems ft xs = some rest ∧ parts = part :: rest := by
  rw [encodeItems]
  cases encode ft x with
  | none => simp
  | some part =>
    cases encodeItems ft xs with
    | none => simp
    | some rest => simp [eq_comm]

variable {v : Json}

theorem encodeMembers_cons {key : String} {members : List (String × Json)} :
    encodeMembers ft ((key, v) :: members) = some parts ↔
      ∃ part, encode ft v = some part ∧ ∃ rest, encodeMembers ft members = some rest ∧
        parts = (quote key ++ ':' :: part) :: rest := by
  rw [encodeMembers]
  cases encode ft v with
  | none => simp
  | some part =>
    cases encodeMembers ft members with
    | none => simp
    | some rest => simp [eq_comm]

variable {part : List Char}

theorem length_le_intercalate_of_mem (h : part ∈ parts) : part.length ≤ ([','].intercalate parts).length := by
  induction parts with
  | nil => cases h
  | cons p parts ih =>
    by_cases hnil : parts = []
    · subst hnil
      rw [List.intercalate_singleton, List.mem_singleton.mp h]
    rw [List.intercalate_cons_of_ne_nil hnil, length_append, length_append]
    rcases List.mem_cons.mp h with rfl | h
    · omega
    · have := ih h
      omega

theorem length_le_bracket (h : part ∈ parts)
    (opening closing : Char) : part.length + 2 ≤ (bracket opening closing parts).length := by
  have := length_le_intercalate_of_mem h
  simp only [bracket, cons_append, length_cons, length_append, List.length_nil]
  omega

theorem scanMember_quote {α : Type} {scan : List Char → Option (α × List Char)} (key : String) {v : α}
    (h : scan (part ++ rest) = some (v, rest))
    (hstarts : ∃ c cs, part = c :: cs ∧ isSpace c = false ∧ c ≠ ']') :
    scanMember scan (quote key ++ ':' :: part ++ rest) = some ((key, v), rest) := by
  obtain ⟨c, cs, rfl, hc, -⟩ := hstarts
  have htext : quote key ++ ':' :: (c :: cs) ++ rest =
      '"' :: (key.toList.flatMap escape ++ '"' :: (':' :: (c :: cs ++ rest))) := by
    simp [quote]
  rw [htext, scanMember, scanString_quote]
  simp only [bind_eq_bind, bind_some, skipSpace_cons (show isSpace ':' = false by decide)]
  rw [cons_append, skipSpace_cons hc]
  rw [cons_append] at h
  rw [h]
  show some ((ofList key.toList, v), rest) = _
  rw [ofList_toList]

mutual

/-- **What was encoded is read back**, whatever follows. -/
theorem reads_encode (ft : FloatText) : ∀ {v : Json} {t : List Char}, encode ft v = some t →
    FloatsReadBack ft (leaves v) → (∀ n, t.length ≤ n → Reads ft n t v) ∧ Opens t
  | .null, t, h, _ => by
      obtain rfl := Option.some.inj h
      refine ⟨fun n hn rest _ => ?_, 'n', _, rfl, by decide⟩
      obtain ⟨m, rfl⟩ : ∃ m, n = m + 1 := ⟨n - 1, by simp at hn; omega⟩
      rfl
  | .bool true, t, h, _ => by
      obtain rfl := Option.some.inj h
      refine ⟨fun n hn rest _ => ?_, 't', _, rfl, by decide⟩
      obtain ⟨m, rfl⟩ : ∃ m, n = m + 1 := ⟨n - 1, by simp at hn; omega⟩
      rfl
  | .bool false, t, h, _ => by
      obtain rfl := Option.some.inj h
      refine ⟨fun n hn rest _ => ?_, 'f', _, rfl, by decide⟩
      obtain ⟨m, rfl⟩ : ∃ m, n = m + 1 := ⟨n - 1, by simp at hn; omega⟩
      rfl
  | .int k, t, h, _ => by
      unfold encode PyInt.str at h
      split at h
      · rename_i hprint
        obtain rfl := Option.some.inj h
        have hopens : ∃ c cs, (toString k).toList = c :: cs ∧ (c = '-' ∨ c.isDigit = true) := by
          have hchars : ∀ c ∈ (toString k).toList, c = '-' ∨ c.isDigit = true :=
            fun c hc => mem_toString hc
          cases htext : (toString k).toList with
          | nil =>
            rw [toList_toString] at htext
            exact absurd (List.append_eq_nil_iff.mp htext).2 Nat.toDigits_ne_nil
          | cons c cs => exact ⟨c, cs, rfl, hchars c (htext ▸ mem_cons_self)⟩
        obtain ⟨c, cs, htext, hc⟩ := hopens
        refine ⟨fun n hn rest hrest => ?_, c, cs, htext, hc.imp_right Or.inl⟩
        obtain ⟨m, rfl⟩ : ∃ m, n = m + 1 := ⟨n - 1, by rw [htext] at hn; simp at hn; omega⟩
        have hscan := scanNumber_int ft hprint hrest
        rw [htext] at hscan ⊢
        exact (scanOnce_number ft m hc _).trans hscan
      · cases h
  | .float x, t, h, hfloats => by
      obtain ⟨q, rfl, hq⟩ := hfloats x (List.mem_singleton_self _)
      obtain rfl := Option.some.inj h
      obtain ⟨integer, fraction, exponent, htext, hshape, -, -⟩ := id hq
      have hopens : ∃ c cs, (ft.repr q).toList = c :: cs ∧ (c = '-' ∨ c.isDigit = true) := by
        obtain ⟨ds, hds, -, hsign⟩ := hshape.integer
        rw [htext]
        rcases hsign with rfl | rfl
        · obtain ⟨c, cs, rfl, hc⟩ := isDigit_head hds
          exact ⟨c, _, rfl, Or.inr hc⟩
        · exact ⟨'-', _, rfl, Or.inl rfl⟩
      obtain ⟨c, cs, htext', hc⟩ := hopens
      refine ⟨fun n hn rest hrest => ?_, c, cs, htext', hc.imp_right Or.inl⟩
      obtain ⟨m, rfl⟩ : ∃ m, n = m + 1 := ⟨n - 1, by rw [htext'] at hn; simp at hn; omega⟩
      have hscan := scanNumber_float hq hrest
      rw [htext'] at hscan ⊢
      exact (scanOnce_number ft m hc _).trans hscan
  | .str s, t, h, _ => by
      obtain rfl := Option.some.inj h
      refine ⟨fun n hn rest _ => ?_, '"', _, rfl, by decide⟩
      obtain ⟨m, rfl⟩ : ∃ m, n = m + 1 := ⟨n - 1, by simp [quote] at hn; omega⟩
      show scanOnce ft (m + 1) ('"' :: (s.toList.flatMap escape ++ ['"'] ++ rest)) = _
      rw [append_assoc, List.singleton_append, scanOnce, scanString_quote]
      show some (Json.str (ofList s.toList), rest) = _
      rw [ofList_toList]
  | .arr xs, t, h, hfloats => by
      obtain ⟨parts, hparts, rfl⟩ := Option.map_eq_some_iff.mp h
      refine ⟨fun n hn rest _ => ?_, '[', _, rfl, by decide⟩
      obtain ⟨m, rfl⟩ : ∃ m, n = m + 1 := ⟨n - 1, by simp [bracket] at hn; omega⟩
      have hitems := reads_encodeItems ft hparts hfloats m (by
        intro part hpart
        have := length_le_bracket hpart '[' ']'
        omega)
      show scanOnce ft (m + 1) ('[' :: ([','].intercalate parts ++ [']'] ++ rest)) = _
      rw [append_assoc, List.singleton_append, scanOnce,
        scanBracket_join (by decide) (by decide) (fun rest => ends_cons (by decide)) hitems]
      rfl
  | .obj members, t, h, hfloats => by
      obtain ⟨parts, hparts, rfl⟩ := Option.map_eq_some_iff.mp h
      refine ⟨fun n hn rest _ => ?_, '\x7b', _, rfl, by decide⟩
      obtain ⟨m, rfl⟩ : ∃ m, n = m + 1 := ⟨n - 1, by simp [bracket] at hn; omega⟩
      have hitems := reads_encodeMembers ft hparts hfloats m (by
        intro part hpart
        have := length_le_bracket hpart '\x7b' '\x7d'
        omega)
      show scanOnce ft (m + 1) ('\x7b' :: ([','].intercalate parts ++ ['\x7d'] ++ rest)) = _
      rw [append_assoc, List.singleton_append, scanOnce,
        scanBracket_join (by decide) (by decide) (fun rest => ends_cons (by decide)) hitems]
      rfl

theorem reads_encodeItems (ft : FloatText) : ∀ {xs : List Json} {parts : List (List Char)},
    encodeItems ft xs = some parts → FloatsReadBack ft (leavesItems xs) →
    ∀ n, (∀ part ∈ parts, part.length ≤ n) → Forall₂ (Part (scanOnce ft n) ']') parts xs
  | [], parts, h, _, n, _ => by
      obtain rfl := Option.some.inj h
      exact List.Forall₂.nil
  | x :: xs, parts, h, hfloats, n, hn => by
      obtain ⟨part, hpart, rest, hrest, rfl⟩ := encodeItems_cons.mp h
      obtain ⟨hreads, hopens⟩ := reads_encode ft hpart hfloats.left
      refine List.Forall₂.cons ⟨hreads n (hn part mem_cons_self), hopens.starts (Or.inl rfl)⟩ ?_
      exact reads_encodeItems ft hrest hfloats.right n fun p hp => hn p (mem_cons_of_mem part hp)

theorem reads_encodeMembers (ft : FloatText) : ∀ {members : List (String × Json)}
    {parts : List (List Char)}, encodeMembers ft members = some parts →
    FloatsReadBack ft (leavesMembers members) → ∀ n, (∀ part ∈ parts, part.length ≤ n) →
    Forall₂ (Part (scanMember (scanOnce ft n)) '\x7d') parts members
  | [], parts, h, _, n, _ => by
      obtain rfl := Option.some.inj h
      exact List.Forall₂.nil
  | (key, v) :: members, parts, h, hfloats, n, hn => by
      obtain ⟨part, hpart, rest, hrest, rfl⟩ := encodeMembers_cons.mp h
      obtain ⟨hreads, hopens⟩ := reads_encode ft hpart hfloats.left
      refine List.Forall₂.cons ⟨?_, '"', _, rfl, by decide, by decide⟩ ?_
      · intro tail htail
        have hlength : part.length ≤ n := by
          have := hn _ mem_cons_self
          rw [length_append, length_cons] at this
          omega
        exact scanMember_quote key (hreads n hlength tail htail) (hopens.starts (Or.inl rfl))
      · exact reads_encodeMembers ft hrest hfloats.right n fun p hp => hn p (mem_cons_of_mem _ hp)

end

/-- **Decoding undoes encoding.** -/
theorem decode_encode {t : List Char} (h : encode ft v = some t)
    (hfloats : FloatsReadBack ft (leaves v)) : decode ft (ofList t) = some v := by
  obtain ⟨hreads, hopens⟩ := reads_encode ft h hfloats
  obtain ⟨c, cs, rfl, hc, -⟩ := hopens.starts (Or.inl rfl)
  have hstop : Stops [] := fun c hc => by cases hc
  have hscan := hreads ((c :: cs).length + 1) (Nat.le_succ _) [] hstop
  rw [append_nil] at hscan
  unfold decode
  rw [String.toList_ofList, skipSpace_cons hc, hscan]
  rfl

theorem Numeral.plain {exponent : List Char} (h : Numeral integer fraction exponent) :
    ∀ c ∈ integer ++ fraction ++ exponent, Plain c := by
  have hdigit : ∀ c : Char, c.isDigit = true → Plain c := by
    intro c hc
    have hval : 48 ≤ c.toNat ∧ c.toNat ≤ 57 := by simpa [Char.isDigit_iff_toNat] using hc
    exact ⟨by omega, by omega⟩
  have hminus : Plain '-' := by decide
  have hplus : Plain '+' := by decide
  have hdot : Plain '.' := by decide
  have he : Plain 'e' := by decide
  obtain ⟨ds, hds, -, hinteger⟩ := h.integer
  intro c hc
  rcases List.mem_append.mp hc with hc | hc
  · rcases List.mem_append.mp hc with hc | hc
    · rcases hinteger with rfl | rfl
      · exact hdigit c (hds.2 c hc)
      · rcases List.mem_cons.mp hc with rfl | hc
        · exact hminus
        · exact hdigit c (hds.2 c hc)
    · rcases h.fraction with rfl | ⟨fs, hfs, rfl⟩
      · cases hc
      · rcases List.mem_cons.mp hc with rfl | hc
        · exact hdot
        · exact hdigit c (hfs.2 c hc)
  · rcases h.exponent with rfl | ⟨sign, es, hes, hsign, rfl⟩
    · cases hc
    · rcases List.mem_append.mp hc with hc | hc
      · rcases List.mem_cons.mp hc with rfl | hc
        · exact he
        · rcases hsign with rfl | rfl | rfl
          · cases hc
          · exact (List.mem_singleton.mp hc) ▸ hminus
          · exact (List.mem_singleton.mp hc) ▸ hplus
      · exact hdigit c (hes.2 c hc)

theorem plain_bracket {opening closing : Char} (ho : Plain opening) (hc : Plain closing)
    (h : ∀ part ∈ parts, ∀ c ∈ part, Plain c) (hmem : c ∈ bracket opening closing parts) : Plain c := by
  simp only [bracket, cons_append, mem_cons, mem_append, List.not_mem_nil, or_false] at hmem
  rcases hmem with rfl | hmem | rfl
  · exact ho
  · clear ho hc
    induction parts with
    | nil => cases hmem
    | cons part parts ih =>
      have hpart := h part mem_cons_self
      by_cases hnil : parts = []
      · subst hnil
        rw [List.intercalate_singleton] at hmem
        exact hpart c hmem
      rw [List.intercalate_cons_of_ne_nil hnil, mem_append, mem_append] at hmem
      rcases hmem with (hmem | hmem) | hmem
      · exact hpart c hmem
      · rw [List.mem_singleton.mp hmem]
        decide
      · exact ih (fun p hp => h p (mem_cons_of_mem part hp)) hmem
  · exact hc

mutual

/-- An encoded value has printable ASCII characters only. -/
theorem plain_encode (ft : FloatText) : ∀ {v : Json} {t : List Char}, encode ft v = some t →
    FloatsReadBack ft (leaves v) → ∀ c ∈ t, Plain c
  | .null, t, h, _ => by
      obtain rfl := Option.some.inj h
      exact plain_of_all (by decide)
  | .bool true, t, h, _ => by
      obtain rfl := Option.some.inj h
      exact plain_of_all (by decide)
  | .bool false, t, h, _ => by
      obtain rfl := Option.some.inj h
      exact plain_of_all (by decide)
  | .int k, t, h, _ => by
      unfold encode PyInt.str at h
      split at h
      · obtain rfl := Option.some.inj h
        have := (numeral_toString k).plain
        rwa [append_nil, append_nil] at this
      · cases h
  | .float x, t, h, hfloats => by
      obtain ⟨q, rfl, integer, fraction, exponent, htext, hshape, -, -⟩ :=
        hfloats x (List.mem_singleton_self _)
      obtain rfl := Option.some.inj h
      rw [htext]
      exact hshape.plain
  | .str s, t, h, _ => by
      obtain rfl := Option.some.inj h
      exact fun c hc => plain_quote hc
  | .arr xs, t, h, hfloats => by
      obtain ⟨parts, hparts, rfl⟩ := Option.map_eq_some_iff.mp h
      exact fun c hc => plain_bracket (by decide) (by decide) (plain_encodeItems ft hparts hfloats) hc
  | .obj members, t, h, hfloats => by
      obtain ⟨parts, hparts, rfl⟩ := Option.map_eq_some_iff.mp h
      exact fun c hc => plain_bracket (by decide) (by decide) (plain_encodeMembers ft hparts hfloats) hc

theorem plain_encodeItems (ft : FloatText) : ∀ {xs : List Json} {parts : List (List Char)},
    encodeItems ft xs = some parts → FloatsReadBack ft (leavesItems xs) →
    ∀ part ∈ parts, ∀ c ∈ part, Plain c
  | [], parts, h, _ => by
      obtain rfl := Option.some.inj h
      simp
  | x :: xs, parts, h, hfloats => by
      obtain ⟨part, hpart, rest, hrest, rfl⟩ := encodeItems_cons.mp h
      exact List.forall_mem_cons.mpr ⟨plain_encode ft hpart hfloats.left, plain_encodeItems ft hrest hfloats.right⟩

theorem plain_encodeMembers (ft : FloatText) : ∀ {members : List (String × Json)}
    {parts : List (List Char)}, encodeMembers ft members = some parts →
    FloatsReadBack ft (leavesMembers members) → ∀ part ∈ parts, ∀ c ∈ part, Plain c
  | [], parts, h, _ => by
      obtain rfl := Option.some.inj h
      simp
  | (key, v) :: members, parts, h, hfloats => by
      obtain ⟨part, hpart, rest, hrest, rfl⟩ := encodeMembers_cons.mp h
      refine List.forall_mem_cons.mpr ⟨?_, plain_encodeMembers ft hrest hfloats.right⟩
      intro c hc
      rcases List.mem_append.mp hc with hc | hc
      · exact plain_quote hc
      rcases List.mem_cons.mp hc with rfl | hc
      · decide
      · exact plain_encode ft hpart hfloats.left c hc

end

theorem printable_leaf (h : ∀ n, v ≠ .int n) : Printable [v] :=
  fun n hn => absurd (List.mem_singleton.mp hn).symm (h n)

mutual

/-- A value is encoded exactly when its integers can be written. -/
theorem isSome_encode (ft : FloatText) : ∀ {v : Json}, FloatsReadBack ft (leaves v) →
    ((encode ft v).isSome = true ↔ Printable (leaves v))
  | .null, _ => iff_of_true rfl (printable_leaf nofun)
  | .bool true, _ => iff_of_true rfl (printable_leaf nofun)
  | .bool false, _ => iff_of_true rfl (printable_leaf nofun)
  | .int k, _ => by
      show ((PyInt.str k).map String.toList).isSome = true ↔ Printable [.int k]
      rw [isSome_map, PyInt.str]
      have hleaf : Printable [.int k] ↔ PyInt.Printable k := by simp [Printable]
      rw [hleaf]
      split
      · exact iff_of_true rfl ‹_›
      · exact iff_of_false nofun ‹_›
  | .float x, hfloats => by
      obtain ⟨q, rfl, -⟩ := hfloats x (List.mem_singleton_self _)
      exact iff_of_true rfl (printable_leaf nofun)
  | .str s, _ => iff_of_true rfl (printable_leaf nofun)
  | .arr xs, hfloats => by
      show ((encodeItems ft xs).map _).isSome = true ↔ _
      rw [isSome_map]
      exact isSome_encodeItems ft hfloats
  | .obj members, hfloats => by
      show ((encodeMembers ft members).map _).isSome = true ↔ _
      rw [isSome_map]
      exact isSome_encodeMembers ft hfloats

theorem isSome_encodeItems (ft : FloatText) : ∀ {xs : List Json}, FloatsReadBack ft (leavesItems xs) →
    ((encodeItems ft xs).isSome = true ↔ Printable (leavesItems xs))
  | [], _ => iff_of_true rfl nofun
  | x :: xs, hfloats => by
      have hx := isSome_encode ft hfloats.left
      have hxs := isSome_encodeItems ft hfloats.right
      rw [leavesItems, printable_append, ← hx, ← hxs]
      simp only [Option.isSome_iff_exists, encodeItems_cons]
      constructor
      · rintro ⟨parts, part, hpart, rest, hrest, -⟩
        exact ⟨⟨part, hpart⟩, rest, hrest⟩
      · rintro ⟨⟨part, hpart⟩, rest, hrest⟩
        exact ⟨_, part, hpart, rest, hrest, rfl⟩

theorem isSome_encodeMembers (ft : FloatText) : ∀ {members : List (String × Json)},
    FloatsReadBack ft (leavesMembers members) →
    ((encodeMembers ft members).isSome = true ↔ Printable (leavesMembers members))
  | [], _ => iff_of_true rfl nofun
  | (key, v) :: members, hfloats => by
      have hx := isSome_encode ft hfloats.left
      have hxs := isSome_encodeMembers ft hfloats.right
      rw [leavesMembers, printable_append, ← hx, ← hxs]
      simp only [Option.isSome_iff_exists, encodeMembers_cons]
      constructor
      · rintro ⟨parts, part, hpart, rest, hrest, -⟩
        exact ⟨⟨part, hpart⟩, rest, hrest⟩
      · rintro ⟨⟨part, hpart⟩, rest, hrest⟩
        exact ⟨_, part, hpart, rest, hrest, rfl⟩

end

end Setka.Lib.JsonText
