/-
# Setka.Types.Localpart — localparts of user ids.

The name that an external service has for a user is rewritten into a localpart: capitals first, then the bytes that
no localpart may have, then an underscore at the beginning. The rewritings do not undo one another, so names share a
localpart only when they differ in nothing but case, and not even then if case is kept.
-/
import Setka.Lib.PrefixCode

namespace Setka.Types.Localpart

open Setka.Lib

/-! ## §1 The rewriting -/

/-- A byte of a `bytes` literal. -/
def byte (c : Char) : UInt8 := UInt8.ofNat c.toNat

def asciiLowercase : List Char := "abcdefghijklmnopqrstuvwxyz".toList

def digits : List Char := "0123456789".toList

/-- `MXID_LOCALPART_ALLOWED_CHARACTERS`. -/
def mxidLocalpartAllowedCharacters : List Char := "_-./=+".toList ++ asciiLowercase ++ digits

/-- `contains_invalid_mxid_characters`. -/
def containsInvalidMxidCharacters (localpart : String) : Bool :=
  localpart.toList.any fun c => c ∉ mxidLocalpartAllowedCharacters

/-- `[A-Z]`. -/
def isUpper (b : UInt8) : Bool := byte 'A' ≤ b && b ≤ byte 'Z'

/-- `UPPER_CASE_PATTERN`. -/
def upperCasePattern (b : UInt8) : Bool := isUpper b || b == byte '_'

/-- `NON_MXID_CHARACTER_PATTERN`: an equals sign matches too. -/
def nonMxidCharacterPattern (b : UInt8) : Bool :=
  b ∉ (mxidLocalpartAllowedCharacters.filter fun c => c ≠ '=').map byte

/-- `bytes.lower` on one byte. -/
def lowerByte (b : UInt8) : UInt8 := if isUpper b then b + 32 else b

/-- `username.lower()`. -/
def lower (username : List UInt8) : List UInt8 := username.map lowerByte

/-- `pattern.sub(f, s)`, for a pattern that matches single bytes. -/
def sub (pattern : UInt8 → Bool) (f : UInt8 → List UInt8) (s : List UInt8) : List UInt8 :=
  s.flatMap fun b => if pattern b then f b else [b]

def f1 (m : UInt8) : List UInt8 := [byte '_', lowerByte m]

/-- `b"=%02x" % (m.group()[0],)`. -/
def f2 (m : UInt8) : List UInt8 :=
  [byte '=', byte (Nat.digitChar (m.toNat / 16)), byte (Nat.digitChar (m.toNat % 16))]

/-- `re.sub(b"^_", b"=5f", username)`. -/
def subLeadingUnderscore : List UInt8 → List UInt8
  | [] => []
  | b :: rest => if b = byte '_' then "=5f".toList.map byte ++ rest else b :: rest

/-- `username.decode("ascii")`, which raises on any other byte. -/
def decodeAscii (username : List UInt8) : Option String :=
  if username.all fun b => b < 128 then some (String.ofList (username.map fun b => Char.ofNat b.toNat))
  else none

/-- The argument of `map_username_to_mxid_localpart`. -/
inductive Username
  | str (s : String)
  | bytes (b : List UInt8)

def Username.encode : Username → List UInt8
  | .str s => s.toByteArray.data.toList
  | .bytes b => b

/-- What the three substitutions make of a name. -/
def rewriteUsername (username : List UInt8) (caseSensitive : Bool) : List UInt8 :=
  let username := if caseSensitive then sub upperCasePattern f1 username else lower username
  let username := sub nonMxidCharacterPattern f2 username
  subLeadingUnderscore username

/-- `map_username_to_mxid_localpart`. -/
def mapUsernameToMxidLocalpart (username : Username) (caseSensitive : Bool) : Option String :=
  decodeAscii (rewriteUsername username.encode caseSensitive)

/-! ## §2 Each substitution can be read back -/

theorem forall_byte {P : UInt8 → Prop} (h : ∀ n < 256, P (UInt8.ofNat n)) (b : UInt8) : P b := by
  have hb := h b.toNat b.toNat_lt
  rwa [UInt8.ofNat_toNat] at hb

theorem digitChar_inj : ∀ i < 16, ∀ j < 16, byte (Nat.digitChar i) = byte (Nat.digitChar j) → i = j := by
  decide

variable {b : UInt8}

/-- The two digits of a byte tell which one it is. -/
theorem f2_inj {a : UInt8} {r s : List UInt8} (h : f2 a ++ r = f2 b ++ s) : a = b := by
  have ha := a.toNat_lt
  have hb := b.toNat_lt
  have hdigits : byte (Nat.digitChar (a.toNat / 16)) = byte (Nat.digitChar (b.toNat / 16)) ∧
      byte (Nat.digitChar (a.toNat % 16)) = byte (Nat.digitChar (b.toNat % 16)) := by
    simp only [f2, List.cons_append, List.nil_append, List.cons.injEq] at h
    exact ⟨h.2.1, h.2.2.1⟩
  have hhigh := digitChar_inj _ (by omega) _ (by omega) hdigits.1
  have hlow := digitChar_inj _ (by omega) _ (by omega) hdigits.2
  exact UInt8.toNat_inj.mp (by omega)

/-- Where an equals sign is escaped, escaping can be read back, whatever else is escaped. -/
theorem prefixFree_f2 {pattern : UInt8 → Bool} (h : pattern (byte '=') = true) :
    PrefixFree fun b => if pattern b then f2 b else [b] where
  ne_nil b := by
    split
    · exact List.cons_ne_nil _ _
    · exact List.cons_ne_nil _ _
  letter_eq {a b r s} heq := by
    -- a byte that stands for itself is no equals sign
    have hkept : ∀ x, ¬pattern x = true → x ≠ byte '=' := fun x hx he => hx (he ▸ h)
    split at heq
    · split at heq
      · exact f2_inj heq
      · rename_i hb
        exact absurd (List.cons.inj heq).1.symm (hkept b hb)
    · rename_i ha
      split at heq
      · exact absurd (List.cons.inj heq).1 (hkept a ha)
      · exact (List.cons.inj heq).1

/-- A capital goes up by 32 and lands beyond the underscore. -/
theorem toNat_lowerByte (b : UInt8) (h : upperCasePattern b = true) :
    b.toNat = 95 ∧ (lowerByte b).toNat = 95 ∨ b.toNat ≤ 90 ∧ (lowerByte b).toNat = b.toNat + 32 ∧ 65 ≤ b.toNat := by
  revert b
  exact forall_byte (by decide +kernel)

theorem lowerByte_inj {a : UInt8} (ha : upperCasePattern a = true) (hb : upperCasePattern b = true)
    (h : lowerByte a = lowerByte b) : a = b := by
  have hlower := congrArg UInt8.toNat h
  refine UInt8.toNat_inj.mp ?_
  rcases toNat_lowerByte a ha with ⟨ha', hla⟩ | ⟨ha', hla, ha''⟩
  · rcases toNat_lowerByte b hb with ⟨hb', hlb⟩ | ⟨hb', hlb, hb''⟩ <;> omega
  · rcases toNat_lowerByte b hb with ⟨hb', hlb⟩ | ⟨hb', hlb, hb''⟩ <;> omega

theorem prefixFree_f1 : PrefixFree fun b => if upperCasePattern b then f1 b else [b] where
  ne_nil b := by
    split
    · exact List.cons_ne_nil _ _
    · exact List.cons_ne_nil _ _
  letter_eq {a b r s} heq := by
    have hunderscore : ∀ x, ¬upperCasePattern x = true → x ≠ byte '_' := by
      rintro x hx rfl
      exact hx (by decide)
    split at heq
    · rename_i ha
      split at heq
      · rename_i hb
        exact lowerByte_inj ha hb (List.cons.inj (List.cons.inj heq).2).1
      · rename_i hb
        exact absurd (List.cons.inj heq).1.symm (hunderscore b hb)
    · rename_i ha
      split at heq
      · exact absurd (List.cons.inj heq).1 (hunderscore a ha)
      · exact (List.cons.inj heq).1

/-! ## §3 The underscore at the beginning -/

/-- What the first byte may not be. -/
def firstPattern (b : UInt8) : Bool := nonMxidCharacterPattern b || b == byte '_'

/-- The last two substitutions escape, and one more byte at the beginning than elsewhere. -/
theorem subLeadingUnderscore_sub (b : UInt8) (rest : List UInt8) :
    subLeadingUnderscore (sub nonMxidCharacterPattern f2 (b :: rest)) =
      (if firstPattern b then f2 b else [b]) ++ sub nonMxidCharacterPattern f2 rest := by
  have hcons : sub nonMxidCharacterPattern f2 (b :: rest) =
      (if nonMxidCharacterPattern b then f2 b else [b]) ++ sub nonMxidCharacterPattern f2 rest :=
    List.flatMap_cons
  rw [hcons]
  by_cases hunderscore : b = byte '_'
  · have hkept : nonMxidCharacterPattern (byte '_') = false := by decide
    have hfirst : firstPattern (byte '_') = true := by decide
    rw [hunderscore, hkept, hfirst]
    rfl
  · have hfirst : firstPattern b = nonMxidCharacterPattern b := by
      rw [firstPattern, beq_false_of_ne hunderscore, Bool.or_false]
    rw [hfirst]
    cases nonMxidCharacterPattern b with
    | true => rfl
    | false => exact if_neg hunderscore

/-- What remains of a name after the last two substitutions is still the whole of it. -/
theorem escape_injective : Function.Injective fun s => subLeadingUnderscore (sub nonMxidCharacterPattern f2 s) := by
  have hrest : PrefixFree fun b => if nonMxidCharacterPattern b then f2 b else [b] := prefixFree_f2 (by decide)
  have hfirst : PrefixFree fun b => if firstPattern b then f2 b else [b] := prefixFree_f2 (by decide)
  intro u v huv
  dsimp only at huv
  cases u with
  | nil =>
    cases v with
    | nil => rfl
    | cons b v =>
      rw [subLeadingUnderscore_sub] at huv
      exact absurd (List.append_eq_nil_iff.mp huv.symm).1 (hfirst.ne_nil b)
  | cons a u =>
    cases v with
    | nil =>
      rw [subLeadingUnderscore_sub] at huv
      exact absurd (List.append_eq_nil_iff.mp huv).1 (hfirst.ne_nil a)
    | cons b v =>
      rw [subLeadingUnderscore_sub, subLeadingUnderscore_sub] at huv
      exact hrest.eq_of_first hfirst huv

/-! ## §4 The characters of a localpart -/

/-- The bytes of a localpart. -/
def mxidLocalpartAllowedBytes : List UInt8 := mxidLocalpartAllowedCharacters.map byte

theorem mem_allowed_of_not_pattern (h : nonMxidCharacterPattern b = false) : b ∈ mxidLocalpartAllowedBytes := by
  obtain ⟨c, hc, rfl⟩ := List.mem_map.mp (Decidable.not_not.mp (of_decide_eq_false h))
  exact List.mem_map_of_mem (List.mem_filter.mp hc).1

theorem mem_allowed_of_mem_f2 (b : UInt8) : ∀ c ∈ f2 b, c ∈ mxidLocalpartAllowedBytes := by
  have hdigit : ∀ i < 16, byte (Nat.digitChar i) ∈ mxidLocalpartAllowedBytes := by decide
  have hb := b.toNat_lt
  intro c hc
  simp only [f2, List.mem_cons, List.not_mem_nil, or_false] at hc
  rcases hc with rfl | rfl | rfl
  · decide
  · exact hdigit _ (by omega)
  · exact hdigit _ (by omega)

/-- Nothing but allowed bytes is left. -/
theorem mem_allowed_of_mem_rewrite {username : List UInt8} {caseSensitive : Bool}
    (h : b ∈ rewriteUsername username caseSensitive) : b ∈ mxidLocalpartAllowedBytes := by
  have hsub : ∀ s, ∀ c ∈ sub nonMxidCharacterPattern f2 s, c ∈ mxidLocalpartAllowedBytes := by
    intro s c hc
    obtain ⟨d, -, hd⟩ := List.mem_flatMap.mp hc
    split at hd
    · exact mem_allowed_of_mem_f2 d c hd
    rename_i hkept
    obtain rfl := List.mem_singleton.mp hd
    exact mem_allowed_of_not_pattern (Bool.eq_false_iff.mpr hkept)
  have hleading : ∀ s, (∀ c ∈ s, c ∈ mxidLocalpartAllowedBytes) →
      ∀ c ∈ subLeadingUnderscore s, c ∈ mxidLocalpartAllowedBytes := by
    intro s hs
    cases s with
    | nil => exact hs
    | cons a rest =>
      rw [subLeadingUnderscore]
      split
      · refine List.forall_mem_append.mpr ⟨mem_allowed_of_mem_f2 (byte '_'), ?_⟩
        exact fun c hc => hs c (List.mem_cons_of_mem a hc)
      · exact hs
  exact hleading _ (hsub _) b h

/-- Allowed bytes are decoded. -/
theorem decodeAscii_of_allowed {s : List UInt8} (h : ∀ b ∈ s, b ∈ mxidLocalpartAllowedBytes) :
    ∃ localpart, decodeAscii s = some localpart ∧ containsInvalidMxidCharacters localpart = false := by
  have hascii : (mxidLocalpartAllowedBytes.all fun b => b < 128) = true := by decide
  have hchar : (mxidLocalpartAllowedCharacters.all fun c => Char.ofNat (byte c).toNat = c) = true := by decide
  rw [List.all_eq_true] at hascii hchar
  refine ⟨_, if_pos (List.all_eq_true.mpr fun b hb => hascii b (h b hb)), ?_⟩
  rw [containsInvalidMxidCharacters, List.any_eq_false]
  intro c hc
  rw [String.toList_ofList] at hc
  obtain ⟨b, hb, rfl⟩ := List.mem_map.mp hc
  obtain ⟨d, hd, rfl⟩ := List.mem_map.mp (h b hb)
  rw [of_decide_eq_true (hchar d hd)]
  simpa using hd

/-- A string of ASCII is decoded from one sequence of bytes only. -/
theorem decodeAscii_inj {u v : List UInt8} {s : String} (hu : decodeAscii u = some s)
    (hv : decodeAscii v = some s) : u = v := by
  have hbyte : ∀ n < 128, byte (Char.ofNat (UInt8.ofNat n).toNat) = UInt8.ofNat n := by decide +kernel
  have hround : ∀ w, decodeAscii w = some s → s.toList.map byte = w := by
    intro w hw
    rw [decodeAscii] at hw
    split at hw
    · rename_i hall
      rw [← Option.some.inj hw, String.toList_ofList, List.map_map]
      refine (List.map_congr_left fun b hb => ?_).trans (List.map_id w)
      have hsmall : b < 128 := of_decide_eq_true (List.all_eq_true.mp hall b hb)
      have heq := hbyte b.toNat (UInt8.lt_iff_toNat_lt.mp hsmall)
      rw [UInt8.ofNat_toNat] at heq
      exact heq
    · cases hw
  rw [← hround u hu, hround v hv]

theorem mapUsername_inj_iff {u v : List UInt8} {caseSensitive : Bool} :
    mapUsernameToMxidLocalpart (.bytes u) caseSensitive = mapUsernameToMxidLocalpart (.bytes v) caseSensitive ↔
      rewriteUsername u caseSensitive = rewriteUsername v caseSensitive := by
  refine ⟨fun h => ?_, fun h => congrArg decodeAscii h⟩
  obtain ⟨localpart, hu, -⟩ := decodeAscii_of_allowed (s := rewriteUsername u caseSensitive)
    fun b hb => mem_allowed_of_mem_rewrite hb
  exact decodeAscii_inj hu (h.symm.trans hu)

/-- **Localparts of names.** Each name gets a localpart of allowed characters. If case is kept, no two names get the
same; if it is not, two names get the same when they are the same in lower case, and only then. -/
theorem mapUsernameToMxidLocalpart_spec : (∀ username caseSensitive, ∃ localpart,
      mapUsernameToMxidLocalpart (.bytes username) caseSensitive = some localpart ∧
        containsInvalidMxidCharacters localpart = false) ∧
    (Function.Injective fun username => mapUsernameToMxidLocalpart (.bytes username) true) ∧
    ∀ u v, mapUsernameToMxidLocalpart (.bytes u) false = mapUsernameToMxidLocalpart (.bytes v) false ↔
      lower u = lower v := by
  refine ⟨fun username caseSensitive => ?_, fun u v huv => ?_, fun u v => ?_⟩
  · exact decodeAscii_of_allowed fun b hb => mem_allowed_of_mem_rewrite hb
  · have hescaped := escape_injective (mapUsername_inj_iff.mp huv)
    exact prefixFree_f1.flatMap_injective hescaped
  · rw [mapUsername_inj_iff]
    exact escape_injective.eq_iff

/-- Capitals, the escape character and an underscore in front. -/
example : mapUsernameToMxidLocalpart (.str "_Al=B") true = some "=5f__al=3d_b" := by decide +kernel

end Setka.Types.Localpart
