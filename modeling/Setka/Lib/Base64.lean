/-
# Setka.Lib.Base64 — URL-safe base64 without padding.

Encoding drops the padding, decoding puts it back and is as lenient as the decoder of Python: it
skips characters outside of the alphabet and stops at the padding.
-/
import Mathlib.Data.String.Basic

namespace Setka.Lib.Base64

open List (mem_cons length_cons cons_append length_map map_cons)

/-- The alphabet of `urlsafe_b64encode`. -/
def alphabet : List Char :=
  "ABCDEFGHIJKLMNOPQRSTUVWXYZabcdefghijklmnopqrstuvwxyz0123456789-_".toList

def toChar (n : ℕ) : Char := alphabet.getD n 'A'

/-- The value of a character. The decoder reads the standard alphabet, to which the URL-safe one is
translated first, so that it accepts both. -/
def value? (c : Char) : Option ℕ :=
  let c := if c = '+' then '-' else if c = '/' then '_' else c
  if alphabet.idxOf c < 64 then some (alphabet.idxOf c) else none

/-- The digits of a sequence of bytes. -/
def encodeDigits : List ℕ → List ℕ
  | a :: b :: c :: rest =>
    a / 4 :: (a % 4 * 16 + b / 16) :: (b % 16 * 4 + c / 64) :: c % 64 :: encodeDigits rest
  | [a, b] => [a / 4, a % 4 * 16 + b / 16, b % 16 * 4]
  | [a] => [a / 4, a % 4 * 16]
  | [] => []

/-- The decoder, `pos` characters into a group of four, with the bits `left` over from the last one
and `pads` padding characters behind it. -/
def decodeChars : List Char → ℕ → ℕ → ℕ → Option (List ℕ)
  | [], pos, _, _ => if pos = 0 then some [] else none
  | c :: cs, pos, left, pads =>
    if c = '=' then
      if 2 ≤ pos then
        if 4 ≤ pos + (pads + 1) then some [] else decodeChars cs pos left (pads + 1)
      else decodeChars cs pos left pads
    else
      match value? c with
      | none => decodeChars cs pos left pads
      | some v =>
        match pos with
        | 0 => decodeChars cs 1 v 0
        | 1 => (decodeChars cs 2 (v % 16) 0).map ((left * 4 + v / 16) :: ·)
        | 2 => (decodeChars cs 3 (v % 4) 0).map ((left * 16 + v / 4) :: ·)
        | _ => (decodeChars cs 0 0 0).map ((left * 64 + v) :: ·)

/-- The padding that brings a length to a multiple of four. -/
def padding (n : ℕ) : List Char := List.replicate ((4 - n % 4) % 4) '='

/-! ## §1 The round trip -/

variable {n : ℕ}

theorem value?_toChar (h : n < 64) : toChar n ≠ '=' ∧ value? (toChar n) = some n := by
  have hall : ∀ n : Fin 64, toChar n ≠ '=' ∧ value? (toChar n) = some n.val := by decide +kernel
  exact hall ⟨n, h⟩

/-- A digit is decoded as its value. -/
theorem decodeChars_toChar (h : n < 64) (cs : List Char) (pos left pads : ℕ) :
    decodeChars (toChar n :: cs) pos left pads = match pos with
      | 0 => decodeChars cs 1 n 0
      | 1 => (decodeChars cs 2 (n % 16) 0).map ((left * 4 + n / 16) :: ·)
      | 2 => (decodeChars cs 3 (n % 4) 0).map ((left * 16 + n / 4) :: ·)
      | _ => (decodeChars cs 0 0 0).map ((left * 64 + n) :: ·) := by
  obtain ⟨hne, hval⟩ := value?_toChar h
  rw [decodeChars, if_neg hne, hval]

variable {bytes : List ℕ}

theorem encodeDigits_lt (h : ∀ b ∈ bytes, b < 256) : ∀ d ∈ encodeDigits bytes, d < 64 := by
  induction bytes using encodeDigits.induct with
  | case1 a b c rest ih =>
    simp only [mem_cons, forall_eq_or_imp] at h
    simp only [encodeDigits, mem_cons, forall_eq_or_imp]
    refine ⟨by omega, by omega, by omega, by omega, ih h.2.2.2⟩
  | case2 a b =>
    simp only [mem_cons, forall_eq_or_imp] at h
    simp only [encodeDigits, mem_cons, forall_eq_or_imp]
    exact ⟨by omega, by omega, by omega, by simp⟩
  | case3 a =>
    simp only [mem_cons, forall_eq_or_imp] at h
    simp only [encodeDigits, mem_cons, forall_eq_or_imp]
    exact ⟨by omega, by omega, by simp⟩
  | case4 => simp [encodeDigits]

/-- **Decoding undoes encoding.** -/
theorem decodeChars_encodeDigits (h : ∀ b ∈ bytes, b < 256) :
    decodeChars ((encodeDigits bytes).map toChar ++ padding (encodeDigits bytes).length) 0 0 0 = some bytes := by
  have hlt := encodeDigits_lt h
  induction bytes using encodeDigits.induct with
  | case1 a b c rest ih =>
    simp only [mem_cons, forall_eq_or_imp] at h
    simp only [encodeDigits, mem_cons, forall_eq_or_imp] at hlt
    obtain ⟨h1, h2, h3, h4, hrest⟩ := hlt
    have hpad : padding (encodeDigits (a :: b :: c :: rest)).length = padding (encodeDigits rest).length := by
      simp only [encodeDigits, length_cons, padding]
      congr 1
      omega
    rw [hpad]
    simp only [encodeDigits, map_cons, cons_append, decodeChars_toChar h1,
      decodeChars_toChar h2, decodeChars_toChar h3, decodeChars_toChar h4, ih h.2.2.2 hrest,
      Option.map_some]
    -- the four digits hold the three bytes
    have ha : a / 4 * 4 + (a % 4 * 16 + b / 16) / 16 = a := by omega
    have hb : (a % 4 * 16 + b / 16) % 16 * 16 + (b % 16 * 4 + c / 64) / 4 = b := by omega
    have hc : (b % 16 * 4 + c / 64) % 4 * 64 + c % 64 = c := by omega
    rw [ha, hb, hc]
  | case2 a b =>
    simp only [encodeDigits, mem_cons, forall_eq_or_imp] at hlt
    simp only [mem_cons, forall_eq_or_imp] at h
    obtain ⟨h1, h2, h3, -⟩ := hlt
    have ha : a / 4 * 4 + (a % 4 * 16 + b / 16) / 16 = a := by omega
    simp only [encodeDigits, map_cons, cons_append, decodeChars_toChar h1,
      decodeChars_toChar h2, decodeChars_toChar h3]
    simp only [padding, length_cons, List.length_nil]
    simp [decodeChars, ha]
    omega
  | case3 a =>
    simp only [encodeDigits, mem_cons, forall_eq_or_imp] at hlt
    obtain ⟨h1, h2, -⟩ := hlt
    simp only [encodeDigits, map_cons, cons_append, decodeChars_toChar h1, decodeChars_toChar h2]
    simp only [padding, length_cons, List.length_nil]
    simp [decodeChars, List.replicate]
    omega
  | case4 => rfl

theorem length_encodeDigits (bytes : List ℕ) : (encodeDigits bytes).length = (4 * bytes.length + 2) / 3 := by
  induction bytes using encodeDigits.induct with
  | case1 a b c rest ih =>
    simp only [encodeDigits, length_cons, ih]
    omega
  | case2 a b => simp [encodeDigits]
  | case3 a => simp [encodeDigits]
  | case4 => rfl

/-- Four characters that are no padding hold three bytes. -/
theorem length_le_of_decodeChars {cs : List Char} {pos left pads : ℕ} (hpos : pos < 4)
    (h : decodeChars cs pos left pads = some bytes) :
    4 * bytes.length ≤ 3 * cs.countP (fun c => c ≠ '=') + (4 - pos) % 4 := by
  induction cs generalizing pos left pads bytes with
  | nil =>
    rw [decodeChars] at h
    split at h
    · obtain rfl := Option.some.inj h
      exact Nat.zero_le _
    · cases h
  | cons c cs ih =>
    rw [decodeChars] at h
    split at h
    · rename_i hpad
      rw [List.countP_cons_of_neg (by simpa using hpad)]
      split at h
      · split at h
        · obtain rfl := Option.some.inj h
          exact Nat.zero_le _
        · exact ih hpos h
      · exact ih hpos h
    rename_i hdigit
    rw [List.countP_cons_of_pos (by simpa using hdigit)]
    split at h
    · have := ih hpos h
      omega
    -- one character further into the group, and one byte more except at its start
    obtain rfl | hlater := Nat.eq_zero_or_pos pos
    · have := ih (by omega) h
      omega
    obtain rfl | rfl | rfl : pos = 1 ∨ pos = 2 ∨ pos = 3 := by omega
    all_goals
      obtain ⟨rest, hrest, rfl⟩ := Option.map_eq_some_iff.mp h
      have := ih (by omega) hrest
      rw [length_cons]
      omega

/-! ## §2 Bytes -/

/-- `urlsafe_b64encode(data).rstrip(b"=").decode("ascii")`. -/
def encodeBytes (bytes : List ℕ) : String := String.ofList ((encodeDigits bytes).map toChar)

/-- `urlsafe_b64decode((e + padding).encode("ascii"))`, `none` where a step raises. -/
def decodeBytes (e : String) : Option (List ℕ) :=
  if e.toList.all fun c => c.toNat < 128 then decodeChars (e.toList ++ padding e.toList.length) 0 0 0 else none

theorem toChar_lt_128 (h : n < 64) : (toChar n).toNat < 128 := by
  have hall : ∀ n : Fin 64, (toChar n).toNat < 128 := by decide +kernel
  exact hall ⟨n, h⟩

/-- An encoding consists of digits. -/
theorem mem_encodeBytes (h : ∀ b ∈ bytes, b < 256) {c : Char} (hc : c ∈ (encodeBytes bytes).toList) :
    ∃ d, d < 64 ∧ c = toChar d := by
  rw [encodeBytes, String.toList_ofList] at hc
  obtain ⟨d, hd, rfl⟩ := List.mem_map.mp hc
  exact ⟨d, encodeDigits_lt h d hd, rfl⟩

theorem ascii_encodeBytes (h : ∀ b ∈ bytes, b < 256) :
    ((encodeBytes bytes).toList.all fun c => c.toNat < 128) = true := by
  refine List.all_eq_true.mpr fun c hc => ?_
  obtain ⟨d, hd, rfl⟩ := mem_encodeBytes h hc
  exact decide_eq_true (toChar_lt_128 hd)

theorem decodeBytes_encodeBytes (h : ∀ b ∈ bytes, b < 256) : decodeBytes (encodeBytes bytes) = some bytes := by
  rw [decodeBytes, if_pos (ascii_encodeBytes h), encodeBytes, String.toList_ofList, length_map,
    decodeChars_encodeDigits h]

/-! ## §3 Strings -/

/-- `s.encode("utf-8")`. -/
def utf8 (s : String) : List ℕ := s.toByteArray.data.toList.map UInt8.toNat

/-- `data.decode("utf-8")`, `none` where it raises. -/
def ofUtf8? (bytes : List ℕ) : Option String := String.fromUTF8? ⟨(bytes.map UInt8.ofNat).toArray⟩

variable {s : String}

theorem utf8_lt : ∀ b ∈ utf8 s, b < 256 := by
  intro b hb
  obtain ⟨u, -, rfl⟩ := List.mem_map.mp hb
  exact u.toNat_lt

theorem ofUtf8?_utf8 (s : String) : ofUtf8? (utf8 s) = some s := by
  have hround : (utf8 s).map UInt8.ofNat = s.toByteArray.data.toList := by
    rw [utf8, List.map_map]
    exact (List.map_congr_left fun u _ => UInt8.ofNat_toNat).trans (List.map_id _)
  rw [ofUtf8?, hround, Array.toArray_toList, String.fromUTF8?, dif_pos s.isValidUTF8]
  rfl

/-- `urlsafe_b64encode(s.encode("utf-8")).decode("ascii").rstrip("=")`. -/
def encode (s : String) : String :=
  String.ofList ((encodeDigits (s.toByteArray.data.toList.map UInt8.toNat)).map toChar)

/-- `urlsafe_b64decode((e + padding).encode("ascii")).decode("utf-8")`, `none` where a step
raises. -/
def decode (e : String) : Option String :=
  if e.toList.all fun c => c.toNat < 128 then
    match decodeChars (e.toList ++ padding e.toList.length) 0 0 0 with
    | some bytes => String.fromUTF8? ⟨(bytes.map UInt8.ofNat).toArray⟩
    | none => none
  else none

theorem encode_eq (s : String) : encode s = encodeBytes (utf8 s) := rfl

theorem decode_eq (e : String) : decode e = (decodeBytes e).bind ofUtf8? := by
  unfold decode decodeBytes
  split
  · cases decodeChars (e.toList ++ padding e.toList.length) 0 0 0 with
    | some bytes => rfl
    | none => rfl
  · rfl

theorem decode_encode (s : String) : decode (encode s) = some s := by
  rw [decode_eq, encode_eq, decodeBytes_encodeBytes utf8_lt, Option.bind_some, ofUtf8?_utf8]

/-- An encoded string consists of digits. -/
theorem mem_encode {c : Char} (h : c ∈ (encode s).toList) : ∃ d, d < 64 ∧ c = toChar d := mem_encodeBytes utf8_lt h

theorem length_encode (s : String) : (encode s).toList.length = (4 * s.utf8ByteSize + 2) / 3 := by
  rw [encode, String.toList_ofList, length_map, length_encodeDigits, length_map]
  rfl

theorem size_le_of_decode {e : String} (h : decode e = some s) : 4 * s.utf8ByteSize ≤ 3 * e.toList.length := by
  unfold decode at h
  split at h
  · split at h
    · rename_i bytes hbytes
      have hle := length_le_of_decodeChars (by omega) hbytes
      have hpadding : (padding e.toList.length).countP (fun c => c ≠ '=') = 0 :=
        List.countP_eq_zero.mpr fun c hc => by simp [List.eq_of_mem_replicate hc]
      have hcount : e.toList.countP (fun c => c ≠ '=') ≤ e.toList.length := List.countP_le_length
      rw [List.countP_append, hpadding] at hle
      unfold String.fromUTF8? at h
      split at h
      · have hsize : bytes.length = s.utf8ByteSize := by
          rw [← Option.some.inj h, ← String.size_toByteArray]
          show bytes.length = (bytes.map UInt8.ofNat).toArray.size
          rw [List.size_toArray, length_map]
        omega
      · cases h
    · cases h
  · cases h

theorem two_le_length_encode (h : s ≠ "") : 2 ≤ (encode s).toList.length := by
  have hbytes : s.toByteArray.data.toList ≠ [] := by
    intro hnil
    apply h
    rw [← String.toByteArray_inj]
    apply ByteArray.ext
    rw [← Array.toList_inj, hnil]
    rfl
  obtain ⟨b, bytes, hcons⟩ := List.exists_cons_of_ne_nil hbytes
  rw [encode, String.toList_ofList, length_map, hcons, map_cons]
  match bytes.map UInt8.toNat with
  | [] => exact le_rfl
  | [_] => exact Nat.le_succ 2
  | _ :: _ :: rest =>
    rw [encodeDigits, length_cons, length_cons]
    omega

/-- Two digits hold a byte. -/
theorem decode_ne_empty {e : String} (hdigits : ∀ c ∈ e.toList, ∃ d, d < 64 ∧ c = toChar d)
    (hlength : 2 ≤ e.toList.length) : decode e ≠ some "" := by
  intro h
  match hlist : e.toList, hlength with
  | x :: y :: cs, _ =>
    obtain ⟨m, hm, rfl⟩ := hdigits x (by rw [hlist]; exact List.mem_cons_self)
    obtain ⟨n, hn, rfl⟩ := hdigits y (by rw [hlist]; exact List.mem_cons_of_mem _ List.mem_cons_self)
    unfold decode at h
    rw [hlist, cons_append, cons_append, decodeChars_toChar hm, decodeChars_toChar hn] at h
    split at h
    · split at h
      · rename_i bytes hbytes
        obtain ⟨rest, -, rfl⟩ := Option.map_eq_some_iff.mp hbytes
        unfold String.fromUTF8? at h
        split at h
        · have hempty := congrArg String.toByteArray (Option.some.inj h)
          have hlist' := congrArg (fun b : ByteArray => b.data.toList) hempty
          exact absurd hlist' (List.cons_ne_nil _ _)
        · cases h
      · cases h
    · cases h

end Setka.Lib.Base64
