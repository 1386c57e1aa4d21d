/-
# Setka.Handlers.PlusClean — cleaning what was cleaned before.

`_clean_str` strips a string and then cuts it, so what it returns can end in white space and change when
it is cleaned again. A string that fits its bound and is not blank is stripped by the next cleaning, and
by none after that.
-/
import Setka.Handlers.Plus

namespace Setka.Handlers.Plus

open Setka.Api Setka.Lib PyStr

/-- A string that cleaning only strips. -/
structure Fits (maxLen : ℕ) (x : String) : Prop where
  length : x.toList.length ≤ maxLen
  not_blank : PyStr.strip x ≠ ""

variable {maxLen : ℕ} {x : String}

theorem cleanStr_of_fits (h : Fits maxLen x) : cleanStr maxLen (some (.str x)) = some (PyStr.strip x) := by
  unfold cleanStr
  dsimp only
  rw [if_neg h.not_blank, take_eq_self ((length_strip_le x).trans h.length)]

theorem Fits.strip (h : Fits maxLen x) : Fits maxLen (PyStr.strip x) where
  length := (length_strip_le x).trans h.length
  not_blank := by
    rw [strip_strip]
    exact h.not_blank

/-- **What cleaning returns fits its bound.** -/
theorem fits_of_cleanStr (hpos : 0 < maxLen) {raw : Option Json}
    (h : cleanStr maxLen raw = some x) : Fits maxLen x := by
  unfold cleanStr at h
  split at h
  · rename_i s
    dsimp only at h
    split at h
    · cases h
    rename_i hblank
    obtain rfl := Option.some.inj h
    refine ⟨length_take_le maxLen _, fun hspace => hblank ?_⟩
    -- the first character of a stripped string is not white space, and is not cut off
    rw [strip_eq_empty_iff] at hspace
    rw [← strip_strip, strip_eq_empty_iff]
    intro c hc
    by_contra hnot
    have hne : (PyStr.strip s).toList ≠ [] := List.ne_nil_of_mem hc
    have hhead := isSpace_head_strip hne
    have hmem : (PyStr.strip s).toList.head hne ∈ (PyStr.take maxLen (PyStr.strip s)).toList := by
      rw [toList_take, List.mem_take_iff_getElem]
      refine ⟨0, ?_, ?_⟩
      · have hlength := List.length_pos_iff.mpr hne
        omega
      · rw [List.head_eq_getElem]
    rw [hspace _ hmem] at hhead
    exact absurd hhead (by simp)
  · cases h

theorem isPos_of_cleanFloat {value : Option Json} {x : PyFloat} (h : cleanFloat value = .ok (some x)) :
    x.isPos = true := by
  unfold cleanFloat at h
  split at h
  · split at h
    · rename_i hpos
      obtain rfl : _ = x := by simpa using h
      exact hpos
    · simp at h
  · split at h
    · cases h
    · split at h
      · rename_i n _ hpos
        obtain rfl : PyFloat.finite n = x := by simpa using h
        simpa [PyFloat.isPos] using hpos
      · simp at h
  · rw [Except.ok.injEq, Option.bind_eq_some_iff] at h
    obtain ⟨y, -, hy⟩ := h
    split at hy
    · rename_i hpos
      obtain rfl := Option.some.inj hy
      exact hpos
    · cases hy
  · cases h

theorem Plan.fits_id (p : Plan) : Fits 64 p.id := by
  obtain ⟨raw, hraw⟩ := p.id_clean
  exact fits_of_cleanStr (by decide) hraw

theorem Plan.fits_name (p : Plan) : Fits 120 p.name := by
  obtain ⟨raw, hraw⟩ := p.name_clean
  exact fits_of_cleanStr (by decide) hraw

theorem Plan.round2_priceRub (p : Plan) : p.priceRub.round2 = p.priceRub := by
  obtain ⟨price, -, hprice⟩ := p.priceRub_rounded
  rw [hprice, PyFloat.round2_round2]

/-- A base64 digit is neither white space nor a dot. -/
theorem clear_toChar {n : ℕ} (h : n < 64) : PyStr.isSpace (Base64.toChar n) = false ∧ Base64.toChar n ≠ '.' := by
  have hall : ∀ n : Fin 64, PyStr.isSpace (Base64.toChar n) = false ∧ Base64.toChar n ≠ '.' := by decide +kernel
  exact hall ⟨n, h⟩

/-! ### What is left of an encoded user when it is cut -/

section EncodedUser

variable {userId : String}

theorem mem_take_encodeRobokassaUid {c : Char} (hc : c ∈ (PyStr.take 255 (encodeRobokassaUid userId)).toList) :
    ∃ d, d < 64 ∧ c = Base64.toChar d := by
  rw [toList_take] at hc
  exact Base64.mem_encode (List.mem_of_mem_take hc)

theorem strip_encodeRobokassaUid (userId : String) : PyStr.strip (PyStr.take 255 (encodeRobokassaUid userId)) =
      PyStr.take 255 (encodeRobokassaUid userId) := by
  apply strip_of_not_space
  intro c hc
  obtain ⟨d, hd, rfl⟩ := mem_take_encodeRobokassaUid hc
  exact (clear_toChar hd).1

theorem two_le_length_take (h : userId ≠ "") : 2 ≤ (PyStr.take 255 (encodeRobokassaUid userId)).toList.length := by
  have htwo := Base64.two_le_length_encode h
  rw [toList_take, List.length_take]
  exact le_min (by omega) htwo

theorem take_encodeRobokassaUid_ne_empty (h : userId ≠ "") : PyStr.take 255 (encodeRobokassaUid userId) ≠ "" := by
  intro hempty
  have htwo := two_le_length_take h
  rw [hempty] at htwo
  exact absurd htwo (by decide)

end EncodedUser

/-- The plan of a month. -/
theorem thirty_days_pos : (0 : ℤ) < 30 := by decide

end Setka.Handlers.Plus
