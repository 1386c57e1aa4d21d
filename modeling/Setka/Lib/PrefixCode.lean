/-
# Setka.Lib.PrefixCode — texts that are coded letter by letter.

Each letter is written as a word. Where no word is empty and no word begins another, the words that a text starts
with are known one after the other, and so the text can be read back.
-/
import Mathlib.Logic.Function.Defs

namespace Setka.Lib

variable {α β : Type}

/-- No word of the code is empty, and what starts with the word of one letter starts with no other. -/
structure PrefixFree (code : α → List β) : Prop where
  ne_nil : ∀ a, code a ≠ []
  letter_eq : ∀ {a b r s}, code a ++ r = code b ++ s → a = b

namespace PrefixFree

variable {code : α → List β} (h : PrefixFree code)

include h

/-- The first letter is read, and then the rest. -/
theorem cancel {a b : α} {r s : List β} (heq : code a ++ r = code b ++ s) : a = b ∧ r = s := by
  obtain rfl := h.letter_eq heq
  exact ⟨rfl, List.append_cancel_left heq⟩

/-- **A text is known from its code.** -/
theorem flatMap_injective : Function.Injective (List.flatMap code) := by
  intro u
  induction u with
  | nil =>
    intro v huv
    cases v with
    | nil => rfl
    | cons b v =>
      exact absurd (List.append_eq_nil_iff.mp huv.symm).1 (h.ne_nil b)
  | cons a u ih =>
    intro v huv
    cases v with
    | nil =>
      exact absurd (List.append_eq_nil_iff.mp huv).1 (h.ne_nil a)
    | cons b v =>
      obtain ⟨rfl, hrest⟩ := h.cancel huv
      rw [ih hrest]

/-- So it is when the first letter has a code of its own, as long as that code can be told apart too. -/
theorem eq_of_first {first : α → List β} (hfirst : PrefixFree first) {a b : α} {u v : List α}
    (heq : first a ++ u.flatMap code = first b ++ v.flatMap code) : a :: u = b :: v := by
  obtain ⟨rfl, hrest⟩ := hfirst.cancel heq
  rw [h.flatMap_injective hrest]

end PrefixFree

end Setka.Lib
