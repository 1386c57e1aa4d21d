/-
# Setka.Lib.PyStrSpaces — strings between white space.

White space has no case, and nothing that stands around it is lowered otherwise because of it. So what a string begins
with after it is lowered is decided by the string without its outer white space.
-/
import Setka.Lib.PyStr

namespace Setka.Lib.PyStr

open String (ofList)

/-- White space is lowered to itself, and what stands before and behind it for itself. -/
def Unicode.KeepsSpaces (uni : Unicode) : Prop :=
  ∀ (before after : List Char) (c : Char), isSpace c = true →
    (uni.lower (String.ofList (before ++ c :: after))).toList =
      (uni.lower (String.ofList before)).toList ++ c :: (uni.lower (String.ofList after)).toList

/-- Whether a string begins with white space. -/
def startsWithSpace (s : String) : Bool := s.toList.head?.any isSpace

/-! ## §1 Outer white space -/

/-- A string is its inner part between white space, and there is none in front if it does not begin with it. -/
theorem exists_strip (s : String) : ∃ front back : List Char, s.toList = front ++ ((strip s).toList ++ back) ∧
    (∀ c ∈ front, isSpace c = true) ∧ (∀ c ∈ back, isSpace c = true) ∧
      (front = [] ↔ startsWithSpace s = false) := by
  refine ⟨s.toList.takeWhile isSpace, (s.toList.dropWhile isSpace).rtakeWhile isSpace, ?_, ?_, ?_, ?_⟩
  · rw [toList_strip, List.rdropWhile_append_rtakeWhile, List.takeWhile_append_dropWhile]
  · exact fun c hc => List.mem_takeWhile_imp hc
  · exact fun c hc => List.mem_rtakeWhile_imp hc
  · rw [startsWithSpace]
    cases s.toList with
    | nil => simp
    | cons c cs =>
      cases hspace : isSpace c with
      | true => simp [hspace]
      | false => simp [hspace]

/-- Stripping leaves a word that only white space follows. -/
theorem toList_strip_append {word back : List Char} (hword : ∀ c ∈ word, isSpace c = false)
    (hback : ∀ c ∈ back, isSpace c = true) (hne : word ≠ []) :
    (strip (ofList (word ++ back))).toList = word := by
  have hrev : word.reverse.dropWhile isSpace = word.reverse := dropWhile_of_not_space (by simpa using hword)
  rw [toList_strip, String.toList_ofList, dropWhile_append_of_not_space hne hword, List.rdropWhile, List.reverse_append,
    List.dropWhile_append_of_pos (by simpa using hback), hrev, List.reverse_reverse]

/-! ## §2 Lowering -/

theorem Unicode.lower_nil (uni : Unicode) : (uni.lower (ofList [])).toList = [] := by
  rw [uni.lower_ascii _ (by simp)]
  rfl

namespace Unicode.KeepsSpaces

variable {uni : Unicode} (h : uni.KeepsSpaces)

include h

theorem lower_front {front : List Char} (hfront : ∀ c ∈ front, isSpace c = true) (l : List Char) :
    (uni.lower (ofList (front ++ l))).toList = front ++ (uni.lower (ofList l)).toList := by
  induction front with
  | nil => rfl
  | cons c front ih =>
    obtain ⟨hc, hfront⟩ := List.forall_mem_cons.mp hfront
    rw [List.cons_append, ← List.nil_append (c :: (front ++ l)), h [] (front ++ l) c hc, uni.lower_nil, ih hfront]
    rfl

theorem lower_back {back : List Char} (hback : ∀ c ∈ back, isSpace c = true) (l : List Char) :
    (uni.lower (ofList (l ++ back))).toList = (uni.lower (ofList l)).toList ++ back := by
  cases back with
  | nil => rw [List.append_nil, List.append_nil]
  | cons c back =>
    obtain ⟨hc, hback⟩ := List.forall_mem_cons.mp hback
    have hrest := h.lower_front hback []
    rw [List.append_nil, uni.lower_nil, List.append_nil] at hrest
    rw [h l back c hc, hrest]

/-- What a string begins with after it is lowered. -/
theorem startsWith_lower_iff {p : String} (hp : p.toList ≠ []) (hspace : ∀ c ∈ p.toList, isSpace c = false)
    (s : String) :
    startsWith p (uni.lower s) = true ↔ startsWith p (uni.lower (strip s)) = true ∧ startsWithSpace s = false := by
  obtain ⟨front, back, hs, hfront, hback, hnil⟩ := exists_strip s
  have hlower : (uni.lower s).toList = front ++ ((uni.lower (strip s)).toList ++ back) := by
    have hparts : s = ofList (front ++ ((strip s).toList ++ back)) := by
      rw [← hs, String.ofList_toList]
    conv_lhs => rw [hparts]
    rw [h.lower_front hfront, h.lower_back hback, String.ofList_toList]
  rw [startsWith, startsWith, List.isPrefixOf_iff_prefix, List.isPrefixOf_iff_prefix, ← hnil, hlower]
  cases front with
  | cons c front =>
    refine iff_of_false ?_ (by simp)
    intro hprefixed
    obtain ⟨d, ds, hd⟩ := List.exists_cons_of_ne_nil hp
    rw [hd] at hprefixed hspace
    have heq := (List.cons_prefix_cons.mp hprefixed).1
    rw [← heq] at hfront
    exact absurd (hfront d List.mem_cons_self) (by simp [hspace d List.mem_cons_self])
  | nil =>
    rw [List.nil_append, and_iff_left rfl]
    constructor
    · rintro ⟨rest, heq⟩
      rcases List.append_eq_append_iff.mp heq with ⟨inner, hinner, -⟩ | ⟨outer, houter, hback'⟩
      · exact ⟨inner, hinner.symm⟩
      -- what does not fit into the inner part is white space, of which there is none
      cases outer with
      | nil => exact ⟨[], by rw [houter, List.append_nil, List.append_nil]⟩
      | cons c outer =>
        have hno := hspace c (by simp [houter])
        rw [hback c (by simp [hback'])] at hno
        cases hno
    · exact fun hinner => hinner.trans (List.prefix_append _ _)

end Unicode.KeepsSpaces

theorem toLower_of_isSpace {c : Char} (h : isSpace c = true) : c.toLower = c := by
  have hother : ¬ (c.val ≥ 'A'.val ∧ c.val ≤ 'Z'.val) := by
    rintro ⟨hge, hle⟩
    have hge : 65 ≤ c.toNat := hge
    have hle : c.toNat ≤ 90 := hle
    simp only [isSpace, Bool.or_eq_true, Bool.and_eq_true, decide_eq_true_eq, beq_iff_eq] at h
    omega
  unfold Char.toLower
  rw [dif_neg hother]

theorem keepsSpaces_ascii : Unicode.ascii.KeepsSpaces := by
  intro before after c hc
  show (PyStr.lower _).toList = (PyStr.lower _).toList ++ c :: (PyStr.lower _).toList
  simp only [PyStr.lower, String.toList_ofList, List.map_append, List.map_cons, toLower_of_isSpace hc]

end Setka.Lib.PyStr
