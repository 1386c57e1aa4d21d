/-
# Setka.Lib.Delimited — texts with delimiters.

A list of fields, each a mark, a key, one sign and a value, is written as one text without any escapes. The text
can be taken apart in one way only if no key has the sign in it and no value has a mark in it, where a mark is a
text that starts with an element it does not have again, so that no two marks overlap.
-/
import Mathlib.Data.List.Infix

namespace Setka.Lib.Delimited

variable {α : Type}

variable {c : α} {v : List α}

/-- What stands before the first delimiter is the same in two texts that are the same. -/
theorem append_cons_inj {a b u : List α} (ha : c ∉ a) (hb : c ∉ b) (h : a ++ c :: u = b ++ c :: v) :
    a = b ∧ u = v := by
  induction a generalizing b with
  | nil =>
    cases b with
    | nil => exact ⟨rfl, (List.cons.inj h).2⟩
    | cons y b => exact absurd (List.cons.inj h).1 fun heq => hb (heq ▸ List.mem_cons_self)
  | cons x a ih =>
    cases b with
    | nil => exact absurd (List.cons.inj h).1 fun heq => ha (heq ▸ List.mem_cons_self)
    | cons y b =>
      obtain ⟨rfl, hrest⟩ := List.cons.inj h
      obtain ⟨rfl, huv⟩ := ih (List.not_mem_of_not_mem_cons ha) (List.not_mem_of_not_mem_cons hb) hrest
      exact ⟨rfl, huv⟩

/-- The parts of a text between delimiters have none. -/
theorem not_mem_of_mem_splitOn [DecidableEq α] {l part : List α} (h : part ∈ l.splitOn c) : c ∉ part := by
  induction l generalizing part with
  | nil =>
    rw [List.splitOn_nil, List.mem_singleton] at h
    rw [h]
    exact List.not_mem_nil
  | cons x l ih =>
    rw [List.splitOn_cons_eq_if_modifyHead] at h
    split at h
    · rcases List.mem_cons.mp h with rfl | h
      · exact List.not_mem_nil
      · exact ih h
    rename_i hne
    obtain ⟨first, rest, hsplit⟩ := List.exists_cons_of_ne_nil (List.splitOn_ne_nil c l)
    rw [hsplit] at h ih
    rcases List.mem_cons.mp h with rfl | h
    · rw [List.mem_cons, not_or]
      exact ⟨fun heq => hne (beq_iff_eq.mpr heq.symm), ih List.mem_cons_self⟩
    · exact ih (List.mem_cons_of_mem _ h)

/-- Nothing, or a text that starts with a mark. -/
def Follows (mark rest : List α) : Prop := rest = [] ∨ ∃ t, rest = mark ++ t

variable {cs : List α}

/-- A value that is not longer than another, before what follows, is the other one. -/
theorem value_eq_of_le {w r s : List α} (hc : c ∉ cs) (hw : ¬(c :: cs) <:+: w) (hr : Follows (c :: cs) r)
    (hs : Follows (c :: cs) s) (h : v ++ r = w ++ s) (hle : v.length ≤ w.length) : v = w ∧ r = s := by
  obtain ⟨x, rfl, rfl⟩ : ∃ x, w = v ++ x ∧ r = x ++ s := by
    rcases List.append_eq_append_iff.mp h with hfirst | ⟨x, hv, hs'⟩
    · exact hfirst
    rw [hv, List.length_append] at hle
    obtain rfl := List.length_eq_zero_iff.mp (show x.length = 0 by omega)
    exact ⟨[], by rw [hv, List.append_nil, List.append_nil], hs'.symm⟩
  suffices hnil : x = [] by rw [hnil, List.append_nil]; exact ⟨rfl, rfl⟩
  rcases hr with hempty | ⟨t, ht⟩
  · exact (List.append_eq_nil_iff.mp hempty).1
  by_contra hne
  -- a mark inside of the value, or one that begins inside of another
  have hinside : ¬(c :: cs) <+: x := by
    rintro ⟨t, ht⟩
    exact hw ⟨v, t, by rw [List.append_assoc, ht]⟩
  rcases List.append_eq_append_iff.mp ht with ⟨y, hmark, hy⟩ | ⟨y, hx, -⟩
  · obtain ⟨a, x', rfl⟩ := List.exists_cons_of_ne_nil hne
    obtain ⟨rfl, hcs⟩ := List.cons.inj (hmark.trans (List.cons_append ..))
    cases y with
    | nil => exact hinside ⟨[], by rw [hmark, List.append_nil, List.append_nil]⟩
    | cons b y =>
      rcases hs with hnone | ⟨t', ht'⟩
      · exact absurd (hy.symm.trans hnone) (List.cons_ne_nil _ _)
      · obtain ⟨rfl, -⟩ := List.cons.inj (hy.symm.trans ht')
        exact hc (hcs ▸ List.mem_append_right _ List.mem_cons_self)
  · exact hinside ⟨y, hx.symm⟩

/-- A value without a mark ends where the next mark begins. -/
theorem value_inj {w r s : List α} (hc : c ∉ cs) (hv : ¬(c :: cs) <:+: v) (hw : ¬(c :: cs) <:+: w)
    (hr : Follows (c :: cs) r) (hs : Follows (c :: cs) s) (h : v ++ r = w ++ s) : v = w ∧ r = s := by
  rcases Nat.le_total v.length w.length with hle | hle
  · exact value_eq_of_le hc hw hr hs h hle
  · obtain ⟨rfl, rfl⟩ := value_eq_of_le hc hv hs hr h.symm hle
    exact ⟨rfl, rfl⟩

/-! ## §1 Fields -/

/-- The fields as one text. -/
def fields (mark : List α) (sign : α) (pairs : List (List α × List α)) : List α :=
  pairs.flatMap fun p => mark ++ (p.1 ++ sign :: p.2)

theorem fields_cons (mark : List α) (sign : α) (p : List α × List α) (pairs : List (List α × List α)) :
    fields mark sign (p :: pairs) = mark ++ (p.1 ++ sign :: (p.2 ++ fields mark sign pairs)) := by
  simp [fields]

theorem follows_fields (mark : List α) (sign : α) (pairs : List (List α × List α)) :
    Follows mark (fields mark sign pairs) := by
  cases pairs with
  | nil => exact .inl rfl
  | cons p pairs => exact .inr ⟨_, fields_cons mark sign p pairs⟩

/-- A field that can be told from what surrounds it. -/
structure Clear (mark : List α) (sign : α) (p : List α × List α) : Prop where
  key : sign ∉ p.1
  value : ¬mark <:+: p.2

/-- **Clear fields can be read back.** -/
theorem fields_inj {sign : α} (hc : c ∉ cs) {l m : List (List α × List α)}
    (hl : ∀ p ∈ l, Clear (c :: cs) sign p) (hm : ∀ p ∈ m, Clear (c :: cs) sign p)
    (h : fields (c :: cs) sign l = fields (c :: cs) sign m) : l = m := by
  induction l generalizing m with
  | nil =>
    cases m with
    | nil => rfl
    | cons q m => exact absurd h.symm (List.cons_ne_nil _ _)
  | cons p l ih =>
    cases m with
    | nil => exact absurd h (List.cons_ne_nil _ _)
    | cons q m =>
      rw [fields_cons, fields_cons] at h
      have hhead := List.append_cancel_left h
      -- the key ends at the sign, and the value at the next mark
      obtain ⟨hp, hl⟩ := List.forall_mem_cons.mp hl
      obtain ⟨hq, hm⟩ := List.forall_mem_cons.mp hm
      obtain ⟨hkey, hrest⟩ := append_cons_inj hp.key hq.key hhead
      obtain ⟨hvalue, hrest⟩ := value_inj hc hp.value hq.value (follows_fields _ _ l) (follows_fields _ _ m) hrest
      rw [Prod.ext hkey hvalue, ih hl hm hrest]

end Setka.Lib.Delimited
