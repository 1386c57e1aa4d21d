/-
# Setka.Lib.SqlClause — the text of a condition, as a database reads it.

A condition is read from its text and holds of a row or not. The placeholders take the arguments in the order in
which they stand. The rule for texts that are joined by `OR` is proved here: the condition holds if one of them does.
-/
import Mathlib.Data.List.Flatten
import Setka.Lib.PyStr

namespace Setka.Lib.SqlClause

open List (replicate cons_append replicate_succ)

/-! ## §1 Tokens -/

inductive Token
  | opening
  | closing
  | comma
  | equals
  | placeholder
  | and
  | or
  | not
  | among
  | number (n : ℕ)
  | name (s : String)
  deriving DecidableEq

def Token.ofMark : Char → Option Token
  | '(' => some .opening
  | ')' => some .closing
  | ',' => some .comma
  | '=' => some .equals
  | '?' => some .placeholder
  | _ => none

def Token.ofWord (word : List Char) : Token :=
  if word = "AND".toList then .and
  else if word = "OR".toList then .or
  else if word = "NOT".toList then .not
  else if word = "IN".toList then .among
  else if word.all Char.isDigit then .number (word.foldl (fun n c => 10 * n + (c.toNat - '0'.toNat)) 0)
  else .name (String.ofList word)

/-- The word that ends here, before the tokens that follow. -/
def endWord (word : List Char) (rest : List Token) : List Token :=
  if word = [] then rest else .ofWord word.reverse :: rest

/-- The tokens of a text, with the letters of the word that is being read. -/
def tokensFrom (word : List Char) : List Char → List Token
  | [] => endWord word []
  | c :: cs =>
    match Token.ofMark c with
    | some t => endWord word (t :: tokensFrom [] cs)
    | none => if c = ' ' then endWord word (tokensFrom [] cs) else tokensFrom (c :: word) cs

def tokens (text : String) : List Token := tokensFrom [] text.toList

theorem endWord_append (word : List Char) (rest more : List Token) :
    endWord word (rest ++ more) = endWord word rest ++ more := by
  unfold endWord
  split
  · rfl
  · rfl

/-- A blank ends a token. -/
theorem tokensFrom_blank (word xs ys : List Char) :
    tokensFrom word (xs ++ ' ' :: ys) = tokensFrom word xs ++ tokensFrom [] ys := by
  induction xs generalizing word with
  | nil =>
    show endWord word (tokensFrom [] ys) = endWord word [] ++ tokensFrom [] ys
    rw [← endWord_append, List.nil_append]
  | cons c cs ih =>
    rw [cons_append, tokensFrom, tokensFrom]
    split
    · rw [ih, ← cons_append, endWord_append]
    split
    · rw [ih, endWord_append]
    · rw [ih]

/-- Texts joined by `OR`. -/
theorem tokens_or (first rest : String) : tokens (first ++ " OR " ++ rest) = tokens first ++ .or :: tokens rest := by
  have hchars : (first ++ " OR " ++ rest).toList = first.toList ++ ' ' :: ("OR".toList ++ ' ' :: rest.toList) := by
    simp
  rw [tokens, hchars, tokensFrom_blank, tokensFrom_blank]
  rfl

/-! ## §2 Conditions -/

inductive Operand
  | column (name : String)
  | placeholder
  | number (n : ℕ)

inductive Condition
  | equal (left right : Operand)
  | notIn (left : Operand) (right : List Operand)
  | both (a b : Condition)
  | either (a b : Condition)

def Operand.read : Token → Option Operand
  | .name s => some (.column s)
  | .number n => some (.number n)
  | .placeholder => some .placeholder
  | _ => none

/-- Operands up to the bracket that closes them. -/
def readOperands : List Token → Option (List Operand × List Token)
  | t :: .closing :: rest => (Operand.read t).map fun o => ([o], rest)
  | t :: .comma :: rest =>
    (Operand.read t).bind fun o => (readOperands rest).map fun (os, rest) => (o :: os, rest)
  | _ => none

mutual

/-- A condition at the front of the tokens: alternatives, each of which is a conjunction, of comparisons and of
conditions in brackets. -/
def readEither : ℕ → List Token → Option (Condition × List Token)
  | 0, _ => none
  | fuel + 1, ts =>
    match readBoth fuel ts with
    | some (a, .or :: rest) => (readEither fuel rest).map fun (b, rest) => (.either a b, rest)
    | read => read

def readBoth : ℕ → List Token → Option (Condition × List Token)
  | 0, _ => none
  | fuel + 1, ts =>
    match readOne fuel ts with
    | some (a, .and :: rest) => (readBoth fuel rest).map fun (b, rest) => (.both a b, rest)
    | read => read

def readOne : ℕ → List Token → Option (Condition × List Token)
  | 0, _ => none
  | fuel + 1, ts =>
    match ts with
    | .opening :: ts =>
      match readEither fuel ts with
      | some (c, .closing :: rest) => some (c, rest)
      | _ => none
    | t :: .equals :: u :: rest =>
      (Operand.read t).bind fun left => (Operand.read u).map fun right => (.equal left right, rest)
    | t :: .not :: .among :: .opening :: rest =>
      (Operand.read t).bind fun left => (readOperands rest).map fun (right, rest) => (.notIn left right, rest)
    | _ => none

end

inductive Value
  | text (s : String)
  | int (n : ℕ)
  deriving DecidableEq

/-- The value of an operand in a row, and the arguments that are left. -/
def Operand.value (row : String → Option String) : Operand → List String → Option (Value × List String)
  | .column name, args => (row name).map fun s => (.text s, args)
  | .number n, args => some (.int n, args)
  | .placeholder, [] => none
  | .placeholder, arg :: args => some (.text arg, args)

def values (row : String → Option String) : List Operand → List String → Option (List Value × List String)
  | [], args => some ([], args)
  | o :: os, args =>
    (o.value row args).bind fun (v, args) => (values row os args).map fun (vs, args) => (v :: vs, args)

/-- Whether a condition holds of a row, and the arguments that are left. -/
def Condition.holds (row : String → Option String) : Condition → List String → Option (Bool × List String)
  | .equal left right, args =>
    (left.value row args).bind fun (a, args) =>
      (right.value row args).map fun (b, args) => (decide (a = b), args)
  | .notIn left right, args =>
    (left.value row args).bind fun (a, args) =>
      (values row right args).map fun (bs, args) => (decide (a ∉ bs), args)
  | .both a b, args =>
    (a.holds row args).bind fun (x, args) => (b.holds row args).map fun (y, args) => (x && y, args)
  | .either a b, args =>
    (a.holds row args).bind fun (x, args) => (b.holds row args).map fun (y, args) => (x || y, args)

/-- Enough for every text: no token is read through more than four calls. -/
def fuelFor (ts : List Token) : ℕ := 4 * ts.length + 8

/-- Whether a clause selects a row. It fails where the text is no condition, or the arguments are not as many as the
placeholders. -/
def selects (clause : String) (args : List String) (row : String → Option String) : Option Bool :=
  match readEither (fuelFor (tokens clause)) (tokens clause) with
  | some (c, []) =>
    match c.holds row args with
    | some (b, []) => some b
    | _ => none
  | _ => none

/-! ## §3 Alternatives -/

/-- A text reads as one condition wherever it stands, and with these arguments the condition says `b` of the row. -/
def Says (row : String → Option String) (text : String) (args : List String) (b : Bool) : Prop :=
  ∃ c : Condition, (∀ fuel rest, readOne (fuel + 5) (tokens text ++ rest) = some (c, rest)) ∧
    ∀ rest, c.holds row (args ++ rest) = some (b, rest)

variable {row : String → Option String}

theorem Says.unique {text : String} {args : List String} {b b' : Bool} (h : Says row text args b)
    (h' : Says row text args b') : b = b' := by
  obtain ⟨c, hread, hholds⟩ := h
  obtain ⟨c', hread', hholds'⟩ := h'
  have hsame : some (c, ([] : List Token)) = some (c', []) := (hread 0 []).symm.trans (hread' 0 [])
  obtain rfl : c = c' := by simpa using hsame
  have hvalue := (hholds []).symm.trans (hholds' [])
  simpa using hvalue

theorem readEither_of_readOne {fuel : ℕ} {ts rest : List Token} {c : Condition}
    (h : readOne (fuel + 5) ts = some (c, rest)) (hrest : rest.head? ≠ some .and) :
    readEither (fuel + 7) ts = match rest with
      | .or :: rest => (readEither (fuel + 6) rest).map fun (b, rest) => (.either c b, rest)
      | rest => some (c, rest) := by
  have hboth : readBoth (fuel + 6) ts = some (c, rest) := by
    rw [readBoth, h]
    split
    · next heq =>
        cases heq
        exact absurd rfl hrest
    · rfl
  rw [readEither, hboth]
  cases rest with
  | nil => rfl
  | cons t rest => cases t <;> rfl

theorem length_le_tokens_join (texts : List String) :
    texts.length ≤ (tokens (PyStr.join " OR " texts)).length + 1 := by
  induction texts with
  | nil => exact Nat.zero_le _
  | cons first rest ih =>
    cases rest with
    | nil => exact Nat.le_add_left _ _
    | cons second rest =>
      rw [PyStr.join, String.intercalate_cons_cons, tokens_or, List.length_append, List.length_cons]
      rw [PyStr.join] at ih
      simp only [List.length_cons] at ih ⊢
      omega

/-- What is read of alternatives, and of which rows it holds. -/
theorem read_join (parts : List (String × List String)) (hne : parts ≠ [])
    (h : ∀ p ∈ parts, ∃ b, Says row p.1 p.2 b) : ∃ c : Condition,
      (∀ fuel, readEither (fuel + parts.length + 6) (tokens (PyStr.join " OR " (parts.map Prod.fst))) = some (c, [])) ∧
      ∃ b, (∀ rest, c.holds row (parts.flatMap Prod.snd ++ rest) = some (b, rest)) ∧
        (b = true ↔ ∃ p ∈ parts, Says row p.1 p.2 true) := by
  induction parts with
  | nil => exact absurd rfl hne
  | cons p parts ih =>
    obtain ⟨b, hsaid⟩ := h p List.mem_cons_self
    have hfirst : (b = true ↔ Says row p.1 p.2 true) := ⟨fun hb => hb ▸ hsaid, fun htrue => hsaid.unique htrue⟩
    obtain ⟨c, hread, hholds⟩ := hsaid
    cases parts with
    | nil =>
      refine ⟨c, fun fuel => ?_, b, fun rest => ?_, ?_⟩
      · have hone := hread fuel []
        simpa [PyStr.join] using readEither_of_readOne hone (by simp)
      · simpa using hholds rest
      · rw [hfirst]
        simp
    | cons q parts =>
      obtain ⟨c', hread', b', hholds', hrest⟩ := ih (List.cons_ne_nil q parts)
        fun p' hp' => h p' (List.mem_cons_of_mem p hp')
      refine ⟨.either c c', fun fuel => ?_, b || b', fun rest => ?_, ?_⟩
      · have htokens : tokens (PyStr.join " OR " ((p :: q :: parts).map Prod.fst)) =
            tokens p.1 ++ .or :: tokens (PyStr.join " OR " ((q :: parts).map Prod.fst)) := by
          rw [List.map_cons, List.map_cons, PyStr.join, String.intercalate_cons_cons, tokens_or]
          rfl
        have hone := readEither_of_readOne (hread (fuel + (q :: parts).length)
          (.or :: tokens (PyStr.join " OR " ((q :: parts).map Prod.fst)))) (by simp)
        rw [htokens]
        refine hone.trans ?_
        dsimp only
        rw [hread']
        rfl
      · rw [List.flatMap_cons, List.append_assoc, Condition.holds, hholds, Option.bind_some]
        dsimp only
        rw [hholds']
        rfl
      · rw [Bool.or_eq_true, hfirst, hrest]
        simp only [List.mem_cons, exists_eq_or_imp]

/-- **Alternatives** select the rows of which one of them holds. -/
theorem selects_join (parts : List (String × List String)) (hne : parts ≠ [])
    (h : ∀ p ∈ parts, ∃ b, Says row p.1 p.2 b) :
    ∃ b, selects (PyStr.join " OR " (parts.map Prod.fst)) (parts.flatMap Prod.snd) row = some b ∧
      (b = true ↔ ∃ p ∈ parts, Says row p.1 p.2 true) := by
  obtain ⟨c, hread, b, hholds, hsome⟩ := read_join parts hne h
  refine ⟨b, ?_, hsome⟩
  have hlength := length_le_tokens_join (parts.map Prod.fst)
  rw [List.length_map] at hlength
  have hfuel : fuelFor (tokens (PyStr.join " OR " (parts.map Prod.fst))) =
      fuelFor (tokens (PyStr.join " OR " (parts.map Prod.fst))) - (parts.length + 6) + parts.length + 6 := by
    unfold fuelFor
    omega
  have hargs := hholds []
  rw [List.append_nil] at hargs
  unfold selects
  rw [hfuel, hread]
  dsimp only
  rw [hargs]

/-! ## §4 Lists of placeholders -/

theorem tokens_placeholders (n : ℕ) (rest : List Token) :
    readOperands (tokens (PyStr.join "," (replicate (n + 1) "?") ++ ")") ++ rest) =
      some (replicate (n + 1) .placeholder, rest) := by
  induction n with
  | zero => rfl
  | succ n ih =>
    have hchars : (PyStr.join "," (replicate (n + 2) "?") ++ ")").toList =
        '?' :: ',' :: (PyStr.join "," (replicate (n + 1) "?") ++ ")").toList := by
      rw [replicate_succ, replicate_succ, PyStr.join, String.intercalate_cons_cons, ← replicate_succ]
      simp [PyStr.join]
    have htokens : tokens (PyStr.join "," (replicate (n + 2) "?") ++ ")") =
        .placeholder :: .comma :: tokens (PyStr.join "," (replicate (n + 1) "?") ++ ")") := by
      rw [tokens, hchars]
      rfl
    rw [htokens, cons_append, cons_append, readOperands, ih]
    rfl

theorem readOne_notIn (fuel : ℕ) (name : String) (ts : List Token) :
    readOne (fuel + 1) (.name name :: .not :: .among :: .opening :: ts) =
      (readOperands ts).map fun (right, rest) => (.notIn (.column name) right, rest) := by
  rw [readOne]
  · rfl
  · rintro ⟨⟩

theorem values_placeholders (row : String → Option String) (args rest : List String) :
    values row (replicate args.length .placeholder) (args ++ rest) = some (args.map .text, rest) := by
  induction args with
  | nil => rfl
  | cons arg args ih =>
    rw [List.length_cons, replicate_succ, cons_append, values, Operand.value, Option.bind_some]
    dsimp only
    rw [ih]
    rfl

end Setka.Lib.SqlClause
