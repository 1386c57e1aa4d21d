/-
# Setka.Lib.Run — computations that raise, loop and may run out of fuel.

A `Run ε α` is given a bound on the iterations of each of its loops and answers with a value, with an
exception, or not at all. Total correctness is `Yields`: from some bound on, the computation always
returns the same value, and that value satisfies the postcondition. The rules below derive it along
the structure of a program; only the rule for loops asks for a variant.
-/
import Mathlib.Order.WellFounded

namespace Setka.Lib

/-- A computation that is given fuel, and may raise an exception of type `ε`. -/
def Run (ε α : Type) : Type := ℕ → Option (Except ε α)

namespace Run

variable {ε α β σ : Type}

instance : Monad (Run ε) where
  pure a := fun _ => some (.ok a)
  bind m f := fun n =>
    match m n with
    | some (.ok a) => f a n
    | some (.error e) => some (.error e)
    | none => none

/-- Raise `e`. -/
def raise (e : ε) : Run ε α := fun _ => some (.error e)

/-- A value, or the exception to raise where there is none. -/
def ofOption (e : ε) : Option α → Run ε α
  | some a => pure a
  | none => raise e

/-- Run `body` until it returns `none`, at most as often as the first argument says. -/
def iterate (body : σ → Run ε (Option σ)) : ℕ → σ → Run ε σ
  | 0, _ => fun _ => none
  | k + 1, s => do
      match ← body s with
      | some s' => iterate body k s'
      | none => pure s

/-- A `while` loop: `body` returns the next state, or `none` where the condition fails. -/
def loop (body : σ → Run ε (Option σ)) (s : σ) : Run ε σ := fun n => iterate body n s n

/-! ## §1 Results -/

/-- From some bound on, the computation ends with the result `r`. -/
def Returns (m : Run ε α) (r : Except ε α) : Prop := ∃ k, ∀ n, k ≤ n → m n = some r

/-- **Total correctness**: the computation returns a value that satisfies `post`. -/
def Yields (m : Run ε α) (post : α → Prop) : Prop := ∃ a, Returns m (.ok a) ∧ post a

variable {m : Run ε α}

theorem Returns.unique {r r' : Except ε α} (h : Returns m r) (h' : Returns m r') : r = r' := by
  obtain ⟨k, hk⟩ := h
  obtain ⟨k', hk'⟩ := h'
  have h1 := hk (max k k') (le_max_left k k')
  have h2 := hk' (max k k') (le_max_right k k')
  rw [h1] at h2
  exact Option.some.inj h2

theorem returns_pure (a : α) : Returns (pure a : Run ε α) (.ok a) := ⟨0, fun _ _ => rfl⟩

theorem returns_raise (e : ε) : Returns (raise e : Run ε α) (.error e) := ⟨0, fun _ _ => rfl⟩

variable {a : α}

theorem Returns.bind {f : α → Run ε β} {r : Except ε β} (hm : Returns m (.ok a))
    (hf : Returns (f a) r) : Returns (m >>= f) r := by
  obtain ⟨k, hk⟩ := hm
  obtain ⟨k', hk'⟩ := hf
  refine ⟨max k k', fun n hn => ?_⟩
  show (match m n with
    | some (.ok a) => f a n
    | some (.error e) => some (.error e)
    | none => none) = some r
  rw [hk n ((le_max_left k k').trans hn)]
  exact hk' n ((le_max_right k k').trans hn)

/-! ## §2 Rules of total correctness -/

variable {post : α → Prop}

theorem Yields.mono {post' : α → Prop} (h : Yields m post) (hp : ∀ a, post a → post' a) : Yields m post' := by
  obtain ⟨a, ha, hpost⟩ := h
  exact ⟨a, ha, hp a hpost⟩

theorem Yields.pure (h : post a) : Yields (pure a : Run ε α) post :=
  ⟨a, returns_pure a, h⟩

theorem Yields.ofOption {o : Option α} {e : ε} (ho : o = some a) (h : post a) : Yields (ofOption e o) post := by
  rw [ho]
  exact Yields.pure h

theorem Yields.bind {f : α → Run ε β} {P : α → Prop} {post : β → Prop} (hm : Yields m P)
    (hf : ∀ a, P a → Yields (f a) post) : Yields (m >>= f) post := by
  obtain ⟨a, ha, hmid⟩ := hm
  obtain ⟨b, hb, hpost⟩ := hf a hmid
  exact ⟨b, ha.bind hb, hpost⟩

/-- The rule for a `for` loop: `I` speaks of the items already visited. -/
theorem Yields.foldlM {f : β → α → Run ε β} {I : List α → β → Prop} (l : List α) {b : β}
    (hstep : ∀ done a rest b, l = done ++ a :: rest → I done b → Yields (f b a) (I (done ++ [a])))
    (h0 : I [] b) : Yields (l.foldlM f b) (I l) := by
  suffices h : ∀ rest done b, l = done ++ rest → I done b → Yields (rest.foldlM f b) (I l) from
    h l [] b rfl h0
  intro rest
  induction rest with
  | nil =>
    intro done b hl hb
    rw [List.append_nil] at hl
    exact Yields.pure (hl ▸ hb)
  | cons a rest ih =>
    intro done b hl hb
    refine (hstep done a rest b hl hb).bind fun b' hb' => ih (done ++ [a]) b' ?_ hb'
    rw [hl, List.append_assoc, List.singleton_append]

/-- **The rule for `while` loops**: an invariant, and a variant that every turn decreases. -/
theorem Yields.loop {body : σ → Run ε (Option σ)} {I post : σ → Prop} {lt : σ → σ → Prop} (hwf : WellFounded lt)
    (hbody : ∀ s, I s → Yields (body s) fun o =>
      (o = none → post s) ∧ ∀ s', o = some s' → I s' ∧ lt s' s)
    {s : σ} (h0 : I s) : Yields (loop body s) post := by
  suffices h : ∃ t, post t ∧ ∃ k, ∀ n, k ≤ n → ∀ i, k ≤ i → iterate body i s n = some (.ok t) by
    obtain ⟨t, ht, k, hk⟩ := h
    exact ⟨t, ⟨k, fun n hn => hk n hn n hn⟩, ht⟩
  induction s using hwf.induction with
  | _ s ih =>
    obtain ⟨o, ⟨k, hk⟩, hnone, hsome⟩ := hbody s h0
    have hunfold : ∀ n i, k ≤ n → iterate body (i + 1) s n =
        o.elim (some (.ok s)) fun s' => iterate body i s' n := by
      intro n i hn
      simp only [iterate, Bind.bind, hk n hn]
      cases o <;> rfl
    cases o with
    | none =>
      refine ⟨s, hnone rfl, k + 1, fun n hn i hi => ?_⟩
      obtain ⟨i, rfl⟩ : ∃ j, i = j + 1 := ⟨i - 1, by omega⟩
      exact hunfold n i (by omega)
    | some s' =>
      obtain ⟨hinv, hlt⟩ := hsome s' rfl
      obtain ⟨t, ht, k', hk'⟩ := ih s' hlt hinv
      refine ⟨t, ht, max k k' + 1, fun n hn i hi => ?_⟩
      obtain ⟨i, rfl⟩ : ∃ j, i = j + 1 := ⟨i - 1, by omega⟩
      rw [hunfold n i (by omega)]
      exact hk' n (by omega) i (by omega)

end Run

end Setka.Lib
