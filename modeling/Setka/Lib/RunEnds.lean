/-
# Setka.Lib.RunEnds — computations that may raise or loop for ever, where they end.

`Ends m a` says that the computation returns `a` when it has enough fuel. The rules of this file lead from a program
that ends to its parts: each of them ends, and what every turn of a loop keeps holds after the loop. A stable
computation does not depend on how much fuel is left over, and so what it returns is what total correctness speaks of.
-/
import Setka.Lib.Action
import Setka.Lib.Run

namespace Setka.Lib.Run

variable {ε α β σ : Type}

/-- With some fuel the computation returns `a`. -/
def Ends (m : Run ε α) (a : α) : Prop := ∃ n, m n = some (.ok a)

/-! ## §1 The parts of a run that ends -/

variable {a : α}

theorem ends_pure_iff {b : α} : Ends (pure a : Run ε α) b ↔ a = b := by
  constructor
  · rintro ⟨n, h⟩
    exact Except.ok.inj (Option.some.inj h)
  · rintro rfl
    exact ⟨0, rfl⟩

theorem not_ends_raise {e : ε} : ¬ Ends (raise e : Run ε α) a := by
  rintro ⟨n, h⟩
  cases h

variable {m : Run ε α}

/-- A sequence of two steps that ends is two steps that end. -/
theorem Ends.of_bind {f : α → Run ε β} {b : β} (h : Ends (m >>= f) b) : ∃ a, Ends m a ∧ Ends (f a) b := by
  obtain ⟨n, h⟩ := h
  simp only [Bind.bind] at h
  cases hm : m n with
  | none =>
    rw [hm] at h
    cases h
  | some r =>
    rw [hm] at h
    cases r with
    | error e => cases h
    | ok a => exact ⟨a, ⟨n, hm⟩, n, h⟩

/-- What every turn of a `for` loop keeps. -/
theorem Ends.foldlM {f : β → α → Run ε β} {I : β → Prop} {l : List α} {b c : β} (h : Ends (l.foldlM f b) c)
    (h0 : I b) (hstep : ∀ a ∈ l, ∀ b c, I b → Ends (f b a) c → I c) : I c := by
  induction l generalizing b with
  | nil => exact ends_pure_iff.mp h ▸ h0
  | cons a l ih =>
    obtain ⟨b', hfirst, hrest⟩ := h.of_bind
    refine ih hrest (hstep a List.mem_cons_self b b' h0 hfirst) ?_
    exact fun a' ha' => hstep a' (List.mem_cons_of_mem a ha')

/-- **What every turn of a `while` loop keeps**; after the loop its condition fails. -/
theorem Ends.loop {body : σ → Run ε (Option σ)} {I : σ → Prop} {s t : σ} (h : Ends (loop body s) t) (h0 : I s)
    (hbody : ∀ s s', I s → Ends (body s) (some s') → I s') : I t ∧ Ends (body t) none := by
  obtain ⟨n, h⟩ := h
  have hiterate : ∀ k s, I s → iterate body k s n = some (.ok t) → I t ∧ Ends (body t) none := by
    intro k
    induction k with
    | zero =>
      intro s _ h
      cases h
    | succ k ih =>
      intro s hs h
      simp only [iterate, Bind.bind] at h
      cases hturn : body s n with
      | none =>
        rw [hturn] at h
        cases h
      | some r =>
        rw [hturn] at h
        cases r with
        | error e => cases h
        | ok o =>
          cases o with
          | none =>
            obtain rfl := Except.ok.inj (Option.some.inj h)
            exact ⟨hs, n, hturn⟩
          | some s' => exact ih s' (hbody s s' hs ⟨n, hturn⟩) h
  exact hiterate n s h0 h

/-! ## §2 Stable computations -/

/-- A result does not change when there is more fuel. -/
def Stable (m : Run ε α) : Prop := ∀ n n', n ≤ n' → ∀ r, m n = some r → m n' = some r

theorem stable_pure (a : α) : Stable (pure a : Run ε α) := fun _ _ _ _ h => h

theorem stable_ofOption (e : ε) (o : Option α) : Stable (ofOption e o) := by
  cases o with
  | none => exact fun _ _ _ _ h => h
  | some a => exact stable_pure a

theorem Stable.bind {f : α → Run ε β} (hm : Stable m) (hf : ∀ a, Stable (f a)) : Stable (m >>= f) := by
  intro n n' hle r h
  simp only [Bind.bind] at h ⊢
  cases hfirst : m n with
  | none =>
    rw [hfirst] at h
    cases h
  | some first =>
    rw [hfirst] at h
    rw [hm n n' hle first hfirst]
    cases first with
    | error e => exact h
    | ok a => exact hf a n n' hle r h

theorem Stable.foldlM {f : β → α → Run ε β} (hf : ∀ b a, Stable (f b a)) (l : List α) (b : β) :
    Stable (l.foldlM f b) := by
  induction l generalizing b with
  | nil => exact stable_pure b
  | cons a l ih =>
    exact (hf b a).bind ih

theorem Stable.loop {body : σ → Run ε (Option σ)} (hbody : ∀ s, Stable (body s)) (s : σ) : Stable (loop body s) := by
  intro n n' hle r h
  -- with one more turn allowed, and with more fuel in each
  have hiterate : ∀ k k', k ≤ k' → ∀ s, iterate body k s n = some r → iterate body k' s n' = some r := by
    intro k
    induction k with
    | zero =>
      intro k' _ s h
      cases h
    | succ k ih =>
      intro k' hk s h
      obtain ⟨k', rfl⟩ : ∃ j, k' = j + 1 := ⟨k' - 1, by omega⟩
      simp only [iterate, Bind.bind] at h ⊢
      cases hturn : body s n with
      | none =>
        rw [hturn] at h
        cases h
      | some first =>
        rw [hturn] at h
        rw [hbody s n n' hle first hturn]
        cases first with
        | error e => exact h
        | ok o =>
          cases o with
          | none => exact h
          | some s' => exact ih k' (by omega) s' h
  exact hiterate n n' hle s h

/-- What is proved of a stable computation by total correctness holds of what it returns. -/
theorem Yields.of_ends {post : α → Prop} (h : Yields m post) (hm : Stable m) (ha : Ends m a) : post a := by
  obtain ⟨a', ⟨k, hk⟩, hpost⟩ := h
  obtain ⟨n, hn⟩ := ha
  have hlater : m (max k n) = some (.ok a) := hm n (max k n) (by omega) _ hn
  rw [hk (max k n) (by omega)] at hlater
  exact Except.ok.inj (Option.some.inj hlater) ▸ hpost

/-! ## §3 Stateful steps -/

/-- An action from a state, with the state it leaves. -/
def ofAction (m : Action σ ε α) (s : σ) : Run ε (α × σ) := fun _ =>
  match m.run s with
  | (.ok a, s') => some (.ok (a, s'))
  | (.error e, _) => some (.error e)

theorem ends_ofAction_iff {m : Action σ ε α} {s s' : σ} : Ends (ofAction m s) (a, s') ↔ m.run s = (.ok a, s') := by
  have hresult : ∀ n, ofAction m s n = some (.ok (a, s')) ↔ m.run s = (.ok a, s') := by
    intro n
    rw [ofAction]
    split
    · next b t hrun => rw [hrun, Option.some.injEq, Except.ok.injEq, Prod.mk.injEq, Prod.mk.injEq, Except.ok.injEq]
    next e t hrun =>
      rw [hrun, Option.some.injEq, Prod.mk.injEq]
      exact ⟨nofun, nofun⟩
  exact ⟨fun ⟨n, h⟩ => (hresult n).mp h, fun h => ⟨0, (hresult 0).mpr h⟩⟩

end Setka.Lib.Run
