/-
# Setka.Lib.Transition — transition systems and their invariants.

A system is a set of initial states and a step relation. Safety over all runs is one induction, done
here once: what holds initially and is kept by every step from a reachable state holds of every
reachable state. What happens in the end is said of runs without end.
-/
import Mathlib.Data.List.Induction
import Mathlib.Order.Lattice

namespace Setka.Lib

universe u

/-- States reached from an initial state by finitely many steps. -/
inductive Reachable {σ : Type u} (init : σ → Prop) (step : σ → σ → Prop) : σ → Prop
  | start {s : σ} : init s → Reachable init step s
  | next {s t : σ} : Reachable init step s → step s t → Reachable init step t

namespace Reachable

variable {σ : Type u} {init : σ → Prop} {step : σ → σ → Prop}

/-- **The invariant rule.** -/
theorem invariant {Inv : σ → Prop} (hinit : ∀ s, init s → Inv s)
    (hstep : ∀ s t, Reachable init step s → Inv s → step s t → Inv t) {s : σ}
    (h : Reachable init step s) : Inv s := by
  induction h with
  | start h => exact hinit _ h
  | next hs hst ih => exact hstep _ _ hs ih hst

end Reachable

/-! ## Runs without end -/

/-- A run without end: each state is followed by one that a step leads to, or by itself. -/
structure EndlessRun {σ : Type u} (init : σ → Prop) (step : σ → σ → Prop) (run : ℕ → σ) : Prop where
  start : init (run 0)
  next : ∀ n, step (run n) (run (n + 1)) ∨ run (n + 1) = run n

namespace EndlessRun

variable {σ : Type u} {init : σ → Prop} {step : σ → σ → Prop} {run : ℕ → σ}

theorem reachable (h : EndlessRun init step run) (n : ℕ) : Reachable init step (run n) := by
  induction n with
  | zero => exact .start h.start
  | succ n ih =>
    rcases h.next n with hstep | hsame
    · exact ih.next hstep
    · rw [hsame]
      exact ih

variable {n : ℕ}

/-- What every step keeps holds from some moment on. -/
theorem stable (h : EndlessRun init step run) {P : σ → Prop}
    (hstep : ∀ s t, Reachable init step s → P s → step s t → P t) {m : ℕ} (hnm : n ≤ m)
    (hP : P (run n)) : P (run m) := by
  induction m, hnm using Nat.le_induction with
  | base => exact hP
  | succ m _ ih =>
    rcases h.next m with hs | hsame
    · exact hstep _ _ (h.reachable m) ih hs
    · rw [hsame]
      exact ih

/-- What holds at one moment and not at a later one is ended by a step. -/
theorem leaves (h : EndlessRun init step run) {P : σ → Prop} {k : ℕ} (hnk : n ≤ k) (hP : P (run n))
    (hnot : ¬ P (run k)) : ∃ m, n ≤ m ∧ P (run m) ∧ ¬ P (run (m + 1)) ∧ step (run m) (run (m + 1)) := by
  induction k, hnk using Nat.le_induction with
  | base => exact absurd hP hnot
  | succ k hk ih =>
    by_cases hPk : P (run k)
    · rcases h.next k with hs | hsame
      · exact ⟨k, hk, hPk, hnot, hs⟩
      · rw [hsame] at hnot
        exact absurd hPk hnot
    · exact ih hPk

/-- Finitely many things that each happen in the end, and stay so, hold together in the end. -/
theorem eventually_all {α : Type*} (h : EndlessRun init step run) {P : α → σ → Prop}
    (hstep : ∀ a s t, Reachable init step s → P a s → step s t → P a t) {l : List α}
    (hP : ∀ a ∈ l, ∃ m, n ≤ m ∧ P a (run m)) : ∃ m, n ≤ m ∧ ∀ a ∈ l, P a (run m) := by
  induction l with
  | nil => exact ⟨n, le_refl n, by simp⟩
  | cons a l ih =>
    obtain ⟨m, hm, hall⟩ := ih fun b hb => hP b (List.mem_cons_of_mem a hb)
    obtain ⟨k, hk, ha⟩ := hP a List.mem_cons_self
    refine ⟨max m k, hm.trans (le_max_left m k), ?_⟩
    intro b hb
    rcases List.mem_cons.mp hb with rfl | hb
    · exact h.stable (hstep b) (le_max_right m k) ha
    · exact h.stable (hstep b) (le_max_left m k) (hall b hb)

end EndlessRun

/-! ## Runs over a list of inputs -/

section AllSteps

variable {δ : Type u}

/-- `P` holds at every step of a run: of the inputs before it and its own input. -/
def AllSteps (P : List δ → δ → Prop) (inputs : List δ) : Prop :=
  ∀ before d after, inputs = before ++ d :: after → P before d

theorem allSteps_nil (P : List δ → δ → Prop) : AllSteps P [] := by
  intro before d after h
  exact absurd h (by simp)

/-- The last step of a run, and the steps before it. -/
theorem allSteps_concat {P : List δ → δ → Prop} {inputs : List δ} {d : δ} :
    AllSteps P (inputs ++ [d]) ↔ AllSteps P inputs ∧ P inputs d := by
  constructor
  · intro h
    refine ⟨fun before e after he => h before e (after ++ [d]) ?_, h inputs d [] rfl⟩
    rw [he, List.append_assoc, List.cons_append]
  rintro ⟨hall, hlast⟩ before e after he
  rcases List.eq_nil_or_concat after with rfl | ⟨rest, b, rfl⟩
  · obtain ⟨rfl, hd⟩ := List.append_inj' he rfl
    obtain rfl : d = e := by simpa using hd
    exact hlast
  refine hall before e rest ?_
  rw [List.concat_eq_append, ← List.cons_append, ← List.append_assoc] at he
  exact (List.append_inj' he rfl).1

variable {inputs : List δ}

/-- The first step of a run, and the steps after it. -/
theorem allSteps_cons {P : List δ → δ → Prop} {d : δ} :
    AllSteps P (d :: inputs) ↔ P [] d ∧ AllSteps (fun before => P (d :: before)) inputs := by
  constructor
  · intro h
    exact ⟨h [] d inputs rfl, fun before e after he => h (d :: before) e after (by rw [he]; rfl)⟩
  rintro ⟨hfirst, hrest⟩ before e after he
  cases before with
  | nil =>
    cases he
    exact hfirst
  | cons b before =>
    cases he
    exact hrest before e after rfl

variable {σ : Type u}

/-- A run over a list of inputs reaches its last state. -/
theorem Reachable.of_foldl {init : σ → Prop} {step : σ → σ → Prop} {f : σ → δ → σ} {s : σ} (hs : init s)
    (h : AllSteps (fun before d => step (before.foldl f s) (f (before.foldl f s) d)) inputs) :
    Reachable init step (inputs.foldl f s) := by
  induction inputs using List.reverseRecOn with
  | nil => exact .start hs
  | append_singleton inputs d ih =>
    obtain ⟨hinputs, hd⟩ := allSteps_concat.mp h
    rw [List.foldl_append]
    exact (ih hinputs).next hd

/-- The last step of a run whose steps may fail. -/
theorem foldlM_concat_eq_some_iff {f : σ → δ → Option σ} {s t : σ} {d : δ} : (inputs ++ [d]).foldlM f s = some t ↔
      ∃ r, inputs.foldlM f s = some r ∧ f r d = some t := by
  rw [List.foldlM_append, Option.bind_eq_bind, Option.bind_eq_some_iff]
  simp

/-- A run none of whose steps fails reaches its last state. -/
theorem Reachable.of_foldlM {init : σ → Prop} {step : σ → σ → Prop} {f : σ → δ → Option σ} {s t : σ}
    (hf : ∀ s d t, f s d = some t → step s t) (hs : Reachable init step s)
    (h : inputs.foldlM f s = some t) : Reachable init step t := by
  induction inputs using List.reverseRecOn generalizing t with
  | nil =>
    cases h
    exact hs
  | append_singleton inputs d ih =>
    obtain ⟨r, hr, hd⟩ := foldlM_concat_eq_some_iff.mp h
    exact (ih hr).next (hf r d t hd)

end AllSteps

/-! ## Conditions along a run -/

section Along

variable {σ : Type u} {δ : Type u} {f : σ → δ → Option σ} {P : σ → δ → Prop}

/-- Every step of a run meets a condition on the state before it. -/
def Along (f : σ → δ → Option σ) (P : σ → δ → Prop) : σ → List δ → Prop
  | _, [] => True
  | s, d :: rest => P s d ∧ (f s d).elim True fun t => Along f P t rest

instance Along.decidable [∀ s d, Decidable (P s d)] : (s : σ) → (inputs : List δ) → Decidable (Along f P s inputs)
  | _, [] => isTrue trivial
  | s, d :: rest =>
    have : Decidable ((f s d).elim True fun t => Along f P t rest) :=
      match f s d with
      | some t => Along.decidable t rest
      | none => isTrue trivial
    inferInstanceAs (Decidable (_ ∧ _))

/-- **The invariant rule along a run**: what the start has, and every step that meets the condition
keeps, the end has. -/
theorem Along.invariant (Inv : σ → Prop)
    (hstep : ∀ s d t, Inv s → P s d → f s d = some t → Inv t) {s t : σ} {inputs : List δ} (hs : Inv s)
    (h : Along f P s inputs) (hrun : inputs.foldlM f s = some t) : Inv t := by
  induction inputs generalizing s with
  | nil =>
    cases hrun
    exact hs
  | cons d rest ih =>
    obtain ⟨r, hr, hrest⟩ := Option.bind_eq_some_iff.mp hrun
    obtain ⟨hP, halong⟩ := h
    rw [hr] at halong
    exact ih (hstep s d r hs hP hr) halong hrest

end Along

end Setka.Lib
