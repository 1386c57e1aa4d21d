/-
# Setka.Lib.Interleave — programs that share a store.

A `Prog κ ν ε α` accesses a store one key at a time: each access is atomic, and between two of them
other programs may run. A schedule says whose turn it is. Two accesses to one key conflict unless both
only read. **Where all conflicts agree with one order of the programs, the schedule leaves the store as
the programs do when they run one after the other in that order.**
-/
import Mathlib.Data.List.Nodup
import Setka.Lib.Action

namespace Setka.Lib

open Function
open List (mem_cons_self mem_cons_of_mem mem_append_left mem_append_right)

/-- A program of atomic accesses to a store with keys `κ` and values `ν`. -/
inductive Prog (κ ν ε α : Type)
  | ret (r : Except ε α)
  | read (k : κ) (next : ν → Prog κ ν ε α)
  | update (k : κ) (f : ν → ν) (next : Prog κ ν ε α)

/-- An access: which key, and whether it may change it. -/
structure Access (κ : Type) where
  key : κ
  writes : Bool

/-- Two accesses that do not commute. -/
def Access.Conflicts {κ : Type} (a b : Access κ) : Prop :=
  a.key = b.key ∧ (a.writes = true ∨ b.writes = true)

instance {κ : Type} [DecidableEq κ] (a b : Access κ) : Decidable (a.Conflicts b) :=
  inferInstanceAs (Decidable (_ ∧ _))

namespace Prog

variable {κ ν ε α β : Type}

/-- Run `p`, then `f` on its value. -/
def andThen (f : α → Prog κ ν ε β) : Prog κ ν ε α → Prog κ ν ε β
  | ret (.ok a) => f a
  | ret (.error e) => ret (.error e)
  | read k next => read k fun v => andThen f (next v)
  | update k g next => update k g (andThen f next)

instance : Monad (Prog κ ν ε) where
  pure a := ret (.ok a)
  bind p f := andThen f p

/-! ## §1 A program by itself -/

section Run

variable [DecidableEq κ]

/-- The first access. -/
def access? : Prog κ ν ε α → Option (Access κ)
  | ret _ => none
  | read k _ => some ⟨k, false⟩
  | update k _ _ => some ⟨k, true⟩

/-- The store after the first access. -/
def effect (s : κ → ν) : Prog κ ν ε α → κ → ν
  | ret _ => s
  | read _ _ => s
  | update k f _ => Function.update s k (f (s k))

/-- What is left after the first access. -/
def resume (s : κ → ν) : Prog κ ν ε α → Prog κ ν ε α
  | ret r => ret r
  | read k next => next (s k)
  | update _ _ next => next

/-- The program run without interruption. -/
def run : Prog κ ν ε α → (κ → ν) → Except ε α × (κ → ν)
  | ret r, s => (r, s)
  | read k next, s => run (next (s k)) s
  | update k f next, s => run next (Function.update s k (f (s k)))

/-- The accesses of the program when it is not interrupted. -/
def accesses : Prog κ ν ε α → (κ → ν) → List (Access κ)
  | ret _, _ => []
  | read k next, s => ⟨k, false⟩ :: accesses (next (s k)) s
  | update k f next, s => ⟨k, true⟩ :: accesses next (Function.update s k (f (s k)))

theorem run_resume (p : Prog κ ν ε α) (s : κ → ν) : (p.resume s).run (p.effect s) = p.run s := by
  cases p <;> rfl

variable {p : Prog κ ν ε α} {s : κ → ν}

theorem mem_accesses_resume {b : Access κ}
    (h : b ∈ p.accesses s) : p.access? = some b ∨ b ∈ (p.resume s).accesses (p.effect s) := by
  cases p with
  | ret r => cases h
  | read k next =>
    rcases List.mem_cons.mp h with rfl | h
    · exact Or.inl rfl
    · exact Or.inr h
  | update k f next =>
    rcases List.mem_cons.mp h with rfl | h
    · exact Or.inl rfl
    · exact Or.inr h

/-- A sequence of programs runs as a sequence of actions. -/
theorem run_bind (p : Prog κ ν ε α) (f : α → Prog κ ν ε β) (s : κ → ν) : (p >>= f).run s =
      (Action.mk p.run >>= fun a => Action.mk (f a).run).run s := by
  show (andThen f p).run s = _
  induction p generalizing s with
  | ret r =>
    cases r with
    | ok a => rfl
    | error e => rfl
  | read k next ih => exact ih (s k) s
  | update k g next ih => exact ih (Function.update s k (g (s k)))

/-! ## §2 Accesses that do not conflict -/

/-- No access of a program conflicts with the first one of another. -/
def Avoids (p : Prog κ ν ε α) (s : κ → ν) (first : Prog κ ν ε β) : Prop :=
  ∀ a, first.access? = some a → ∀ b ∈ p.accesses s, ¬ a.Conflicts b

/-- A key that is not written keeps its value. -/
theorem run_apply_of_forall {k : κ}
    (h : ∀ b ∈ p.accesses s, b.key = k → b.writes = false) : (p.run s).2 k = s k := by
  induction p generalizing s with
  | ret r => rfl
  | read j next ih => exact ih (s j) fun b hb => h b (mem_cons_of_mem _ hb)
  | update j f next ih =>
    have hj : k ≠ j := by
      rintro rfl
      exact absurd (h _ mem_cons_self rfl) (by simp)
    have hrest := ih (s := Function.update s j (f (s j))) fun b hb =>
      h b (mem_cons_of_mem _ hb)
    exact hrest.trans (update_of_ne hj _ _)

/-- A key that is not accessed may be updated before or after. -/
theorem run_update_of_forall {k : κ} {g : ν → ν} (h : ∀ b ∈ p.accesses (Function.update s k (g (s k))), b.key ≠ k) :
    p.accesses s = p.accesses (Function.update s k (g (s k))) ∧
    (p.run (Function.update s k (g (s k)))).2 = Function.update (p.run s).2 k (g ((p.run s).2 k)) := by
  induction p generalizing s with
  | ret r => exact ⟨rfl, rfl⟩
  | read j next ih =>
    have hj : j ≠ k := h _ mem_cons_self
    have hvalue : Function.update s k (g (s k)) j = s j := update_of_ne hj _ _
    obtain ⟨haccesses, hrun⟩ := ih (s j) (s := s) fun b hb => by
      apply h b
      show b ∈ _ :: accesses (next (Function.update s k (g (s k)) j)) _
      rw [hvalue]
      exact mem_cons_of_mem _ hb
    constructor
    · show _ :: accesses (next (s j)) s = _ :: accesses (next (Function.update s k _ j)) _
      rw [hvalue, haccesses]
    show (run (next (Function.update s k _ j)) _).2 = _
    rw [hvalue]
    exact hrun
  | update j f next ih =>
    have hj : j ≠ k := h _ mem_cons_self
    have hvalue : Function.update s k (g (s k)) j = s j := update_of_ne hj _ _
    have hkeep : Function.update s j (f (s j)) k = s k := update_of_ne hj.symm _ _
    have hcomm : Function.update (Function.update s k (g (s k))) j (f (s j)) =
        Function.update (Function.update s j (f (s j))) k (g (s k)) :=
      update_comm hj.symm _ _ _
    obtain ⟨haccesses, hrun⟩ := ih (s := Function.update s j (f (s j))) fun b hb => by
      apply h b
      show b ∈ _ :: accesses next (Function.update (Function.update s k _) j (f (Function.update s k (g (s k)) j)))
      rw [hvalue, hcomm]
      rw [hkeep] at hb
      exact mem_cons_of_mem _ hb
    rw [hkeep, ← hcomm] at haccesses hrun
    constructor
    · show _ :: accesses next _ = _ :: accesses next (Function.update (Function.update s k _) j
        (f (Function.update s k (g (s k)) j)))
      rw [hvalue, haccesses]
    show (run next (Function.update (Function.update s k _) j (f (Function.update s k (g (s k)) j)))).2 = _
    rw [hvalue]
    exact hrun

/-- **A first access moves past a program that it does not conflict with.** -/
theorem Avoids.run {first : Prog κ ν ε β} (h : p.Avoids (first.effect s) first) :
    p.accesses s = p.accesses (first.effect s) ∧
    (p.run (first.effect s)).2 = first.effect (p.run s).2 ∧
    first.resume (p.run s).2 = first.resume s := by
  cases first with
  | ret r => exact ⟨rfl, rfl, rfl⟩
  | read k next =>
    have hkey : (p.run s).2 k = s k := by
      apply run_apply_of_forall
      intro b hb hk
      by_contra hwrites
      exact h _ rfl b hb ⟨hk.symm, Or.inr (by simpa using hwrites)⟩
    refine ⟨rfl, rfl, ?_⟩
    show next ((p.run s).2 k) = next (s k)
    rw [hkey]
  | update k f next =>
    obtain ⟨haccesses, hrun⟩ := run_update_of_forall (p := p) (s := s) (k := k) (g := f)
      fun b hb hk => h _ rfl b hb ⟨hk.symm, Or.inl rfl⟩
    exact ⟨haccesses, hrun, rfl⟩

end Run

end Prog

/-! ## §3 Programs in turn -/

/-- Programs, by their names, and the store that they share. -/
structure Shared (ι κ ν ε α : Type) where
  procs : ι → Prog κ ν ε α
  store : κ → ν

section Serial

variable {ι κ ν ε α : Type} [DecidableEq κ]

/-- The store after the programs have run one after the other. -/
def serial (procs : ι → Prog κ ν ε α) : List ι → (κ → ν) → κ → ν
  | [], s => s
  | i :: l, s => serial procs l ((procs i).run s).2

/-- The accesses of a run one after the other, and whose they are. -/
def serialTrace (procs : ι → Prog κ ν ε α) : List ι → (κ → ν) → List (ι × Access κ)
  | [], _ => []
  | i :: l, s => ((procs i).accesses s).map (i, ·) ++ serialTrace procs l ((procs i).run s).2

theorem serial_append (procs : ι → Prog κ ν ε α) (l m : List ι) (s : κ → ν) :
    serial procs (l ++ m) s = serial procs m (serial procs l s) := by
  induction l generalizing s with
  | nil => rfl
  | cons i l ih => exact ih _

theorem serialTrace_append (procs : ι → Prog κ ν ε α) (l m : List ι) (s : κ → ν) : serialTrace procs (l ++ m) s =
      serialTrace procs l s ++ serialTrace procs m (serial procs l s) := by
  induction l generalizing s with
  | nil => rfl
  | cons i l ih =>
    show _ ++ serialTrace procs (l ++ m) _ = (_ ++ serialTrace procs l _) ++ _
    rw [ih, List.append_assoc]
    rfl

variable {procs : ι → Prog κ ν ε α} {l : List ι}

theorem fst_mem_of_mem_serialTrace {s : κ → ν} {x : ι × Access κ} (h : x ∈ serialTrace procs l s) : x.1 ∈ l := by
  induction l generalizing s with
  | nil => cases h
  | cons i l ih =>
    rcases List.mem_append.mp h with h | h
    · obtain ⟨a, -, rfl⟩ := List.mem_map.mp h
      exact mem_cons_self
    · exact mem_cons_of_mem i (ih h)

/-- Only the programs of the list matter. -/
theorem serial_congr {procs' : ι → Prog κ ν ε α} (h : ∀ i ∈ l, procs' i = procs i) (s : κ → ν) :
    serial procs' l s = serial procs l s ∧ serialTrace procs' l s = serialTrace procs l s := by
  induction l generalizing s with
  | nil => exact ⟨rfl, rfl⟩
  | cons i l ih =>
    obtain ⟨hserial, htrace⟩ := ih (fun j hj => h j (mem_cons_of_mem i hj)) ((procs i).run s).2
    have hi := h i mem_cons_self
    constructor
    · show serial procs' l ((procs' i).run s).2 = _
      rw [hi, hserial]
      rfl
    show ((procs' i).accesses s).map (i, ·) ++ serialTrace procs' l ((procs' i).run s).2 = _
    rw [hi, htrace]
    rfl

/-- **A first access moves past programs that it does not conflict with.** -/
theorem serial_effect {s : κ → ν} {first : Prog κ ν ε α}
    (h : ∀ a, first.access? = some a → ∀ x ∈ serialTrace procs l (first.effect s),
      ¬ a.Conflicts x.2) : serialTrace procs l s = serialTrace procs l (first.effect s) ∧
    serial procs l (first.effect s) = first.effect (serial procs l s) ∧
    first.resume (serial procs l s) = first.resume s := by
  induction l generalizing s with
  | nil => exact ⟨rfl, rfl, rfl⟩
  | cons i l ih =>
    have havoids : (procs i).Avoids (first.effect s) first := by
      intro a ha b hb
      exact h a ha (i, b) (mem_append_left _ (List.mem_map.mpr ⟨b, hb, rfl⟩))
    obtain ⟨haccesses, hrun, hresume⟩ := havoids.run
    have hrest : ∀ a, first.access? = some a →
        ∀ x ∈ serialTrace procs l (first.effect ((procs i).run s).2), ¬ a.Conflicts x.2 := by
      intro a ha x hx
      apply h a ha x
      rw [← hrun] at hx
      exact mem_append_right _ hx
    obtain ⟨htrace, hserial, hresume'⟩ := ih hrest
    refine ⟨?_, ?_, hresume'.trans hresume⟩
    · show ((procs i).accesses s).map (i, ·) ++ serialTrace procs l ((procs i).run s).2 = _
      rw [haccesses, htrace, ← hrun]
      rfl
    show serial procs l ((procs i).run (first.effect s)).2 = _
    rw [hrun, hserial]
    rfl

end Serial

/-! ## §4 Schedules -/

namespace Shared

variable {ι κ ν ε α : Type} [DecidableEq κ]

/-- All programs have come to their end. -/
def Done (c : Shared ι κ ν ε α) : Prop := ∀ i, (c.procs i).access? = none

variable {c : Shared ι κ ν ε α}

theorem serial_of_done (h : c.Done) (l : List ι) :
    serial c.procs l c.store = c.store ∧ serialTrace c.procs l c.store = [] := by
  have hret : ∀ i, ((c.procs i).run c.store).2 = c.store ∧ (c.procs i).accesses c.store = [] := by
    intro i
    have hi := h i
    cases hp : c.procs i with
    | ret r => exact ⟨rfl, rfl⟩
    | read k next =>
      rw [hp] at hi
      cases hi
    | update k f next =>
      rw [hp] at hi
      cases hi
  induction l with
  | nil => exact ⟨rfl, rfl⟩
  | cons i l ih =>
    constructor
    · show serial c.procs l ((c.procs i).run c.store).2 = c.store
      rw [(hret i).1]
      exact ih.1
    show ((c.procs i).accesses c.store).map (i, ·) ++ serialTrace c.procs l ((c.procs i).run c.store).2 = []
    rw [(hret i).2, (hret i).1, ih.2]
    rfl

variable [DecidableEq ι]

/-- One access of the program whose turn it is. -/
def step (c : Shared ι κ ν ε α) (i : ι) : Shared ι κ ν ε α where
  procs := Function.update c.procs i ((c.procs i).resume c.store)
  store := (c.procs i).effect c.store

/-- The programs after some turns. -/
def run (c : Shared ι κ ν ε α) (turns : List ι) : Shared ι κ ν ε α := turns.foldl step c

/-- The accesses in the order in which they happen, and whose they are. -/
def trace : Shared ι κ ν ε α → List ι → List (ι × Access κ)
  | _, [] => []
  | c, i :: turns => ((c.procs i).access?.map (i, ·)).toList ++ (c.step i).trace turns

/-- `i` stands before `j` in the list. -/
def Precedes (l : List ι) (i j : ι) : Prop := ∃ l₁ l₂, l = l₁ ++ j :: l₂ ∧ i ∈ l₁

/-- **All conflicts agree with the order**: after an access of a program, no program before it in the
list makes an access that conflicts with it. -/
def Agrees (l : List ι) (trace : List (ι × Access κ)) : Prop :=
  trace.Pairwise fun x y => Precedes l y.1 x.1 → ¬ x.2.Conflicts y.2

theorem procs_step_of_ne {i j : ι} (h : j ≠ i) : (c.step i).procs j = c.procs j :=
  update_of_ne h _ _

theorem procs_step_self (c : Shared ι κ ν ε α) (i : ι) : (c.step i).procs i = (c.procs i).resume c.store :=
  update_self i _ _

/-- One turn, seen from the run one after the other: the first access of `i` moves past the programs
that stand before it. -/
theorem serial_step {l₁ l₂ : List ι} {i : ι} (hl : (l₁ ++ i :: l₂).Nodup) (h : ∀ a, (c.procs i).access? = some a →
      ∀ x ∈ serialTrace c.procs l₁ (c.step i).store, ¬ a.Conflicts x.2) :
    serial (c.step i).procs (l₁ ++ i :: l₂) (c.step i).store = serial c.procs (l₁ ++ i :: l₂) c.store ∧
      ∀ x ∈ serialTrace c.procs (l₁ ++ i :: l₂) c.store, (c.procs i).access? = some x.2 ∧ x.1 = i ∨
          x ∈ serialTrace (c.step i).procs (l₁ ++ i :: l₂) (c.step i).store := by
  have hnodup := List.nodup_append.mp hl
  have hbefore : ∀ j ∈ l₁, (c.step i).procs j = c.procs j :=
    fun j hj => procs_step_of_ne (hnodup.2.2 j hj i mem_cons_self)
  have hafter : ∀ j ∈ l₂, (c.step i).procs j = c.procs j := by
    intro j hj
    apply procs_step_of_ne
    rintro rfl
    exact (List.nodup_cons.mp hnodup.2.1).1 hj
  obtain ⟨htrace₁, hserial₁, hresume⟩ := serial_effect h
  -- `mid` is the store that `i` finds when the programs before it have run
  set mid := serial c.procs l₁ c.store with hmid
  have hmid' : serial (c.step i).procs l₁ (c.step i).store = (c.procs i).effect mid :=
    (serial_congr hbefore _).1.trans hserial₁
  have hproc : (c.step i).procs i = (c.procs i).resume mid :=
    (procs_step_self c i).trans hresume.symm
  have hrun : (((c.step i).procs i).run ((c.procs i).effect mid)).2 = ((c.procs i).run mid).2 := by
    rw [hproc, Prog.run_resume]
  rw [serial_append, serialTrace_append, serialTrace_append, serial_append, hmid', ← hmid]
  constructor
  · show serial (c.step i).procs l₂ (((c.step i).procs i).run ((c.procs i).effect mid)).2 = _
    rw [hrun, (serial_congr hafter _).1]
    rfl
  intro x hx
  rcases List.mem_append.mp hx with hx | hx
  · rw [htrace₁, ← (serial_congr hbefore _).2] at hx
    exact Or.inr (mem_append_left _ hx)
  rcases List.mem_append.mp hx with hx | hx
  · obtain ⟨a, ha, rfl⟩ := List.mem_map.mp hx
    rcases Prog.mem_accesses_resume ha with hfirst | hrest
    · exact Or.inl ⟨hfirst, rfl⟩
    refine Or.inr (mem_append_right _ (mem_append_left _ ?_))
    rw [hproc]
    exact List.mem_map.mpr ⟨a, hrest, rfl⟩
  · refine Or.inr (mem_append_right _ (mem_append_right _ ?_))
    rw [hrun, (serial_congr hafter _).2]
    exact hx

/-- **Conflict-serialisable schedules**: where all conflicts agree with an order of the programs, the
store is left as by the programs one after the other. -/
theorem store_run_of_agrees {l : List ι} (hl : l.Nodup) (hall : ∀ i, i ∈ l) {turns : List ι}
    (hdone : (c.run turns).Done) (h : Agrees l (c.trace turns)) :
    (c.run turns).store = serial c.procs l c.store ∧
      ∀ x ∈ serialTrace c.procs l c.store, x ∈ c.trace turns := by
  induction turns generalizing c with
  | nil =>
    obtain ⟨hserial, htrace⟩ := serial_of_done (c := c) hdone l
    refine ⟨hserial.symm, fun x hx => ?_⟩
    rw [htrace] at hx
    exact hx
  | cons i turns ih =>
    obtain ⟨-, hrest, hfirst⟩ := List.pairwise_append.mp h
    obtain ⟨hstore, hsub⟩ := ih hdone hrest
    obtain ⟨l₁, l₂, rfl⟩ := List.append_of_mem (hall i)
    have hbefore : ∀ j ∈ l₁, (c.step i).procs j = c.procs j := fun j hj =>
      procs_step_of_ne ((List.nodup_append.mp hl).2.2 j hj i mem_cons_self)
    obtain ⟨hserial, htrace⟩ := serial_step hl (c := c) fun a ha x hx => by
      -- the later accesses of the programs before `i` are those of their run one after the other
      have hx' : x ∈ (c.step i).trace turns := by
        apply hsub
        rw [serialTrace_append, (serial_congr hbefore _).2]
        exact mem_append_left _ hx
      apply hfirst (i, a) (by rw [ha]; exact List.mem_singleton_self _) x hx'
      exact ⟨l₁, l₂, rfl, fst_mem_of_mem_serialTrace hx⟩
    refine ⟨hstore.trans hserial, fun x hx => ?_⟩
    rcases htrace x hx with ⟨hfirst', rfl⟩ | hx'
    · apply mem_append_left
      rw [hfirst']
      exact List.mem_singleton_self _
    · exact mem_append_right _ (hsub x hx')

end Shared

end Setka.Lib
