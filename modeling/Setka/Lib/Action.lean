/-
# Setka.Lib.Action — stateful computations that may raise.

An `Action σ ε α` reads and writes a state and ends with a value or an exception. What was written
before the exception stays written, as in a program whose writes are not rolled back. `Keeps R` says
that an action changes the state within `R`, however it ends.
-/
import Mathlib.Data.List.Forall2
import Mathlib.Order.Defs.PartialOrder

namespace Setka.Lib

variable {ε α β : Type}

/-- A sequence of two steps that ends well is two steps that end well. -/
theorem except_bind_eq_ok {x : Except ε α} {f : α → Except ε β} {b : β} :
    (x >>= f) = .ok b ↔ ∃ a, x = .ok a ∧ f a = .ok b := by
  cases x with
  | error e => simp [bind, Except.bind]
  | ok a => simp [bind, Except.bind]

theorem except_ok_bind (a : α) (f : α → Except ε β) : ((.ok a : Except ε α) >>= f) = f a := rfl

theorem except_toOption_eq_some {x : Except ε α} {a : α} : x.toOption = some a ↔ x = .ok a := by
  cases x with
  | error e => simp [Except.toOption]
  | ok b => simp [Except.toOption]

/-- A loop without a result ends well when all its turns do. -/
theorem forM_eq_ok {f : α → Except ε Unit} {l : List α} : l.forM f = .ok () ↔ ∀ x ∈ l, f x = .ok () := by
  induction l with
  | nil => simp [pure, Except.pure]
  | cons x l ih =>
    rw [List.forall_mem_cons, ← ih]
    exact except_bind_eq_ok.trans ⟨fun ⟨_, hx, hl⟩ => ⟨hx, hl⟩, fun ⟨hx, hl⟩ => ⟨(), hx, hl⟩⟩

/-- A loop over encoded values in which no turn raises, whatever its index. -/
theorem mapM_zipIdx_map {γ : Type} {f : β × ℕ → Except ε γ} {e : α → β} {g : α → γ} {l : List α}
    (h : ∀ x ∈ l, ∀ i, f (e x, i) = .ok (g x)) (n : ℕ) : ((l.map e).zipIdx n).mapM f = .ok (l.map g) := by
  induction l generalizing n with
  | nil => rfl
  | cons x l ih =>
    rw [List.map_cons, List.zipIdx_cons, List.mapM_cons, h x List.mem_cons_self,
      ih fun y hy => h y (List.mem_cons_of_mem x hy)]
    rfl

/-- A loop whose turns all return a value returns the list of them. -/
theorem mapM_eq_ok_map {f : α → Except ε β} {g : α → β} {l : List α}
    (h : ∀ a ∈ l, f a = .ok (g a)) : l.mapM f = .ok (l.map g) := by
  induction l with
  | nil => rfl
  | cons a l ih =>
    rw [List.mapM_cons, h a (List.mem_cons_self ..), ih fun b hb => h b (List.mem_cons_of_mem _ hb)]
    rfl

/-- The results of a loop, one for each turn. -/
theorem forall₂_of_mapM_eq_ok {f : α → Except ε β} {l : List α} {ys : List β}
    (h : l.mapM f = .ok ys) : List.Forall₂ (fun x y => f x = .ok y) l ys := by
  induction l generalizing ys with
  | nil =>
    obtain rfl := Except.ok.inj h
    exact List.Forall₂.nil
  | cons x l ih =>
    rw [List.mapM_cons] at h
    obtain ⟨z, hz, h⟩ := except_bind_eq_ok.mp h
    obtain ⟨zs, hzs, h⟩ := except_bind_eq_ok.mp h
    obtain rfl := Except.ok.inj h
    exact List.Forall₂.cons hz (ih hzs)

/-- Each result of a loop is that of a turn. -/
theorem exists_of_mapM_eq_ok {f : α → Except ε β} {l : List α} {ys : List β} (h : l.mapM f = .ok ys) {y : β}
    (hy : y ∈ ys) : ∃ x ∈ l, f x = .ok y := by
  have hall := forall₂_of_mapM_eq_ok h
  clear h
  induction hall with
  | nil => exact absurd hy List.not_mem_nil
  | @cons x z l zs hz _ ih =>
    rcases List.mem_cons.mp hy with rfl | hy
    · exact ⟨x, List.mem_cons_self, hz⟩
    · obtain ⟨w, hw, hfw⟩ := ih hy
      exact ⟨w, List.mem_cons_of_mem x hw, hfw⟩

/-- What a loop keeps, against the items it keeps. -/
theorem forall₂_filterMap {kept : α → Bool} {R : α → β → Prop} {xs : List α} {os : List (Option β)}
    (h : List.Forall₂ (fun x o => if kept x then ∃ y, o = some y ∧ R x y else o = none) xs os) :
    List.Forall₂ R (xs.filter kept) (os.filterMap id) := by
  induction h with
  | nil => exact List.Forall₂.nil
  | @cons x o xs os ho _ ih =>
    split at ho
    · rename_i hx
      obtain ⟨y, rfl, hxy⟩ := ho
      rw [List.filter_cons_of_pos hx, List.filterMap_cons_some (f := id) rfl]
      exact List.Forall₂.cons hxy ih
    · rename_i hx
      subst ho
      rw [List.filter_cons_of_neg hx, List.filterMap_cons_none (f := id) rfl]
      exact ih

theorem forall_mem_iff_of_forall₂ {P : α → Prop} {Q : β → Prop} {xs : List α} {ys : List β}
    (h : List.Forall₂ (fun x y => P x ↔ Q y) xs ys) : (∀ x ∈ xs, P x) ↔ ∀ y ∈ ys, Q y := by
  induction h with
  | nil => simp
  | cons hxy _ ih => rw [List.forall_mem_cons, List.forall_mem_cons, hxy, ih]

/-- A computation on a state, with a value or an exception as its result. -/
structure Action (σ ε α : Type) where
  run : σ → Except ε α × σ

namespace Action

variable {σ ε α β γ : Type}

/-- Run `m`, then `f` on its value. -/
def andThen (m : Action σ ε α) (f : α → Action σ ε β) : Action σ ε β where
  run s :=
    match m.run s with
    | (.ok a, s') => (f a).run s'
    | (.error e, s') => (.error e, s')

instance : Monad (Action σ ε) where
  pure a := ⟨fun s => (.ok a, s)⟩
  bind := andThen

/-- Raise `e`. -/
def raise (e : ε) : Action σ ε α := ⟨fun s => (.error e, s)⟩

/-- The result of a computation that does not look at the state. -/
def lift (r : Except ε α) : Action σ ε α := ⟨fun s => (r, s)⟩

/-- A value read off the state, or an exception. -/
def reads (f : σ → Except ε α) : Action σ ε α := ⟨fun s => (f s, s)⟩

/-- Change the state. -/
def modify (f : σ → σ) : Action σ ε Unit := ⟨fun s => (.ok (), f s)⟩

/-- The computation with its exceptions replaced. -/
def mapError (f : ε → ε) (m : Action σ ε α) : Action σ ε α :=
  ⟨fun s => ((m.run s).1.mapError f, (m.run s).2)⟩

@[simp] theorem run_pure (a : α) (s : σ) : (pure a : Action σ ε α).run s = (.ok a, s) := rfl

@[simp] theorem run_raise (e : ε) (s : σ) : (raise e : Action σ ε α).run s = (.error e, s) := rfl

@[simp] theorem run_lift (r : Except ε α) (s : σ) : (lift r).run s = (r, s) := rfl

@[simp] theorem run_reads (f : σ → Except ε α) (s : σ) : (reads f).run s = (f s, s) := rfl

@[simp] theorem run_modify (f : σ → σ) (s : σ) : (modify f : Action σ ε Unit).run s = (.ok (), f s) := rfl

theorem pure_bind (a : α) (f : α → Action σ ε β) : (pure a >>= f) = f a := rfl

theorem raise_bind (e : ε) (f : α → Action σ ε β) : (raise e >>= f) = raise e := rfl

theorem lift_ok_bind (a : α) (f : α → Action σ ε β) : (lift (.ok a) >>= f) = f a := rfl

theorem lift_error_bind (e : ε) (f : α → Action σ ε β) : (lift (.error e) >>= f) = raise e := rfl

theorem run_bind (m : Action σ ε α) (f : α → Action σ ε β) (s : σ) : (m >>= f).run s = match m.run s with
      | (.ok a, s') => (f a).run s'
      | (.error e, s') => (.error e, s') := rfl

theorem run_forM_cons (f : α → Action σ ε PUnit) (a : α) (l : List α) (s : σ) :
    ((a :: l).forM f).run s = (f a >>= fun _ => l.forM f).run s := rfl

variable {m : Action σ ε α} {s : σ}

theorem run_bind_of_ok {s' : σ} {a : α} (h : m.run s = (.ok a, s'))
    (f : α → Action σ ε β) : (m >>= f).run s = (f a).run s' := by
  show (andThen m f).run s = _
  simp only [andThen, h]

theorem run_bind_of_error {s' : σ} {e : ε} (h : m.run s = (.error e, s'))
    (f : α → Action σ ε β) : (m >>= f).run s = (.error e, s') := by
  show (andThen m f).run s = _
  simp only [andThen, h]

variable {t : σ}

theorem bind_assoc (m : Action σ ε α) (f : α → Action σ ε β) (g : β → Action σ ε γ) :
    (m >>= f >>= g) = m >>= fun a => f a >>= g := by
  refine congrArg Action.mk (funext fun s => ?_)
  simp only [run_bind]
  rcases m.run s with ⟨e | a, s'⟩ <;> rfl

/-- A sequence of two steps that ends well is two steps that end well. -/
theorem exists_of_run_bind_eq_ok {f : α → Action σ ε β} {b : β} (h : (m >>= f).run s = (.ok b, t)) :
    ∃ a s', m.run s = (.ok a, s') ∧ (f a).run s' = (.ok b, t) := by
  rcases hm : m.run s with ⟨r, s'⟩
  cases r with
  | error e =>
    rw [run_bind_of_error hm] at h
    exact absurd (congrArg Prod.fst h) (by simp)
  | ok a =>
    rw [run_bind_of_ok hm] at h
    exact ⟨a, s', rfl, h⟩

/-- A sequence of two steps raises in its first step or in its second. -/
theorem run_bind_eq_error {f : α → Action σ ε β} {e : ε} (h : (m >>= f).run s = (.error e, t)) :
    m.run s = (.error e, t) ∨ ∃ a s', m.run s = (.ok a, s') ∧ (f a).run s' = (.error e, t) := by
  rcases hm : m.run s with ⟨r, s'⟩
  cases r with
  | error e' =>
    rw [run_bind_of_error hm] at h
    obtain ⟨he, rfl⟩ := Prod.mk.inj h
    obtain rfl := Except.error.inj he
    exact Or.inl rfl
  | ok a =>
    rw [run_bind_of_ok hm] at h
    exact Or.inr ⟨a, s', rfl, h⟩

/-- **What holds after a loop and not before it** was brought about by one of its turns. -/
theorem exists_turn_of_foldlM {f : β → α → Action σ ε β} {P : β → Prop} {l : List α} {b c : β}
    (h : (l.foldlM f b).run s = (.ok c, t)) (hc : P c) :
    P b ∨ ∃ before a after b' s' c' t', l = before ++ a :: after ∧ (before.foldlM f b).run s = (.ok b', s') ∧
      (f b' a).run s' = (.ok c', t') ∧ ¬ P b' ∧ P c' := by
  induction l generalizing b s with
  | nil =>
    obtain ⟨hb, -⟩ := Prod.mk.inj h
    exact Or.inl (Except.ok.inj hb ▸ hc)
  | cons a l ih =>
    obtain ⟨b', s', ha, hl⟩ := exists_of_run_bind_eq_ok h
    rcases ih hl with hb' | ⟨before, a', after, b'', s'', c', t', rfl, hbefore, hturn⟩
    · by_cases hb : P b
      · exact Or.inl hb
      · exact Or.inr ⟨[], a, l, b, s, b', s', rfl, rfl, ha, hb, hb'⟩
    refine Or.inr ⟨a :: before, a', after, b'', s'', c', t', rfl, ?_, hturn⟩
    rw [List.foldlM_cons, run_bind_of_ok ha]
    exact hbefore

/-! ## §1 What an action may change -/

/-- Whatever its result, the action leaves a state that is `R`-related to the one before. -/
def Keeps (R : σ → σ → Prop) (m : Action σ ε α) : Prop := ∀ s, R s (m.run s).2

section Keeps

variable {R : σ → σ → Prop}

theorem keeps_pure (hrefl : ∀ s, R s s) (a : α) : Keeps R (pure a : Action σ ε α) := hrefl

theorem keeps_raise (hrefl : ∀ s, R s s) (e : ε) : Keeps R (raise e : Action σ ε α) := hrefl

theorem keeps_lift (hrefl : ∀ s, R s s) (r : Except ε α) : Keeps R (lift r : Action σ ε α) := hrefl

theorem keeps_reads (hrefl : ∀ s, R s s) (f : σ → Except ε α) : Keeps R (reads f : Action σ ε α) := hrefl

/-- What follows a step keeps `R` from where the step left the state. -/
theorem Keeps.after (hrefl : ∀ s, R s s) {f : α → Action σ ε β} (hf : ∀ a, Keeps R (f a))
    (m : Action σ ε α) (s : σ) : R (m.run s).2 ((m >>= f).run s).2 := by
  rcases h : m.run s with ⟨r, s'⟩
  cases r with
  | ok a =>
    rw [run_bind_of_ok h]
    exact hf a s'
  | error e =>
    rw [run_bind_of_error h]
    exact hrefl s'

theorem Keeps.bind (hrefl : ∀ s, R s s) (htrans : ∀ s t u, R s t → R t u → R s u)
    {m : Action σ ε α} {f : α → Action σ ε β} (hm : Keeps R m) (hf : ∀ a, Keeps R (f a)) :
    Keeps R (m >>= f) :=
  fun s => htrans _ _ _ (hm s) (Keeps.after hrefl hf m s)

theorem keeps_modify {f : σ → σ} (hf : ∀ s, R s (f s)) : Keeps R (modify f : Action σ ε Unit) := hf

theorem keeps_mapError {f : ε → ε} {m : Action σ ε α} (hm : Keeps R m) : Keeps R (mapError f m) := hm

theorem Keeps.foldlM (hrefl : ∀ s, R s s) (htrans : ∀ s t u, R s t → R t u → R s u)
    {f : β → α → Action σ ε β} (hf : ∀ b a, Keeps R (f b a)) (l : List α) (b : β) :
    Keeps R (l.foldlM f b) := by
  induction l generalizing b with
  | nil => exact keeps_pure hrefl b
  | cons a l ih =>
    exact (hf b a).bind hrefl htrans ih

end Keeps

end Action

end Setka.Lib
