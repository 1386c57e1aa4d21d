/-
# Setka.Lib.Faults — programs whose accesses may fail.

An access that fails raises, and leaves the store as it was. What the program wrote before stays written. So a
program returns exactly when it would return without faults and none of the accesses that it makes fails.
-/
import Setka.Lib.Interleave

namespace Setka.Lib.Prog

variable {κ ν ε α β : Type} [DecidableEq κ]

/-- The program run without interruption. `fault` is what an access raises, if it fails. -/
def runFaulty (fault : Access κ → Option ε) : Prog κ ν ε α → (κ → ν) → Except ε α × (κ → ν)
  | ret r, s => (r, s)
  | read k next, s =>
    match fault ⟨k, false⟩ with
    | some e => (.error e, s)
    | none => runFaulty fault (next (s k)) s
  | update k f next, s =>
    match fault ⟨k, true⟩ with
    | some e => (.error e, s)
    | none => runFaulty fault next (Function.update s k (f (s k)))

variable {fault : Access κ → Option ε} {p : Prog κ ν ε α} {s : κ → ν}

/-- Where no access fails, nothing is different. -/
theorem runFaulty_of_forall (h : ∀ b ∈ p.accesses s, fault b = none) : p.runFaulty fault s = p.run s := by
  induction p generalizing s with
  | ret r => rfl
  | read k next ih =>
    have hfirst := h ⟨k, false⟩ List.mem_cons_self
    rw [runFaulty, hfirst]
    exact ih (s k) fun b hb => h b (List.mem_cons_of_mem _ hb)
  | update k f next ih =>
    have hfirst := h ⟨k, true⟩ List.mem_cons_self
    rw [runFaulty, hfirst]
    exact ih fun b hb => h b (List.mem_cons_of_mem _ hb)

variable {t : κ → ν} {a : α}

/-- A program that returns made all its accesses. -/
theorem forall_of_runFaulty_ok (h : p.runFaulty fault s = (.ok a, t)) : ∀ b ∈ p.accesses s, fault b = none := by
  induction p generalizing s with
  | ret r => exact fun b hb => absurd hb List.not_mem_nil
  | read k next ih =>
    rw [runFaulty] at h
    split at h
    · exact absurd (congrArg Prod.fst h) (by simp)
    · rename_i hfirst
      exact List.forall_mem_cons.mpr ⟨hfirst, ih (s k) h⟩
  | update k f next ih =>
    rw [runFaulty] at h
    split at h
    · exact absurd (congrArg Prod.fst h) (by simp)
    · rename_i hfirst
      exact List.forall_mem_cons.mpr ⟨hfirst, ih h⟩

/-- **When a program returns** although accesses may fail. -/
theorem runFaulty_ok_iff :
    p.runFaulty fault s = (.ok a, t) ↔ p.run s = (.ok a, t) ∧ ∀ b ∈ p.accesses s, fault b = none := by
  constructor
  · intro h
    have hnone := forall_of_runFaulty_ok h
    exact ⟨(runFaulty_of_forall hnone).symm.trans h, hnone⟩
  · rintro ⟨hrun, hnone⟩
    exact (runFaulty_of_forall hnone).trans hrun

/-- The accesses of a sequence whose first program returns. -/
theorem accesses_bind_of_ok (h : p.run s = (.ok a, t))
    (f : α → Prog κ ν ε β) : (p >>= f).accesses s = p.accesses s ++ (f a).accesses t := by
  show (andThen f p).accesses s = _
  induction p generalizing s with
  | ret r =>
    obtain ⟨rfl, rfl⟩ := Prod.mk.inj h
    rfl
  | read k next ih => exact congrArg (List.cons _) (ih (s k) h)
  | update k g next ih => exact congrArg (List.cons _) (ih h)

end Setka.Lib.Prog
