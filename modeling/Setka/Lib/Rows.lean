/-
# Setka.Lib.Rows — rows of one table put into another.

A table is a dictionary from what makes a row unique to the rest of the row. Rows are inserted under keys that
are made of theirs, rewritten where a condition holds, and read through a function that may fail. Each of
these is known by what is under a key afterwards.
-/
import Setka.Lib.Dict

namespace Setka.Lib.Dict

variable {κ ι ν μ ε : Type} [DecidableEq κ] [DecidableEq ι]

/-- Each row of `m` is upserted into `d`, under a key and with a value made of it. -/
def upsertRows (f : ι → κ) (g : ι → μ → ν) (m : Dict ι μ) (d : Dict κ ν) : Dict κ ν :=
  m.items.foldl (fun d row => d.set (f row.1) (g row.1 row.2)) d

/-- Under a key that is made of one of the rows is that row. -/
theorem get?_upsertRows {f : ι → κ} (hf : Function.Injective f) (g : ι → μ → ν) (m : Dict ι μ) (d : Dict κ ν)
    (i : ι) : (m.upsertRows f g d).get? (f i) = ((m.get? i).map (g i)).or (d.get? (f i)) := by
  have hloop : ∀ (l : List (ι × μ)) (d : Dict κ ν), (l.map Prod.fst).Nodup →
      (l.foldl (fun d row => d.set (f row.1) (g row.1 row.2)) d).get? (f i) =
        ((l.lookup i).map (g i)).or (d.get? (f i)) := by
    intro l
    induction l with
    | nil => exact fun _ _ => rfl
    | cons row l ih =>
      intro d hnodup
      obtain ⟨hnot, hnodup⟩ := List.nodup_cons.mp hnodup
      rw [List.foldl_cons, ih _ hnodup, get?_set, List.lookup_cons]
      by_cases hrow : i = row.1
      · have hnone : l.lookup i = none := by
          rw [List.lookup_eq_none_iff]
          intro row' hrow'
          exact bne_iff_ne.mpr fun heq => hnot (List.mem_map.mpr ⟨row', hrow', heq.symm.trans hrow⟩)
        have hbeq : (i == row.1) = true := by simp [hrow]
        rw [hnone, hbeq, if_pos (congrArg f hrow), ← hrow]
        rfl
      · have hbeq : (i == row.1) = false := by simp [hrow]
        rw [hbeq, if_neg fun heq => hrow (hf heq)]
  exact hloop m.items d m.nodup

omit [DecidableEq ι] in
/-- Under any other key is what was there. -/
theorem get?_upsertRows_of_forall_ne {f : ι → κ} (g : ι → μ → ν) (m : Dict ι μ) (d : Dict κ ν) {k : κ}
    (hk : ∀ i, k ≠ f i) : (m.upsertRows f g d).get? k = d.get? k := by
  have hloop : ∀ (l : List (ι × μ)) (d : Dict κ ν),
      (l.foldl (fun d row => d.set (f row.1) (g row.1 row.2)) d).get? k = d.get? k := by
    intro l
    induction l with
    | nil => exact fun _ => rfl
    | cons row l ih =>
      intro d
      rw [List.foldl_cons, ih, get?_set, if_neg (hk row.1)]
  exact hloop m.items d

/-- `UPDATE … SET … WHERE …`. -/
def updateWhere (p : κ → ν → Bool) (g : ν → ν) (d : Dict κ ν) : Dict κ ν :=
  ⟨d.items.map fun row => (row.1, if p row.1 row.2 then g row.2 else row.2), by
    rw [List.map_map]
    exact d.nodup⟩

theorem get?_updateWhere (p : κ → ν → Bool) (g : ν → ν) (d : Dict κ ν) (k : κ) :
    (d.updateWhere p g).get? k = (d.get? k).map fun v => if p k v then g v else v := by
  show (d.items.map fun row => (row.1, if p row.1 row.2 then g row.2 else row.2)).lookup k =
    (d.items.lookup k).map _
  induction d.items with
  | nil => rfl
  | cons row items ih =>
    obtain ⟨a, v⟩ := row
    by_cases hk : k = a
    · subst hk
      simp
    · simp only [List.map_cons, List.lookup_cons, beq_false_of_ne hk, ih]

/-- The dictionary of `f k v` for the items of `d`, if none of them fails. -/
def traverse (f : κ → ν → Except ε μ) (d : Dict κ ν) : Except ε (Dict κ μ) :=
  d.items.foldlM (fun e row => (f row.1 row.2).map fun w => e.set row.1 w) ∅

/-- What stands for what. -/
def Related (r : κ → ν → μ → Prop) (d : Dict κ ν) (e : Dict κ μ) : Prop :=
  ∀ k, Option.Rel (r k) (d.get? k) (e.get? k)

theorem related_traverse {f : κ → ν → Except ε μ} {d : Dict κ ν} {e : Dict κ μ} (h : d.traverse f = .ok e) :
    d.Related (fun k v w => f k v = .ok w) e := by
  have hloop : ∀ (l : List (κ × ν)) (e e' : Dict κ μ), (l.map Prod.fst).Nodup →
      l.foldlM (fun e row => (f row.1 row.2).map fun w => e.set row.1 w) e = .ok e' →
      (∀ k v, l.lookup k = some v → ∃ w, f k v = .ok w ∧ e'.get? k = some w) ∧
        ∀ k, l.lookup k = none → e'.get? k = e.get? k := by
    intro l
    induction l with
    | nil =>
      intro e e' _ hrun
      cases hrun
      exact ⟨fun k v hv => (by cases hv), fun k _ => rfl⟩
    | cons row l ih =>
      intro e e' hnodup hrun
      obtain ⟨hnot, hnodup⟩ := List.nodup_cons.mp hnodup
      rw [List.foldlM_cons] at hrun
      cases hrow : f row.1 row.2 with
      | error err =>
        rw [hrow] at hrun
        cases hrun
      | ok w =>
        rw [hrow] at hrun
        obtain ⟨hsome, hnone⟩ := ih (e.set row.1 w) e' hnodup hrun
        have hlast : l.lookup row.1 = none := by
          rw [List.lookup_eq_none_iff]
          intro row' hrow'
          exact bne_iff_ne.mpr fun heq => hnot (List.mem_map.mpr ⟨row', hrow', heq.symm⟩)
        refine ⟨fun k v hv => ?_, fun k hk => ?_⟩
        · rw [List.lookup_cons] at hv
          by_cases heq : k = row.1
          · have hbeq : (k == row.1) = true := by simp [heq]
            rw [hbeq] at hv
            cases hv
            subst heq
            exact ⟨w, hrow, by rw [hnone _ hlast, get?_set, if_pos rfl]⟩
          · have hbeq : (k == row.1) = false := by simp [heq]
            rw [hbeq] at hv
            exact hsome k v hv
        · rw [List.lookup_cons] at hk
          have heq : k ≠ row.1 := fun heq => by simp [heq] at hk
          have hbeq : (k == row.1) = false := by simp [heq]
          rw [hbeq] at hk
          rw [hnone k hk, get?_set, if_neg heq]
  obtain ⟨hsome, hnone⟩ := hloop d.items ∅ e d.nodup h
  intro k
  cases hk : d.get? k with
  | none =>
    rw [hnone k hk]
    exact .none
  | some v =>
    obtain ⟨w, hw, hget⟩ := hsome k v hk
    rw [hget]
    exact .some hw

theorem traverse_ok {f : κ → ν → Except ε μ} {d : Dict κ ν}
    (h : ∀ k v, d.get? k = some v → ∃ w, f k v = .ok w) : ∃ e, d.traverse f = .ok e := by
  have hloop : ∀ (l : List (κ × ν)) (e : Dict κ μ), (∀ row ∈ l, ∃ w, f row.1 row.2 = .ok w) →
      ∃ e', l.foldlM (fun e row => (f row.1 row.2).map fun w => e.set row.1 w) e = .ok e' := by
    intro l
    induction l with
    | nil => exact fun e _ => ⟨e, rfl⟩
    | cons row l ih =>
      intro e hall
      obtain ⟨w, hw⟩ := hall row List.mem_cons_self
      obtain ⟨e', he'⟩ := ih (e.set row.1 w) fun row' hrow' => hall row' (List.mem_cons_of_mem row hrow')
      refine ⟨e', ?_⟩
      rw [List.foldlM_cons, hw]
      exact he'
  exact hloop d.items ∅ fun row hrow => h row.1 row.2 (get?_eq_some_iff.mpr hrow)

end Setka.Lib.Dict
