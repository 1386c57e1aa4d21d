/-
# Setka.Lib.TopologicalOrder — greedy orders of the nodes of a graph.

A node is available when all nodes that it references have been listed. A greedy order lists the least available node
each time. There is one greedy order at most that goes on as long as there is a node available, and if the references
have no cycles it lists all nodes.
-/
import Mathlib.Order.WellFoundedSet
import Setka.Lib.Transition

namespace Setka.Lib

variable {ν α : Type}

/-- A node that is not listed yet, unlike what it references. -/
def Available (nodes : Finset ν) (refs : ν → Finset ν) (listed : List ν) (n : ν) : Prop :=
  n ∈ nodes ∧ n ∉ listed ∧ ∀ m ∈ refs n, m ∈ listed

/-- Each node is the least one available when its turn comes. -/
def Greedy [LE α] (nodes : Finset ν) (refs : ν → Finset ν) (weight : ν → α) (listed : List ν) : Prop :=
  AllSteps (fun before n => Available nodes refs before n ∧
    ∀ m, Available nodes refs before m → weight n ≤ weight m) listed

namespace Greedy

variable [LinearOrder α] {nodes : Finset ν} {refs : ν → Finset ν} {weight : ν → α} {listed : List ν}

theorem nodup (h : Greedy nodes refs weight listed) : listed.Nodup := by
  induction listed using List.reverseRecOn with
  | nil => exact List.nodup_nil
  | append_singleton before n ih =>
    obtain ⟨hbefore, ⟨-, hnot, -⟩, -⟩ := allSteps_concat.mp h
    exact List.nodup_append_comm.mp (List.nodup_cons.mpr ⟨hnot, ih hbefore⟩)

theorem subset (h : Greedy nodes refs weight listed) : ∀ n ∈ listed, n ∈ nodes := by
  intro n hn
  obtain ⟨before, after, hlisted⟩ := List.append_of_mem hn
  exact (h before n after hlisted).1.1

/-- What is listed was available. -/
theorem mem_of_references (h : Greedy nodes refs weight listed) {n m : ν} (hn : n ∈ listed) (hm : m ∈ refs n) :
    m ∈ listed := by
  obtain ⟨before, after, hlisted⟩ := List.append_of_mem hn
  rw [hlisted]
  exact List.mem_append_left _ ((h before n after hlisted).1.2.2 m hm)

/-- A node that is listed makes room for those that reference it. -/
theorem available_concat (h : Greedy nodes refs weight listed) {n : ν} (hn : Available nodes refs listed n) {m : ν} :
    Available nodes refs (listed ++ [n]) m ↔
      Available nodes refs listed m ∧ m ≠ n ∨ m ∈ nodes ∧ n ∈ refs m ∧ ∀ k ∈ refs m, k ∈ listed ∨ k = n := by
  simp only [Available, List.mem_append, List.mem_singleton, not_or]
  constructor
  · rintro ⟨hnode, ⟨hnew, hne⟩, hrefs⟩
    by_cases hmem : n ∈ refs m
    · exact Or.inr ⟨hnode, hmem, hrefs⟩
    refine Or.inl ⟨⟨hnode, hnew, fun k hk => ?_⟩, hne⟩
    refine (hrefs k hk).resolve_right ?_
    rintro rfl
    exact hmem hk
  · rintro (⟨⟨hnode, hnew, hrefs⟩, hne⟩ | ⟨hnode, hmem, hrefs⟩)
    · exact ⟨hnode, ⟨hnew, hne⟩, fun k hk => Or.inl (hrefs k hk)⟩
    · refine ⟨hnode, ⟨fun hlisted => hn.2.1 (h.mem_of_references hlisted hmem), ?_⟩, hrefs⟩
      rintro rfl
      exact hn.2.1 (hn.2.2 m hmem)

/-- Greedy orders go the same way. -/
theorem isPrefix (hweight : Function.Injective weight) {listed' : List ν} (h : Greedy nodes refs weight listed)
    (h' : Greedy nodes refs weight listed') (hle : listed.length ≤ listed'.length) : listed <+: listed' := by
  induction listed using List.reverseRecOn with
  | nil => exact List.nil_prefix
  | append_singleton before n ih =>
    rw [List.length_append, List.length_singleton] at hle
    obtain ⟨hbefore, havailable, hleast⟩ := allSteps_concat.mp h
    obtain ⟨rest, rfl⟩ := ih hbefore (by omega)
    cases rest with
    | nil =>
      rw [List.append_nil] at hle
      omega
    | cons m rest =>
      obtain ⟨havailable', hleast'⟩ := h' before m rest rfl
      have hsame : n = m := hweight (le_antisymm (hleast m havailable') (hleast' n havailable))
      rw [hsame]
      exact ⟨rest, by simp⟩

/-- **Uniqueness.** -/
theorem unique (hweight : Function.Injective weight) {listed' : List ν} (h : Greedy nodes refs weight listed)
    (h' : Greedy nodes refs weight listed') (hend : ∀ n, ¬ Available nodes refs listed n)
    (hend' : ∀ n, ¬ Available nodes refs listed' n) : listed = listed' := by
  have hstop : ∀ {l l' : List ν}, Greedy nodes refs weight l' → (∀ n, ¬ Available nodes refs l n) → l <+: l' →
      l = l' := by
    rintro l l' hl' hnone ⟨rest, rfl⟩
    cases rest with
    | nil => rw [List.append_nil]
    | cons n rest => exact absurd (hl' l n rest rfl).1 (hnone n)
  rcases le_total listed.length listed'.length with hle | hle
  · exact hstop h' hend (isPrefix hweight h h' hle)
  · exact (hstop h hend' (isPrefix hweight h' h hle)).symm

end Greedy

/-- **Completeness.** Without cycles, no node is left as long as none is available. -/
theorem mem_of_not_available {nodes : Finset ν} {refs : ν → Finset ν} (hclosed : ∀ n ∈ nodes, ∀ m ∈ refs n, m ∈ nodes)
    (hacyclic : ∀ n, ¬ Relation.TransGen (fun m n => m ∈ refs n) n n) {listed : List ν}
    (hend : ∀ n, ¬ Available nodes refs listed n) {n : ν} (hn : n ∈ nodes) : n ∈ listed := by
  have hstrict : IsStrictOrder ν (Relation.TransGen fun m n => m ∈ refs n) :=
    { irrefl := hacyclic, trans := fun _ _ _ h h' => h.trans h' }
  have hwf : (nodes : Set ν).WellFoundedOn (Relation.TransGen fun m n => m ∈ refs n) :=
    nodes.finite_toSet.wellFoundedOn
  refine hwf.induction hn (P := fun n => n ∈ listed) ?_
  intro n hn ih
  by_contra hnot
  refine hend n ⟨hn, hnot, ?_⟩
  intro m hm
  exact ih m (hclosed n hn m hm) (Relation.TransGen.single hm)

end Setka.Lib
