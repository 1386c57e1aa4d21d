/-
# Setka.Lib.Reach — reachability, work lists and closed sets of a relation.

Graph searches differ in how they keep their work list; what they compute does not. `Explored` is the
invariant common to all of them, `CutExpand` on the work list is the variant of those that keep no
set of visited nodes, and a set closed under the relation splits every path in two.
-/
import Mathlib.Logic.Hydra

namespace Setka.Lib

open Relation

variable {α : Type} {r : α → α → Prop}

/-- No node reaches itself along a nonempty path. -/
def Acyclic (r : α → α → Prop) : Prop := ∀ a, ¬ TransGen r a a

/-- The nodes reached from `start`, the start included. -/
def reachedFrom (r : α → α → Prop) (start : Set α) : Set α :=
  {x | ∃ s ∈ start, ReflTransGen r s x}

variable {x : α}

theorem mem_reachedFrom {start : Set α} : x ∈ reachedFrom r start ↔ ∃ s ∈ start, ReflTransGen r s x :=
  Iff.rfl

theorem subset_reachedFrom (start : Set α) : start ⊆ reachedFrom r start :=
  fun s hs => ⟨s, hs, .refl⟩

/-- **What one more step adds**: where it starts is reached, and the rest of the way starts where it
leads. -/
theorem mem_reachedFrom_addStep {r' : α → α → Prop} {u v : α} (h : ∀ a b, r' a b ↔ r a b ∨ a = u ∧ b = v)
    {start : Set α} : x ∈ reachedFrom r' start ↔
      x ∈ reachedFrom r start ∨ u ∈ reachedFrom r start ∧ ReflTransGen r' v x := by
  have hmono : ∀ {a b}, ReflTransGen r a b → ReflTransGen r' a b :=
    fun hab => hab.lift id fun a b hr => (h a b).mpr (Or.inl hr)
  constructor
  · rintro ⟨s, hs, hsx⟩
    induction hsx with
    | refl => exact Or.inl ⟨s, hs, .refl⟩
    | @tail a b _ hstep ih =>
      rcases (h a b).mp hstep with hr | ⟨rfl, rfl⟩
      · rcases ih with ⟨t, ht, hta⟩ | ⟨hu, hva⟩
        · exact Or.inl ⟨t, ht, hta.tail hr⟩
        · exact Or.inr ⟨hu, hva.tail hstep⟩
      rcases ih with hu | ⟨hu, -⟩
      · exact Or.inr ⟨hu, .refl⟩
      · exact Or.inr ⟨hu, .refl⟩
  · rintro (⟨s, hs, hsx⟩ | ⟨⟨s, hs, hsu⟩, hvx⟩)
    · exact ⟨s, hs, hmono hsx⟩
    · exact ⟨s, hs, ((hmono hsu).tail ((h u v).mpr (Or.inr ⟨rfl, rfl⟩))).trans hvx⟩

/-! ## §1 Acyclic relations on finite sets -/

/-- A relation whose steps lower a rank is acyclic. -/
theorem Acyclic.of_rank (rank : α → ℕ) (h : ∀ a b, r a b → rank b < rank a) : Acyclic r := by
  have hlt : ∀ a b, TransGen r a b → rank b < rank a := by
    intro a b hab
    induction hab with
    | single hr => exact h _ _ hr
    | tail _ hr ih => exact (h _ _ hr).trans ih
  exact fun a ha => lt_irrefl _ (hlt a a ha)

theorem card_filter_lt {p q : α → Prop} [DecidablePred p] [DecidablePred q] {s : Finset α}
    (hpq : ∀ x, p x → q x) (hx : x ∈ s) (hq : q x) (hp : ¬ p x) : (s.filter p).card < (s.filter q).card := by
  refine Finset.card_lt_card (Finset.ssubset_iff_of_subset ?_ |>.mpr ⟨x, Finset.mem_filter.mpr ⟨hx, hq⟩, ?_⟩)
  · exact Finset.monotone_filter_right s fun y _ => hpq y
  · exact fun hmem => hp (Finset.mem_filter.mp hmem).2

/-- **A rank that every step lowers**, where all steps lead into a finite set. -/
theorem Acyclic.exists_rank (h : Acyclic r) (s : Finset α) (hs : ∀ a b, r a b → b ∈ s) :
    ∃ rank : α → ℕ, ∀ a b, r a b → rank b < rank a := by
  classical
  refine ⟨fun a => (s.filter fun x => TransGen r a x).card, fun a b hab => ?_⟩
  exact card_filter_lt (fun x hbx => hbx.head hab) (hs a b hab) (.single hab) (h b)

/-- **Steps into a finite set terminate** in an acyclic relation. -/
theorem Acyclic.wellFounded_into (h : Acyclic r) (s : Finset α) : WellFounded fun a b => a ∈ s ∧ r a b := by
  classical
  let rank : α → ℕ := fun b => (s.filter fun x => TransGen r x b).card
  refine Subrelation.wf (fun {a b} hab => ?_) (measure rank).wf
  obtain ⟨ha, hr⟩ := hab
  exact card_filter_lt (fun x hxa => hxa.tail hr) ha (.single hr) (h a)

/-- The same for steps that leave a finite set: the node after the last one has no step. -/
theorem Acyclic.wellFounded_from (h : Acyclic r) (s : Finset α) : WellFounded fun a b => b ∈ s ∧ r a b := by
  classical
  let rank : α → ℕ := fun b => (s.filter fun x => ReflTransGen r x b).card
  refine Subrelation.wf (fun {a b} hab => ?_) (measure rank).wf
  obtain ⟨hb, hr⟩ := hab
  exact card_filter_lt (fun x hxa => hxa.tail hr) hb .refl fun hba => h b (.tail' hba hr)

theorem Acyclic.swap (h : Acyclic r) : Acyclic (Function.swap r) :=
  fun a ha => h a (transGen_swap.mp ha)

/-! ## §2 Work lists -/

variable {lt : α → α → Prop}

/-- A work list that gives up one item for smaller ones gets smaller. -/
theorem wellFounded_workList (h : WellFounded lt) :
    WellFounded fun q' q : List α => CutExpand lt (q' : Multiset α) q :=
  InvImage.wf _ h.cutExpand

theorem cutExpand_cons {rest new : List α} (h : ∀ y ∈ new, lt y x) :
    CutExpand lt ((new ++ rest : List α) : Multiset α) ((x :: rest : List α) : Multiset α) := by
  refine ⟨new, x, fun y hy => h y (Multiset.mem_coe.mp hy), ?_⟩
  rw [← Multiset.cons_coe, ← Multiset.coe_add, Multiset.add_comm (new : Multiset α),
    add_assoc, Multiset.add_comm (new : Multiset α), ← add_assoc, ← Multiset.singleton_add,
    Multiset.add_comm {x}]

/-- The same for a work set: what it gains may be there already. -/
theorem cutExpand_finset [DecidableEq α] {s t : Finset α} (hx : x ∈ s)
    (h : ∀ y ∈ t, lt y x) : CutExpand lt ((s.erase x) ∪ t).val s.val := by
  refine ⟨(t \ s.erase x).val, x, fun y hy => h y (Finset.mem_sdiff.mp hy).1, ?_⟩
  have hunion : ((s.erase x) ∪ t).val = (s.erase x).val + (t \ s.erase x).val := by
    rw [← Finset.union_sdiff_self_eq_union, ← Finset.disjUnion_eq_union _ _ Finset.disjoint_sdiff]
    rfl
  have hcons : s.val = (s.erase x).val + {x} := by
    rw [Finset.erase_val, Multiset.add_comm, Multiset.singleton_add, Multiset.cons_erase hx]
  rw [hunion, hcons, add_assoc, add_assoc, Multiset.add_comm (t \ s.erase x).val]

/-! ## §3 The invariant of a search -/

/-- A search for what `start` reaches, with `todo` still to expand: everything seen is reached, and
what is seen but not waiting has had its successors seen. -/
structure Explored (r : α → α → Prop) (start todo seen : Set α) : Prop where
  start_subset : start ⊆ seen
  sound : seen ⊆ reachedFrom r start
  closed : ∀ x ∈ seen, x ∈ todo ∨ ∀ y, r x y → y ∈ seen

namespace Explored

variable {start todo seen : Set α}

theorem init (r : α → α → Prop) (start : Set α) : Explored r start start start :=
  ⟨subset_rfl, subset_reachedFrom start, fun _ hx => Or.inl hx⟩

/-- Expanding `x` adds its successors. The new work list keeps the old one, `x` apart, and every new
node that has a successor. -/
theorem expand (h : Explored r start todo seen) {x : α} (hx : x ∈ seen) {todo' seen' : Set α}
    (hseen : ∀ z, z ∈ seen' ↔ z ∈ seen ∨ r x z) (hkeep : ∀ z ∈ todo, z = x ∨ z ∈ todo')
    (hnew : ∀ z, r x z → z ∈ todo' ∨ z ∈ seen ∨ ∀ y, ¬ r z y) :
    Explored r start todo' seen' := by
  refine ⟨fun z hz => (hseen z).mpr (Or.inl (h.start_subset hz)), fun z hz => ?_, fun z hz => ?_⟩
  · rcases (hseen z).mp hz with hz | hz
    · exact h.sound hz
    · obtain ⟨s, hs, hsx⟩ := h.sound hx
      exact ⟨s, hs, hsx.tail hz⟩
  have hold : z ∈ seen → z ∈ todo' ∨ ∀ y, r z y → y ∈ seen' := by
    intro hz
    rcases h.closed z hz with htodo | hclosed
    · rcases hkeep z htodo with rfl | htodo'
      · exact Or.inr fun y hy => (hseen y).mpr (Or.inr hy)
      · exact Or.inl htodo'
    · exact Or.inr fun y hy => (hseen y).mpr (Or.inl (hclosed y hy))
  rcases (hseen z).mp hz with hz | hz
  · exact hold hz
  rcases hnew z hz with hz | hz | hz
  · exact Or.inl hz
  · exact hold hz
  · exact Or.inr fun y hy => absurd hy (hz y)

/-- **An exhausted search has seen exactly what is reached.** -/
theorem done (h : Explored r start todo seen) (htodo : ∀ x, x ∉ todo) : seen = reachedFrom r start := by
  refine Set.Subset.antisymm h.sound ?_
  rintro x ⟨s, hs, hsx⟩
  induction hsx with
  | refl => exact h.start_subset hs
  | tail _ hr ih => exact (h.closed _ ih).resolve_left (htodo _) _ hr

end Explored

/-- A search for the ends of the nonempty paths from `start`, in rounds: `todo` has its successors found
in the next round. -/
structure Found (r : α → α → Prop) (start todo found : Set α) : Prop where
  todo_subset : ∀ x ∈ todo, x ∈ start ∨ x ∈ found
  sound : ∀ y ∈ found, ∃ s ∈ start, TransGen r s y
  closed : ∀ x, x ∈ start ∨ x ∈ found → x ∈ todo ∨ ∀ y, r x y → y ∈ found

namespace Found

variable {start todo found : Set α}

theorem init (r : α → α → Prop) : Found r (∅ : Set α) ∅ ∅ :=
  ⟨fun _ hx => absurd hx (Set.notMem_empty _), fun _ hy => absurd hy (Set.notMem_empty _),
    fun _ hx => hx.elim (fun hx => absurd hx (Set.notMem_empty _)) fun hx => absurd hx (Set.notMem_empty _)⟩

/-- A finished search goes on from more nodes. -/
theorem more (h : Found r start ∅ found) (nodes : Set α) : Found r (start ∪ nodes) nodes found := by
  refine ⟨fun x hx => Or.inl (Or.inr hx), fun y hy => ?_, fun x hx => ?_⟩
  · obtain ⟨s, hs, hsy⟩ := h.sound y hy
    exact ⟨s, Or.inl hs, hsy⟩
  rcases hx with (hstart | hnode) | hfound
  · exact (h.closed x (Or.inl hstart)).imp (fun hx => absurd hx (Set.notMem_empty _)) id
  · exact Or.inl hnode
  · exact (h.closed x (Or.inr hfound)).imp (fun hx => absurd hx (Set.notMem_empty _)) id

/-- **One round** finds the successors of `todo`, and goes on from those that are new. -/
theorem round (h : Found r start todo found) {todo' found' : Set α}
    (hfound : ∀ y, y ∈ found' ↔ y ∈ found ∨ ∃ x ∈ todo, r x y)
    (htodo : ∀ y, y ∈ todo' ↔ y ∈ found' ∧ y ∉ found) : Found r start todo' found' := by
  refine ⟨fun x hx => Or.inr ((htodo x).mp hx).1, fun y hy => ?_, fun x hx => ?_⟩
  · rcases (hfound y).mp hy with hold | ⟨x, hx, hxy⟩
    · exact h.sound y hold
    · rcases h.todo_subset x hx with hstart | hold
      · exact ⟨x, hstart, .single hxy⟩
      · obtain ⟨s, hs, hsx⟩ := h.sound x hold
        exact ⟨s, hs, hsx.tail hxy⟩
  have hold : x ∈ start ∨ x ∈ found → ∀ y, r x y → y ∈ found' := by
    intro hx y hxy
    rcases h.closed x hx with hmem | hclosed
    · exact (hfound y).mpr (Or.inr ⟨x, hmem, hxy⟩)
    · exact (hfound y).mpr (Or.inl (hclosed y hxy))
  rcases hx with hstart | hmem
  · exact Or.inr (hold (Or.inl hstart))
  by_cases hin : x ∈ found
  · exact Or.inr (hold (Or.inr hin))
  · exact Or.inl ((htodo x).mpr ⟨hmem, hin⟩)

/-- One node at a time: `x` has its successors found, and those that are new wait. -/
theorem expand (h : Found r start todo found) {x : α} (hx : x ∈ todo) {todo' found' : Set α}
    (hfound : ∀ y, y ∈ found' ↔ y ∈ found ∨ r x y) (hkeep : ∀ z ∈ todo, z = x ∨ z ∈ todo')
    (hnew : ∀ y, r x y → y ∈ todo' ∨ y ∈ found) (hsub : ∀ z ∈ todo', z ∈ todo ∨ r x z) :
    Found r start todo' found' := by
  refine ⟨fun z hz => ?_, fun y hy => ?_, fun z hz => ?_⟩
  · rcases hsub z hz with hz | hz
    · exact (h.todo_subset z hz).imp_right fun hz => (hfound z).mpr (Or.inl hz)
    · exact Or.inr ((hfound z).mpr (Or.inr hz))
  · rcases (hfound y).mp hy with hold | hxy
    · exact h.sound y hold
    · rcases h.todo_subset x hx with hstart | hold
      · exact ⟨x, hstart, .single hxy⟩
      · obtain ⟨s, hs, hsx⟩ := h.sound x hold
        exact ⟨s, hs, hsx.tail hxy⟩
  · have hold : z ∈ start ∨ z ∈ found → z ∈ todo' ∨ ∀ y, r z y → y ∈ found' := by
      intro hz
      rcases h.closed z hz with htodo | hclosed
      · rcases hkeep z htodo with rfl | htodo'
        · exact Or.inr fun y hy => (hfound y).mpr (Or.inr hy)
        · exact Or.inl htodo'
      · exact Or.inr fun y hy => (hfound y).mpr (Or.inl (hclosed y hy))
    rcases hz with hstart | hmem
    · exact hold (Or.inl hstart)
    rcases (hfound z).mp hmem with hmem | hxz
    · exact hold (Or.inr hmem)
    rcases hnew z hxz with htodo' | hmem
    · exact Or.inl htodo'
    · exact hold (Or.inr hmem)

/-- **A finished search has found the ends of the nonempty paths.** -/
theorem done (h : Found r start ∅ found) (y : α) : y ∈ found ↔ ∃ s ∈ start, TransGen r s y := by
  refine ⟨h.sound y, ?_⟩
  rintro ⟨s, hs, hsy⟩
  have hclosed : ∀ x, x ∈ start ∨ x ∈ found → ∀ y, r x y → y ∈ found :=
    fun x hx => (h.closed x hx).resolve_left (Set.notMem_empty x)
  induction hsy with
  | single hr => exact hclosed s (Or.inl hs) _ hr
  | tail _ hr ih => exact hclosed _ (Or.inr ih) _ hr

end Found

/-- **Growing a set inside a finite one ends**: after as many rounds as there are elements to add, a
round adds nothing. -/
theorem iterate_fixed [DecidableEq α] {f : Finset α → Finset α} (hgrow : ∀ s, s ⊆ f s)
    {bound : Finset α} (hbound : ∀ s ⊆ bound, f s ⊆ bound) (n : ℕ) {s : Finset α} (hs : s ⊆ bound)
    (hn : (bound \ s).card ≤ n) : f (f^[n] s) = f^[n] s := by
  induction n generalizing s with
  | zero =>
    have hempty : bound \ s = ∅ := Finset.card_eq_zero.mp (by omega)
    have hsub : bound ⊆ s := Finset.sdiff_eq_empty_iff_subset.mp hempty
    exact Finset.Subset.antisymm ((hbound s hs).trans hsub) (hgrow s)
  | succ n ih =>
    rw [Function.iterate_succ_apply]
    by_cases hfix : f s = s
    · rw [hfix, Function.iterate_fixed hfix, hfix]
    apply ih (hbound s hs)
    -- the round added something
    have hlt : (bound \ f s).card < (bound \ s).card := by
      apply Finset.card_lt_card
      refine (Finset.ssubset_iff_of_subset (Finset.sdiff_subset_sdiff subset_rfl (hgrow s))).mpr ?_
      obtain ⟨x, hx, hxs⟩ := Finset.not_subset.mp fun hsub =>
        hfix (Finset.Subset.antisymm hsub (hgrow s))
      refine ⟨x, Finset.mem_sdiff.mpr ⟨hbound s hs hx, hxs⟩, fun hmem => ?_⟩
      exact (Finset.mem_sdiff.mp hmem).2 hx
    omega

/-! ## §4 Paths and closed sets -/

/-- The steps that start outside of `s`. -/
def Outside (r : α → α → Prop) (s : Set α) (a b : α) : Prop := a ∉ s ∧ r a b

theorem Outside.reflTransGen {s : Set α} {a b : α} (h : ReflTransGen (Outside r s) a b) : ReflTransGen r a b :=
  h.lift id fun _ _ h => h.2

section Closed

variable {s : Set α} (hs : ∀ a b, a ∈ s → r a b → b ∈ s)

include hs

variable {a b : α}

theorem mem_of_reflTransGen_closed (ha : a ∈ s) (h : ReflTransGen r a b) : b ∈ s := by
  induction h with
  | refl => exact ha
  | tail _ hr ih => exact hs _ _ ih hr

/-- A path that ends outside of a closed set never met it. -/
theorem reflTransGen_outside (hb : b ∉ s) (h : ReflTransGen r a b) : ReflTransGen (Outside r s) a b := by
  induction h with
  | refl => exact .refl
  | tail _ hr ih =>
    have hmid := fun hm => hb (hs _ _ hm hr)
    exact (ih hmid).tail ⟨hmid, hr⟩

/-- **A path into a closed set enters it once.** -/
theorem reflTransGen_enter (hb : b ∈ s) (h : ReflTransGen r a b) :
    ∃ p ∈ s, ReflTransGen (Outside r s) a p ∧ ReflTransGen r p b := by
  classical
  induction h with
  | refl => exact ⟨a, hb, .refl, .refl⟩
  | @tail m b hm hr ih =>
    by_cases hms : m ∈ s
    · obtain ⟨p, hp, hap, hpm⟩ := ih hms
      exact ⟨p, hp, hap, hpm.tail hr⟩
    · exact ⟨b, hb, (reflTransGen_outside hs hms hm).tail ⟨hms, hr⟩, .refl⟩

/-- Outside of a closed set, only the steps outside of it count. -/
theorem mem_reachedFrom_of_notMem {start : Set α} {x : α} (hx : x ∉ s) :
    x ∈ reachedFrom r start ↔ x ∈ reachedFrom (Outside r s) start :=
  exists_congr fun _ => and_congr_right fun _ =>
    ⟨reflTransGen_outside hs hx, Outside.reflTransGen⟩

/-- **What is reached inside a closed set is reached from where it is entered.** -/
theorem mem_reachedFrom_of_mem {start : Set α} {x : α} (hx : x ∈ s) :
    x ∈ reachedFrom r start ↔ x ∈ reachedFrom r (reachedFrom (Outside r s) start ∩ s) := by
  constructor
  · rintro ⟨a, ha, hax⟩
    obtain ⟨p, hp, hap, hpx⟩ := reflTransGen_enter hs hx hax
    exact ⟨p, ⟨⟨a, ha, hap⟩, hp⟩, hpx⟩
  · rintro ⟨p, ⟨⟨a, ha, hap⟩, -⟩, hpx⟩
    exact ⟨a, ha, (Outside.reflTransGen hap).trans hpx⟩

end Closed

end Setka.Lib
