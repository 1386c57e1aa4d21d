/-
# Setka.Lib.ChainWalk — walks over chains, summarised by one bound for each chain.

A place is a chain and a sequence number on it. A walk goes along a chain, in the one direction that
`le` gives, and across links between places of different chains. A set of places that is closed along
the chains is kept as a bound for each chain; `Walked` is the invariant of a search that extends such
bounds by pushing them across links.
-/
import Mathlib.Data.Set.Insert
import Setka.Lib.Dict

namespace Setka.Lib

open Relation Function

variable {κ β : Type}

/-! ## §1 Walks -/

/-- `q` is on the chain of `p`, at `p` or beyond it. -/
def Below (le : β → β → Prop) (q p : κ × β) : Prop := q.1 = p.1 ∧ le q.2 p.2

/-- One step of a walk: along a chain, or across a link. -/
def ChainStep (le : β → β → Prop) (link : κ × β → κ × β → Prop) (p q : κ × β) : Prop :=
  Below le q p ∨ link p q

/-- Some place that is reached along the chain of `p` has a link to `q`. -/
def Push (le : β → β → Prop) (link : κ × β → κ × β → Prop) (p q : κ × β) : Prop :=
  ∃ s, le s p.2 ∧ link (p.1, s) q

section Walk

variable {le : β → β → Prop} {link : κ × β → κ × β → Prop}
  (hrefl : ∀ s, le s s) (htrans : ∀ s t u, le s t → le t u → le s u)

theorem Below.push (htrans : ∀ s t u, le s t → le t u → le s u) {p p' q : κ × β}
    (h : Below le p p') (hq : Push le link p q) : Push le link p' q := by
  obtain ⟨s, hs, hlink⟩ := hq
  exact ⟨s, htrans _ _ _ hs h.2, h.1 ▸ hlink⟩

include hrefl htrans

/-- **A walk is a path of pushes, and a last stretch along a chain.** -/
theorem reflTransGen_chainStep_iff {p q : κ × β} : ReflTransGen (ChainStep le link) p q ↔
      ∃ p', ReflTransGen (Push le link) p p' ∧ Below le q p' := by
  constructor
  · intro h
    induction h with
    | refl => exact ⟨p, .refl, rfl, hrefl _⟩
    | @tail m q _ hstep ih =>
      obtain ⟨p', hp', hm⟩ := ih
      rcases hstep with hdown | hlink
      · exact ⟨p', hp', hdown.1.trans hm.1, htrans _ _ _ hdown.2 hm.2⟩
      · have hpush : Push le link m q := ⟨m.2, hrefl _, hlink⟩
        exact ⟨q, hp'.tail (hm.push htrans hpush), rfl, hrefl _⟩
  · rintro ⟨p', hp', hq⟩
    have hwalk : ReflTransGen (ChainStep le link) p p' := by
      clear hq
      induction hp' with
      | refl => exact .refl
      | @tail m p' _ hpush ih =>
        obtain ⟨s, hs, hlink⟩ := hpush
        exact (ih.tail (Or.inl ⟨rfl, hs⟩ : ChainStep le link m (m.1, s))).tail (Or.inr hlink)
    exact hwalk.tail (Or.inl hq)

end Walk

/-- The same walks in the other direction: along the chains backwards, and against the links. -/
theorem reflTransGen_chainStep_swap {le : β → β → Prop} {link : κ × β → κ × β → Prop} {p q : κ × β} :
    ReflTransGen (ChainStep le link) p q ↔
      ReflTransGen (ChainStep (swap le) (swap link)) q p := by
  have hswap : ChainStep (swap le) (swap link) = swap (ChainStep le link) := by
    funext a b
    exact propext (or_congr (and_congr_left' eq_comm) Iff.rfl)
  rw [hswap]
  exact reflTransGen_swap.symm

/-! ## §2 Bounds -/

section Bounds

variable [DecidableEq κ] {le : β → β → Prop} {link : κ × β → κ × β → Prop}

/-- The bound of its chain covers the place. -/
def Covers (le : β → β → Prop) (m : Dict κ β) (p : κ × β) : Prop :=
  ∃ v, m.get? p.1 = some v ∧ le p.2 v

theorem Covers.below (htrans : ∀ s t u, le s t → le t u → le s u) {m : Dict κ β} {p q : κ × β}
    (h : Covers le m p) (hq : Below le q p) : Covers le m q := by
  obtain ⟨v, hv, hp⟩ := h
  exact ⟨v, hq.1 ▸ hv, htrans _ _ _ hq.2 hp⟩

/-- What is covered after the bound of a chain was moved out to a new place. -/
theorem covers_set_iff (htotal : ∀ s t, le s t ∨ le t s)
    (htrans : ∀ s t u, le s t → le t u → le s u) {m : Dict κ β} {p : κ × β}
    (hp : ¬ Covers le m p) {q : κ × β} :
    Covers le (m.set p.1 p.2) q ↔ Covers le m q ∨ Below le q p := by
  unfold Covers
  rw [Dict.get?_set]
  by_cases hq : q.1 = p.1
  · rw [if_pos hq]
    constructor
    · rintro ⟨v, hv, hle⟩
      obtain rfl := Option.some.inj hv
      exact Or.inr ⟨hq, hle⟩
    rintro (⟨v, hv, hle⟩ | hbelow)
    · -- the old bound did not cover the new place, so it lies before it
      rw [hq] at hv
      have hv' : le v p.2 := (htotal v p.2).resolve_right fun h => hp ⟨v, hv, h⟩
      exact ⟨p.2, rfl, htrans _ _ _ hle hv'⟩
    · exact ⟨p.2, rfl, hbelow.2⟩
  · rw [if_neg hq]
    exact ⟨Or.inl, fun h => h.resolve_right fun hbelow => hq hbelow.1⟩

/-! ## §3 Searches -/

/-- A push to a place that the bounds `m` do not cover. -/
def FreshPush (le : β → β → Prop) (link : κ × β → κ × β → Prop) (m : Dict κ β) (p q : κ × β) : Prop :=
  Push le link p q ∧ ¬ Covers le m q

/-- A search that extends the bounds `base` to `m`. It pushes from `starts`, and has put `anchors` in
itself; from `todo` it has still to push. -/
structure Walked (le : β → β → Prop) (link : κ × β → κ × β → Prop) (base : Dict κ β)
    (starts anchors todo : Set (κ × β)) (m : Dict κ β) : Prop where
  base_covers : ∀ p, Covers le base p → Covers le m p
  anchored : ∀ p ∈ anchors, Covers le m p
  sound : ∀ p, Covers le m p → Covers le base p ∨ (∃ a ∈ anchors, Below le p a) ∨
    ∃ s ∈ starts, ∃ q, TransGen (FreshPush le link base) s q ∧ Below le p q
  starts_pushed : ∀ s ∈ starts, s ∈ todo ∨ ∀ q, Push le link s q → Covers le m q
  moved_pushed : ∀ c v, m.get? c = some v → base.get? c = some v ∨ (c, v) ∈ todo ∨
    ∀ q, Push le link (c, v) q → Covers le m q
  todo_fresh : ∀ p ∈ todo, p ∈ starts ∨
    ∃ s ∈ starts, TransGen (FreshPush le link base) s p

namespace Walked

variable {base m : Dict κ β} {starts anchors todo : Set (κ × β)}

theorem init (le : β → β → Prop) (link : κ × β → κ × β → Prop) (m : Dict κ β) : Walked le link m ∅ ∅ ∅ m where
  base_covers _ h := h
  anchored _ h := absurd h (Set.notMem_empty _)
  sound _ h := Or.inl h
  starts_pushed _ h := absurd h (Set.notMem_empty _)
  moved_pushed _ _ h := Or.inl h
  todo_fresh _ h := absurd h (Set.notMem_empty _)

/-- A new place to push from. -/
theorem start (h : Walked le link base starts anchors todo m) (p : κ × β) :
    Walked le link base (insert p starts) anchors (insert p todo) m where
  base_covers := h.base_covers
  anchored := h.anchored
  sound q hq := (h.sound q hq).imp_right
    (Or.imp_right fun ⟨s, hs, hfresh⟩ => ⟨s, Set.mem_insert_of_mem _ hs, hfresh⟩)
  starts_pushed s hs := by
    rcases Set.mem_insert_iff.mp hs with rfl | hs
    · exact Or.inl (Set.mem_insert _ _)
    · exact (h.starts_pushed s hs).imp_left (Set.mem_insert_of_mem _)
  moved_pushed c v hv := (h.moved_pushed c v hv).imp_right (Or.imp_left (Set.mem_insert_of_mem _))
  todo_fresh q hq := by
    rcases Set.mem_insert_iff.mp hq with rfl | hq
    · exact Or.inl (Set.mem_insert _ _)
    · exact (h.todo_fresh q hq).imp (Set.mem_insert_of_mem _)
        fun ⟨s, hs, hfresh⟩ => ⟨s, Set.mem_insert_of_mem _ hs, hfresh⟩

/-- A new place to push from, which is put in by itself unless it is covered. -/
theorem anchor (hrefl : ∀ s, le s s) (htotal : ∀ s t, le s t ∨ le t s) (htrans : ∀ s t u, le s t → le t u → le s u)
    (h : Walked le link base starts anchors todo m) (p : κ × β) {m' : Dict κ β}
    (hm' : (Covers le m p ∧ ∀ c, m'.get? c = m.get? c) ∨
      (¬ Covers le m p ∧ ∀ c, m'.get? c = (m.set p.1 p.2).get? c)) :
    Walked le link base (insert p starts) (insert p anchors) (insert p todo) m' := by
  have hcovers : ∀ q, Covers le m' q ↔ Covers le m q ∨ Below le q p := by
    intro q
    rcases hm' with ⟨hp, hget⟩ | ⟨hp, hget⟩
    · unfold Covers
      rw [hget]
      exact ⟨Or.inl, fun hq => hq.elim id fun hbelow => hp.below htrans hbelow⟩
    rw [← covers_set_iff htotal htrans hp]
    unfold Covers
    rw [hget]
  have h' := h.start p
  refine ⟨fun q hq => (hcovers q).mpr (Or.inl (h'.base_covers q hq)), fun q hq => ?_,
    fun q hq => ?_, fun s hs => ?_, fun c v hv => ?_, h'.todo_fresh⟩
  · rcases Set.mem_insert_iff.mp hq with rfl | hq
    · exact (hcovers q).mpr (Or.inr ⟨rfl, hrefl _⟩)
    · exact (hcovers q).mpr (Or.inl (h'.anchored q hq))
  · rcases (hcovers q).mp hq with hq | hq
    · exact (h'.sound q hq).imp_right (Or.imp_left fun ⟨a, ha, hbelow⟩ => ⟨a, Set.mem_insert_of_mem _ ha, hbelow⟩)
    · exact Or.inr (Or.inl ⟨p, Set.mem_insert _ _, hq⟩)
  · exact (h'.starts_pushed s hs).imp_right fun hpush q hq => (hcovers q).mpr (Or.inl (hpush q hq))
  · have hold : m.get? c = some v → base.get? c = some v ∨ (c, v) ∈ insert p todo ∨
        ∀ q, Push le link (c, v) q → Covers le m' q := fun hmv =>
      (h'.moved_pushed c v hmv).imp_right (Or.imp_right fun hpush q hq => (hcovers q).mpr (Or.inl (hpush q hq)))
    rcases hm' with ⟨-, hget⟩ | ⟨-, hget⟩
    · exact hold (hget c ▸ hv)
    rw [hget, Dict.get?_set] at hv
    by_cases hc : c = p.1
    · rw [if_pos hc] at hv
      obtain rfl := Option.some.inj hv
      subst hc
      exact Or.inr (Or.inl (Set.mem_insert _ _))
    · rw [if_neg hc] at hv
      exact hold hv

/-- Pushing from `p` to a place that is not covered. -/
theorem push (htotal : ∀ s t, le s t ∨ le t s) (htrans : ∀ s t u, le s t → le t u → le s u)
    (h : Walked le link base starts anchors todo m) {p q : κ × β} (hp : p ∈ todo)
    (hpush : Push le link p q) (hq : ¬ Covers le m q) :
    Walked le link base starts anchors (insert q todo) (m.set q.1 q.2) := by
  have hcovers := fun x => covers_set_iff (q := x) htotal htrans hq
  have hfresh : FreshPush le link base p q := ⟨hpush, fun hb => hq (h.base_covers q hb)⟩
  obtain ⟨s, hs, hsq⟩ : ∃ s ∈ starts, TransGen (FreshPush le link base) s q := by
    rcases h.todo_fresh p hp with hp | ⟨s, hs, hsp⟩
    · exact ⟨p, hp, .single hfresh⟩
    · exact ⟨s, hs, hsp.tail hfresh⟩
  refine ⟨fun x hx => (hcovers x).mpr (Or.inl (h.base_covers x hx)),
    fun x hx => (hcovers x).mpr (Or.inl (h.anchored x hx)), fun x hx => ?_, fun x hx => ?_,
    fun c v hv => ?_, fun x hx => ?_⟩
  · rcases (hcovers x).mp hx with hx | hx
    · exact h.sound x hx
    · exact Or.inr (Or.inr ⟨s, hs, q, hsq, hx⟩)
  · exact (h.starts_pushed x hx).imp (Set.mem_insert_of_mem _)
      fun hpushed y hy => (hcovers y).mpr (Or.inl (hpushed y hy))
  · rcases Dict.of_get?_set hv with ⟨hc, rfl⟩ | ⟨hc, hv⟩
    · subst hc
      exact Or.inr (Or.inl (Set.mem_insert _ _))
    · exact (h.moved_pushed c v hv).imp_right (Or.imp (Set.mem_insert_of_mem _)
        fun hpushed y hy => (hcovers y).mpr (Or.inl (hpushed y hy)))
  · rcases Set.mem_insert_iff.mp hx with rfl | hx
    · exact Or.inr ⟨s, hs, hsq⟩
    · exact h.todo_fresh x hx

/-- A place from which everything was pushed is done. -/
theorem finish (h : Walked le link base starts anchors todo m) {p : κ × β} {todo' : Set (κ × β)}
    (hsub : todo' ⊆ todo) (hkeep : ∀ q ∈ todo, q = p ∨ q ∈ todo')
    (hp : ∀ q, Push le link p q → Covers le m q) :
    Walked le link base starts anchors todo' m := by
  refine ⟨h.base_covers, h.anchored, h.sound, fun s hs => ?_, fun c v hv => ?_,
    fun q hq => h.todo_fresh q (hsub hq)⟩
  · rcases h.starts_pushed s hs with hs | hs
    · rcases hkeep s hs with rfl | hs
      · exact Or.inr hp
      · exact Or.inl hs
    · exact Or.inr hs
  · rcases h.moved_pushed c v hv with hbase | hv | hv
    · exact Or.inl hbase
    · rcases hkeep _ hv with rfl | hv
      · exact Or.inr (Or.inr hp)
      · exact Or.inr (Or.inl hv)
    · exact Or.inr (Or.inr hv)

/-- **What a finished search covers.** -/
theorem covers_iff (htrans : ∀ s t u, le s t → le t u → le s u)
    (h : Walked le link base starts anchors ∅ m) (p : κ × β) :
    Covers le m p ↔ Covers le base p ∨ (∃ a ∈ anchors, Below le p a) ∨
      ∃ s ∈ starts, ∃ q, TransGen (FreshPush le link base) s q ∧ Below le p q := by
  refine ⟨h.sound p, ?_⟩
  rintro (hp | ⟨a, ha, hp⟩ | ⟨s, hs, q, hsq, hp⟩)
  · exact h.base_covers p hp
  · exact (h.anchored a ha).below htrans hp
  · refine Covers.below htrans ?_ hp
    clear hp
    induction hsq with
    | single hfresh =>
      exact (h.starts_pushed s hs).resolve_left (Set.notMem_empty _) _ hfresh.1
    | @tail q r hsq hfresh ih =>
      -- the bound of the chain of `q` was moved, because `q` was not covered before
      obtain ⟨v, hv, hle⟩ := ih
      have hbelow : Below le q (q.1, v) := ⟨rfl, hle⟩
      have hq : ¬ Covers le base q := by
        rcases TransGen.tail'_iff.mp hsq with ⟨_, -, hlast⟩
        exact hlast.2
      rcases h.moved_pushed q.1 v hv with hbase | hempty | hpushed
      · exact absurd ⟨v, hbase, hle⟩ hq
      · exact absurd hempty (Set.notMem_empty _)
      · exact hpushed r (hbelow.push htrans hfresh.1)

end Walked

end Bounds

end Setka.Lib
