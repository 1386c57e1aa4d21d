/-
# Setka.Storage.ChainMaterialize — what links are fetched and how far they are followed.

`_materialize` is the search of `ChainWalk`, in either direction, and ends because every place it
visits is a link target that was not covered before. A query for links fetches those of all chains that
they lead to.
-/
import Setka.Lib.Reach
import Setka.Storage.EventFederation

namespace Setka.Storage.EventFederation

open Relation Setka.Api Setka.Lib Setka.Storage.ChainCover Dict

/-! ## §1 Following links -/

/-- The direction along a chain: down, or up. -/
def dirLe (backwards : Bool) (s t : ℕ) : Prop := if backwards then s ≤ t else t ≤ s

theorem dirLe_refl (backwards : Bool) (s : ℕ) : dirLe backwards s s := by
  cases backwards <;> exact le_rfl

theorem dirLe_total (backwards : Bool) (s t : ℕ) : dirLe backwards s t ∨ dirLe backwards t s := by
  cases backwards
  · exact le_total t s
  · exact le_total s t

theorem dirLe_trans (backwards : Bool) (s t u : ℕ) (hst : dirLe backwards s t)
    (htu : dirLe backwards t u) : dirLe backwards s u := by
  cases backwards
  · exact le_trans htu hst
  · exact le_trans hst htu

/-- A link among fetched ones. -/
def LinkIn (links : Links) (p q : Position) : Prop := (p.2, q) ∈ links.getD p.1 []

/-- The target of a link is on the near side of what a missing entry stands for. -/
def Bounded (backwards : Bool) (q : Position) : Prop :=
  if backwards then 0 < q.2 else q.2 < maxChainLength

variable {backwards : Bool} {links : Links} {base : Dict ℕ ℕ} {starts anchors : Set Position}

/-- One link is out of reach, or leads to a place that is covered, or is followed. -/
theorem materializeLink_cases {s : ℕ} {link : ℕ × Position} (hb : Bounded backwards link.2)
    (st : List Position × Dict ℕ ℕ) :
    (materializeLink backwards s st link = st ∧
      (dirLe backwards link.1 s → Covers (dirLe backwards) st.2 link.2)) ∨
    (materializeLink backwards s st link = (link.2 :: st.1, st.2.set link.2.1 link.2.2) ∧
      dirLe backwards link.1 s ∧ ¬ Covers (dirLe backwards) st.2 link.2) := by
  obtain ⟨seq, target, targetSeq⟩ := link
  unfold Bounded at hb
  unfold materializeLink dirLe Covers Dict.getD
  cases backwards with
  | true =>
    simp only [if_true] at hb ⊢
    split
    · exact Or.inl ⟨rfl, fun h => absurd h (by omega)⟩
    cases htarget : st.2.get? target with
    | none =>
      rw [Option.getD_none, if_pos hb]
      exact Or.inr ⟨rfl, by omega, by simp⟩
    | some v =>
      rw [Option.getD_some]
      split
      · exact Or.inr ⟨rfl, by omega, by simp; omega⟩
      · exact Or.inl ⟨rfl, fun _ => ⟨v, rfl, by omega⟩⟩
  | false =>
    simp only [Bool.false_eq_true, if_false] at hb ⊢
    split
    · exact Or.inl ⟨rfl, fun h => absurd h (by omega)⟩
    cases htarget : st.2.get? target with
    | none =>
      rw [Option.getD_none, if_pos hb]
      exact Or.inr ⟨rfl, by omega, by simp⟩
    | some v =>
      rw [Option.getD_some]
      split
      · exact Or.inr ⟨rfl, by omega, by simp; omega⟩
      · exact Or.inl ⟨rfl, fun _ => ⟨v, rfl, by omega⟩⟩

/-- The link targets that are not covered yet. -/
noncomputable def uncovered (backwards : Bool) (links : Links) (m : Dict ℕ ℕ) : Finset Position := by
  classical
  exact (links.items.flatMap fun item => item.2.map Prod.snd).toFinset.filter
    fun q => ¬ Covers (dirLe backwards) m q

variable {q : Position}

theorem mem_uncovered {m : Dict ℕ ℕ} : q ∈ uncovered backwards links m ↔
      (∃ p, LinkIn links p q) ∧ ¬ Covers (dirLe backwards) m q := by
  classical
  unfold uncovered LinkIn
  rw [Finset.mem_filter, List.mem_toFinset, List.mem_flatMap]
  refine and_congr_left' ⟨?_, ?_⟩
  · rintro ⟨⟨c, l⟩, hitem, hq⟩
    obtain ⟨⟨s, q'⟩, hl, rfl⟩ := List.mem_map.mp hq
    exact ⟨(c, s), by rw [getD_of_get? (get?_eq_some_iff.mpr hitem)]; exact hl⟩
  rintro ⟨⟨c, s⟩, hq⟩
  cases hc : links.get? c with
  | none => simp [Dict.getD, hc] at hq
  | some l =>
    rw [getD_of_get? hc] at hq
    exact ⟨(c, l), get?_eq_some_iff.mp hc, List.mem_map.mpr ⟨(s, q), hq, rfl⟩⟩

variable {p : Position}

/-- Following a link covers its target, and nothing that was covered is lost. -/
theorem uncovered_set_lt {m : Dict ℕ ℕ} (hlink : LinkIn links p q) (hq : ¬ Covers (dirLe backwards) m q) :
    (uncovered backwards links (m.set q.1 q.2)).card < (uncovered backwards links m).card := by
  have hcovers := fun x => covers_set_iff (q := x) (dirLe_total backwards) (dirLe_trans backwards) hq
  apply Finset.card_lt_card
  refine (Finset.ssubset_iff_of_subset fun x hx => ?_).mpr ⟨q, mem_uncovered.mpr ⟨⟨p, hlink⟩, hq⟩, fun hx => ?_⟩
  · obtain ⟨hlink, hx⟩ := mem_uncovered.mp hx
    exact mem_uncovered.mpr ⟨hlink, fun hm => hx ((hcovers x).mpr (Or.inl hm))⟩
  · exact (mem_uncovered.mp hx).2 ((hcovers q).mpr (Or.inr ⟨rfl, dirLe_refl _ _⟩))

/-- The variant of the loop: link targets still to cover, then the stack. -/
def materializeLt (backwards : Bool) (links : Links) (st st' : List Position × Dict ℕ ℕ) : Prop :=
  Prod.Lex (· < ·) (· < ·) ((uncovered backwards links st.2).card, st.1.length)
    ((uncovered backwards links st'.2).card, st'.1.length)

theorem wellFounded_materializeLt (backwards : Bool) (links : Links) :
    WellFounded (materializeLt backwards links) :=
  InvImage.wf (fun st : List Position × Dict ℕ ℕ =>
    ((uncovered backwards links st.2).card, st.1.length)) (WellFounded.prod_lex Nat.lt_wfRel.wf Nat.lt_wfRel.wf)

theorem setOf_mem_cons {α : Type} (a : α) (l : List α) : {x | x ∈ a :: l} = insert a {x | x ∈ l} := by
  ext x
  exact List.mem_cons

/-- All links of the place that was taken from the stack. -/
theorem foldl_materializeLink (hb : ∀ p q, LinkIn links p q → Bounded backwards q) (rows : List (ℕ × Position))
    (hrows : ∀ row ∈ rows, LinkIn links (p.1, row.1) row.2) (st : List Position × Dict ℕ ℕ)
    (h : Walked (dirLe backwards) (LinkIn links) base starts anchors (insert p {x | x ∈ st.1}) st.2) :
    let st' := rows.foldl (materializeLink backwards p.2) st
    Walked (dirLe backwards) (LinkIn links) base starts anchors (insert p {x | x ∈ st'.1}) st'.2 ∧
      (∀ q, Covers (dirLe backwards) st.2 q → Covers (dirLe backwards) st'.2 q) ∧
      (∀ row ∈ rows, dirLe backwards row.1 p.2 → Covers (dirLe backwards) st'.2 row.2) ∧
      (st' = st ∨ (uncovered backwards links st'.2).card < (uncovered backwards links st.2).card) := by
  induction rows generalizing st with
  | nil => exact ⟨h, fun _ hq => hq, fun _ hrow => absurd hrow List.not_mem_nil, Or.inl rfl⟩
  | cons row rows ih =>
    have hrow := hrows row List.mem_cons_self
    have hrest : ∀ r ∈ rows, LinkIn links (p.1, r.1) r.2 :=
      fun r hr => hrows r (List.mem_cons_of_mem row hr)
    rw [List.foldl_cons]
    rcases materializeLink_cases (s := p.2) (hb _ _ hrow) st with
      ⟨hsame, hcovered⟩ | ⟨hnew, hreach, hfresh⟩
    · rw [hsame]
      obtain ⟨hw, hmono, hdone, hlt⟩ := ih hrest st h
      refine ⟨hw, hmono, fun r hr hle => ?_, hlt⟩
      rcases List.mem_cons.mp hr with rfl | hr
      · exact hmono _ (hcovered hle)
      · exact hdone r hr hle
    have hcovers := fun x =>
      covers_set_iff (q := x) (dirLe_total backwards) (dirLe_trans backwards) hfresh
    have hw' : Walked (dirLe backwards) (LinkIn links) base starts anchors
        (insert p {x | x ∈ row.2 :: st.1}) (st.2.set row.2.1 row.2.2) := by
      have hpush := h.push (dirLe_total backwards) (dirLe_trans backwards)
        (Set.mem_insert p _) ⟨row.1, hreach, hrow⟩ hfresh
      rwa [Set.insert_comm, ← setOf_mem_cons] at hpush
    rw [hnew]
    obtain ⟨hw, hmono, hdone, hlt⟩ :=
      ih hrest (row.2 :: st.1, st.2.set row.2.1 row.2.2) hw'
    have hmono' := fun q hq => hmono q ((hcovers q).mpr (Or.inl hq))
    refine ⟨hw, hmono', fun r hr hle => ?_, Or.inr ?_⟩
    · rcases List.mem_cons.mp hr with rfl | hr
      · exact hmono _ ((hcovers _).mpr (Or.inr ⟨rfl, dirLe_refl _ _⟩))
      · exact hdone r hr hle
    have hset := uncovered_set_lt hrow hfresh
    rcases hlt with heq | hlt
    · rw [heq]
      exact hset
    · exact hlt.trans hset

/-- **`_materialize` finishes the search.** -/
theorem materialize_yields (hb : ∀ p q, LinkIn links p q → Bounded backwards q) {p : Position} {m : Dict ℕ ℕ}
    (h : Walked (dirLe backwards) (LinkIn links) base starts anchors (insert p ∅) m) :
    Run.Yields (materialize backwards links p m)
      (Walked (dirLe backwards) (LinkIn links) base starts anchors ∅) := by
  refine Run.Yields.bind (P := fun st => Walked (dirLe backwards) (LinkIn links) base starts anchors
    ∅ st.2) ?_ fun st hst => Run.Yields.pure hst
  refine Run.Yields.loop (wellFounded_materializeLt backwards links)
    (I := fun st => Walked (dirLe backwards) (LinkIn links) base starts anchors {x | x ∈ st.1} st.2)
    ?_ ?_
  · rintro ⟨stack, m⟩ hst
    cases stack with
    | nil =>
      apply Run.Yields.pure
      refine ⟨fun _ => ?_, fun _ ho => absurd ho (by simp)⟩
      simpa using hst
    | cons x stack =>
      apply Run.Yields.pure
      refine ⟨fun ho => absurd ho (by simp), fun st' ho => ?_⟩
      obtain rfl := Option.some.inj ho
      have hst' : Walked (dirLe backwards) (LinkIn links) base starts anchors (insert x {y | y ∈ stack}) m := by
        rwa [← setOf_mem_cons]
      obtain ⟨hw, -, hdone, hlt⟩ := foldl_materializeLink hb (p := x) (links.getD x.1 [])
        (fun row hrow => hrow) (stack, m) hst'
      refine ⟨hw.finish (Set.subset_insert _ _) (fun q hq => Set.mem_insert_iff.mp hq) ?_, ?_⟩
      · rintro q ⟨s, hs, hlink⟩
        exact hdone (s, q) hlink hs
      rcases hlt with heq | hlt
      · rw [heq]
        exact Prod.Lex.right _ (Nat.lt_succ_self _)
      · exact Prod.Lex.left _ _ hlt
  · rw [show {x | x ∈ ([p] : List Position)} = insert p ∅ by ext; simp]
    exact h

/-! ## §2 Links in the other direction -/

/-- **The forward links are the links turned around.** -/
theorem linkIn_generateForwardLinks : LinkIn (generateForwardLinks links) p q ↔ LinkIn links q p := by
  have hfold : ∀ (items : List (ℕ × List (ℕ × Position))) (d : Links), LinkIn (items.foldl (fun newLinks item =>
        item.2.foldl (fun newLinks link =>
          newLinks.appendTo link.2.1 (link.2.2, item.1, link.1)) newLinks) d) p q ↔
        LinkIn d p q ∨ ∃ item ∈ items, item.1 = q.1 ∧ (q.2, p) ∈ item.2 := by
    intro items
    induction items with
    | nil => simp
    | cons item items ih =>
      obtain ⟨c, l⟩ := item
      intro d
      rw [List.foldl_cons, ih]
      have hinner := mem_foldl_appendTo d (fun link : ℕ × Position => link.2.1)
        (fun link : ℕ × Position => (link.2.2, c, link.1)) l (a := p.1) (w := (p.2, q))
      have hone : (∃ link ∈ l, link.2.1 = p.1 ∧ (link.2.2, c, link.1) = (p.2, q)) ↔
          c = q.1 ∧ (q.2, p) ∈ l := by
        constructor
        · rintro ⟨⟨s, t, ts⟩, hl, h1, h2⟩
          obtain ⟨hts, hq⟩ := Prod.mk.inj h2
          obtain rfl : (t, ts) = p := Prod.ext h1 hts
          subst hq
          exact ⟨rfl, hl⟩
        · rintro ⟨rfl, hl⟩
          exact ⟨(q.2, p), hl, rfl, rfl⟩
      rw [hone] at hinner
      simp only [List.mem_cons, exists_eq_or_imp]
      rw [← or_assoc]
      exact or_congr_left hinner
  have hlinks : LinkIn (generateForwardLinks links) p q ↔ _ := hfold links.items Dict.empty
  rw [hlinks, Dict.empty]
  simp only [LinkIn, Dict.getD, Dict.get?, List.lookup_nil, Option.getD_none, List.not_mem_nil, false_or]
  constructor
  · rintro ⟨⟨c, l⟩, hitem, rfl, hl⟩
    have hget := get?_eq_some_iff.mpr hitem
    rw [Dict.get?] at hget
    rwa [hget]
  · intro hl
    cases hget : links.items.lookup q.1 with
    | none => simp [hget] at hl
    | some l =>
      rw [hget] at hl
      exact ⟨(q.1, l), get?_eq_some_iff.mp hget, rfl, hl⟩

/-! ## §3 Batches of links -/

/-- The chain has a stored link. -/
def HasLinks (rows : List ChainLink) (c : ℕ) : Prop := ∃ l ∈ rows, l.originChainId = c

/-- Links that were fetched together: of each chain all stored links or none, and with each chain
every chain its links lead to. -/
structure Batch (rows : List ChainLink) (links : Links) : Prop where
  linkIn_iff : ∀ p q, p.1 ∈ links.keys → (LinkIn links p q ↔ ∃ l ∈ rows, l.origin = p ∧ l.target = q)
  hasLinks : ∀ c ∈ links.keys, HasLinks rows c
  closed : ∀ p q, LinkIn links p q → HasLinks rows q.1 → q.1 ∈ links.keys

theorem mem_keys_of_linkIn (h : LinkIn links p q) : p.1 ∈ links.keys := by
  rw [mem_keys_iff]
  cases hget : links.get? p.1 with
  | none => simp [LinkIn, Dict.getD, hget] at h
  | some l => exact ⟨l, rfl⟩

section Fetch

variable {rows : List ChainLink} {batch : List ℕ}

theorem mem_expandChains {chains : Finset ℕ} {c : ℕ} : c ∈ expandChains rows chains ↔
    c ∈ chains ∨ ∃ l ∈ rows, l.originChainId ∈ chains ∧ l.targetChainId = c := by
  unfold expandChains
  rw [Finset.mem_union, List.mem_toFinset, List.mem_map]
  simp only [List.mem_filter, decide_eq_true_eq, and_assoc]

/-- **The recursive query has followed every link.** -/
theorem recursiveChains_closed {l : ChainLink} (hl : l ∈ rows) (ho : l.originChainId ∈ recursiveChains rows batch) :
    l.targetChainId ∈ recursiveChains rows batch := by
  let start : Finset ℕ :=
    ((rows.filter fun l => l.originChainId ∈ batch).map ChainLink.originChainId).toFinset
  let targets : Finset ℕ := (rows.map ChainLink.targetChainId).toFinset
  have hfixed : expandChains rows (recursiveChains rows batch) = recursiveChains rows batch := by
    have hbound : ∀ s ⊆ start ∪ targets, expandChains rows s ⊆ start ∪ targets := by
      intro s hs c hc
      rcases mem_expandChains.mp hc with hc | ⟨r, hr, -, rfl⟩
      · exact hs hc
      · exact Finset.mem_union_right _ (List.mem_toFinset.mpr (List.mem_map.mpr ⟨r, hr, rfl⟩))
    apply iterate_fixed (fun s c hc => mem_expandChains.mpr (Or.inl hc)) hbound _ Finset.subset_union_left
    calc ((start ∪ targets) \ start).card ≤ targets.card := Finset.card_le_card (by
          rw [Finset.union_sdiff_left]
          exact Finset.sdiff_subset)
      _ ≤ (rows.map ChainLink.targetChainId).length := List.toFinset_card_le _
      _ = rows.length := List.length_map _
  rw [← hfixed]
  exact mem_expandChains.mpr (Or.inr ⟨l, hl, ho, rfl⟩)

theorem mem_keys_queryLinks {c : ℕ} : c ∈ (queryLinks rows batch).keys ↔
    c ∈ recursiveChains rows batch ∧ HasLinks rows c := by
  unfold queryLinks HasLinks
  rw [mem_keys_foldl_appendTo]
  simp only [List.mem_filter, decide_eq_true_eq]
  constructor
  · rintro (hc | ⟨l, ⟨hl, ho⟩, rfl⟩)
    · exact absurd hc List.not_mem_nil
    · exact ⟨ho, l, hl, rfl⟩
  · rintro ⟨hc, l, hl, rfl⟩
    exact Or.inr ⟨l, ⟨hl, hc⟩, rfl⟩

theorem queryLinks_batch (rows : List ChainLink) (batch : List ℕ) : Batch rows (queryLinks rows batch) := by
  have hlink : ∀ p q, LinkIn (queryLinks rows batch) p q ↔
      p.1 ∈ recursiveChains rows batch ∧ ∃ l ∈ rows, l.origin = p ∧ l.target = q := by
    intro p q
    unfold LinkIn queryLinks
    rw [mem_foldl_appendTo]
    simp only [List.mem_filter, decide_eq_true_eq, Dict.getD, get?_empty, Option.getD_none,
      List.not_mem_nil, false_or]
    constructor
    · rintro ⟨l, ⟨hl, ho⟩, hp, hq⟩
      obtain ⟨hs, ht⟩ := Prod.mk.inj hq
      exact ⟨hp ▸ ho, l, hl, Prod.ext hp hs, ht⟩
    · rintro ⟨hc, l, hl, rfl, rfl⟩
      exact ⟨l, ⟨hl, hc⟩, rfl, rfl⟩
  refine ⟨fun p q hp => ?_, fun c hc => (mem_keys_queryLinks.mp hc).2, fun p q hpq hq => ?_⟩
  · rw [hlink]
    exact and_iff_right (mem_keys_queryLinks.mp hp).1
  · obtain ⟨hc, l, hl, rfl, rfl⟩ := (hlink p q).mp hpq
    exact mem_keys_queryLinks.mpr ⟨recursiveChains_closed hl hc, hq⟩

end Fetch

end Setka.Storage.EventFederation
