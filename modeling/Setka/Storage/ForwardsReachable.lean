/-
# Setka.Storage.ForwardsReachable — what conflicted events reach forwards, gathered batch by batch.

`accumulate_forwards_reachable_events` is applied to every batch of links that `_get_chain_links` hands
out. It starts at the conflicted places each time, but does not go past a chain that it has reached
before, so it does not see what a later batch adds behind that chain.
-/
import Setka.Storage.ChainMaterialize

namespace Setka.Storage.EventFederation

open Relation Setka.Api Setka.Lib Setka.Storage.ChainCover

/-! ## §1 All batches in turn -/

/-- The loop over `_get_chain_links`, starting from an empty dict. -/
def accumulatePieces (pieces : List Links) (conflictedChainPositions : Dict String Position) :
    Run Error (Dict ℕ ℕ) :=
  pieces.foldlM (fun reachable links =>
    accumulateForwardsReachableEvents reachable links conflictedChainPositions) Dict.empty

/-- A link of some batch. -/
def UnionLink (pieces : List Links) (p q : Position) : Prop := ∃ links ∈ pieces, LinkIn links p q

/-- From the place one comes down to a conflicted one, along chains and across links. -/
def ReachesConflicted (pieces : List Links) (conflicted : Dict String Position) (p : Position) : Prop :=
  ∃ a ∈ conflicted.values, ReflTransGen (ChainStep (· ≤ ·) (UnionLink pieces)) p a

/-- The entries are the lowest places of their chains from which one comes down to a conflicted one. -/
def LowestReachable (pieces : List Links) (conflicted : Dict String Position) (m : Dict ℕ ℕ) : Prop :=
  ∀ c v, m.get? c = some v ↔ IsLeast {s | ReachesConflicted pieces conflicted (c, s)} v

/-- What `_get_chain_links` hands out: closed batches of stored links, at least one when there is
anything to look for. -/
structure Delivered (rows : List ChainLink) (pieces : List Links) (conflicted : Dict String Position) : Prop where
  batch : ∀ links ∈ pieces, Batch rows links
  ne_nil : conflicted.values ≠ [] → pieces ≠ []

/-- Links are followed upwards. -/
abbrev up : ℕ → ℕ → Prop := dirLe false

abbrev Forward (links : Links) (p q : Position) : Prop := LinkIn links q p

/-- The place is on the chain of a conflicted one, at it or above. -/
def AboveConflicted (conflicted : Dict String Position) (p : Position) : Prop :=
  ∃ a ∈ conflicted.values, Below up p a

/-- The place is reached from a conflicted one across links of one batch, each of them to a chain that
is in no batch before it. -/
def ReachedAtOnce (pieces : List Links) (conflicted : Dict String Position) (p : Position) : Prop :=
  ∃ earlier links later, pieces = earlier ++ links :: later ∧ ∃ a ∈ conflicted.values, ∃ q,
    TransGen (fun x y => Push up (Forward links) x y ∧ ∀ l ∈ earlier, y.1 ∉ l.keys) a q ∧ Below up p q

/-! ## §2 One batch -/

section Batch

variable {rows : List ChainLink} {links : Links} {conflicted : Dict String Position} {base m : Dict ℕ ℕ}

theorem up_refl (s : ℕ) : up s s := dirLe_refl false s

theorem up_trans (s t u : ℕ) : up s t → up t u → up s u := dirLe_trans false s t u

theorem up_total (s t : ℕ) : up s t ∨ up t s := dirLe_total false s t

theorem linkIn_forward : LinkIn (generateForwardLinks links) = Forward links := by
  funext p q
  exact propext linkIn_generateForwardLinks

/-- **One batch is searched from every conflicted place**, on top of what was reached before. -/
theorem accumulate_yields (hlinks : ∀ p q, LinkIn links p q → p.2 < maxChainLength)
    (hconflicted : ∀ p ∈ conflicted.values, p.2 < maxChainLength) (base : Dict ℕ ℕ) :
    Run.Yields (accumulateForwardsReachableEvents base links conflicted)
      (Walked up (Forward links) base {p | p ∈ conflicted.values} {p | p ∈ conflicted.values} ∅) := by
  refine Run.Yields.foldlM (I := fun done m =>
    Walked up (Forward links) base {p | p ∈ done} {p | p ∈ done} ∅ m) conflicted.values ?_ ?_
  · rintro done ⟨c, seq⟩ rest m hvalues hm
    have hseq : seq < maxChainLength := hconflicted (c, seq) (by rw [hvalues]; simp)
    have hset : {p : Position | p ∈ done ++ [(c, seq)]} = insert (c, seq) {p | p ∈ done} := by
      ext p
      show p ∈ done ++ [(c, seq)] ↔ p = (c, seq) ∨ p ∈ done
      rw [List.mem_append, List.mem_singleton, or_comm]
    -- the entry of the conflicted chain moves down unless it covers the place already
    have hanchor : (Covers up m (c, seq) ∧
          ∀ k, (m.set c (min seq (m.getD c maxChainLength))).get? k = m.get? k) ∨
        (¬ Covers up m (c, seq) ∧
          ∀ k, (m.set c (min seq (m.getD c maxChainLength))).get? k = (m.set c seq).get? k) := by
      unfold Covers Dict.getD
      cases hget : m.get? c with
      | none =>
        right
        rw [Option.getD_none, min_eq_left (le_of_lt hseq)]
        exact ⟨by simp, fun k => rfl⟩
      | some v =>
        rw [Option.getD_some]
        by_cases hv : v ≤ seq
        · left
          rw [min_eq_right hv]
          refine ⟨⟨v, rfl, hv⟩, fun k => ?_⟩
          rw [Dict.get?_set]
          split
          · rename_i hk
            rw [hk, hget]
          · rfl
        · right
          rw [min_eq_left (by omega)]
          refine ⟨?_, fun k => rfl⟩
          rintro ⟨w, hw, hle⟩
          obtain rfl := Option.some.inj hw
          exact hv hle
    have hstart := hm.anchor up_refl up_total up_trans (c, seq) hanchor
    rw [hset]
    rw [← linkIn_forward] at hstart ⊢
    exact @materialize_yields false _ _ _ _
      (fun p q hpq => hlinks q p (linkIn_generateForwardLinks.mp hpq)) _ _ hstart
  · have hnone : {p : Position | p ∈ ([] : List Position)} = ∅ := by
      ext p
      simp
    rw [hnone]
    exact Walked.init up (Forward links) base

end Batch

/-! ## §3 Batch by batch -/

section Pieces

variable {rows : List ChainLink} {pieces : List Links} {links : Links}
  {conflicted : Dict String Position} {m m' : Dict ℕ ℕ}

/-- What the batches so far have reached: the places above conflicted ones, and those reached within the
first batch that has their chains. No conflicted place has a link left in these batches that leads out. -/
structure Gathered (pieces : List Links) (conflicted : Dict String Position) (m : Dict ℕ ℕ) : Prop where
  covers_iff : ∀ p, Covers up m p ↔
    (pieces ≠ [] ∧ AboveConflicted conflicted p) ∨ ReachedAtOnce pieces conflicted p
  pushed : ∀ l ∈ pieces, ∀ a ∈ conflicted.values, ∀ q, Push up (Forward l) a q → Covers up m q

theorem gathered_nil (conflicted : Dict String Position) : Gathered [] conflicted Dict.empty where
  covers_iff p := by
    refine iff_of_false ?_ ?_
    · rintro ⟨v, hv, -⟩
      cases hv
    rintro (⟨hne, -⟩ | ⟨earlier, links, later, hsplit, -⟩)
    · exact hne rfl
    · exact absurd hsplit.symm (by simp)
  pushed l hl := absurd hl List.not_mem_nil

/-- The origin chain of a link is in every batch that leads on from it. -/
theorem Batch.mem_keys_of_push {l : Links} (hl : Batch rows l) (hlinks : Batch rows links)
    {x y : Position} (hpush : Push up (Forward links) x y) (hy : y.1 ∈ l.keys) :
    Push up (Forward l) x y ∧ (HasLinks rows x.1 → x.1 ∈ l.keys) := by
  obtain ⟨s, hs, hlink⟩ := hpush
  have hrow := (hlinks.linkIn_iff y (x.1, s) (mem_keys_of_linkIn hlink)).mp hlink
  have hlink' : LinkIn l y (x.1, s) := (hl.linkIn_iff y (x.1, s) hy).mpr hrow
  exact ⟨⟨s, hs, hlink'⟩, hl.closed y (x.1, s) hlink'⟩

/-- **A walk through uncovered places visits no chain of an earlier batch**: the first step into such a
chain starts at a conflicted place, and was taken when that batch was searched. -/
theorem Gathered.fresh (h : Gathered pieces conflicted m) (hbatch : ∀ l ∈ pieces, Batch rows l)
    (hlinks : Batch rows links) {a : Position} (ha : a ∈ conflicted.values) {y : Position}
    (hy : TransGen (FreshPush up (Forward links) m) a y) : ∀ l ∈ pieces, y.1 ∉ l.keys := by
  intro l hl
  induction hy with
  | single hstep =>
    intro hkey
    exact hstep.2 (h.pushed l hl a ha _ ((hbatch l hl).mem_keys_of_push hlinks hstep.1 hkey).1)
  | @tail x y hx hstep ih =>
    intro hkey
    obtain ⟨-, hclosed⟩ := (hbatch l hl).mem_keys_of_push hlinks hstep.1 hkey
    -- `x` was entered by a link, whose origin is on its chain
    obtain ⟨w, -, hlast⟩ := TransGen.tail'_iff.mp hx
    obtain ⟨⟨s, -, hlink⟩, -⟩ := hlast
    exact ih (hclosed (hlinks.hasLinks x.1 (mem_keys_of_linkIn hlink)))

variable {p : Position}

theorem Below.up_trans {q r : Position} (hpq : Below up p q) (hqr : Below up q r) :
    Below up p r := ⟨hpq.1.trans hqr.1, EventFederation.up_trans _ _ _ hpq.2 hqr.2⟩

/-- A place that is covered but on no chain of the batches is above a conflicted one. -/
theorem Gathered.above (h : Gathered pieces conflicted m) (hp : Covers up m p)
    (hkey : ∀ l ∈ pieces, p.1 ∉ l.keys) : AboveConflicted conflicted p := by
  rcases (h.covers_iff p).mp hp with ⟨-, habove⟩ | ⟨earlier, l, later, rfl, a, -, q, hq, hpq⟩
  · exact habove
  obtain ⟨w, -, hlast⟩ := TransGen.tail'_iff.mp hq
  obtain ⟨⟨s, -, hlink⟩, -⟩ := hlast
  refine absurd (mem_keys_of_linkIn hlink) ?_
  rw [← hpq.1]
  exact hkey l (by simp)

/-- **One more batch.** -/
theorem Gathered.step (h : Gathered pieces conflicted m) (hbatch : ∀ l ∈ pieces, Batch rows l)
    (hlinks : Batch rows links)
    (hw : Walked up (Forward links) m {p | p ∈ conflicted.values} {p | p ∈ conflicted.values} ∅ m') :
    Gathered (pieces ++ [links]) conflicted m' := by
  have hcovers := fun p => hw.covers_iff EventFederation.up_trans p
  refine ⟨fun p => ?_, fun l hl a ha q hpush => ?_⟩
  · constructor
    · intro hp
      rcases (hcovers p).mp hp with hp | ⟨a, ha, hbelow⟩ | ⟨a, ha, q, hq, hbelow⟩
      · rcases (h.covers_iff p).mp hp with ⟨-, habove⟩ | ⟨earlier, l, later, rfl, hreached⟩
        · exact Or.inl ⟨by simp, habove⟩
        · exact Or.inr ⟨earlier, l, later ++ [links], by simp, hreached⟩
      · exact Or.inl ⟨by simp, a, ha, hbelow⟩
      · refine Or.inr ⟨pieces, links, [], rfl, a, ha, q, ?_, hbelow⟩
        clear hbelow hp
        induction hq with
        | single hstep =>
          exact .single ⟨hstep.1, h.fresh hbatch hlinks ha (.single hstep)⟩
        | @tail x y hx hstep ih =>
          exact ih.tail ⟨hstep.1, h.fresh hbatch hlinks ha (hx.tail hstep)⟩
    · rintro (⟨-, a, ha, hbelow⟩ | ⟨earlier, l, later, hsplit, a, ha, q, hq, hbelow⟩)
      · exact (hcovers p).mpr (Or.inr (Or.inl ⟨a, ha, hbelow⟩))
      · rcases List.eq_nil_or_concat later with rfl | ⟨later, last, rfl⟩
        · obtain ⟨rfl, hlast⟩ := List.append_inj' hsplit rfl
          obtain rfl : links = l := (List.cons.inj hlast).1
          -- along the walk the place is above a conflicted one, or was reached through uncovered ones
          have hreach : AboveConflicted conflicted q ∨ ∃ b ∈ conflicted.values,
              TransGen (FreshPush up (Forward links) m) b q := by
            have hnext : ∀ x y : Position, (AboveConflicted conflicted x ∨ ∃ b ∈ conflicted.values,
                TransGen (FreshPush up (Forward links) m) b x) →
                Push up (Forward links) x y → (∀ l ∈ pieces, y.1 ∉ l.keys) →
                AboveConflicted conflicted y ∨ ∃ b ∈ conflicted.values,
                  TransGen (FreshPush up (Forward links) m) b y := by
              intro x y hx hpush hkey
              by_cases hy : Covers up m y
              · exact Or.inl (h.above hy hkey)
              rcases hx with ⟨b, hb, hxb⟩ | ⟨b, hb, hbx⟩
              · exact Or.inr ⟨b, hb, .single ⟨hxb.push EventFederation.up_trans hpush, hy⟩⟩
              · exact Or.inr ⟨b, hb, hbx.tail ⟨hpush, hy⟩⟩
            clear hbelow hsplit
            induction hq with
            | single hstep => exact hnext a _ (Or.inl ⟨a, ha, rfl, up_refl _⟩) hstep.1 hstep.2
            | tail _ hstep ih => exact hnext _ _ ih hstep.1 hstep.2
          rcases hreach with ⟨b, hb, hqb⟩ | ⟨b, hb, hbq⟩
          · exact (hcovers p).mpr (Or.inr (Or.inl ⟨b, hb, Below.up_trans hbelow hqb⟩))
          · exact (hcovers p).mpr (Or.inr (Or.inr ⟨b, hb, q, hbq, hbelow⟩))
        · have hpieces : pieces = earlier ++ l :: later := by
            have hcons : pieces ++ [links] = (earlier ++ l :: later) ++ [last] := by
              rw [hsplit, List.concat_eq_append, List.append_assoc, List.cons_append]
            exact (List.append_inj' hcons rfl).1
          refine hw.base_covers p ((h.covers_iff p).mpr (Or.inr ?_))
          exact ⟨earlier, l, later, hpieces, a, ha, q, hq, hbelow⟩
  · rcases List.mem_append.mp hl with hl | hl
    · exact hw.base_covers q (h.pushed l hl a ha q hpush)
    · obtain rfl := List.mem_singleton.mp hl
      exact (hw.starts_pushed a ha).resolve_left (Set.notMem_empty _) q hpush

/-- **What all batches together have reached.** -/
theorem accumulatePieces_yields (h : Delivered rows pieces conflicted)
    (hrows : ∀ l ∈ rows, l.originSequenceNumber < maxChainLength)
    (hconflicted : ∀ p ∈ conflicted.values, p.2 < maxChainLength) :
    Run.Yields (accumulatePieces pieces conflicted) (Gathered pieces conflicted) := by
  refine Run.Yields.foldlM (I := fun done m => Gathered done conflicted m) pieces ?_ (gathered_nil conflicted)
  intro done links rest m hpieces hm
  have hdone : ∀ l ∈ done, Batch rows l := fun l hl => h.batch l (by rw [hpieces]; simp [hl])
  have hlinks : Batch rows links := h.batch links (by rw [hpieces]; simp)
  have hbound : ∀ p q, LinkIn links p q → p.2 < maxChainLength := by
    intro p q hpq
    obtain ⟨l, hl, rfl, -⟩ := (hlinks.linkIn_iff p q (mem_keys_of_linkIn hpq)).mp hpq
    exact hrows l hl
  exact (accumulate_yields hbound hconflicted m).mono fun m' hw => hm.step hdone hlinks hw

/-! ## §4 Against the union of all batches -/

/-- Coming down to a conflicted place, read from there. -/
theorem reachesConflicted_iff : ReachesConflicted pieces conflicted p ↔
    ∃ a ∈ conflicted.values, ∃ q, ReflTransGen (Push up fun x y => UnionLink pieces y x) a q ∧ Below up p q := by
  refine exists_congr fun a => and_congr_right fun _ => ?_
  rw [reflTransGen_chainStep_swap]
  exact reflTransGen_chainStep_iff up_refl EventFederation.up_trans

theorem ReachesConflicted.above {q : Position} (h : ReachesConflicted pieces conflicted q)
    (hpq : Below up p q) : ReachesConflicted pieces conflicted p := by
  obtain ⟨a, ha, r, hr, hqr⟩ := reachesConflicted_iff.mp h
  exact reachesConflicted_iff.mpr ⟨a, ha, r, hr, Below.up_trans hpq hqr⟩

/-- **Only what is reachable is reached.** -/
theorem Gathered.sound (h : Gathered pieces conflicted m) (hp : Covers up m p) :
    ReachesConflicted pieces conflicted p := by
  rw [reachesConflicted_iff]
  rcases (h.covers_iff p).mp hp with ⟨-, a, ha, hpa⟩ | ⟨earlier, l, later, rfl, a, ha, q, hq, hpq⟩
  · exact ⟨a, ha, a, .refl, hpa⟩
  refine ⟨a, ha, q, ?_, hpq⟩
  have hunion : ∀ x y, (Push up (Forward l) x y ∧ ∀ k ∈ earlier, y.1 ∉ k.keys) →
      Push up (fun x y => UnionLink (earlier ++ l :: later) y x) x y := by
    rintro x y ⟨⟨s, hs, hlink⟩, -⟩
    exact ⟨s, hs, l, by simp, hlink⟩
  exact (TransGen.mono hunion a q hq).to_reflTransGen

/-- Lowest entries say of every place whether it is reached. -/
theorem lowestReachable_iff : LowestReachable pieces conflicted m ↔
    ∀ p, Covers up m p ↔ ReachesConflicted pieces conflicted p := by
  constructor
  · rintro h ⟨c, s⟩
    constructor
    · rintro ⟨v, hv, hle⟩
      have hreach : ReachesConflicted pieces conflicted (c, v) := ((h c v).mp hv).1
      exact hreach.above ⟨rfl, hle⟩
    intro hs
    have hne : {t | ReachesConflicted pieces conflicted (c, t)}.Nonempty := ⟨s, hs⟩
    have hleast : IsLeast {t | ReachesConflicted pieces conflicted (c, t)}
        (sInf {t | ReachesConflicted pieces conflicted (c, t)}) :=
      ⟨Nat.sInf_mem hne, fun t ht => Nat.sInf_le ht⟩
    exact ⟨_, (h c _).mpr hleast, hleast.2 hs⟩
  · intro h c v
    constructor
    · intro hv
      refine ⟨(h (c, v)).mp ⟨v, hv, up_refl v⟩, fun t ht => ?_⟩
      obtain ⟨w, hw, hle⟩ := (h (c, t)).mpr ht
      obtain rfl := Option.some.inj (hv.symm.trans hw)
      exact hle
    · intro hv
      obtain ⟨w, hw, hle⟩ := (h (c, v)).mpr hv.1
      have hvw : v ≤ w := hv.2 ((h (c, w)).mp ⟨w, hw, up_refl w⟩)
      have hwv : w ≤ v := hle
      obtain rfl : w = v := by omega
      exact hw

/-- **When the gathered entries are the lowest ones**: exactly when every reachable place is reached
within the first batch that has its chain. -/
theorem accumulatePieces_iff (h : Delivered rows pieces conflicted)
    (hrows : ∀ l ∈ rows, l.originSequenceNumber < maxChainLength)
    (hconflicted : ∀ p ∈ conflicted.values, p.2 < maxChainLength) :
    Run.Yields (accumulatePieces pieces conflicted) fun m =>
      LowestReachable pieces conflicted m ↔
        ∀ p, ReachesConflicted pieces conflicted p →
          AboveConflicted conflicted p ∨ ReachedAtOnce pieces conflicted p := by
  refine (accumulatePieces_yields h hrows hconflicted).mono fun m hm => ?_
  have hcovers : ∀ p, Covers up m p ↔
      AboveConflicted conflicted p ∨ ReachedAtOnce pieces conflicted p := by
    intro p
    rw [hm.covers_iff p]
    refine or_congr_left (and_iff_right_of_imp ?_)
    rintro ⟨a, ha, -⟩
    exact h.ne_nil (List.ne_nil_of_mem ha)
  rw [lowestReachable_iff]
  refine forall_congr' fun p => ?_
  rw [← hcovers p]
  exact ⟨fun hp => hp.mpr, fun hp => ⟨hm.sound, hp⟩⟩

end Pieces

/-! ## §5 A chain that an earlier batch has reached -/

/-- Three links: chains 3 and 4 both come down to chain 2, and chain 2 to chain 1. -/
def exampleRows : List ChainLink := [⟨2, 1, 1, 1⟩, ⟨3, 1, 2, 1⟩, ⟨4, 2, 2, 1⟩]

/-- Conflicted are the first events of chains 1 and 3 and the fifth of chain 4. -/
def exampleConflicted : Dict String Position :=
  ((Dict.empty.set "$a" (1, 1)).set "$b" (3, 1)).set "$c" (4, 5)

/-- Two batches, one for chain 3 and one for chain 4. -/
def examplePieces : List Links := [queryLinks exampleRows [3], queryLinks exampleRows [4]]

theorem example_delivered : Delivered exampleRows examplePieces exampleConflicted where
  batch links hlinks := by
    rcases List.mem_pair.mp hlinks with rfl | rfl
    · exact queryLinks_batch exampleRows [3]
    · exact queryLinks_batch exampleRows [4]
  ne_nil _ := List.cons_ne_nil _ _

theorem accumulatePieces_iff_example : Run.Yields (accumulatePieces examplePieces exampleConflicted) fun m =>
      LowestReachable examplePieces exampleConflicted m ↔
        ∀ p, ReachesConflicted examplePieces exampleConflicted p →
          AboveConflicted exampleConflicted p ∨ ReachedAtOnce examplePieces exampleConflicted p :=
  accumulatePieces_iff example_delivered (by decide) (by decide)

/-- **A chain behind a chain reached before is missed**: chain 4 comes down to a conflicted event from
its second place on, but its entry stays at five. -/
theorem chain_missed : ∃ m, accumulatePieces examplePieces exampleConflicted 10 = some (.ok m) ∧ m.get? 4 = some 5 ∧
      ReachesConflicted examplePieces exampleConflicted (4, 2) ∧
      ¬ LowestReachable examplePieces exampleConflicted m := by
  have hreach : ReachesConflicted examplePieces exampleConflicted (4, 2) := by
    refine ⟨(1, 1), by decide, ?_⟩
    have hlast : queryLinks exampleRows [4] ∈ examplePieces := by simp [examplePieces]
    have h1 : ChainStep (· ≤ ·) (UnionLink examplePieces) (4, 2) (2, 1) :=
      Or.inr ⟨_, hlast, by unfold LinkIn; decide +kernel⟩
    have h2 : ChainStep (· ≤ ·) (UnionLink examplePieces) (2, 1) (1, 1) :=
      Or.inr ⟨_, hlast, by unfold LinkIn; decide +kernel⟩
    exact (ReflTransGen.single h1).tail h2
  have hrun : (accumulatePieces examplePieces exampleConflicted 10).map
      (fun r => r.toOption.bind fun m => m.get? 4) = some (some 5) := by decide +kernel
  cases hm : accumulatePieces examplePieces exampleConflicted 10 with
  | none => rw [hm] at hrun; cases hrun
  | some r =>
    cases r with
    | error e => rw [hm] at hrun; cases hrun
    | ok m =>
      rw [hm] at hrun
      have hfive : m.get? 4 = some 5 := Option.some.inj hrun
      refine ⟨m, rfl, hfive, hreach, fun hlow => ?_⟩
      have hle : 5 ≤ 2 := ((hlow 4 5).mp hfive).2 hreach
      omega

end Setka.Storage.EventFederation
