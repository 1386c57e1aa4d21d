/-
# Setka.Lib.Follow — following a cursor from page to page.

An answer is a page and, where there is more, the place to go on from. If a page together with what is wanted
from there on is never more than what was wanted, nothing is handed out twice, and everything is handed out
exactly when no answer on the way loses anything. The second part reads a list that way, newest entries first,
with the key of the last entry that was shown for a cursor.
-/
import Mathlib.Algebra.Order.Group.Multiset
import Setka.Lib.Paging

namespace Setka.Lib

open Multiset (coe_add coe_eq_coe)

/-! ## §1 Following -/

section Follow

variable {σ ρ α : Type} (step : σ → Option (List α × Option σ))

/-- What is handed out until there is no cursor. An answer that fails hands out nothing more, so that there is
no such list. -/
inductive Followed : σ → List α → Prop
  | last {s : σ} {page : List α} : step s = some (page, none) → Followed s page
  | more {s s' : σ} {page xs : List α} : step s = some (page, some s') → Followed s' xs → Followed s (page ++ xs)

/-- A property of every place on the way. -/
inductive AlongPages (good : σ → Prop) : σ → Prop
  | last {s : σ} {page : List α} : step s = some (page, none) → good s → AlongPages good s
  | more {s s' : σ} {page : List α} : step s = some (page, some s') → good s → AlongPages good s' → AlongPages good s

variable {step} {s : σ} {xs : List α}

theorem AlongPages.here {good : σ → Prop} (h : AlongPages step good s) : good s := by
  rcases h with ⟨-, hs⟩ | ⟨-, hs, -⟩
  · exact hs
  · exact hs

/-- There is one way to go on. -/
theorem Followed.unique {ys : List α} (hx : Followed step s xs) (hy : Followed step s ys) : xs = ys := by
  induction hx generalizing ys with
  | last h =>
    cases hy with
    | last h' => exact (Prod.mk.inj (Option.some.inj (h.symm.trans h'))).1
    | more h' _ => exact absurd (Prod.mk.inj (Option.some.inj (h.symm.trans h'))).2 (by simp)
  | more h _ ih =>
    cases hy with
    | last h' => exact absurd (Prod.mk.inj (Option.some.inj (h.symm.trans h'))).2 (by simp)
    | more h' hrest =>
      obtain ⟨rfl, hnext⟩ := Prod.mk.inj (Option.some.inj (h.symm.trans h'))
      obtain rfl := Option.some.inj hnext
      rw [ih hrest]

/-- Who is answered alike goes on alike. -/
theorem Followed.of_alike {step' : ρ → Option (List α × Option ρ)} {R : σ → ρ → Prop} {r : ρ}
    (halike : ∀ s r, R s r → ∃ page next next', step s = some (page, next) ∧ step' r = some (page, next') ∧
      Option.Rel R next next')
    (h : Followed step s xs) (hr : R s r) : Followed step' r xs := by
  induction h generalizing r with
  | last hstep =>
    obtain ⟨page, next, next', hpage, hpage', hrel⟩ := halike _ _ hr
    obtain ⟨rfl, rfl⟩ := Prod.mk.inj (Option.some.inj (hstep.symm.trans hpage))
    cases hrel
    exact .last hpage'
  | more hstep _ ih =>
    obtain ⟨page, next, next', hpage, hpage', hrel⟩ := halike _ _ hr
    obtain ⟨rfl, rfl⟩ := Prod.mk.inj (Option.some.inj (hstep.symm.trans hpage))
    cases hrel with
    | some hnext => exact .more hpage' (ih hnext)

theorem followed_iff_of_alike {step' : ρ → Option (List α × Option ρ)} {R : σ → ρ → Prop} {r : ρ}
    (halike : ∀ s r, R s r → ∃ page next next', step s = some (page, next) ∧ step' r = some (page, next') ∧
      Option.Rel R next next')
    (hr : R s r) : Followed step s xs ↔ Followed step' r xs := by
  refine ⟨fun h => h.of_alike halike hr, fun h => ?_⟩
  refine h.of_alike (R := fun r s => R s r) (fun r s hr => ?_) hr
  obtain ⟨page, next, next', hpage, hpage', hrel⟩ := halike s r hr
  refine ⟨page, next', next, hpage', hpage, ?_⟩
  cases hrel with
  | none => exact .none
  | some hnext => exact .some hnext

/-- Where every answer leaves less, there is an end. -/
theorem exists_followed (step : σ → Option (List α × Option σ)) (size : σ → ℕ)
    (hstep : ∀ s, ∃ page next, step s = some (page, next) ∧ ∀ s', next = some s' → size s' < size s)
    (s : σ) : ∃ xs, Followed step s xs := by
  induction hn : size s using Nat.strong_induction_on generalizing s with
  | _ n ih =>
    obtain ⟨page, next, hpage, hless⟩ := hstep s
    cases next with
    | none => exact ⟨page, .last hpage⟩
    | some s' =>
      obtain ⟨xs, hxs⟩ := ih (size s') (hn ▸ hless s' rfl) s' rfl
      exact ⟨page ++ xs, .more hpage hxs⟩

/-! ## §2 What is wanted -/

section Wanted

variable (wanted : σ → Multiset α)

/-- Nothing is handed out twice, and nothing that is not wanted. -/
theorem Followed.le_wanted
    (hle : ∀ s page next, step s = some (page, next) → (page : Multiset α) + next.elim 0 wanted ≤ wanted s)
    (h : Followed step s xs) : (xs : Multiset α) ≤ wanted s := by
  induction h with
  | last hstep =>
    have hpage := hle _ _ _ hstep
    rwa [Option.elim_none, add_zero] at hpage
  | more hstep _ ih =>
    rw [← coe_add]
    exact le_trans (by gcongr; exact ih) (hle _ _ _ hstep)

/-- **Everything is handed out exactly when no answer loses anything.** -/
theorem Followed.eq_wanted_iff {good : σ → Prop}
    (hle : ∀ s page next, step s = some (page, next) → (page : Multiset α) + next.elim 0 wanted ≤ wanted s)
    (hgood : ∀ s page next, step s = some (page, next) →
      ((page : Multiset α) + next.elim 0 wanted = wanted s ↔ good s))
    (h : Followed step s xs) : (xs : Multiset α) = wanted s ↔ AlongPages step good s := by
  induction h with
  | last hstep =>
    have hiff := hgood _ _ _ hstep
    rw [Option.elim_none, add_zero] at hiff
    rw [hiff]
    constructor
    · exact fun hs => .last hstep hs
    · exact AlongPages.here
  | @more s s' page xs hstep hrest ih =>
    have hxs := hrest.le_wanted wanted hle
    have hiff : (page : Multiset α) + wanted s' = wanted s ↔ good s := hgood _ _ _ hstep
    have hpage : (page : Multiset α) + wanted s' ≤ wanted s := hle _ _ _ hstep
    rw [← coe_add]
    constructor
    · intro heq
      -- a page and a rest that fall short at no place together fall short at neither
      have hback : (page : Multiset α) + wanted s' ≤ page + xs := heq ▸ hpage
      have hrest : (xs : Multiset α) = wanted s' := le_antisymm hxs (Multiset.le_of_add_le_add_left hback)
      exact .more hstep (hiff.mp (hrest ▸ heq)) (ih.mp hrest)
    intro halong
    cases halong with
    | last hstep' _ => exact absurd (Prod.mk.inj (Option.some.inj (hstep.symm.trans hstep'))).2 (by simp)
    | more hstep' hs hmore =>
      obtain ⟨-, hnext⟩ := Prod.mk.inj (Option.some.inj (hstep.symm.trans hstep'))
      obtain rfl := Option.some.inj hnext
      rw [ih.mpr hmore]
      exact hiff.mpr hs

/-- The pages are in order if each of them is, and comes before all that is wanted after it. -/
theorem Followed.pairwise {R : α → α → Prop}
    (hle : ∀ s page next, step s = some (page, next) → (page : Multiset α) + next.elim 0 wanted ≤ wanted s)
    (hpage : ∀ s page next, step s = some (page, next) → page.Pairwise R)
    (hnext : ∀ s page s', step s = some (page, some s') → ∀ x ∈ page, ∀ y ∈ wanted s', R x y)
    (h : Followed step s xs) : xs.Pairwise R := by
  induction h with
  | last hstep => exact hpage _ _ _ hstep
  | more hstep hrest ih =>
    refine List.pairwise_append.mpr ⟨hpage _ _ _ hstep, ih, fun x hx y hy => ?_⟩
    exact hnext _ _ _ hstep x hx y (Multiset.mem_of_le (hrest.le_wanted wanted hle) (Multiset.mem_coe.mpr hy))

end Wanted

end Follow

/-! ## §3 Reading a list by its keys -/

/-- How a list is read: the entries with the greatest keys, as many as a window has, of which some are shown. The
cursor is the key of the last that was shown, and the next window is of entries with smaller keys. Some entries
are dropped from the list when they are read. -/
structure KeyCursor (α β ι κ : Type) [LinearOrder κ] where
  size : ℕ
  key : α → κ
  id : α → ι
  order : List α → List α
  order_perm : ∀ rows, (order rows).Perm rows
  order_sorted : ∀ rows, (order rows).Pairwise fun a b => key b ≤ key a
  shown : α → Option β
  keyOf : β → κ
  keyOf_shown : ∀ a b, shown a = some b → keyOf b = key a
  dropped : ι → Bool
  shown_dropped : ∀ a, dropped (id a) = true → shown a = none

namespace KeyCursor

variable {α β ι κ : Type} [LinearOrder κ] [DecidableEq ι] (C : KeyCursor α β ι κ)

def window (rows : List α) : List α := (C.order rows).take C.size

/-- What does not fit into the window. -/
def beyond (rows : List α) : List α := (C.order rows).drop C.size

def page (rows : List α) : List β := (C.window rows).filterMap C.shown

/-- What is read after an entry. -/
def rest (rows : List α) (last : κ) : List α :=
  rows.filter fun a => decide (C.key a < last) && decide (C.id a ∉ ((C.window rows).map C.id).filter C.dropped)

def step (rows : List α) : Option (List β × Option (List α)) :=
  some (C.page rows, (C.page rows).getLast?.map fun b => C.rest rows (C.keyOf b))

/-- **A window that loses nothing**: what would be shown and does not fit into it has a smaller key than the last
entry that it shows. -/
def Wide (rows : List α) : Prop :=
  ∀ a ∈ C.beyond rows, (C.shown a).isSome = true → ∃ b, (C.page rows).getLast? = some b ∧ C.key a < C.keyOf b

variable {C} {rows : List α} {last : β}

omit [DecidableEq ι] in
theorem shown_append : ((C.page rows ++ (C.beyond rows).filterMap C.shown : List β) : Multiset β) =
    (rows.filterMap C.shown : List β) := by
  rw [page, window, beyond, ← List.filterMap_append, List.take_append_drop]
  exact Multiset.coe_eq_coe.mpr ((C.order_perm rows).filterMap C.shown)

omit [DecidableEq ι] in
theorem page_sorted : (C.page rows).Pairwise fun b c => C.keyOf c ≤ C.keyOf b := by
  refine List.pairwise_filterMap.mpr (((C.order_sorted rows).sublist (List.take_sublist _ _)).imp ?_)
  intro a a' hkey b hb c hc
  rw [C.keyOf_shown a b hb, C.keyOf_shown a' c hc]
  exact hkey

omit [DecidableEq ι] in
/-- The last entry of a page has the smallest key. -/
theorem le_of_page (hlast : (C.page rows).getLast? = some last) {b : β} (hb : b ∈ C.page rows) :
    C.keyOf last ≤ C.keyOf b := by
  obtain ⟨front, hpage⟩ := List.getLast?_eq_some_iff.mp hlast
  have hsorted : (C.page rows).Pairwise fun b c => C.keyOf c ≤ C.keyOf b := page_sorted
  rw [hpage] at hb hsorted
  rcases List.mem_append.mp hb with hb | hb
  · exact (List.pairwise_append.mp hsorted).2.2 b hb last (List.mem_singleton.mpr rfl)
  · exact le_of_eq (congrArg C.keyOf (List.mem_singleton.mp hb).symm)

/-- What is shown of the entries after a page is what is shown of those with smaller keys. -/
theorem shown_rest (hlast : (C.page rows).getLast? = some last) :
    ((C.rest rows (C.keyOf last)).filterMap C.shown : Multiset β) =
      (((C.beyond rows).filter fun a => decide (C.key a < C.keyOf last)).filterMap C.shown : List β) := by
  -- what is dropped is not shown
  have hdropped : (C.rest rows (C.keyOf last)).filterMap C.shown =
      (rows.filter fun a => decide (C.key a < C.keyOf last)).filterMap C.shown := by
    rw [rest, List.filterMap_filter, List.filterMap_filter]
    refine List.filterMap_congr fun a _ => ?_
    by_cases hgone : C.id a ∈ ((C.window rows).map C.id).filter C.dropped
    · rw [C.shown_dropped a (List.mem_filter.mp hgone).2, ite_self, ite_self]
    · rw [decide_eq_true hgone, Bool.and_true]
  -- and what the window shows has no smaller key
  have hwindow : ((C.window rows).filter fun a => decide (C.key a < C.keyOf last)).filterMap C.shown = [] := by
    refine List.filterMap_eq_nil_iff.mpr fun a ha => ?_
    obtain ⟨ha, hkey⟩ := List.mem_filter.mp ha
    cases hshown : C.shown a with
    | none => rfl
    | some b =>
      have hle := le_of_page hlast (List.mem_filterMap.mpr ⟨a, ha, hshown⟩)
      rw [C.keyOf_shown a b hshown] at hle
      exact absurd (of_decide_eq_true hkey) (not_lt.mpr hle)
  have hperm := ((C.order_perm rows).filter fun a => decide (C.key a < C.keyOf last)).filterMap C.shown
  rw [← List.take_append_drop C.size (C.order rows), List.filter_append, List.filterMap_append] at hperm
  rw [hdropped, ← Multiset.coe_eq_coe.mpr hperm]
  exact congrArg _ (by rw [← window, hwindow, List.nil_append, beyond])

omit [DecidableEq ι] in
/-- A list without some entries shows the same exactly when these would not be shown. -/
theorem shown_filter_iff {l : List α} {p : α → Bool} :
    ((l.filter p).filterMap C.shown : Multiset β) = (l.filterMap C.shown : List β) ↔
      ∀ a ∈ l, (C.shown a).isSome = true → p a = true := by
  rw [coe_eq_coe]
  constructor
  · intro hperm a ha hshown
    by_contra hp
    have hless : ((l.filter p).filter fun a => (C.shown a).isSome).length <
        (l.filter fun a => (C.shown a).isSome).length := by
      rw [List.filter_comm]
      exact List.length_filter_lt_length_iff_exists.mpr ⟨a, List.mem_filter.mpr ⟨ha, hshown⟩, hp⟩
    have hlength := hperm.length_eq
    rw [List.length_filterMap_eq_countP, List.length_filterMap_eq_countP, List.countP_eq_length_filter,
      List.countP_eq_length_filter] at hlength
    omega
  · intro hall
    refine .of_eq ?_
    rw [List.filterMap_filter]
    refine List.filterMap_congr fun a ha => ?_
    cases hp : p a with
    | true => rfl
    | false =>
      cases hshown : C.shown a with
      | none => rfl
      | some b => exact absurd (hall a ha (by rw [hshown]; rfl)) (by rw [hp]; exact Bool.false_ne_true)

/-- What is shown from a place on. -/
def wanted (C : KeyCursor α β ι κ) (rows : List α) : Multiset β := (rows.filterMap C.shown : List β)

theorem step_le {page : List β} {next : Option (List α)} (h : C.step rows = some (page, next)) :
    (page : Multiset β) + next.elim 0 C.wanted ≤ C.wanted rows := by
  obtain ⟨rfl, rfl⟩ := Prod.mk.inj (Option.some.inj h)
  rw [wanted, ← shown_append, ← coe_add]
  gcongr
  cases hlast : (C.page rows).getLast? with
  | none => exact Multiset.zero_le _
  | some last =>
    show C.wanted (C.rest rows (C.keyOf last)) ≤ _
    rw [wanted, shown_rest hlast]
    exact (List.filter_sublist.filterMap C.shown).subperm

theorem step_eq_iff {page : List β} {next : Option (List α)} (h : C.step rows = some (page, next)) :
    (page : Multiset β) + next.elim 0 C.wanted = C.wanted rows ↔ C.Wide rows := by
  obtain ⟨rfl, rfl⟩ := Prod.mk.inj (Option.some.inj h)
  rw [wanted, ← shown_append, ← coe_add, add_right_inj, Wide]
  cases hlast : (C.page rows).getLast? with
  | none =>
    show (0 : Multiset β) = _ ↔ _
    rw [eq_comm, Multiset.coe_eq_zero, List.filterMap_eq_nil_iff]
    refine forall₂_congr fun a _ => ?_
    cases C.shown a <;> simp
  | some last =>
    show C.wanted (C.rest rows (C.keyOf last)) = _ ↔ _
    rw [wanted, shown_rest hlast, shown_filter_iff]
    refine forall₃_congr fun a _ _ => ?_
    simp

/-- **Reading to the end** shows what there is exactly when every window on the way is wide enough, and in the
order of the keys in any case. -/
theorem followed_iff : (∃ xs, Followed C.step rows xs ∧ xs.Perm (rows.filterMap C.shown) ∧
      xs.Pairwise fun b c => C.keyOf c ≤ C.keyOf b) ↔ AlongPages C.step C.Wide rows := by
  obtain ⟨xs, hxs⟩ := exists_followed C.step List.length (fun rows => by
    refine ⟨C.page rows, _, rfl, fun next hnext => ?_⟩
    obtain ⟨last, hlast, rfl⟩ := Option.map_eq_some_iff.mp hnext
    obtain ⟨a, ha, hshown⟩ := List.mem_filterMap.mp (List.mem_of_getLast? hlast)
    refine List.length_filter_lt_length_iff_exists.mpr
      ⟨a, (C.order_perm rows).mem_iff.mp (List.mem_of_mem_take ha), ?_⟩
    simp [C.keyOf_shown a last hshown]) rows
  have hiff := hxs.eq_wanted_iff C.wanted (fun _ _ _ => step_le) (fun _ _ _ => step_eq_iff)
  rw [← hiff, wanted, coe_eq_coe]
  constructor
  · rintro ⟨ys, hys, hperm, -⟩
    rw [hxs.unique hys]
    exact hperm
  intro hperm
  refine ⟨xs, hxs, hperm, hxs.pairwise C.wanted (fun _ _ _ => step_le) ?_ ?_⟩
  · intro s page next h
    obtain ⟨rfl, -⟩ := Prod.mk.inj (Option.some.inj h)
    exact page_sorted
  intro s page s' h b hb c hc
  obtain ⟨rfl, hnext⟩ := Prod.mk.inj (Option.some.inj h)
  obtain ⟨last, hlast, rfl⟩ := Option.map_eq_some_iff.mp hnext
  obtain ⟨a, ha, hshown⟩ := List.mem_filterMap.mp (Multiset.mem_coe.mp hc)
  have hkey := (List.mem_filter.mp ha).2
  rw [Bool.and_eq_true, decide_eq_true_eq, ← C.keyOf_shown a c hshown] at hkey
  exact le_trans (le_of_lt hkey.1) (le_of_page hlast hb)

end KeyCursor

/-! ## §4 Reading a list a page at a time, with a look ahead -/

/-- How a list is read: `probe` entries are fetched, and looked at until a page is full. Where fewer were there to
be fetched, that was all; otherwise the next page starts behind the last that was looked at. -/
structure Probe (α β : Type) where
  size : ℕ
  probe : ℕ
  size_pos : 0 < size
  size_le : size ≤ probe
  pick : α → Option β

namespace Probe

variable {α β : Type}

/-- What is looked at until `n` entries were found. -/
def looked (pick : α → Option β) : ℕ → List α → List α
  | _, [] => []
  | n, a :: rest =>
    match pick a with
    | none => a :: looked pick n rest
    | some _ => if n ≤ 1 then [a] else a :: looked pick (n - 1) rest

variable (P : Probe α β)

/-- What the next page looks at. -/
def seen (rows : List α) : List α := looked P.pick P.size (rows.take P.probe)

def step (rows : List α) : Option (List β × Option (List α)) :=
  some ((P.seen rows).filterMap P.pick,
    if P.probe ≤ rows.length then some (rows.drop (P.seen rows).length) else none)

/-- **A list that fits**: if it ends before as many as are fetched, a page has room for it. -/
def Fits (rows : List α) : Prop := rows.length < P.probe → (rows.filterMap P.pick).length ≤ P.size

variable {P} {rows : List α}

theorem isPrefix_looked (pick : α → Option β) (n : ℕ) (rows : List α) : looked pick n rows <+: rows := by
  induction rows generalizing n with
  | nil => exact List.prefix_rfl
  | cons a rest ih =>
    unfold looked
    split
    · exact List.cons_prefix_cons.mpr ⟨rfl, ih n⟩
    split
    · exact List.cons_prefix_cons.mpr ⟨rfl, List.nil_prefix⟩
    · exact List.cons_prefix_cons.mpr ⟨rfl, ih (n - 1)⟩

/-- As many entries are found as are wanted, or as there are. -/
theorem length_looked (pick : α → Option β) {n : ℕ} (hn : 0 < n) (rows : List α) :
    ((looked pick n rows).filterMap pick).length = min n (rows.filterMap pick).length := by
  induction rows generalizing n with
  | nil => simp [looked]
  | cons a rest ih =>
    cases ha : pick a with
    | none => rw [looked, ha, List.filterMap_cons_none ha, List.filterMap_cons_none ha, ih hn]
    | some b =>
      rw [looked, ha]
      dsimp only
      rw [List.filterMap_cons_some ha, List.length_cons]
      split
      · rw [List.filterMap_cons_some ha, List.filterMap_nil, List.length_singleton]
        omega
      · rw [List.filterMap_cons_some ha, List.length_cons, ih (by omega)]
        omega

theorem isPrefix_seen : P.seen rows <+: rows :=
  (isPrefix_looked _ _ _).trans (List.take_prefix _ _)

/-- Something is looked at where there is something. -/
theorem length_seen_pos (h : rows ≠ []) : 0 < (P.seen rows).length := by
  have hprobe : 0 < P.probe := lt_of_lt_of_le P.size_pos P.size_le
  obtain ⟨a, rest, rfl⟩ := List.exists_cons_of_ne_nil h
  obtain ⟨n, hn⟩ := Nat.exists_eq_succ_of_ne_zero (by omega : P.probe ≠ 0)
  rw [seen, hn, List.take_succ_cons, looked]
  split
  · exact Nat.succ_pos _
  · split <;> exact Nat.succ_pos _

/-- What is seen is a page, and behind it is the rest. -/
theorem shown_seen_append (P : Probe α β) (rows : List α) : (P.seen rows).filterMap P.pick ++
    (rows.drop (P.seen rows).length).filterMap P.pick = rows.filterMap P.pick := by
  rw [← List.filterMap_append]
  exact congrArg _ (List.prefix_iff_eq_append.mp isPrefix_seen)

/-- In a sorted list, the rest is what comes after the last that was looked at. -/
theorem drop_seen {r : α → α → Prop} [DecidableRel r] (hasymm : ∀ x y, r x y → ¬r y x) (hsorted : rows.Pairwise r)
    {last : α} (hlast : (P.seen rows).getLast? = some last) :
    rows.drop (P.seen rows).length = rows.filter fun x => decide (r last x) :=
  (filter_of_append hasymm hsorted (List.prefix_iff_eq_append.mp isPrefix_seen).symm hlast).symm

/-- The last page is what there is exactly when that fits. -/
theorem shown_seen_iff (h : rows.length < P.probe) :
    (P.seen rows).filterMap P.pick = rows.filterMap P.pick ↔ (rows.filterMap P.pick).length ≤ P.size := by
  have hlength := length_looked P.pick P.size_pos rows
  have hseen : P.seen rows = looked P.pick P.size rows := by
    rw [seen, List.take_of_length_le (by omega)]
  constructor
  · intro heq
    rw [hseen] at heq
    rw [heq] at hlength
    omega
  · intro hfits
    have hfront : P.seen rows <+: rows := isPrefix_seen
    refine (hfront.sublist.filterMap P.pick).eq_of_length ?_
    rw [hseen]
    omega

/-- What is wanted from a place on. -/
def wanted (P : Probe α β) (rows : List α) : Multiset β := (rows.filterMap P.pick : List β)

theorem step_le {page : List β} {next : Option (List α)} (h : P.step rows = some (page, next)) :
    (page : Multiset β) + next.elim 0 P.wanted ≤ P.wanted rows := by
  obtain ⟨rfl, rfl⟩ := Prod.mk.inj (Option.some.inj h)
  rw [wanted, ← shown_seen_append P rows, ← coe_add]
  gcongr
  split
  · exact le_rfl
  · exact Multiset.zero_le _

theorem step_eq_iff {page : List β} {next : Option (List α)} (h : P.step rows = some (page, next)) :
    (page : Multiset β) + next.elim 0 P.wanted = P.wanted rows ↔ P.Fits rows := by
  obtain ⟨rfl, rfl⟩ := Prod.mk.inj (Option.some.inj h)
  rw [wanted, Fits]
  split
  · rename_i hprobe
    rw [← shown_seen_append P rows, ← coe_add]
    exact iff_of_true rfl fun hless => absurd hprobe (by omega)
  have hless : rows.length < P.probe := by omega
  rw [Option.elim_none, add_zero, ← shown_seen_iff hless]
  refine ⟨fun heq _ => ?_, fun heq => congrArg _ (heq hless)⟩
  exact (isPrefix_seen.sublist.filterMap P.pick).eq_of_length (Multiset.coe_eq_coe.mp heq).length_eq

/-- The pages are in the order of the list. -/
theorem sublist_of_followed {xs : List β} (h : Followed P.step rows xs) : xs.Sublist (rows.filterMap P.pick) := by
  induction h with
  | last hstep =>
    obtain ⟨rfl, -⟩ := Prod.mk.inj (Option.some.inj hstep)
    exact isPrefix_seen.sublist.filterMap P.pick
  | @more rows rows' page xs hstep _ ih =>
    obtain ⟨rfl, hnext⟩ := Prod.mk.inj (Option.some.inj hstep)
    split at hnext
    · obtain rfl := Option.some.inj hnext
      rw [← shown_seen_append P rows]
      exact (List.Sublist.refl _).append ih
    · cases hnext

/-- **Reading to the end** gives what there is, in its order, exactly when what is left for the last page fits. -/
theorem followed_iff : Followed P.step rows (rows.filterMap P.pick) ↔ AlongPages P.step P.Fits rows := by
  obtain ⟨xs, hxs⟩ := exists_followed P.step List.length (fun rows => by
    refine ⟨_, _, rfl, fun next hnext => ?_⟩
    split at hnext
    · rename_i hprobe
      obtain rfl := Option.some.inj hnext
      have hsize := P.size_pos
      have hle := P.size_le
      have hpos := length_seen_pos (P := P) (List.length_pos_iff.mp (by omega : 0 < rows.length))
      rw [List.length_drop]
      omega
    · cases hnext) rows
  have hiff := hxs.eq_wanted_iff P.wanted (fun _ _ _ => step_le) (fun _ _ _ => step_eq_iff)
  rw [← hiff, wanted, coe_eq_coe]
  constructor
  · intro hall
    rw [hxs.unique hall]
  intro hperm
  rw [← (sublist_of_followed hxs).eq_of_length hperm.length_eq]
  exact hxs

end Probe

end Setka.Lib
