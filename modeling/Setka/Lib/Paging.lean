/-
# Setka.Lib.Paging — reading a range page by page, with a cursor.

A call fetches rows from a cursor on, keeps those that lie in the range, and returns some of them with a cursor
for the next call. Calls go on until a page is empty. The pages are the range exactly when no call stops early,
no call fetches only rows outside of the range while some are left, and a new cursor admits nothing that the
cursor before it did not.
-/
import Mathlib.Data.List.Basic
import Mathlib.Order.Lattice

namespace Setka.Lib

/-! ## §1 Calling until a page is empty -/

section Paged

variable {τ α : Type} (call : τ → Option (List α × τ))

/-- The pages of the calls from a cursor on, one behind the other. A call that raises gives none. -/
inductive Paged : τ → List α → Prop
  | done {t t' : τ} : call t = some ([], t') → Paged t []
  | more {t t' : τ} {page xs : List α} : call t = some (page, t') → page ≠ [] → Paged t' xs → Paged t (page ++ xs)

variable {call}

/-- There is one way to go on. -/
theorem Paged.unique {t : τ} {xs ys : List α} (hx : Paged call t xs) (hy : Paged call t ys) : xs = ys := by
  induction hx generalizing ys with
  | done h =>
    cases hy with
    | done _ => rfl
    | more h' hne _ =>
      rw [h, Option.some_inj, Prod.mk.injEq] at h'
      exact absurd h'.1.symm hne
  | more h hne _ ih =>
    cases hy with
    | done h' =>
      rw [h, Option.some_inj, Prod.mk.injEq] at h'
      exact absurd h'.1 hne
    | more h' _ hrest =>
      rw [h, Option.some_inj, Prod.mk.injEq] at h'
      obtain ⟨rfl, rfl⟩ := h'
      rw [ih hrest]

end Paged

/-! ## §2 Windows of a sorted list -/

/-- A sorted list, cut after an entry: behind it are the entries that come after it. -/
theorem filter_of_append {α : Type} {r : α → α → Prop} [DecidableRel r] (hasymm : ∀ x y, r x y → ¬r y x)
    {l front rest : List α} {last : α} (hsorted : l.Pairwise r) (hl : l = front ++ rest)
    (hlast : front.getLast? = some last) : l.filter (fun x => decide (r last x)) = rest := by
  obtain ⟨before, rfl⟩ := List.getLast?_eq_some_iff.mp hlast
  rw [hl, List.pairwise_append] at hsorted
  obtain ⟨hfront, -, hacross⟩ := hsorted
  have hmem : last ∈ before ++ [last] := List.mem_append_right _ (List.mem_singleton.mpr rfl)
  have hnone : (before ++ [last]).filter (fun x => decide (r last x)) = [] := by
    refine List.filter_eq_nil_iff.mpr fun x hx hr => ?_
    rcases List.mem_append.mp hx with hx | hx
    · have hbefore := (List.pairwise_append.mp hfront).2.2 x hx last (List.mem_singleton.mpr rfl)
      exact hasymm x last hbefore (of_decide_eq_true hr)
    · obtain rfl := List.mem_singleton.mp hx
      exact hasymm x x (of_decide_eq_true hr) (of_decide_eq_true hr)
  have hall : rest.filter (fun x => decide (r last x)) = rest :=
    List.filter_eq_self.mpr fun x hx => decide_eq_true (hacross last hmem x hx)
  rw [hl, List.filter_append, hnone, hall, List.nil_append]

/-- How a call works. `rows` are all rows in the order of their keys, `inside` those up to the end of the range,
`from` those from a cursor on, and `fetched` those that a cursor makes the database look at. A call that does not
stop looks at `2 * limit` rows and keeps `limit` of those in the range. Its caller is given those that are
`served`, and the cursor of the last that was kept. -/
structure Paging (τ α κ : Type) where
  limit : ℕ
  rows : List α
  key : α → κ
  inside : α → Bool
  starts : τ → α → Bool
  fetched : τ → α → Bool
  stops : τ → Bool
  refused : τ → Bool
  served : α → Bool
  cursor : α → τ
  fallback : τ → τ

namespace Paging

variable {τ α κ : Type} (P : Paging τ α κ)

/-- What lies in the range from a cursor on. -/
def left (t : τ) : List α := P.rows.filter fun x => P.starts t x && P.inside x

/-- The rows of a call that lie in the range. -/
def kept (t : τ) : List α :=
  ((((P.rows.filter (P.fetched t)).take (2 * P.limit)).filter fun x => P.starts t x && P.inside x)).take P.limit

def call (t : τ) : Option (List α × τ) :=
  if P.stops t then some ([], P.fallback t)
  else if P.refused t then none
  else some ((P.kept t).filter P.served, ((P.kept t).getLast?.map P.cursor).getD (P.fallback t))

/-- The pages from a cursor on are what lies in the range. -/
def Complete (t : τ) : Prop := Paged P.call t (P.left t)

/-- What is not in the range from one cursor on does not come after a row. -/
def Closed [LT κ] (t : τ) (last : α) : Prop :=
  ∀ x ∈ P.rows, P.key last < P.key x → P.inside x = true → P.starts t x = true

/-- A call that leaves nothing behind: there is nothing left, and it does not fail; or it does not stop or fail,
keeps something, all of which is served, and nothing that the cursor leaves out comes after that. -/
inductive Through [LT κ] : τ → Prop
  | done {t : τ} : P.left t = [] → P.stops t = true ∨ P.refused t = false → Through t
  | more {t : τ} {last : α} : P.stops t = false → P.refused t = false → (P.kept t).getLast? = some last →
      (∀ x ∈ P.kept t, P.served x = true) → P.Closed t last → Through (P.cursor last) → Through t

/-- Two defects that cancel out: the next cursor lets rows in that the cursor leaves out, and before they are
reached a call leaves something behind. -/
def Cancels [LT κ] (t : τ) : Prop :=
  ∃ last, (P.kept t).getLast? = some last ∧ ¬P.Closed t last ∧ ¬P.Through (P.cursor last)

/-- What is asked of the cursors. -/
structure Lawful [LT κ] : Prop where
  sorted : P.rows.Pairwise fun x y => P.key x < P.key y
  fetched : ∀ t x, P.starts t x = true → P.inside x = true → P.fetched t x = true
  cursor : ∀ x ∈ P.rows, ∀ y ∈ P.rows, P.starts (P.cursor x) y = true ↔ P.key x < P.key y

/-! ## §3 A page is the beginning of what is left -/

variable {P} {t : τ} {last : α}

theorem mem_left {x : α} : x ∈ P.left t ↔ x ∈ P.rows ∧ P.starts t x = true ∧ P.inside x = true := by
  rw [left, List.mem_filter, Bool.and_eq_true]

theorem mem_left_of_kept {x : α} (hx : x ∈ P.kept t) : x ∈ P.left t := by
  obtain ⟨hx, hin⟩ := List.mem_filter.mp (List.mem_of_mem_take hx)
  exact List.mem_filter.mpr ⟨(List.mem_filter.mp (List.mem_of_mem_take hx)).1, hin⟩

theorem call_of_stops (hstops : P.stops t = true) : P.call t = some ([], P.fallback t) := by
  rw [call, if_pos hstops]

theorem call_of_kept (hstops : P.stops t = false) (hrefused : P.refused t = false)
    (hlast : (P.kept t).getLast? = some last) :
    P.call t = some ((P.kept t).filter P.served, P.cursor last) := by
  rw [call, hstops, hrefused, hlast]
  rfl

/-- Only what is served comes out. -/
theorem served_of_paged {xs : List α} (h : Paged P.call t xs) : ∀ x ∈ xs, P.served x = true := by
  have hpage : ∀ {t t' : τ} {page : List α}, P.call t = some (page, t') → ∀ x ∈ page, P.served x = true := by
    intro t t' page hcall x hx
    unfold call at hcall
    split at hcall
    · obtain ⟨rfl, -⟩ := Prod.mk.inj (Option.some.inj hcall)
      exact absurd hx List.not_mem_nil
    split at hcall
    · cases hcall
    · obtain ⟨rfl, -⟩ := Prod.mk.inj (Option.some.inj hcall)
      exact (List.mem_filter.mp hx).2
  induction h with
  | done _ => exact fun x hx => absurd hx List.not_mem_nil
  | more hcall _ _ ih =>
    intro x hx
    rcases List.mem_append.mp hx with hx | hx
    · exact hpage hcall x hx
    · exact ih x hx

section Windows

variable [LinearOrder κ]

/-- What is fetched and lies in the range is what is left. -/
theorem kept_append (h : P.Lawful) (t : τ) : ∃ rest, P.left t = P.kept t ++ rest := by
  have hleft : P.left t = (P.rows.filter (P.fetched t)).filter fun x => P.starts t x && P.inside x := by
    rw [left, List.filter_filter]
    refine List.filter_congr fun x _ => ?_
    cases hin : P.starts t x && P.inside x with
    | false => rw [Bool.false_and]
    | true =>
      rw [Bool.and_eq_true] at hin
      rw [h.fetched t x hin.1 hin.2, Bool.true_and]
  rw [hleft]
  nth_rewrite 1 [← List.take_append_drop (2 * P.limit) (P.rows.filter (P.fetched t))]
  rw [List.filter_append]
  nth_rewrite 1 [← List.take_append_drop P.limit (List.filter _ (List.take _ _))]
  rw [List.append_assoc]
  exact ⟨_, rfl⟩

/-- **The next cursor stands for the rest** of what was left, if it lets nothing in. -/
theorem left_cursor_eq_iff (h : P.Lawful) (hlast : (P.kept t).getLast? = some last) {rest : List α}
    (hrest : P.left t = P.kept t ++ rest) : P.left (P.cursor last) = rest ↔ P.Closed t last := by
  have hmem : last ∈ P.rows := (mem_left.mp (mem_left_of_kept (List.mem_of_getLast? hlast))).1
  have hsorted := h.sorted.sublist (List.filter_sublist (p := fun x => P.starts t x && P.inside x))
  have hasymm : ∀ x y, P.key x < P.key y → ¬P.key y < P.key x := fun _ _ h => not_lt.mpr (le_of_lt h)
  rw [← filter_of_append hasymm hsorted hrest hlast, List.filter_filter, left]
  constructor
  · intro heq x hx hlt hinside
    have hin : x ∈ P.rows.filter fun x => P.starts (P.cursor last) x && P.inside x :=
      mem_left.mpr ⟨hx, (h.cursor last hmem x hx).mpr hlt, hinside⟩
    rw [heq, List.mem_filter, Bool.and_eq_true, Bool.and_eq_true] at hin
    exact hin.2.2.1
  intro hclosed
  refine List.filter_congr fun x hx => Bool.eq_iff_iff.mpr ?_
  simp only [Bool.and_eq_true, decide_eq_true_eq, h.cursor last hmem x hx]
  constructor
  · rintro ⟨hlt, hinside⟩
    exact ⟨hlt, hclosed x hx hlt hinside, hinside⟩
  · rintro ⟨hlt, -, hinside⟩
    exact ⟨hlt, hinside⟩

/-- The cursor of a row leaves nothing out that comes after the row. -/
theorem closed_cursor (h : P.Lawful) {x : α} (hx : x ∈ P.rows) (hlast : (P.kept (P.cursor x)).getLast? = some last) :
    P.Closed (P.cursor x) last := by
  obtain ⟨hmem, hstarts, -⟩ := mem_left.mp (mem_left_of_kept (List.mem_of_getLast? hlast))
  intro y hy hlt _
  exact (h.cursor x hx y hy).mpr (lt_trans ((h.cursor x hx last hmem).mp hstarts) hlt)

/-! ## §4 When nothing is left behind -/

/-- Nothing is left, and the call says so. -/
theorem paged_nil_iff (h : P.Lawful) (hleft : P.left t = []) :
    Paged P.call t [] ↔ P.stops t = true ∨ P.refused t = false := by
  obtain ⟨rest, hrest⟩ := kept_append h t
  obtain ⟨hkept, -⟩ := List.append_eq_nil_iff.mp (hrest.symm.trans hleft)
  constructor
  · intro hpaged
    by_contra hnot
    obtain ⟨hstops, hrefused⟩ := not_or.mp hnot
    have hnone : P.call t = none := by
      rw [call, if_neg hstops, if_pos (Bool.eq_true_of_not_eq_false hrefused)]
    generalize hxs : ([] : List α) = xs at hpaged
    cases hpaged with
    | done hcall => exact absurd (hnone.symm.trans hcall) (by simp)
    | more hcall _ _ => exact absurd (hnone.symm.trans hcall) (by simp)
  · rintro (hstops | hrefused)
    · exact .done (call_of_stops hstops)
    · refine @Paged.done _ _ _ t (P.fallback t) ?_
      unfold call
      split
      · rfl
      · rw [hrefused, hkept]
        rfl

/-- **Calls that leave nothing behind** give the range. -/
theorem Through.complete (h : P.Lawful) (hthrough : P.Through t) : P.Complete t := by
  induction hthrough with
  | @done t hleft hcall =>
    rw [Complete, hleft]
    exact (paged_nil_iff h hleft).mpr hcall
  | @more t last hstops hrefused hlast hserved hclosed _ ih =>
    obtain ⟨rest, hrest⟩ := kept_append h t
    have hpage : (P.kept t).filter P.served = P.kept t := List.filter_eq_self.mpr hserved
    have hcall := call_of_kept hstops hrefused hlast
    rw [hpage] at hcall
    rw [Complete, hrest, ← (left_cursor_eq_iff h hlast hrest).mpr hclosed]
    refine .more hcall (fun hnil => ?_) ih
    rw [hnil] at hlast
    cases hlast

/-- A call with something left that goes right keeps something and serves it. -/
theorem Complete.more (h : P.Lawful) (hcomplete : P.Complete t) (hleft : P.left t ≠ []) :
    ∃ last rest, P.stops t = false ∧ P.refused t = false ∧ (P.kept t).getLast? = some last ∧
      (∀ x ∈ P.kept t, P.served x = true) ∧ P.left t = P.kept t ++ rest ∧ Paged P.call (P.cursor last) rest := by
  obtain ⟨rest, hrest⟩ := kept_append h t
  have hserved : ∀ x ∈ P.kept t, P.served x = true := fun x hx =>
    served_of_paged hcomplete x (mem_left_of_kept hx)
  have hpage : (P.kept t).filter P.served = P.kept t := List.filter_eq_self.mpr hserved
  unfold Complete at hcomplete
  generalize hxs : P.left t = xs at hcomplete hleft
  cases hcomplete with
  | done _ => exact absurd rfl hleft
  | @more _ t' page xs hcall hne hmore =>
    have hstops : P.stops t = false := by
      refine Bool.eq_false_of_not_eq_true fun hstops => hne ?_
      rw [call_of_stops hstops] at hcall
      exact (Prod.mk.inj (Option.some.inj hcall)).1.symm
    have hrefused : P.refused t = false := by
      refine Bool.eq_false_of_not_eq_true fun hrefused => ?_
      rw [call, hstops, hrefused] at hcall
      cases hcall
    cases hlast : (P.kept t).getLast? with
    | none =>
      rw [call, hstops, hrefused, List.getLast?_eq_none_iff.mp hlast] at hcall
      exact absurd (Prod.mk.inj (Option.some.inj hcall)).1.symm hne
    | some last =>
      rw [call_of_kept hstops hrefused hlast, hpage] at hcall
      obtain ⟨rfl, rfl⟩ := Prod.mk.inj (Option.some.inj hcall)
      rw [hxs] at hrest
      rw [List.append_cancel_left hrest] at hmore
      exact ⟨last, rest, hstops, hrefused, rfl, hserved, hrest, hmore⟩

/-- From the cursor of a row on, the range is read exactly when no call leaves something behind. -/
theorem through_of_complete_cursor (h : P.Lawful) {x : α} (hx : x ∈ P.rows) (hcomplete : P.Complete (P.cursor x)) :
    P.Through (P.cursor x) := by
  induction hn : (P.left (P.cursor x)).length using Nat.strong_induction_on generalizing x with
  | _ n ih =>
    by_cases hleft : P.left (P.cursor x) = []
    · exact .done hleft ((paged_nil_iff h hleft).mp (hleft ▸ hcomplete))
    obtain ⟨last, rest, hstops, hrefused, hlast, hserved, hrest, hmore⟩ := hcomplete.more h hleft
    have hclosed := closed_cursor h hx hlast
    have heq := (left_cursor_eq_iff h hlast hrest).mpr hclosed
    have hmem : last ∈ P.rows := (mem_left.mp (mem_left_of_kept (List.mem_of_getLast? hlast))).1
    have hpos : 0 < (P.kept (P.cursor x)).length := List.length_pos_of_mem (List.mem_of_getLast? hlast)
    have hlength := congrArg List.length hrest
    rw [List.length_append] at hlength
    refine .more hstops hrefused hlast hserved hclosed (ih rest.length (by omega) hmem ?_ (by rw [heq]))
    rw [Complete, heq]
    exact hmore

/-- **Nothing is left behind exactly when the pages are the range**, unless two defects cancel out. -/
theorem through_iff (h : P.Lawful) (t : τ) : P.Through t ↔ P.Complete t ∧ ¬P.Cancels t := by
  constructor
  · intro hthrough
    refine ⟨hthrough.complete h, ?_⟩
    rintro ⟨last, hlast, hopen, -⟩
    cases hthrough with
    | done hleft _ =>
      obtain ⟨rest, hrest⟩ := kept_append h t
      rw [(List.append_eq_nil_iff.mp (hrest.symm.trans hleft)).1] at hlast
      cases hlast
    | more _ _ hlast' _ hclosed _ =>
      obtain rfl := Option.some.inj (hlast'.symm.trans hlast)
      exact hopen hclosed
  · rintro ⟨hcomplete, hnot⟩
    by_cases hleft : P.left t = []
    · exact .done hleft ((paged_nil_iff h hleft).mp (hleft ▸ hcomplete))
    obtain ⟨last, rest, hstops, hrefused, hlast, hserved, hrest, hmore⟩ := hcomplete.more h hleft
    have hmem : last ∈ P.rows := (mem_left.mp (mem_left_of_kept (List.mem_of_getLast? hlast))).1
    by_cases hclosed : P.Closed t last
    · refine .more hstops hrefused hlast hserved hclosed (through_of_complete_cursor h hmem ?_)
      rw [Complete, (left_cursor_eq_iff h hlast hrest).mpr hclosed]
      exact hmore
    -- the pages from the next cursor on are not what lies in the range from there
    refine absurd ⟨last, hlast, hclosed, fun hthrough => hclosed ?_⟩ hnot
    exact (left_cursor_eq_iff h hlast hrest).mp ((hthrough.complete h).unique hmore)

end Windows

end Paging

end Setka.Lib
