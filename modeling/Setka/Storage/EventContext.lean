/-
# Setka.Storage.EventContext — the events around an event.

One page is read backwards from a position before the event, and one forwards from the event. The position before it
is made by taking one from its depth, and not from its stream ordering.
-/
import Setka.Storage.Stream

namespace Setka.Storage.EventContext

open Setka.Lib Setka.Types Setka.Storage.EventFilter Setka.Storage.Stream Paging

structure EventsAround where
  before : List String
  startToken : RoomStreamToken
  after : List String
  endToken : RoomStreamToken

def token (topological stream : ℤ) : RoomStreamToken := plainToken (some topological) stream

section

variable (store : StreamStore) (roomId : String)

/-- `_get_events_around_txn`. -/
def getEventsAroundTxn (eventId : String) (beforeLimit afterLimit : ℕ) (eventFilter : Option Filter) :
    Option EventsAround := do
  let row ← store.tables.events.find? fun e => e.eventId = eventId && e.roomId = roomId
  let beforeToken := token (row.topologicalOrdering - 1) row.streamOrdering
  let afterToken := token row.topologicalOrdering row.streamOrdering
  let (before, startToken, _) ← paginateRoomEventsByTopologicalOrderingTxn store roomId .backwards beforeLimit
    eventFilter beforeToken none
  let (after, endToken, _) ← paginateRoomEventsByTopologicalOrderingTxn store roomId .forwards afterLimit
    eventFilter afterToken none
  pure ⟨before.map EventRow.eventId, startToken, after.map EventRow.eventId, endToken⟩

/-- A page and the token for the next one. -/
def page (direction : Direction) (limit : ℕ) (t : RoomStreamToken) : Option (List EventRow × RoomStreamToken) :=
  (paginateRoomEventsByTopologicalOrderingTxn store roomId direction limit none t none).map fun r => (r.1, r.2.1)

/-- The events of the room, none of them an outlier, in order of depth and stream position. -/
def timeline : List EventRow :=
  orderBy (topologicalKey .forwards) (selected store.like none store.tables roomId fun _ => true)

/-- **No holes**: what comes before, the event and what comes after are a part of the events of the room, as long as
asked for where there is enough, and paging on from both ends gives the rest. -/
def NoHoles (e : StoredEvent) (beforeLimit afterLimit : ℕ) : Prop :=
  ∃ r front before after back,
    getEventsAroundTxn store roomId e.eventId beforeLimit afterLimit none = some r ∧
    r.before = before.map EventRow.eventId ∧ r.after = after.map EventRow.eventId ∧
    timeline store roomId = front ++ before.reverse ++ e.row :: (after ++ back) ∧
    before.length = min beforeLimit (front ++ before).length ∧ after.length = min afterLimit (after ++ back).length ∧
    ∀ limit, 0 < limit → Paged (page store roomId .backwards limit) r.startToken front.reverse ∧
      Paged (page store roomId .forwards limit) r.endToken back

/-- **The condition**: the event is no outlier, and of the events of the room, those that are one less deep came no
later and those that are as deep no earlier. -/
def Clear (e : StoredEvent) : Prop :=
  e.row ∈ timeline store roomId ∧ ∀ x ∈ timeline store roomId,
    (x.topologicalOrdering = e.topologicalOrdering - 1 → x.streamOrdering ≤ e.streamOrdering) ∧
      (x.topologicalOrdering = e.topologicalOrdering → e.streamOrdering ≤ x.streamOrdering)

end

variable {store : StreamStore} {roomId : String} {direction : Direction} {limit : ℕ} {a b : ℤ} {row : EventRow}

theorem isBetween_iff : isBetween direction (some (token a b)) none row = true ↔
    if direction = .backwards then row.topologicalOrdering < a ∨ row.topologicalOrdering = a ∧ row.streamOrdering ≤ b
    else a < row.topologicalOrdering ∨ a = row.topologicalOrdering ∧ b < row.streamOrdering := by
  unfold isBetween
  rw [filterResults_iff]
  cases direction <;> simp [lowerToken, upperToken, notAfter, isAfter, token, plainToken, Bound.holdsRow]
  all_goals omega

/-- A page of a store that serves every event. -/
theorem call_eq (t : RoomStreamToken) :
    (byDepth { store with served := fun _ => true } roomId direction limit none none).call t =
      page store roomId direction limit t := by
  rw [call_byDepth]
  simp [pageByDepth, page, paginateRoomEventsByTopologicalOrdering, isEmptyRange]
  rfl

/-- **One page**: the beginning of what is left, as long as asked for where there is enough, with a token for the
rest. -/
theorem page_spec (store : StreamStore) (roomId : String) (direction : Direction) (limit : ℕ) (a b : ℤ) :
    ∃ rows rest a' b', page store roomId direction limit (token a b) = some (rows, token a' b') ∧
      eventsByDepth store roomId direction none none (token a b) = rows ++ rest ∧
      eventsByDepth store roomId direction none none (token a' b') = rest ∧
      rows.length = min limit (rows ++ rest).length := by
  let P := byDepth { store with served := fun _ => true } roomId direction limit none none
  have hleft : ∀ t, P.left t = eventsByDepth store roomId direction none none t := left_byDepth
  have hfetched : P.fetched (token a b) = fun row => P.starts (token a b) row && P.inside row := by
    funext row
    have hinside : P.inside row = true := filterResults_iff.mpr (by cases direction <;> simp [lowerToken, upperToken])
    rw [hinside, Bool.and_true]
    refine Bool.eq_iff_iff.mpr (Iff.trans ?_ isBetween_iff.symm)
    show generatePaginationWhereClause store.engine direction (some (some a, b)) none _ = true ↔ _
    cases direction <;> simp [generatePaginationWhereClause, makeGenericSqlBound_some, Bound.holdsRow]
  have hkept : P.kept (token a b) = (P.left (token a b)).take limit := by
    rw [Paging.kept, hfetched, ← Paging.left, List.filter_eq_self.mpr, List.take_take,
      min_eq_left (Nat.le_mul_of_pos_left _ Nat.two_pos)]
    · rfl
    exact fun row hrow => (List.mem_filter.mp (List.mem_of_mem_take hrow)).2
  have hpage : page store roomId direction limit (token a b) =
      some (P.kept (token a b), ((P.kept (token a b)).getLast?.map P.cursor).getD (token a b)) := by
    have hserved : (P.kept (token a b)).filter P.served = P.kept (token a b) := List.filter_eq_self.mpr fun _ _ => rfl
    rw [← call_eq]
    show some ((P.kept (token a b)).filter P.served, _) = _
    rw [hserved]
    rfl
  obtain ⟨rest, hrest⟩ := kept_append lawful_byDepth (token a b)
  have hlength : (P.kept (token a b)).length = min limit (P.kept (token a b) ++ rest).length := by
    rw [← hrest, ← List.length_take, ← hkept]
  cases hlast : (P.kept (token a b)).getLast? with
  | none =>
    -- nothing was kept: the token stays
    rw [hlast] at hpage
    refine ⟨_, rest, a, b, hpage, (hleft _).symm.trans hrest, ?_, hlength⟩
    rw [← hleft, hrest, List.getLast?_eq_none_iff.mp hlast, List.nil_append]
  | some last =>
    rw [hlast] at hpage
    refine ⟨_, rest, _, _, hpage, (hleft _).symm.trans hrest, ?_, hlength⟩
    rw [← hleft]
    -- what comes after the last row is behind the token as well
    refine (left_cursor_eq_iff lawful_byDepth hlast hrest).mpr fun row _ hlt _ => ?_
    have hstarts := isBetween_iff.mp (mem_left.mp (mem_left_of_kept (List.mem_of_getLast? hlast))).2.1
    refine isBetween_iff.mpr ?_
    change topologicalKey direction last < topologicalKey direction row at hlt
    cases direction <;> simp [topologicalKey, Prod.Lex.toLex_lt_toLex] at hlt hstarts ⊢
    all_goals omega

/-- **Paging is complete** from any depth and stream position on. -/
theorem paged_eventsByDepth (hlimit : 0 < limit) (a b : ℤ) : Paged (page store roomId direction limit) (token a b)
    (eventsByDepth store roomId direction none none (token a b)) := by
  induction hn : (eventsByDepth store roomId direction none none (token a b)).length using Nat.strong_induction_on
    generalizing a b with
  | _ n ih =>
    obtain ⟨rows, rest, a', b', hpage, hleft, hrest, hlength⟩ := page_spec store roomId direction limit a b
    rw [hleft, List.length_append] at hn
    rw [hleft, ← hrest]
    rw [List.length_append] at hlength
    by_cases hnil : rows = []
    · rw [hnil, List.length_nil] at hlength
      have hnone : rest = [] := List.eq_nil_of_length_eq_zero (by omega)
      rw [hrest, hnone, hnil]
      exact .done (hnil ▸ hpage)
    · have hpos := List.length_pos_iff.mpr hnil
      exact .more hpage hnil (ih rest.length (by omega) _ _ (congrArg List.length hrest))

theorem key_lt_iff {x y : EventRow} : topologicalKey .forwards x < topologicalKey .forwards y ↔
    x.topologicalOrdering < y.topologicalOrdering ∨
      x.topologicalOrdering = y.topologicalOrdering ∧ x.streamOrdering < y.streamOrdering := by
  simp [topologicalKey, Prod.Lex.toLex_lt_toLex]

theorem sorted_timeline : (timeline store roomId).Pairwise fun x y =>
    topologicalKey .forwards x < topologicalKey .forwards y := pairwise_orderBy nodup_topologicalKey

theorem eventsByDepth_forwards (t : RoomStreamToken) : eventsByDepth store roomId .forwards none none t =
    (timeline store roomId).filter (isBetween .forwards (some t) none) :=
  orderBy_eq_filter nodup_topologicalKey (.refl _)

/-- The order of the other direction is the reverse one. -/
theorem eventsByDepth_backwards (t : RoomStreamToken) : eventsByDepth store roomId .backwards none none t =
    ((timeline store roomId).filter (isBetween .backwards (some t) none)).reverse := by
  rw [eventsByDepth, orderBy_eq_filter nodup_topologicalKey (.refl _), ← List.filter_reverse]
  congr 1
  have hperm : (orderBy (topologicalKey .backwards) (selected store.like none store.tables roomId fun _ => true)).Perm
      (timeline store roomId).reverse :=
    (List.perm_insertionSort _ _).trans ((List.perm_insertionSort _ _).symm.trans (List.reverse_perm _).symm)
  refine hperm.eq_of_pairwise (fun _ _ _ _ hab hba => absurd hba (lt_asymm hab))
    (pairwise_orderBy nodup_topologicalKey) (List.pairwise_reverse.mpr (sorted_timeline.imp fun {x y} hlt => ?_))
  rw [key_lt_iff] at hlt
  simp only [topologicalKey, if_true, Prod.Lex.toLex_lt_toLex]
  omega

/-- The events around an event are made of two pages. -/
theorem getEventsAroundTxn_eq {e : StoredEvent} (he : e ∈ store.tables.events) (hroom : e.roomId = roomId)
    {beforeLimit afterLimit : ℕ} {before after : List EventRow} {startToken endToken : RoomStreamToken}
    (hbefore : page store roomId .backwards beforeLimit (token (e.topologicalOrdering - 1) e.streamOrdering) =
      some (before, startToken))
    (hafter : page store roomId .forwards afterLimit (token e.topologicalOrdering e.streamOrdering) =
      some (after, endToken)) :
    getEventsAroundTxn store roomId e.eventId beforeLimit afterLimit none =
      some ⟨before.map EventRow.eventId, startToken, after.map EventRow.eventId, endToken⟩ := by
  have hfind : store.tables.events.find? (fun e' => e'.eventId = e.eventId && e'.roomId = roomId) = some e := by
    cases hfound : store.tables.events.find? fun e' => e'.eventId = e.eventId && e'.roomId = roomId with
    | none => simpa [hroom] using List.find?_eq_none.mp hfound e he
    | some e' =>
      have hsame := List.find?_some hfound
      rw [Bool.and_eq_true, decide_eq_true_eq] at hsame
      rw [List.inj_on_of_nodup_map store.tables.eventIds (List.mem_of_find?_eq_some hfound) he hsame.1]
  obtain ⟨r, hr, hpair⟩ := Option.map_eq_some_iff.mp hbefore
  obtain ⟨r', hr', hpair'⟩ := Option.map_eq_some_iff.mp hafter
  cases hpair
  cases hpair'
  simp only [getEventsAroundTxn, hfind, hr, hr', Option.bind_eq_bind, Option.bind_some]
  rfl

/-- Rows of the room with the same id are the same. -/
theorem eq_of_eventId {x y : EventRow} (hx : x ∈ timeline store roomId) (hy : y ∈ timeline store roomId)
    (hid : x.eventId = y.eventId) : x = y := by
  obtain ⟨e, he, -, rfl⟩ := mem_selected.mp (mem_orderBy.mp hx)
  obtain ⟨e', he', -, rfl⟩ := mem_selected.mp (mem_orderBy.mp hy)
  rw [List.inj_on_of_nodup_map store.tables.eventIds he he' hid]

/-- **There are no holes exactly under the condition.** -/
theorem noHoles_iff {e : StoredEvent} (he : e ∈ store.tables.events) (hroom : e.roomId = roomId)
    (beforeLimit afterLimit : ℕ) : NoHoles store roomId e beforeLimit afterLimit ↔ Clear store roomId e := by
  obtain ⟨before, rest, a, b, hbefore, hleft, hrest, hlength⟩ := page_spec store roomId .backwards beforeLimit
    (e.topologicalOrdering - 1) e.streamOrdering
  obtain ⟨after, rest', a', b', hafter, hleft', hrest', hlength'⟩ := page_spec store roomId .forwards afterLimit
    e.topologicalOrdering e.streamOrdering
  have haround := getEventsAroundTxn_eq he hroom hbefore hafter
  have hpaged : ∀ m, 0 < m → Paged (page store roomId .backwards m) (token a b) rest := fun m hm =>
    hrest ▸ paged_eventsByDepth hm a b
  have hpaged' : ∀ m, 0 < m → Paged (page store roomId .forwards m) (token a' b') rest' := fun m hm =>
    hrest' ▸ paged_eventsByDepth hm a' b'
  rw [eventsByDepth_backwards] at hleft
  rw [eventsByDepth_forwards] at hleft'
  have hsorted := @sorted_timeline store roomId
  constructor
  · rintro ⟨r, front, before', after', back, hr, hids, -, htimeline, -, -, hrests⟩
    cases haround.symm.trans hr
    have hfront : rest = front.reverse := (hpaged 1 one_pos).unique (hrests 1 one_pos).1
    have hmem : e.row ∈ timeline store roomId := by simp [htimeline]
    refine ⟨hmem, fun x hx => ?_⟩
    -- what comes before the event is on a page
    have hbehind : topologicalKey .forwards x < topologicalKey .forwards e.row → x ∈ before ++ rest := by
      intro hlt
      have hin := htimeline ▸ hx
      rw [htimeline, List.pairwise_append, List.pairwise_cons] at hsorted
      rw [List.mem_append, List.mem_append, List.mem_reverse, List.mem_cons] at hin
      rcases hin with (hin | hin) | rfl | hin
      · exact List.mem_append_right _ (hfront ▸ List.mem_reverse.mpr hin)
      · obtain ⟨y, hy, hid⟩ := List.mem_map.mp (hids ▸ List.mem_map_of_mem hin)
        have hyin := List.mem_reverse.mp (hleft ▸ List.mem_append_left rest hy)
        rw [← eq_of_eventId (List.mem_filter.mp hyin).1 hx hid]
        exact List.mem_append_left rest hy
      · exact absurd hlt (lt_irrefl _)
      · exact absurd hlt (lt_asymm (hsorted.2.1.1 _ hin))
    have hstarts : x ∈ before ++ rest → _ := fun h =>
      isBetween_iff.mp (List.mem_filter.mp (List.mem_reverse.mp (hleft ▸ h))).2
    have horder := fun h => hstarts (hbehind (key_lt_iff.mpr h))
    rw [if_pos rfl] at horder
    simp only [StoredEvent.row] at horder
    omega
  · rintro ⟨hmem, hclear⟩
    obtain ⟨front, back, htimeline⟩ := List.append_of_mem hmem
    rw [htimeline, List.pairwise_append, List.pairwise_cons] at hsorted
    obtain ⟨-, ⟨hback, -⟩, hfront⟩ := hsorted
    -- backwards the condition makes up for the token, forwards the token is right
    have hin : ∀ x ∈ front ++ e.row :: back, isBetween .backwards (some (token (e.topologicalOrdering - 1)
        e.streamOrdering)) none x = true ↔ topologicalKey .forwards x < topologicalKey .forwards e.row := by
      intro x hx
      have hnear := hclear x (htimeline ▸ hx)
      rw [isBetween_iff, if_pos rfl, key_lt_iff]
      simp only [StoredEvent.row]
      omega
    have hout : ∀ x, isBetween .forwards (some (token e.topologicalOrdering e.streamOrdering)) none x = true ↔
        topologicalKey .forwards e.row < topologicalKey .forwards x := by
      intro x
      rw [isBetween_iff, if_neg (by decide), key_lt_iff]
      rfl
    rw [htimeline, List.filter_append, List.filter_eq_self.mpr, List.filter_eq_nil_iff.mpr, List.append_nil] at hleft
    rotate_left
    · intro x hx hbetween
      have hlt := (hin x (List.mem_append_right _ hx)).mp hbetween
      rcases List.mem_cons.mp hx with rfl | hx
      · exact lt_irrefl _ hlt
      · exact lt_asymm hlt (hback x hx)
    · exact fun x hx => (hin x (List.mem_append_left _ hx)).mpr (hfront x hx _ List.mem_cons_self)
    rw [htimeline, List.filter_append, List.filter_eq_nil_iff.mpr, List.nil_append, List.filter_cons_of_neg,
      List.filter_eq_self.mpr] at hleft'
    rotate_left
    · exact fun x hx => (hout x).mpr (hback x hx)
    · exact fun h => lt_irrefl _ ((hout _).mp h)
    · exact fun x hx h => lt_asymm ((hout x).mp h) (hfront x hx _ List.mem_cons_self)
    refine ⟨_, rest.reverse, before, after, rest', haround, rfl, rfl, ?_, ?_, hlength', fun m hm => ?_⟩
    · rw [← List.reverse_append, ← hleft, List.reverse_reverse, ← hleft']
      exact htimeline
    · rw [hlength]
      simp [Nat.add_comm]
    · rw [List.reverse_reverse]
      exact ⟨hpaged m hm, hpaged' m hm⟩

def lateEvent (eventId writer : String) (topologicalOrdering streamOrdering : ℤ) : StoredEvent :=
  ⟨eventId, "!r", "m.room.message", some "@a:x", none, false, some writer, topologicalOrdering, streamOrdering⟩

theorem noHoles_iff_late : NoHoles lateStore "!r" (lateEvent "$a" "w1" 7 12) 1 1 :=
  (noHoles_iff (by decide) rfl 1 1).mpr ⟨by decide +kernel,
    show ∀ x ∈ timeline lateStore "!r", _ from by decide +kernel⟩

/-- What came later and is one less deep is left out. -/
theorem late_has_hole : ¬∀ (store : StreamStore) (roomId : String), ∀ e ∈ store.tables.events, e.roomId = roomId →
    e.outlier = false → ∀ beforeLimit afterLimit, NoHoles store roomId e beforeLimit afterLimit := by
  intro h
  obtain ⟨r, front, before, after, back, hr, hids, -, htimeline, -⟩ :=
    h lateStore "!r" (lateEvent "$c" "w1" 8 11) (by decide) rfl rfl 1 1
  have haround : getEventsAroundTxn lateStore "!r" "$c" 1 1 none = some ⟨["$b"], token 4 14, [], token 8 11⟩ := rfl
  cases haround.symm.trans hr
  have hall := congrArg (List.map EventRow.eventId) htimeline
  rw [List.map_append, List.map_append, List.map_reverse, ← hids] at hall
  change ["$b", "$a", "$c"] = _ ++ ["$b"] ++ "$c" :: _ at hall
  rcases front with _ | ⟨x, _ | ⟨y, _ | ⟨z, front⟩⟩⟩ <;> simp at hall

end Setka.Storage.EventContext
