/-
# Setka.Storage.MissingEvents — the events between two points of a room.

Another server names events that it has and later ones that it was sent, and is given the events between them, a few
at most. They are walked backwards from the later events, and each event is asked for its `prev_events` with a `LIMIT`.
-/
import Setka.Lib.IterOrder
import Setka.Lib.Reach
import Mathlib.Data.String.Basic

namespace Setka.Storage.MissingEvents

open Setka.Lib Relation

/-! ## §1 The walk -/

/-- A row of `event_edges`. -/
structure EdgeRow where
  eventId : String
  prevEventId : String
  isState : Bool

variable (edges : List EdgeRow) (order : IterOrder String) (limit : ℤ)

/-- The rows that the query is about, in the order in which the database comes to them. -/
def prevEventIds (eventId : String) : List String :=
  (edges.filter fun row => row.eventId = eventId && !row.isState).map (·.prevEventId)

/-- The state of the walk: `seen_events`, `event_results` and `new_front`. -/
structure Walk where
  seenEvents : Finset String
  eventResults : List String
  newFront : Finset String

/-- How many rows the next query may return. -/
def Walk.rowLimit (w : Walk) : ℕ := (limit - w.eventResults.length).toNat

/-- One turn of the loop over the front. -/
def visit (w : Walk) (eventId : String) : Walk :=
  let newResults := ((prevEventIds edges eventId).take (w.rowLimit limit)).toFinset \ w.seenEvents
  ⟨w.seenEvents ∪ newResults, w.eventResults ++ order.list newResults, w.newFront ∪ newResults⟩

/-- The `while` loop, for so many turns. -/
def walk : ℕ → Finset String → Finset String → List String → Option (List String)
  | 0, _, _, _ => none
  | turns + 1, front, seenEvents, eventResults =>
    if front ≠ ∅ ∧ eventResults.length < limit then
      let w := (order.list front).foldl (visit edges order limit) ⟨seenEvents, eventResults, ∅⟩
      walk turns w.newFront w.seenEvents w.eventResults
    else some eventResults

/-- `_get_missing_events`. -/
def getMissingEvents (earliestEvents latestEvents : List String) : Option (List String) :=
  let seenEvents := earliestEvents.toFinset
  let front := latestEvents.toFinset \ seenEvents
  (walk edges order limit (limit.toNat + 1) front seenEvents []).map List.reverse

/-! ## §2 The events between -/

/-- A step to a `prev_event` that is not one of the earliest events. -/
def StepsBack (earliestEvents : List String) (eventId prevEventId : String) : Prop :=
  prevEventId ∈ prevEventIds edges eventId ∧ prevEventId ∉ earliestEvents

/-- The events on the ways back from the latest events that do not pass through the earliest ones. -/
def Between (earliestEvents latestEvents : List String) (eventId : String) : Prop :=
  ∃ latest, (latest ∈ latestEvents ∧ latest ∉ earliestEvents) ∧ TransGen (StepsBack edges earliestEvents) latest eventId

/-- What of the answer does not depend on the rows that the queries return. -/
structure Sound (earliestEvents latestEvents : List String) (result : List String) : Prop where
  atMost : (result.length : ℤ) ≤ limit
  nodup : result.Nodup
  notEarliest : ∀ e ∈ result, e ∉ earliestEvents
  between : ∀ e ∈ result, Between edges earliestEvents latestEvents e

/-- **The right answer**: the walk ends with some of the events between, and with all of them if it could have had
more. -/
def AnswersRight (earliestEvents latestEvents : List String) : Prop :=
  ∃ result, getMissingEvents edges order limit earliestEvents latestEvents = some result ∧
    Sound edges limit earliestEvents latestEvents result ∧
    ((result.length : ℤ) < limit → ∀ e, Between edges earliestEvents latestEvents e → e ∈ result)

/-- The `LIMIT` cuts no event off in favour of one that has been seen: all that is cut off has been seen or is returned
as well, or all rows that are returned are new. -/
def HidesNothing (w : Walk) (eventId : String) : Prop :=
  (∀ e ∈ prevEventIds edges eventId, e ∈ w.seenEvents ∨ e ∈ (prevEventIds edges eventId).take (w.rowLimit limit)) ∨
    ((prevEventIds edges eventId).take (w.rowLimit limit)).Nodup ∧
      ∀ e ∈ (prevEventIds edges eventId).take (w.rowLimit limit), e ∉ w.seenEvents

/-- At every turn of the loop over the front. -/
def FrontHidesNothing : List String → Walk → Prop
  | [], _ => True
  | eventId :: rest, w => HidesNothing edges limit w eventId ∧ FrontHidesNothing rest (visit edges order limit w eventId)

/-- At every turn of the `while` loop. -/
def WalkHidesNothing : ℕ → Finset String → Finset String → List String → Prop
  | 0, _, _, _ => True
  | turns + 1, front, seenEvents, eventResults =>
    front ≠ ∅ ∧ eventResults.length < limit →
      FrontHidesNothing edges order limit (order.list front) ⟨seenEvents, eventResults, ∅⟩ ∧
        let w := (order.list front).foldl (visit edges order limit) ⟨seenEvents, eventResults, ∅⟩
        WalkHidesNothing turns w.newFront w.seenEvents w.eventResults

instance (w : Walk) (eventId : String) : Decidable (HidesNothing edges limit w eventId) :=
  inferInstanceAs (Decidable (_ ∨ _ ∧ _))

instance FrontHidesNothing.decidable : (front : List String) → (w : Walk) →
    Decidable (FrontHidesNothing edges order limit front w)
  | [], _ => isTrue trivial
  | eventId :: rest, w =>
    have := FrontHidesNothing.decidable rest (visit edges order limit w eventId)
    inferInstanceAs (Decidable (_ ∧ _))

instance WalkHidesNothing.decidable : (turns : ℕ) → (front seenEvents : Finset String) →
    (eventResults : List String) → Decidable (WalkHidesNothing edges order limit turns front seenEvents eventResults)
  | 0, _, _, _ => isTrue trivial
  | turns + 1, front, seenEvents, eventResults =>
    let w := (order.list front).foldl (visit edges order limit) ⟨seenEvents, eventResults, ∅⟩
    have := WalkHidesNothing.decidable turns w.newFront w.seenEvents w.eventResults
    inferInstanceAs (Decidable (_ → _ ∧ _))

/-- No query of the walk hides an event. -/
def QueriesHideNothing (earliestEvents latestEvents : List String) : Prop :=
  WalkHidesNothing edges order limit (limit.toNat + 1) (latestEvents.toFinset \ earliestEvents.toFinset)
    earliestEvents.toFinset []

/-! ## §3 One query -/

variable {edges order limit} {earliestEvents latestEvents : List String}

/-- Where the walk has come from. -/
def begins (earliestEvents latestEvents : List String) : Set String := {e | e ∈ latestEvents ∧ e ∉ earliestEvents}

/-- What the walk keeps: the events that it has seen are the earliest ones and its results, which are right. -/
structure Inv (edges : List EdgeRow) (limit : ℤ) (earliestEvents latestEvents : List String) (w : Walk) : Prop
    extends Sound edges limit earliestEvents latestEvents w.eventResults where
  seen : ∀ e, e ∈ w.seenEvents ↔ e ∈ earliestEvents ∨ e ∈ w.eventResults
  front : ∀ e ∈ w.newFront, e ∈ w.eventResults

/-- What a query finds. -/
def newResults (edges : List EdgeRow) (limit : ℤ) (w : Walk) (eventId : String) : Finset String :=
  ((prevEventIds edges eventId).take (w.rowLimit limit)).toFinset \ w.seenEvents

variable {w : Walk} {eventId : String}

theorem mem_newResults {e : String} : e ∈ newResults edges limit w eventId ↔
    e ∈ (prevEventIds edges eventId).take (w.rowLimit limit) ∧ e ∉ w.seenEvents := by
  rw [newResults, Finset.mem_sdiff, List.mem_toFinset]

theorem visit_eq : visit edges order limit w eventId =
    ⟨w.seenEvents ∪ newResults edges limit w eventId, w.eventResults ++ order.list (newResults edges limit w eventId),
      w.newFront ∪ newResults edges limit w eventId⟩ := rfl

theorem length_list (order : IterOrder String) (s : Finset String) : (order.list s).length = s.card := by
  rw [← List.toFinset_card_of_nodup (order.nodup_list s), order.toFinset_list]

theorem card_newResults_le (h : (w.eventResults.length : ℤ) ≤ limit) :
    (w.eventResults.length + (newResults edges limit w eventId).card : ℤ) ≤ limit := by
  have hcard : (newResults edges limit w eventId).card ≤ w.rowLimit limit :=
    (Finset.card_le_card Finset.sdiff_subset).trans ((List.toFinset_card_le _).trans (List.length_take_le _ _))
  rw [Walk.rowLimit] at hcard
  omega

/-- Every query finds right events only. -/
theorem Inv.visit (hi : Inv edges limit earliestEvents latestEvents w)
    (hfrom : eventId ∈ begins earliestEvents latestEvents ∨ eventId ∈ w.eventResults) :
    Inv edges limit earliestEvents latestEvents (visit edges order limit w eventId) := by
  have hnew : ∀ e ∈ newResults edges limit w eventId,
      e ∉ w.eventResults ∧ StepsBack edges earliestEvents eventId e := by
    intro e he
    obtain ⟨htake, hnot⟩ := mem_newResults.mp he
    rw [hi.seen, not_or] at hnot
    exact ⟨hnot.2, List.mem_of_mem_take htake, hnot.1⟩
  rw [visit_eq]
  refine ⟨⟨?_, ?_, fun e he => ?_, fun e he => ?_⟩, fun e => ?_, fun e he => ?_⟩
  · rw [List.length_append, length_list]
    exact card_newResults_le hi.atMost
  · refine List.nodup_append.mpr ⟨hi.nodup, order.nodup_list _, fun e he e' he' heq => ?_⟩
    exact (hnew e' ((order.mem_list).mp he')).1 (heq ▸ he)
  · rcases List.mem_append.mp he with he | he
    · exact hi.notEarliest e he
    · exact (hnew e ((order.mem_list).mp he)).2.2
  · rcases List.mem_append.mp he with he | he
    · exact hi.between e he
    · have hstep := (hnew e ((order.mem_list).mp he)).2
      rcases hfrom with hbegins | hresult
      · exact ⟨eventId, hbegins, .single hstep⟩
      · obtain ⟨latest, hlatest, hpath⟩ := hi.between eventId hresult
        exact ⟨latest, hlatest, hpath.tail hstep⟩
  · rw [Finset.mem_union, hi.seen, List.mem_append, order.mem_list, or_assoc]
  · rw [List.mem_append, order.mem_list]
    exact (Finset.mem_union.mp he).imp_left (hi.front e)

/-- The search, as long as it could go on. -/
def Searches (edges : List EdgeRow) (limit : ℤ) (earliestEvents latestEvents : List String) (todo : Set String)
    (results : List String) : Prop :=
  (results.length : ℤ) < limit →
    Found (StepsBack edges earliestEvents) (begins earliestEvents latestEvents) todo {e | e ∈ results}

/-- A query that hides nothing finds all `prev_events`, unless the limit is reached. -/
theorem seen_of_hidesNothing (h : HidesNothing edges limit w eventId)
    (hlength : ((visit edges order limit w eventId).eventResults.length : ℤ) < limit) :
    ∀ e ∈ prevEventIds edges eventId, e ∈ (visit edges order limit w eventId).seenEvents := by
  intro e he
  rw [visit_eq, List.length_append, length_list] at hlength
  rw [visit_eq, Finset.mem_union, mem_newResults]
  rcases h with hall | ⟨hnodup, hunseen⟩
  · have he := hall e he
    tauto
  -- if rows were cut off, the others would fill the limit
  have hnew : newResults edges limit w eventId = ((prevEventIds edges eventId).take (w.rowLimit limit)).toFinset := by
    refine Finset.sdiff_eq_self_of_disjoint (Finset.disjoint_left.mpr fun x hx => hunseen x (List.mem_toFinset.mp hx))
  rw [hnew, List.toFinset_card_of_nodup hnodup, List.length_take] at hlength
  have hle : (prevEventIds edges eventId).length ≤ w.rowLimit limit := by
    rw [Walk.rowLimit] at hlength ⊢
    omega
  rw [List.take_of_length_le hle] at hunseen ⊢
  exact Or.inr ⟨he, hunseen e he⟩

theorem Searches.visit {rest : List String} (hi : Inv edges limit earliestEvents latestEvents w)
    (h : Searches edges limit earliestEvents latestEvents {e | e ∈ eventId :: rest ∨ e ∈ w.newFront} w.eventResults)
    (hhides : HidesNothing edges limit w eventId) :
    Searches edges limit earliestEvents latestEvents
      {e | e ∈ rest ∨ e ∈ (visit edges order limit w eventId).newFront}
      (visit edges order limit w eventId).eventResults := by
  intro hlength
  have hseen := seen_of_hidesNothing hhides hlength
  have hfound := h (by rw [visit_eq, List.length_append] at hlength; push_cast at hlength; omega)
  simp only [visit_eq, Finset.mem_union, mem_newResults, hi.seen, List.mem_append, order.mem_list] at hseen ⊢
  have htake : ∀ e, e ∈ (prevEventIds edges eventId).take (w.rowLimit limit) → e ∈ prevEventIds edges eventId :=
    fun e => List.mem_of_mem_take
  refine hfound.expand (Or.inl List.mem_cons_self) (fun y => ?_) (fun z hz => ?_) (fun y hy => ?_) fun z hz => ?_
  · have hy := hseen y
    simp only [Set.mem_ofPred_eq, StepsBack]
    tauto
  · simp only [Set.mem_ofPred_eq, List.mem_cons] at hz ⊢
    tauto
  · have hy' := hseen y hy.1
    have hnot := hy.2
    simp only [Set.mem_ofPred_eq]
    tauto
  · have hz' := htake z
    simp only [Set.mem_ofPred_eq, StepsBack, List.mem_cons] at hz ⊢
    tauto

/-! ## §4 The loops -/

/-- The loop over the front: what it adds to the results is the new front. -/
theorem foldl_visit_spec {front : List String} {w : Walk} (hi : Inv edges limit earliestEvents latestEvents w)
    (hfront : ∀ e ∈ front, e ∈ begins earliestEvents latestEvents ∨ e ∈ w.eventResults) {before : ℕ}
    (hcount : w.eventResults.length = before + w.newFront.card) :
    Inv edges limit earliestEvents latestEvents (front.foldl (visit edges order limit) w) ∧
      (front.foldl (visit edges order limit) w).eventResults.length =
        before + (front.foldl (visit edges order limit) w).newFront.card ∧
      (Searches edges limit earliestEvents latestEvents {e | e ∈ front ∨ e ∈ w.newFront} w.eventResults →
        FrontHidesNothing edges order limit front w →
        Searches edges limit earliestEvents latestEvents
          {e | e ∈ (front.foldl (visit edges order limit) w).newFront}
          (front.foldl (visit edges order limit) w).eventResults) := by
  induction front generalizing w with
  | nil =>
    refine ⟨hi, hcount, fun h _ => ?_⟩
    simpa using h
  | cons eventId front ih =>
    have hi' : Inv edges limit earliestEvents latestEvents (visit edges order limit w eventId) :=
      hi.visit (hfront eventId List.mem_cons_self)
    have hdisjoint : Disjoint w.newFront (newResults edges limit w eventId) := by
      refine Finset.disjoint_left.mpr fun e he hnew => ?_
      exact (mem_newResults.mp hnew).2 ((hi.seen e).mpr (Or.inr (hi.front e he)))
    have hfront' : ∀ e ∈ front, e ∈ begins earliestEvents latestEvents ∨
        e ∈ (visit edges order limit w eventId).eventResults := by
      intro e he
      rw [visit_eq, List.mem_append]
      exact (hfront e (List.mem_cons_of_mem eventId he)).imp_right Or.inl
    have hcount' : (visit edges order limit w eventId).eventResults.length =
        before + (visit edges order limit w eventId).newFront.card := by
      rw [visit_eq, List.length_append, length_list, Finset.card_union_of_disjoint hdisjoint, hcount, Nat.add_assoc]
    obtain ⟨hinv, hlength, hsearches⟩ := ih hi' hfront' hcount'
    exact ⟨hinv, hlength, fun h hhides => hsearches (h.visit hi hhides.1) hhides.2⟩

/-- The `while` loop ends, with right events, and with all of them if its queries hide nothing. -/
theorem walk_spec {turns : ℕ} {front seenEvents : Finset String} {eventResults : List String}
    (hi : Inv edges limit earliestEvents latestEvents ⟨seenEvents, eventResults, ∅⟩)
    (hfront : ∀ e ∈ front, e ∈ begins earliestEvents latestEvents ∨ e ∈ eventResults)
    (hturns : limit < eventResults.length + turns ∨ (front = ∅ ∧ 0 < turns)) :
    ∃ result, walk edges order limit turns front seenEvents eventResults = some result ∧
      Sound edges limit earliestEvents latestEvents result ∧
      (Searches edges limit earliestEvents latestEvents {e | e ∈ front} eventResults →
        WalkHidesNothing edges order limit turns front seenEvents eventResults →
        (result.length : ℤ) < limit → ∀ e, Between edges earliestEvents latestEvents e → e ∈ result) := by
  induction turns generalizing front seenEvents eventResults with
  | zero =>
    have hle := hi.atMost
    dsimp only at hle
    omega
  | succ turns ih =>
    rw [walk]
    split
    · rename_i hgo
      have hlist : ∀ e ∈ order.list front, e ∈ begins earliestEvents latestEvents ∨ e ∈ eventResults :=
        fun e he => hfront e ((order.mem_list).mp he)
      obtain ⟨hinv, hcount, hsearches⟩ := foldl_visit_spec hi hlist (show eventResults.length =
        eventResults.length + (∅ : Finset String).card from rfl)
      obtain ⟨w, hw⟩ : ∃ w, (order.list front).foldl (visit edges order limit) ⟨seenEvents, eventResults, ∅⟩ = w :=
        ⟨_, rfl⟩
      rw [hw] at hinv hcount hsearches
      have hturns := hturns.resolve_right fun h => hgo.1 h.1
      obtain ⟨result, hresult, hsound, hall⟩ := @ih w.newFront w.seenEvents w.eventResults
        ⟨hinv.toSound, hinv.seen, fun e he => absurd he (Finset.notMem_empty e)⟩ (fun e he => Or.inr (hinv.front e he))
        (by
          rcases Finset.eq_empty_or_nonempty w.newFront with hempty | hnonempty
          · exact Or.inr ⟨hempty, by omega⟩
          · have hpos := hnonempty.card_pos
            exact Or.inl (by omega))
      refine ⟨result, by dsimp only; rw [hw, hresult], hsound, fun hsearch hhides hlength => ?_⟩
      obtain ⟨hfrontHides, hrest⟩ := hhides hgo
      rw [hw] at hrest
      refine hall (hsearches ?_ hfrontHides) hrest hlength
      simpa using hsearch
    · rename_i hstop
      refine ⟨eventResults, rfl, hi.toSound, fun hsearches _ hlength e he => ?_⟩
      have hempty : front = ∅ := by
        by_contra hne
        exact hstop ⟨hne, hlength⟩
      have hfound := hsearches hlength
      have hnone : {e | e ∈ front} = (∅ : Set String) := by simp [hempty]
      rw [hnone] at hfound
      exact (hfound.done e).mpr he

/-! ## §5 The answer -/

theorem inv_start (hlimit : 0 ≤ limit) :
    Inv edges limit earliestEvents latestEvents ⟨earliestEvents.toFinset, [], ∅⟩ where
  atMost := hlimit
  nodup := List.nodup_nil
  notEarliest e he := absurd he List.not_mem_nil
  between e he := absurd he List.not_mem_nil
  seen e := by simp
  front e he := absurd he (Finset.notMem_empty e)

/-- **The answer is right when no query hides an event**, and right as far as it goes in any case. -/
theorem getMissingEvents_right (edges : List EdgeRow) (order : IterOrder String) {limit : ℤ} (hlimit : 0 ≤ limit)
    (earliestEvents latestEvents : List String) :
    (∃ result, getMissingEvents edges order limit earliestEvents latestEvents = some result ∧
      Sound edges limit earliestEvents latestEvents result) ∧
    (QueriesHideNothing edges order limit earliestEvents latestEvents →
      AnswersRight edges order limit earliestEvents latestEvents) := by
  have hmem : ∀ e, e ∈ latestEvents.toFinset \ earliestEvents.toFinset ↔ e ∈ begins earliestEvents latestEvents := by
    intro e
    rw [Finset.mem_sdiff, List.mem_toFinset, List.mem_toFinset]
    rfl
  obtain ⟨found, hfound, hsound, hall⟩ := @walk_spec edges order limit earliestEvents latestEvents (limit.toNat + 1)
    (latestEvents.toFinset \ earliestEvents.toFinset) _ _ (inv_start hlimit) (fun e he => Or.inl ((hmem e).mp he))
    (Or.inl (by rw [List.length_nil]; omega))
  have hresult : getMissingEvents edges order limit earliestEvents latestEvents = some found.reverse := by
    rw [getMissingEvents, hfound]
    rfl
  have hreversed : Sound edges limit earliestEvents latestEvents found.reverse := by
    refine ⟨?_, List.nodup_reverse.mpr hsound.nodup, fun e he => ?_, fun e he => ?_⟩
    · rw [List.length_reverse]
      exact hsound.atMost
    · exact hsound.notEarliest e (List.mem_reverse.mp he)
    · exact hsound.between e (List.mem_reverse.mp he)
  refine ⟨⟨_, hresult, hreversed⟩, fun hhides => ⟨_, hresult, hreversed, fun hlength e he => ?_⟩⟩
  rw [List.length_reverse] at hlength
  refine List.mem_reverse.mpr (hall (fun _ => ?_) hhides hlength e he)
  have hbegins : {e | e ∈ latestEvents.toFinset \ earliestEvents.toFinset} = begins earliestEvents latestEvents :=
    Set.ext hmem
  have hnone : {e : String | e ∈ ([] : List String)} = ∅ := by simp
  rw [hbegins, hnone]
  have hstart := (Found.init (StepsBack edges earliestEvents)).more (begins earliestEvents latestEvents)
  rw [Set.empty_union] at hstart
  exact hstart

/-- The condition of the theorem above holds where there is one `prev_event` to each event. -/
theorem getMissingEvents_right_chain :
    AnswersRight [⟨"$d", "$c", false⟩, ⟨"$c", "$b", false⟩, ⟨"$b", "$a", false⟩] (.sorted String) 5 ["$a"] ["$d"] :=
  (getMissingEvents_right _ _ (by decide) _ _).2 (show WalkHidesNothing _ _ _ _ _ _ _ by decide)

/-- The only row that the `LIMIT` lets through leads to the earliest event, and the event beside it is not found. -/
theorem event_hidden : ¬AnswersRight [⟨"$d", "$a", false⟩, ⟨"$d", "$b", false⟩] (.sorted String) 1 ["$a"] ["$d"] := by
  rintro ⟨result, hresult, -, hall⟩
  obtain rfl : [] = result := Option.some.inj hresult
  have hmem := hall (by decide) "$b" ⟨"$d", by decide, .single ⟨by decide, by decide⟩⟩
  exact absurd hmem List.not_mem_nil

end Setka.Storage.MissingEvents
