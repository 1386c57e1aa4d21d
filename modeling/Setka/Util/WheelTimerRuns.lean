/-
# Setka.Util.WheelTimerRuns — what comes back, and when.

Whatever is inserted comes back within a bucket after its time, never before it, and no more often than it was
inserted: each return is accounted for by an insertion whose time had passed.
-/
import Setka.Util.WheelTimer

namespace Setka.Util

open Setka.Lib

/-- A call on a timer, with the milliseconds that its clock shows. -/
inductive WheelCall (α : Type)
  | insert (now : ℕ) (obj : α) (thenTime : ℤ)
  | fetch (now : ℕ)
  deriving DecidableEq

def WheelCall.now {α : Type} : WheelCall α → ℕ
  | .insert now _ _ => now
  | .fetch now => now

/-- An insertion of an object, and one whose time is before `now`. -/
def WheelCall.inserts {α : Type} [DecidableEq α] (obj : α) : WheelCall α → Bool
  | .insert _ obj' _ => decide (obj' = obj)
  | .fetch _ => false

def WheelCall.insertsBefore {α : Type} [DecidableEq α] (obj : α) (now : ℕ) : WheelCall α → Bool
  | .insert _ obj' thenTime => decide (obj' = obj ∧ thenTime < now)
  | .fetch _ => false

namespace WheelTimer

variable {α : Type} [DecidableEq α] (order : IterOrder α)

/-! ## §1 Runs -/

/-- A call: what it returns, and the timer after it. -/
def step (w : WheelTimer α) : WheelCall α → List α × WheelTimer α
  | .insert now obj thenTime => ([], w.insert now obj thenTime)
  | .fetch now => w.fetch order now

/-- The timer after some calls. -/
def after (w : WheelTimer α) (calls : List (WheelCall α)) : WheelTimer α :=
  calls.foldl (fun w call => (step order w call).2) w

/-- The calls, each with what it returned. -/
def trace : WheelTimer α → List (WheelCall α) → List (WheelCall α × List α)
  | _, [] => []
  | w, call :: calls => (call, (step order w call).1) :: trace (step order w call).2 calls

theorem after_append (w : WheelTimer α) (calls more : List (WheelCall α)) :
    after order w (calls ++ more) = after order (after order w calls) more := List.foldl_append

theorem trace_append (w : WheelTimer α) (calls more : List (WheelCall α)) :
    trace order w (calls ++ more) = trace order w calls ++ trace order (after order w calls) more := by
  induction calls generalizing w with
  | nil => rfl
  | cons call calls ih => rw [List.cons_append, trace, trace, ih, List.cons_append, after, after, List.foldl_cons]

theorem map_fst_trace (w : WheelTimer α) (calls : List (WheelCall α)) :
    (trace order w calls).map Prod.fst = calls := by
  induction calls generalizing w with
  | nil => rfl
  | cons call calls ih => rw [trace, List.map_cons, ih]

theorem length_trace (w : WheelTimer α) (calls : List (WheelCall α)) :
    (trace order w calls).length = calls.length := by
  rw [← List.length_map (f := Prod.fst), map_fst_trace]

variable {w : WheelTimer α} {calls : List (WheelCall α)} {call : WheelCall α} {returned : List α}

/-- A call of a run, what came before it and what comes after. -/
theorem split_trace {i : ℕ} (h : (trace order w calls)[i]? = some (call, returned)) :
    ∃ before rest, calls = before ++ call :: rest ∧ before.length = i ∧
      returned = (step order (after order w before) call).1 ∧
      trace order w calls = trace order w before ++
        (call, returned) :: trace order (step order (after order w before) call).2 rest := by
  have hcall : calls[i]? = some call := by
    rw [← map_fst_trace order w calls, List.getElem?_map, h]
    rfl
  obtain ⟨hlt, hget⟩ := List.getElem?_eq_some_iff.mp hcall
  have hsplit : calls = calls.take i ++ call :: calls.drop (i + 1) := by
    rw [← hget, List.cons_getElem_drop_succ, List.take_append_drop]
  have hlength : (calls.take i).length = i := List.length_take_of_le hlt.le
  have htrace := trace_append order w (calls.take i) (call :: calls.drop (i + 1))
  rw [← hsplit, trace] at htrace
  have hreturned : returned = (step order (after order w (calls.take i)) call).1 := by
    rw [htrace, List.getElem?_append_right (by rw [length_trace, hlength]), length_trace, hlength, Nat.sub_self] at h
    exact (Prod.mk.inj (Option.some.inj h)).2.symm
  exact ⟨calls.take i, calls.drop (i + 1), hsplit, hlength, hreturned, hreturned ▸ htrace⟩

@[simp] theorem timeKey_step (w : WheelTimer α) (call : WheelCall α) (time : ℤ) :
    (step order w call).2.timeKey time = w.timeKey time := by
  cases call with
  | insert now obj thenTime => rfl
  | fetch now => rfl

@[simp] theorem timeKey_after (w : WheelTimer α) (calls : List (WheelCall α)) (time : ℤ) :
    (after order w calls).timeKey time = w.timeKey time := by
  induction calls generalizing w with
  | nil => rfl
  | cons call calls ih => exact (ih _).trans (timeKey_step order w call time)

/-! ## §2 Accounts -/

/-- An insertion of an object whose bucket is over by a key. -/
def addedBy (w : WheelTimer α) (obj : α) (key : ℤ) : WheelCall α → Bool
  | .insert _ obj' thenTime => decide (obj' = obj ∧ w.timeKey thenTime + 1 ≤ key)
  | .fetch _ => false

/-- What was returned and what is held up to a key was inserted with a time before that key. It is so for the present
key and for each later one; what was held under the keys before has been returned. -/
structure Ledger (w : WheelTimer α) (past : List (WheelCall α × List α)) (now : ℕ) : Prop where
  begins : BeginBy w.entries (w.timeKey now + 1)
  counted : ∀ obj key, w.timeKey now ≤ key → (past.flatMap Prod.snd).count obj + heldBy (held w.entries) obj key ≤
      past.countP fun entry => addedBy w obj key entry.1

variable {past : List (WheelCall α × List α)} {now later : ℕ}

theorem Ledger.mono (h : Ledger w past now) (hle : now ≤ later) : Ledger w past later where
  begins first hfirst := by
    have hkey := w.timeKey_mono (show (now : ℤ) ≤ later by omega)
    have hbegins := h.begins first hfirst
    omega
  counted obj key hkey := h.counted obj key ((w.timeKey_mono (by omega)).trans hkey)

theorem Ledger.insert (h : Ledger w past now) (obj : α) (thenTime : ℤ) :
    Ledger (w.insert now obj thenTime) (past ++ [(.insert now obj thenTime, [])]) now := by
  obtain ⟨-, hbegins, added, hthen, -, hheld⟩ :=
    insertEntries_spec w.contiguous (w.timeKey now) (w.timeKey thenTime + 1) obj
  refine ⟨hbegins h.begins, fun obj' key hkey => ?_⟩
  have hcounted := h.counted obj' key hkey
  have hadded := heldBy_insert (held w.entries) (obj, added) obj' key
  rw [List.flatMap_append, List.count_append, List.countP_append]
  show _ + heldBy (held (insertEntries w.entries _ _ obj)) obj' key ≤
    past.countP (fun entry => addedBy w obj' key entry.1) + _
  rw [hheld, List.countP_singleton]
  show _ ≤ _ + if decide (obj = obj' ∧ w.timeKey thenTime + 1 ≤ key) = true then 1 else 0
  -- the bucket is not before that of the time, so where the object counts as held it counts as inserted
  by_cases hcounts : obj = obj' ∧ added ≤ key
  · rw [if_pos hcounts] at hadded
    rw [if_pos (decide_eq_true ⟨hcounts.1, by omega⟩)]
    simp only [List.flatMap_cons, List.flatMap_nil, List.append_nil, List.count_nil]
    omega
  · rw [if_neg hcounts] at hadded
    simp only [List.flatMap_cons, List.flatMap_nil, List.append_nil, List.count_nil]
    omega

theorem Ledger.fetch (h : Ledger w past now) :
    Ledger (w.fetch order now).2 (past ++ [(.fetch now, (w.fetch order now).1)]) now := by
  obtain ⟨-, hbegins, hheld, hcount⟩ := popDue_spec order w.contiguous (w.timeKey now)
  refine ⟨hbegins h.begins, fun obj key hkey => ?_⟩
  replace hkey : w.timeKey now ≤ key := hkey
  have hcounted := h.counted obj key hkey
  have hleft := heldBy_filter (held w.entries) obj hkey
  have hreturned := hcount obj
  rw [List.flatMap_append, List.count_append, List.countP_append, List.flatMap_singleton]
  show _ + (popDue order (w.timeKey now) w.entries).1.count obj +
    heldBy (held (popDue order (w.timeKey now) w.entries).2) obj key ≤
    past.countP (fun entry => addedBy w obj key entry.1) + _
  rw [hheld]
  omega

theorem Ledger.step (h : Ledger w past now) (hle : now ≤ call.now) :
    Ledger (step order w call).2 (past ++ [(call, (step order w call).1)]) call.now := by
  cases call with
  | insert now obj thenTime => exact (h.mono hle).insert obj thenTime
  | fetch now => exact (h.mono hle).fetch order

theorem ledger_run (hstart : w.entries = []) (hsorted : (calls.map WheelCall.now).Pairwise (· ≤ ·))
    (hlater : ∀ call ∈ calls, call.now ≤ later) : Ledger (after order w calls) (trace order w calls) later := by
  induction calls using List.reverseRecOn generalizing later with
  | nil =>
    refine ⟨?_, fun obj key _ => ?_⟩
    · show BeginBy w.entries _
      rw [hstart]
      rintro first ⟨⟩
    show _ + heldBy (held w.entries) obj key ≤ _
    rw [hstart]
    exact Nat.le_refl _
  | append_singleton calls call ih =>
    rw [List.map_append, List.pairwise_append] at hsorted
    obtain ⟨hsorted, -, hbefore⟩ := hsorted
    have hprevious := ih hsorted fun call' hcall' =>
      hbefore _ (List.mem_map_of_mem hcall') call.now (List.mem_singleton_self _)
    rw [after_append, trace_append]
    exact (hprevious.step order (le_refl _)).mono (hlater call (List.mem_append_right _ (List.mem_singleton_self _)))

/-! ## §3 What is held is returned -/

variable {obj : α}

/-- Until a bucket is over, what it holds is held; then it is returned. -/
theorem held_or_returned {key : ℤ} (h : (obj, key) ∈ held w.entries) (calls : List (WheelCall α)) :
    (obj, key) ∈ held (after order w calls).entries ∨
      ∃ (j now : ℕ) (returned : List α),
        (trace order w calls)[j]? = some (WheelCall.fetch now, returned) ∧ key ≤ w.timeKey now ∧
        obj ∈ returned := by
  induction calls generalizing w with
  | nil => exact Or.inl h
  | cons call calls ih =>
    have hnext : (obj, key) ∈ held (step order w call).2.entries ∨
        ∃ now, call = WheelCall.fetch now ∧ key ≤ w.timeKey now ∧ obj ∈ (step order w call).1 := by
      cases call with
      | insert now added thenTime =>
        obtain ⟨-, -, addedKey, -, -, hheld⟩ :=
          insertEntries_spec w.contiguous (w.timeKey now) (w.timeKey thenTime + 1) added
        refine Or.inl ?_
        show _ ∈ held (insertEntries w.entries _ _ added)
        rw [hheld]
        exact Finset.mem_insert_of_mem h
      | fetch now =>
        obtain ⟨-, -, hheld, hcount⟩ := popDue_spec order w.contiguous (w.timeKey now)
        by_cases hdue : key ≤ w.timeKey now
        · refine Or.inr ⟨now, rfl, hdue, ?_⟩
          show obj ∈ (popDue order (w.timeKey now) w.entries).1
          rw [← List.count_pos_iff, hcount]
          exact Finset.card_pos.mpr ⟨(obj, key), Finset.mem_filter.mpr ⟨h, rfl, hdue⟩⟩
        · refine Or.inl ?_
          show _ ∈ held (popDue order (w.timeKey now) w.entries).2
          rw [hheld]
          exact Finset.mem_filter.mpr ⟨h, not_le.mp hdue⟩
    rcases hnext with hheld | ⟨now, rfl, hdue, hreturned⟩
    · rcases ih hheld with hlater | ⟨j, now, returned, hentry, hdue, hreturned⟩
      · exact Or.inl hlater
      · rw [timeKey_step] at hdue
        exact Or.inr ⟨j + 1, now, returned, by rw [trace, List.getElem?_cons_succ, hentry], hdue, hreturned⟩
    · exact Or.inr ⟨0, now, (step order w (WheelCall.fetch now)).1, by rw [trace, List.getElem?_cons_zero], hdue,
        hreturned⟩

/-- What a late enough fetch leaves behind. -/
theorem lt_of_held_after_fetch {p : α × ℤ}
    (h : p ∈ held (step order w (WheelCall.fetch now)).2.entries) : w.timeKey now < p.2 := by
  have hheld := (popDue_spec order w.contiguous (w.timeKey now)).2.2.1
  have hmem : p ∈ held (popDue order (w.timeKey now) w.entries).2 := h
  rw [hheld] at hmem
  exact (Finset.mem_filter.mp hmem).2

/-- What is held under a key is returned by a fetch for which that key is due, if not before. -/
theorem returned_by {key : ℤ} (hheld : (obj, key) ∈ held w.entries) {k : ℕ}
    (hfetch : (trace order w calls)[k]? = some (WheelCall.fetch later, returned))
    (hdue : key ≤ w.timeKey later) : ∃ (j now : ℕ) (returned : List α), j ≤ k ∧
      (trace order w calls)[j]? = some (WheelCall.fetch now, returned) ∧ key ≤ w.timeKey now ∧ obj ∈ returned := by
  obtain ⟨mid, rest, hcalls, hlength, -, -⟩ := split_trace order hfetch
  have hfirst : calls = (mid ++ [WheelCall.fetch later]) ++ rest := by simpa using hcalls
  rcases held_or_returned order hheld (mid ++ [WheelCall.fetch later]) with hafter | ⟨j, now, out, hentry, hkey, hout⟩
  · rw [after_append] at hafter
    have hlt := lt_of_held_after_fetch order hafter
    rw [timeKey_after] at hlt
    exact absurd hdue (not_le.mpr hlt)
  · have hj : j < (mid ++ [WheelCall.fetch later]).length := by
      rw [← length_trace order w]
      exact (List.getElem?_eq_some_iff.mp hentry).1
    refine ⟨j, now, out, ?_, ?_, hkey, hout⟩
    · rw [List.length_append, List.length_singleton] at hj
      omega
    · rw [hfirst, trace_append, List.getElem?_append_left (by rwa [length_trace]), hentry]

/-! ## §4 Every run -/

omit [DecidableEq α] in
theorem before_le {before rest : List (WheelCall α)} (hsorted : (calls.map WheelCall.now).Pairwise (· ≤ ·))
    (hcalls : calls = before ++ call :: rest) :
    (before.map WheelCall.now).Pairwise (· ≤ ·) ∧ ∀ call' ∈ before, call'.now ≤ call.now := by
  rw [hcalls, List.map_append, List.pairwise_append] at hsorted
  exact ⟨hsorted.1, fun call' hcall' =>
    hsorted.2.2 _ (List.mem_map_of_mem hcall') call.now (by rw [List.map_cons]; exact List.mem_cons_self)⟩

/-- What is returned, up to a fetch, was inserted with a time before that fetch. -/
theorem count_le_insertsBefore (hstart : w.entries = []) (hsorted : (calls.map WheelCall.now).Pairwise (· ≤ ·))
    {j : ℕ} (h : (trace order w calls)[j]? = some (WheelCall.fetch now, returned)) (obj : α) :
    (((trace order w calls).take (j + 1)).flatMap Prod.snd).count obj ≤
      ((trace order w calls).take j).countP fun entry => entry.1.insertsBefore obj now := by
  obtain ⟨before, rest, hcalls, hlength, hreturned, htrace⟩ := split_trace order h
  obtain ⟨hbefore, hle⟩ := before_le hsorted hcalls
  replace hle : ∀ call ∈ before, call.now ≤ now := hle
  have hledger := (ledger_run order hstart hbefore hle).fetch order
  have hcounted := hledger.counted obj _ (le_refl _)
  have hlen : (trace order w before).length = j := by rw [length_trace, hlength]
  have htake : (trace order w calls).take j = trace order w before := by
    rw [htrace, ← hlen, List.take_left]
  have htake' : (trace order w calls).take (j + 1) = trace order w before ++ [(WheelCall.fetch now, returned)] := by
    rw [htrace, ← hlen, List.take_length_add_append]
    rfl
  rw [htake, htake', hreturned]
  refine ((Nat.le_add_right _ _).trans hcounted).trans ?_
  rw [List.countP_append]
  have hfetch : [(WheelCall.fetch now, ((after order w before).fetch order now).1)].countP
      (fun entry => addedBy ((after order w before).fetch order now).2 obj
        (((after order w before).fetch order now).2.timeKey now) entry.1) = 0 := rfl
  rw [hfetch, Nat.add_zero]
  apply List.countP_mono_left
  rintro ⟨call, out⟩ - hadded
  cases call with
  | fetch now => cases hadded
  | insert ins obj' thenTime =>
    obtain ⟨hobj, hkey⟩ := of_decide_eq_true hadded
    exact decide_eq_true ⟨hobj, WheelTimer.lt_of_timeKey_lt _ (Int.lt_of_add_one_le hkey)⟩

omit [DecidableEq α] in
theorem exists_later (calls : List (WheelCall α)) : ∃ later, ∀ call ∈ calls, call.now ≤ later := by
  induction calls with
  | nil => exact ⟨0, by simp⟩
  | cons call calls ih =>
    obtain ⟨later, hlater⟩ := ih
    refine ⟨max call.now later, fun call' hcall' => ?_⟩
    rcases List.mem_cons.mp hcall' with rfl | hmem
    · exact Nat.le_max_left _ _
    · exact (hlater call' hmem).trans (Nat.le_max_right _ _)

/-- No object is returned more often than it was inserted. -/
theorem count_le_inserts (hstart : w.entries = []) (hsorted : (calls.map WheelCall.now).Pairwise (· ≤ ·))
    (obj : α) : ((trace order w calls).flatMap Prod.snd).count obj ≤
      (trace order w calls).countP fun entry => entry.1.inserts obj := by
  obtain ⟨later, hlater⟩ := exists_later calls
  have hcounted := (ledger_run order hstart hsorted hlater).counted obj _ (le_refl _)
  refine ((Nat.le_add_right _ _).trans hcounted).trans (List.countP_mono_left ?_)
  rintro ⟨call, out⟩ - hadded
  cases call with
  | fetch now => cases hadded
  | insert ins obj' thenTime => exact decide_eq_true (of_decide_eq_true hadded).1

/-- An object is returned by the first fetch that is a bucket's time after its time and its insertion, if not by one
before. -/
theorem returned_by_late_fetch (hstart : w.entries = []) (hsorted : (calls.map WheelCall.now).Pairwise (· ≤ ·))
    {i k ins : ℕ} {thenTime : ℤ} {out : List α}
    (hinsert : (trace order w calls)[i]? = some (WheelCall.insert ins obj thenTime, out)) (hik : i < k)
    (hfetch : (trace order w calls)[k]? = some (WheelCall.fetch later, returned))
    (hlate : max thenTime ins + w.bucketSize ≤ later) : ∃ (j now : ℕ) (returned : List α), i < j ∧ j ≤ k ∧
      (trace order w calls)[j]? = some (WheelCall.fetch now, returned) ∧ thenTime < now ∧ obj ∈ returned := by
  obtain ⟨before, rest, hcalls, hlength, -, htrace⟩ := split_trace order hinsert
  obtain ⟨hbefore, hle⟩ := before_le hsorted hcalls
  have hbegins := (ledger_run order hstart hbefore hle).begins
  obtain ⟨-, -, key, hthen, hbound, hheld⟩ := insertEntries_spec (after order w before).contiguous
    ((after order w before).timeKey ins) ((after order w before).timeKey thenTime + 1) obj
  replace hbound := hbound hbegins
  rw [timeKey_after] at hthen
  rw [timeKey_after, timeKey_after] at hbound
  have hmem : (obj, key) ∈ held (step order (after order w before) (WheelCall.insert ins obj thenTime)).2.entries := by
    show _ ∈ held (insertEntries (after order w before).entries _ _ obj)
    rw [hheld]
    exact Finset.mem_insert_self _ _
  have hlen : (trace order w before).length = i := by rw [length_trace, hlength]
  obtain ⟨d, rfl⟩ := Nat.exists_eq_add_of_lt hik
  -- where an entry of the run after the insertion stands in the whole run
  have hshift : ∀ j, (trace order w calls)[i + 1 + j]? =
      (trace order (step order (after order w before) (WheelCall.insert ins obj thenTime)).2 rest)[j]? := by
    intro j
    rw [htrace, List.getElem?_append_right (by omega), hlen, show i + 1 + j - i = j + 1 by omega,
      List.getElem?_cons_succ]
  have hkey := w.timeKey_add_one_le hlate
  have hrest := hfetch
  rw [show i + d + 1 = i + 1 + d by omega, hshift] at hrest
  obtain ⟨j, now, out', hj, hentry, hdue, hreturned⟩ := returned_by order hmem hrest (by
    rw [timeKey_step, timeKey_after]
    omega)
  rw [timeKey_step, timeKey_after] at hdue
  refine ⟨i + 1 + j, now, out', by omega, by omega, (hshift j).trans hentry, ?_, hreturned⟩
  exact w.lt_of_timeKey_lt (by omega)

theorem inserted_before (hstart : w.entries = []) (hsorted : (calls.map WheelCall.now).Pairwise (· ≤ ·)) {j : ℕ}
    (h : (trace order w calls)[j]? = some (WheelCall.fetch now, returned)) (hobj : obj ∈ returned) :
    ∃ (i ins : ℕ) (thenTime : ℤ) (out : List α), i < j ∧
      (trace order w calls)[i]? = some (WheelCall.insert ins obj thenTime, out) ∧ thenTime < now := by
  have hlast : ((trace order w calls).take (j + 1))[j]? = some (WheelCall.fetch now, returned) := by
    rw [List.getElem?_take_of_lt (Nat.lt_succ_self j), h]
  have hmem : obj ∈ ((trace order w calls).take (j + 1)).flatMap Prod.snd :=
    List.mem_flatMap.mpr ⟨_, List.mem_of_getElem? hlast, hobj⟩
  have hpos := (List.count_pos_iff.mpr hmem).trans_le (count_le_insertsBefore order hstart hsorted h obj)
  obtain ⟨⟨call, out⟩, hentry, hdue⟩ := List.countP_pos_iff.mp hpos
  obtain ⟨i, hi⟩ := List.getElem?_of_mem hentry
  have hij : i < j := by
    have hlt := (List.getElem?_eq_some_iff.mp hi).1
    rw [List.length_take] at hlt
    omega
  rw [List.getElem?_take_of_lt hij] at hi
  cases call with
  | fetch now => cases hdue
  | insert ins obj' thenTime =>
    obtain ⟨rfl, hbefore⟩ := of_decide_eq_true hdue
    exact ⟨i, ins, thenTime, out, hij, hi, hbefore⟩

/-- **Every run** of a timer, with a clock that does not go back. -/
theorem wheelTimer_run {w : WheelTimer α} (hstart : w.entries = []) {calls : List (WheelCall α)}
    (hsorted : (calls.map WheelCall.now).Pairwise (· ≤ ·)) :
    -- what is inserted is returned after its time, by a fetch that is late enough if not by one before
    (∀ (i ins : ℕ) (obj : α) (thenTime : ℤ) (out : List α),
        (trace order w calls)[i]? = some (WheelCall.insert ins obj thenTime, out) →
      ∀ (k later : ℕ) (returned : List α), i < k →
        (trace order w calls)[k]? = some (WheelCall.fetch later, returned) → max thenTime ins + w.bucketSize ≤ later →
      ∃ (j now : ℕ) (returned : List α), i < j ∧ j ≤ k ∧
        (trace order w calls)[j]? = some (WheelCall.fetch now, returned) ∧ thenTime < now ∧ obj ∈ returned) ∧
    -- each return, up to a fetch, is accounted for by an insertion whose time was before that fetch
    (∀ (j now : ℕ) (returned : List α), (trace order w calls)[j]? = some (WheelCall.fetch now, returned) → ∀ obj,
      (((trace order w calls).take (j + 1)).flatMap Prod.snd).count obj ≤
        ((trace order w calls).take j).countP fun entry => entry.1.insertsBefore obj now) ∧
    -- so what is returned was due, and not returned more often than it was inserted
    (∀ (j now : ℕ) (returned : List α), (trace order w calls)[j]? = some (WheelCall.fetch now, returned) →
      ∀ obj ∈ returned, ∃ (i ins : ℕ) (thenTime : ℤ) (out : List α), i < j ∧
        (trace order w calls)[i]? = some (WheelCall.insert ins obj thenTime, out) ∧ thenTime < now) ∧
    ∀ obj, ((trace order w calls).flatMap Prod.snd).count obj ≤
      (trace order w calls).countP fun entry => entry.1.inserts obj := by
  refine ⟨fun i ins obj thenTime out hinsert k later returned hik hfetch hlate => ?_,
    fun j now returned h obj => ?_, fun j now returned h obj hobj => ?_, fun obj => ?_⟩
  · exact returned_by_late_fetch order hstart hsorted hinsert hik hfetch hlate
  · exact count_le_insertsBefore order hstart hsorted h obj
  · exact inserted_before order hstart hsorted h hobj
  · exact count_le_inserts order hstart hsorted obj

/-- One object, inserted twice; both fetches return it. -/
def exampleCalls : List (WheelCall ℕ) := [.insert 3 7 5, .insert 4 7 25, .fetch 12, .fetch 40]

theorem wheelTimer_run_example : ∃ (j now : ℕ) (returned : List ℕ), 1 < j ∧ j ≤ 3 ∧
      (trace (IterOrder.sorted ℕ) (new ℕ 10 (by decide)) exampleCalls)[j]? = some (WheelCall.fetch now, returned) ∧
        (25 : ℤ) < now ∧ 7 ∈ returned :=
  (wheelTimer_run (IterOrder.sorted ℕ) rfl (by decide)).1 1 4 7 25 [] rfl 3 40 [7] (by decide) (by decide +kernel)
    (by decide)

end WheelTimer

end Setka.Util
