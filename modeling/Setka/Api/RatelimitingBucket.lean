/-
# Setka.Api.RatelimitingBucket — a rate limiter is a leaky bucket for each key.

Of the bucket of a key only the time matters at which it will be empty: what the limiter answers is a function of that
time, and removing an empty bucket does not change it. So what is admitted is bounded as for any leaky bucket.
-/
import Mathlib.Tactic.FieldSimp
import Mathlib.Tactic.Ring
import Setka.Api.Ratelimiting
import Setka.Lib.LeakyBucket

namespace Setka.Api.Ratelimiting

open Setka.Lib Setka.Lib.LeakyBucket Setka.Util

variable {κ : Type} [DecidableEq κ]

/-! ## §1 The requests of one key -/

/-- The time of a call. -/
def LimiterCall.time : LimiterCall κ → ℚ
  | .canDoAction q => q.timeNow
  | .recordAction _ _ _ timeNow => timeNow
  | .pruneMessageCounts timeNow => timeNow

/-- Whether a call is not a pruning. -/
def LimiterCall.isAction : LimiterCall κ → Bool
  | .pruneMessageCounts _ => false
  | _ => true

/-- The request that a call makes for a key. -/
def LimiterCall.requestFor (key : κ) : LimiterCall κ → Option (Request κ)
  | .canDoAction q =>
    match getKey q.requester q.key with
    | .ok name => if name = key then some q else none
    | .error _ => none
  | _ => none

/-- A call that leaves a key to its requests, all of which are limited by the same rate and burst, are recorded, and
ask for one action at least. -/
def LimiterCall.Steady (cfg : RatelimitSettings) (key : κ) (rate : ℚ) (burst : ℤ) : LimiterCall κ → Prop
  | .canDoAction q =>
    getKey q.requester q.key = .ok key →
      q.requester.any Requester.exempt = false ∧ q.settings cfg = ⟨rate, burst⟩ ∧ q.update = true ∧ 1 ≤ q.nActions
  | .recordAction requester name _ _ => getKey requester name ≠ .ok key
  | .pruneMessageCounts _ => True

variable {key : κ}

theorem requestFor_eq_some {call : LimiterCall κ} {q : Request κ} :
    call.requestFor key = some q ↔ call = .canDoAction q ∧ getKey q.requester q.key = .ok key := by
  cases call with
  | canDoAction q' =>
    rw [LimiterCall.requestFor]
    split
    · next name hname =>
        constructor
        · intro h
          split at h
          · next hkey =>
              cases h
              exact ⟨rfl, hkey ▸ hname⟩
          · cases h
        · rintro ⟨hq, hkey⟩
          cases hq
          rw [hname] at hkey
          cases hkey
          exact if_pos rfl
    · next e he =>
        constructor
        · rintro ⟨⟩
        rintro ⟨hq, hkey⟩
        cases hq
        cases he.symm.trans hkey
  | recordAction requester name nActions timeNow =>
    constructor
    · rintro ⟨⟩
    · rintro ⟨⟨⟩, -⟩
  | pruneMessageCounts timeNow =>
    constructor
    · rintro ⟨⟩
    · rintro ⟨⟨⟩, -⟩

/-! ## §2 A bucket under its rate -/

/-- When a bucket is empty that leaks with a rate. -/
def Bucket.emptyAt (rate : ℚ) (bucket : Bucket) : ℚ := bucket.timeStart + bucket.actionCount / rate

variable {rate : ℚ}

theorem Bucket.actionCount_sub (hrate : 0 < rate) (bucket : Bucket) (now : ℚ) :
    bucket.actionCount - (now - bucket.timeStart) * rate = (bucket.emptyAt rate - now) * rate := by
  rw [Bucket.emptyAt]
  field_simp
  ring

theorem Bucket.actionCount_sub_neg_iff (hrate : 0 < rate) (bucket : Bucket) (now : ℚ) :
    bucket.actionCount - (now - bucket.timeStart) * rate < 0 ↔ bucket.emptyAt rate < now := by
  rw [bucket.actionCount_sub hrate, ← zero_mul rate, mul_lt_mul_iff_left₀ hrate, sub_neg]

/-- What is in a bucket. -/
theorem performed_fst (hrate : 0 < rate) (now : ℚ) (bucket : Bucket) :
    (performed rate now bucket).1 = level rate (bucket.emptyAt rate) now := by
  have hempty := bucket.actionCount_sub_neg_iff hrate now
  rw [performed, level]
  split
  · next hneg => rw [max_eq_right (hempty.mp hneg).le, sub_self, zero_mul]
  next hpos =>
    rw [max_eq_left (not_lt.mp fun h => hpos (hempty.mpr h))]
    exact bucket.actionCount_sub hrate now

/-- Beginning an empty bucket anew does not change when it is empty. -/
theorem emptyAt_performed (hrate : 0 < rate) (now : ℚ) (bucket : Bucket) :
    (performed rate now bucket).2.emptyAt rate = max (bucket.emptyAt rate) now := by
  have hempty := bucket.actionCount_sub_neg_iff hrate now
  rw [performed]
  split
  · next hneg =>
      rw [max_eq_right (hempty.mp hneg).le, Bucket.emptyAt]
      simp
  next hpos =>
    rw [max_eq_left (not_lt.mp fun h => hpos (hempty.mpr h))]
    rfl

theorem Bucket.emptyAt_add (rate : ℚ) (bucket : Bucket) (nActions : ℤ) :
    ({ bucket with actionCount := bucket.actionCount + nActions } : Bucket).emptyAt rate =
      bucket.emptyAt rate + nActions / rate := by
  rw [Bucket.emptyAt, Bucket.emptyAt]
  push_cast
  ring

/-- The time when there is room for one action is reckoned from when the bucket is empty. -/
theorem timeAllowed_eq (hrate : 0 < rate) (burst : ℤ) (now : ℚ) (bucket : Bucket) :
    timeAllowed ⟨rate, burst⟩ now bucket = .ok (max (bucket.emptyAt rate - (burst - 1) / rate) now) := by
  have htime : bucket.timeStart + (bucket.actionCount - burst + 1) / rate =
      bucket.emptyAt rate - (burst - 1) / rate := by
    rw [Bucket.emptyAt]
    ring
  rw [Ratelimiter.timeAllowed_ok, if_pos hrate, htime]

/-! ## §3 What the limiter answers -/

/-- Whether there is room for a request in a bucket that is empty at a time. -/
def admits (rate : ℚ) (burst : ℤ) (empty : ℚ) (q : Request κ) : Bool :=
  level rate empty q.timeNow ≤ burst - q.nActions

/-- When the bucket is empty after the request. -/
def refill (rate : ℚ) (burst : ℤ) (empty : ℚ) (q : Request κ) : ℚ :=
  if admits rate burst empty q then fill rate empty q.timeNow q.nActions else empty

/-- What a request is answered. -/
def answerOf (rate : ℚ) (burst : ℤ) (empty : ℚ) (q : Request κ) : Bool × ℚ :=
  let added : ℤ := if admits rate burst empty q then q.nActions else 0
  (admits rate burst empty q, max (fill rate empty q.timeNow added - (burst - 1) / rate) q.timeNow)

namespace Ratelimiter

/-- What is kept for a key leaks with the rate, and is empty at a time, which matters only if it is still to come. -/
def EmptyAt (l : Ratelimiter κ) (key : κ) (rate empty now : ℚ) : Prop :=
  match l.actions.get? key with
  | none => empty ≤ now
  | some bucket => bucket.rateHz = rate ∧ max (bucket.emptyAt rate) now = max empty now

theorem emptyAt_new (key : κ) (rate now : ℚ) : (new κ).EmptyAt key rate now now := by
  show now ≤ now
  exact le_rfl

variable {l : Ratelimiter κ} {key : κ} {rate empty now : ℚ}

theorem emptyAt_of_none (hget : l.actions.get? key = none) (h : empty ≤ now) : l.EmptyAt key rate empty now := by
  rw [EmptyAt, hget]
  exact h

theorem EmptyAt.congr {l' : Ratelimiter κ} (h : l.EmptyAt key rate empty now)
    (hget : l'.actions.get? key = l.actions.get? key) : l'.EmptyAt key rate empty now := by
  rw [EmptyAt, hget]
  exact h

theorem EmptyAt.later {later : ℚ} (h : l.EmptyAt key rate empty now)
    (hle : now ≤ later) : l.EmptyAt key rate empty later := by
  rw [EmptyAt] at h ⊢
  split at h
  · exact h.trans hle
  obtain ⟨hrate, hempty⟩ := h
  refine ⟨hrate, ?_⟩
  rw [← max_eq_right hle, ← max_assoc, hempty, max_assoc]

/-- A bucket that is not kept is empty now. -/
theorem EmptyAt.getActionCounts (h : l.EmptyAt key rate empty now) (cfg : RatelimitSettings) :
    max ((l.getActionCounts cfg key now).emptyAt rate) now = max empty now := by
  rw [EmptyAt] at h
  rw [Ratelimiter.getActionCounts, Dict.getD]
  split at h
  · next hget =>
      rw [hget, max_eq_right h]
      simp [Bucket.emptyAt]
  next bucket hget =>
    rw [hget]
    exact h.2

/-- A bucket that is recorded is kept, or is empty already. -/
theorem emptyAt_recordActionInner (l : Ratelimiter κ) (key : κ) (now : ℚ) {bucket : Bucket} (hrate : rate ≠ 0)
    (hbucket : bucket.rateHz = rate) :
    ∃ l', l.recordActionInner key bucket now = .ok l' ∧ l'.EmptyAt key rate (bucket.emptyAt rate) now := by
  rw [recordActionInner_of_ne (hbucket.trans_ne hrate)]
  refine ⟨_, rfl, ?_⟩
  rw [hbucket]
  split
  · next hdone =>
      rw [EmptyAt, Dict.get?_erase, if_pos rfl]
      exact hdone
  · rw [EmptyAt, Dict.get?_set, if_pos rfl]
    exact ⟨hbucket, rfl⟩

variable {cfg : RatelimitSettings} {burst : ℤ}

/-- **A request.** It is answered from when the bucket is empty, and fills it if there is room. -/
theorem EmptyAt.checkAction {q : Request κ} (h : l.EmptyAt key rate empty q.timeNow) (hrate : 0 < rate)
    (hsettings : q.settings cfg = ⟨rate, burst⟩) (hupdate : q.update = true) :
    ∃ l', l.checkAction cfg q key = .ok (answerOf rate burst empty q, l') ∧
      l'.EmptyAt key rate (refill rate burst empty q) q.timeNow := by
  have hlevel := performed_fst hrate q.timeNow (l.getActionCounts cfg key q.timeNow)
  have hempty := emptyAt_performed hrate q.timeNow (l.getActionCounts cfg key q.timeNow)
  have hleaks := performed_rateHz rate q.timeNow (l.getActionCounts cfg key q.timeNow)
  rw [level, h.getActionCounts cfg] at hlevel
  rw [h.getActionCounts cfg] at hempty
  rw [Ratelimiter.checkAction, hsettings, hupdate]
  generalize performed rate q.timeNow (l.getActionCounts cfg key q.timeNow) = found at *
  obtain ⟨performedCount, bucket⟩ := found
  dsimp only at hlevel hempty hleaks ⊢
  have hadmits : admits rate burst empty q = decide (performedCount ≤ burst - q.nActions) := by
    rw [admits, level, hlevel]
  split
  · next hfull =>
      have hdenied : admits rate burst empty q = false := by
        rw [hadmits, decide_eq_false (not_le.mpr hfull)]
      have hfill : fill rate empty q.timeNow (0 : ℤ) = max empty q.timeNow := by simp [fill]
      rw [timeAllowed_eq hrate, hempty]
      simp only [answerOf, refill, hdenied, Bool.false_eq_true, if_false, hfill]
      exact ⟨l, rfl, h⟩
  next hroom =>
    have hadmitted : admits rate burst empty q = true := by
      rw [hadmits, decide_eq_true (not_lt.mp hroom)]
    obtain ⟨l', hrecord, hafter⟩ := emptyAt_recordActionInner l key q.timeNow hrate.ne'
      (show ({ bucket with actionCount := bucket.actionCount + q.nActions } : Bucket).rateHz = rate from hleaks)
    rw [bucket.emptyAt_add, hempty] at hafter
    rw [if_pos rfl, hrecord, timeAllowed_eq hrate, bucket.emptyAt_add, hempty]
    simp only [answerOf, refill, hadmitted, if_true]
    exact ⟨l', rfl, hafter⟩

/-! ## §4 Calls -/

/-- **A request for the key.** -/
theorem EmptyAt.step_request {call : LimiterCall κ} {q : Request κ} (h : l.EmptyAt key rate empty now)
    (order : IterOrder κ) (hrate : 0 < rate) (hle : now ≤ call.time) (hsteady : call.Steady cfg key rate burst)
    (hrequest : call.requestFor key = some q) :
    (l.step cfg order call).1 = .ok (some (answerOf rate burst empty q)) ∧
      (l.step cfg order call).2.EmptyAt key rate (refill rate burst empty q) call.time := by
  obtain ⟨rfl, hkey⟩ := requestFor_eq_some.mp hrequest
  obtain ⟨hlimited, hsettings, hupdate, -⟩ := hsteady hkey
  obtain ⟨l', hcheck, hafter⟩ := (h.later hle).checkAction hrate hsettings hupdate
  have hcan : l.canDoAction cfg q = .ok (answerOf rate burst empty q, l') := by
    rw [Ratelimiter.canDoAction, hkey, except_ok_bind, hlimited]
    exact hcheck
  rw [Ratelimiter.step, hcan]
  exact ⟨rfl, hafter⟩

/-- **Another call.** Pruning only takes away what is empty, and the calls for other keys write other buckets. -/
theorem EmptyAt.step_other {call : LimiterCall κ} (h : l.EmptyAt key rate empty now) (order : IterOrder κ)
    (hrate : 0 < rate) (hle : now ≤ call.time) (hsteady : call.Steady cfg key rate burst)
    (hrequest : call.requestFor key = none) : (l.step cfg order call).2.EmptyAt key rate empty call.time := by
  have hlater := h.later hle
  cases call with
  | canDoAction q =>
    have hother : getKey q.requester q.key ≠ .ok key := by
      intro hkey
      have hsome : (LimiterCall.canDoAction q).requestFor key = some q := requestFor_eq_some.mpr ⟨rfl, hkey⟩
      cases hrequest.symm.trans hsome
    rw [Ratelimiter.step]
    split
    · next answer l' hok =>
        rcases canDoAction_state hok with rfl | ⟨name, bucket, hname, hrecord⟩
        · exact hlater
        have hne : key ≠ name := by
          rintro rfl
          exact hother hname
        exact hlater.congr (get?_recordActionInner_of_ne hrecord hne)
    · exact hlater
  | recordAction requester key' nActions timeNow =>
    rw [Ratelimiter.step]
    split
    · next l' hok =>
        obtain ⟨name, hname, hrecord⟩ := except_bind_eq_ok.mp hok
        have hne : key ≠ name := by
          rintro rfl
          exact hsteady hname
        exact hlater.congr (get?_recordActionInner_of_ne hrecord hne)
    · exact hlater
  | pruneMessageCounts timeNow =>
    rcases get?_foldl_pruneKey timeNow (l.timer.fetch order (milliseconds timeNow)).1 l.actions key with
      hsame | ⟨hnone, bucket, hget, hempty⟩
    · exact hlater.congr hsame
    rw [EmptyAt, hget] at hlater
    obtain ⟨hleaks, hmax⟩ := hlater
    have hdone : bucket.emptyAt rate ≤ timeNow := by
      rw [hleaks, bucket.actionCount_sub hrate] at hempty
      exact sub_nonpos.mp (nonpos_of_mul_nonpos_left hempty hrate)
    have hempty : empty ≤ timeNow := max_eq_right_iff.mp (hmax.symm.trans (max_eq_right hdone))
    exact emptyAt_of_none hnone hempty

/-! ## §5 Histories -/

/-- The calls of a history with what they returned. -/
def trace (cfg : RatelimitSettings) (order : IterOrder κ) :
    Ratelimiter κ → List (LimiterCall κ) → List (LimiterCall κ × Answer)
  | _, [] => []
  | l, call :: rest => (call, (l.step cfg order call).1) :: trace cfg order (l.step cfg order call).2 rest

end Ratelimiter

/-- When the bucket is empty after a call. -/
def LimiterCall.emptyAfter (key : κ) (rate : ℚ) (burst : ℤ) (empty : ℚ) (call : LimiterCall κ) : ℚ :=
  match call.requestFor key with
  | some q => refill rate burst empty q
  | none => empty

/-- The requests for a key with what a bucket answers them that is empty at a time. -/
def decisions (key : κ) (rate : ℚ) (burst : ℤ) : ℚ → List (LimiterCall κ) → List (LimiterCall κ × Answer)
  | _, [] => []
  | empty, call :: rest =>
    match call.requestFor key with
    | some q =>
      (call, .ok (some (answerOf rate burst empty q))) :: decisions key rate burst (refill rate burst empty q) rest
    | none => decisions key rate burst empty rest

/-- The number of actions that an answer permits for a key, if the request is made from one time to another. -/
def permittedBy (key : κ) (first last : ℚ) (answer : LimiterCall κ × Answer) : ℤ :=
  match answer.1.requestFor key, answer.2 with
  | some q, .ok (some (true, _)) => if first ≤ q.timeNow ∧ q.timeNow ≤ last then q.nActions else 0
  | _, _ => 0

/-- The number of actions that were permitted for a key from one time to another. -/
def permitted (key : κ) (first last : ℚ) (answers : List (LimiterCall κ × Answer)) : ℤ :=
  (answers.map (permittedBy key first last)).sum

/-- The times and numbers of actions of the requests for a key. -/
def amounts (key : κ) (calls : List (LimiterCall κ)) : List (ℚ × ℚ) :=
  (calls.filterMap (LimiterCall.requestFor key)).map fun q => (q.timeNow, (q.nActions : ℚ))

namespace Ratelimiter

variable {l : Ratelimiter κ} {cfg : RatelimitSettings} {key : κ} {rate empty now : ℚ} {burst : ℤ}

theorem EmptyAt.step {call : LimiterCall κ} (h : l.EmptyAt key rate empty now) (order : IterOrder κ)
    (hrate : 0 < rate) (hle : now ≤ call.time) (hsteady : call.Steady cfg key rate burst) :
    (l.step cfg order call).2.EmptyAt key rate (call.emptyAfter key rate burst empty) call.time := by
  rw [LimiterCall.emptyAfter]
  cases hrequest : call.requestFor key with
  | some q => exact (h.step_request order hrate hle hsteady hrequest).2
  | none => exact h.step_other order hrate hle hsteady hrequest

/-- The bucket of a key after a history. -/
theorem EmptyAt.after (order : IterOrder κ) (hrate : 0 < rate) (calls : List (LimiterCall κ)) (later : ℚ)
    (hsteady : ∀ call ∈ calls, call.Steady cfg key rate burst) (h : l.EmptyAt key rate empty now)
    (hsorted : (now :: calls.map LimiterCall.time ++ [later]).Pairwise (· ≤ ·)) :
    (l.after cfg order calls).EmptyAt key rate (calls.foldl (LimiterCall.emptyAfter key rate burst) empty) later := by
  induction calls generalizing l empty now with
  | nil => exact h.later (by simpa using hsorted)
  | cons call calls ih =>
    rw [List.map_cons, List.cons_append, List.pairwise_cons] at hsorted
    have hle : now ≤ call.time := hsorted.1 call.time (by simp)
    exact ih (fun c hc => hsteady c (List.mem_cons_of_mem _ hc))
      (h.step order hrate hle (hsteady call List.mem_cons_self)) hsorted.2

/-- **What a key is answered.** It does not depend on the other calls. -/
theorem EmptyAt.trace (order : IterOrder κ) (hrate : 0 < rate) {calls : List (LimiterCall κ)}
    (hsteady : ∀ call ∈ calls, call.Steady cfg key rate burst) (h : l.EmptyAt key rate empty now)
    (hsorted : (now :: calls.map LimiterCall.time).Pairwise (· ≤ ·)) :
    (l.trace cfg order calls).filter (fun answer => (answer.1.requestFor key).isSome) =
      decisions key rate burst empty calls := by
  induction calls generalizing l empty now with
  | nil => rfl
  | cons call calls ih =>
    rw [List.map_cons, List.pairwise_cons] at hsorted
    have hle : now ≤ call.time := hsorted.1 call.time List.mem_cons_self
    have hcall := hsteady call List.mem_cons_self
    have hrest := fun c hc => hsteady c (List.mem_cons_of_mem _ hc)
    rw [Ratelimiter.trace, List.filter_cons, decisions]
    cases hrequest : call.requestFor key with
    | some q =>
      obtain ⟨hanswer, hafter⟩ := h.step_request order hrate hle hcall hrequest
      rw [if_pos (by simp), ih hrest hafter hsorted.2, hanswer]
    | none =>
      have hafter := h.step_other order hrate hle hcall hrequest
      rw [if_neg (by simp), ih hrest hafter hsorted.2]

end Ratelimiter

theorem permitted_cons (key : κ) (first last : ℚ) (answer : LimiterCall κ × Answer)
    (answers : List (LimiterCall κ × Answer)) :
    permitted key first last (answer :: answers) =
      permittedBy key first last answer + permitted key first last answers := by
  rw [permitted, List.map_cons, List.sum_cons, permitted]

theorem permitted_filter (key : κ) (first last : ℚ) (answers : List (LimiterCall κ × Answer)) :
    permitted key first last (answers.filter fun answer => (answer.1.requestFor key).isSome) =
      permitted key first last answers := by
  induction answers with
  | nil => rfl
  | cons answer answers ih =>
    rw [List.filter_cons, permitted_cons, permittedBy]
    cases hrequest : answer.1.requestFor key with
    | some q => rw [if_pos (by rfl), permitted_cons, ih, permittedBy, hrequest]
    | none => rw [if_neg (by simp), ih, zero_add]

/-- What is permitted is what the bucket admits. -/
theorem permitted_decisions (key : κ) (rate : ℚ) (burst : ℤ) (first last : ℚ) (calls : List (LimiterCall κ))
    (empty : ℚ) :
    (permitted key first last (decisions key rate burst empty calls) : ℚ) =
      total first last (admitted rate burst empty (amounts key calls)) := by
  induction calls generalizing empty with
  | nil => simp [permitted, total, admitted, amounts, decisions]
  | cons call calls ih =>
    rw [decisions, amounts, List.filterMap_cons]
    cases hrequest : call.requestFor key with
    | none => exact ih empty
    | some q =>
      rw [List.map_cons, admitted, permitted_cons, permittedBy, hrequest, answerOf]
      by_cases hroom : level rate empty q.timeNow ≤ burst - q.nActions
      · have hadmits : admits rate burst empty q = true := decide_eq_true hroom
        rw [if_pos hroom, total_cons, hadmits, refill, if_pos hadmits]
        push_cast
        rw [ih]
        rfl
      · have hadmits : admits rate burst empty q = false := decide_eq_false hroom
        rw [if_neg hroom, hadmits, refill, hadmits]
        push_cast
        rw [ih]
        exact zero_add _

theorem decisions_filter_isAction (key : κ) (rate : ℚ) (burst : ℤ) (calls : List (LimiterCall κ)) (empty : ℚ) :
    decisions key rate burst empty (calls.filter LimiterCall.isAction) = decisions key rate burst empty calls := by
  induction calls generalizing empty with
  | nil => rfl
  | cons call calls ih =>
    rw [List.filter_cons]
    cases call with
    | pruneMessageCounts timeNow => exact ih empty
    | recordAction requester key' nActions timeNow => exact ih empty
    | canDoAction q =>
      rw [if_pos (by rfl), decisions, decisions]
      split
      · rw [ih]
      · exact ih empty

theorem decisions_filter_requestFor (key : κ) (rate : ℚ) (burst : ℤ) (calls : List (LimiterCall κ)) (empty : ℚ) :
    decisions key rate burst empty (calls.filter fun call => (call.requestFor key).isSome) =
      decisions key rate burst empty calls := by
  induction calls generalizing empty with
  | nil => rfl
  | cons call calls ih =>
    rw [List.filter_cons]
    cases hrequest : call.requestFor key with
    | none => rw [if_neg (by simp), ih, decisions, hrequest]
    | some q => simp only [decisions, hrequest, Option.isSome_some, if_true, ih]

variable {burst : ℤ} {calls : List (LimiterCall κ)}

theorem amounts_nonneg {cfg : RatelimitSettings}
    (hsteady : ∀ call ∈ calls, call.Steady cfg key rate burst) : ∀ amount ∈ amounts key calls, 0 ≤ amount.2 := by
  intro amount hmem
  obtain ⟨q, hq, rfl⟩ := List.mem_map.mp hmem
  obtain ⟨call, hcall, hrequest⟩ := List.mem_filterMap.mp hq
  obtain ⟨rfl, hkey⟩ := requestFor_eq_some.mp hrequest
  obtain ⟨-, -, -, hone⟩ := hsteady _ hcall hkey
  show (0 : ℚ) ≤ q.nActions
  exact_mod_cast (Int.zero_lt_one.le.trans hone)

theorem amounts_sorted (hsorted : calls.Pairwise fun call call' => call.time ≤ call'.time) :
    (amounts key calls).Pairwise fun amount amount' => amount.1 ≤ amount'.1 := by
  rw [amounts, List.pairwise_map, List.pairwise_filterMap]
  refine hsorted.imp ?_
  intro call call' hle q hq q' hq'
  obtain ⟨rfl, -⟩ := requestFor_eq_some.mp hq
  obtain ⟨rfl, -⟩ := requestFor_eq_some.mp hq'
  exact hle

/-! ## §6 The leaky bucket -/

omit [DecidableEq κ] in
/-- A time before a history begins. -/
theorem exists_start (hsorted : calls.Pairwise fun call call' => call.time ≤ call'.time) :
    ∃ start, (start :: calls.map LimiterCall.time).Pairwise (· ≤ ·) := by
  have htimes : (calls.map LimiterCall.time).Pairwise (· ≤ ·) := List.pairwise_map.mpr hsorted
  cases calls with
  | nil => exact ⟨0, List.pairwise_singleton _ _⟩
  | cons call calls =>
    refine ⟨call.time, List.pairwise_cons.mpr ⟨?_, htimes⟩⟩
    intro time htime
    rcases List.mem_cons.mp htime with rfl | hlater
    · exact le_rfl
    · exact (List.pairwise_cons.mp htimes).1 time hlater

theorem foldl_emptyAfter_of_none (hnone : ∀ call ∈ calls, call.requestFor key = none) (empty : ℚ) :
    calls.foldl (LimiterCall.emptyAfter key rate burst) empty = empty := by
  induction calls with
  | nil => rfl
  | cons call calls ih =>
    have hsame : call.emptyAfter key rate burst empty = empty := by
      rw [LimiterCall.emptyAfter, hnone call List.mem_cons_self]
    rw [List.foldl_cons, hsame]
    exact ih fun c hc => hnone c (List.mem_cons_of_mem _ hc)

omit [DecidableEq κ] in
/-- When a request is denied, a single action is admitted from the time on that is told, if nothing is added
meanwhile. -/
theorem admits_iff_of_denied (hrate : 0 < rate) (hburst : 0 < burst) {empty time : ℚ} {q q' : Request κ}
    (hone : q'.nActions = 1) (hle : q.timeNow ≤ q'.timeNow)
    (hdenied : answerOf rate burst empty q = (false, time)) :
    admits rate burst empty q' = decide (time ≤ q'.timeNow) := by
  have hroom : (0 : ℚ) ≤ burst - 1 := sub_nonneg.mpr (by exact_mod_cast hburst)
  have hwait : (burst - 1) / rate + q'.timeNow ≥ q'.timeNow := le_add_of_nonneg_left (div_nonneg hroom hrate.le)
  rw [answerOf, Prod.mk.injEq] at hdenied
  obtain ⟨hfalse, rfl⟩ := hdenied
  rw [hfalse, admits, decide_eq_decide, hone, Int.cast_one, level_le_iff hrate hroom, max_le_iff, fill]
  simp only [Bool.false_eq_true, if_false, Int.cast_zero, zero_div, add_zero]
  rw [sub_le_iff_le_add', sub_le_iff_le_add', max_le_iff]
  exact ⟨fun h => ⟨⟨h, hle.trans hwait⟩, hle⟩, fun h => h.1.1⟩

namespace Ratelimiter

/-- **The leaky bucket.** For a key whose requests are limited by one rate and one burst, no stretch of time sees more
actions than the burst and what leaks meanwhile; the answers are the same without pruning; and after a denial a single
action is permitted from the time on that was told, and not before. -/
theorem leakyBucket (cfg : RatelimitSettings) (order : IterOrder κ) (key : κ) {rate : ℚ} (hrate : 0 < rate)
    {burst : ℤ} (hburst : 0 < burst) {calls : List (LimiterCall κ)}
    (hsteady : ∀ call ∈ calls, call.Steady cfg key rate burst)
    (hsorted : calls.Pairwise fun call call' => call.time ≤ call'.time) :
    (∀ first last, first ≤ last →
      (permitted key first last (trace cfg order (new κ) calls) : ℚ) ≤ burst + rate * (last - first)) ∧
    (trace cfg order (new κ) calls).filter (fun answer => (answer.1.requestFor key).isSome) =
      (trace cfg order (new κ) (calls.filter LimiterCall.isAction)).filter
        (fun answer => (answer.1.requestFor key).isSome) ∧
    ∀ before q later q' rest time, calls = before ++ .canDoAction q :: (later ++ .canDoAction q' :: rest) →
      getKey q.requester q.key = .ok key → getKey q'.requester q'.key = .ok key →
      q'.nActions = 1 → (∀ call ∈ later, call.requestFor key = none) →
      ((after cfg order (new κ) before).step cfg order (.canDoAction q)).1 = .ok (some (false, time)) →
      ∃ time', ((after cfg order (new κ) (before ++ .canDoAction q :: later)).step cfg order (.canDoAction q')).1 =
        .ok (some (decide (time ≤ q'.timeNow), time')) := by
  obtain ⟨start, hstart⟩ := exists_start hsorted
  have hnew : (new κ).EmptyAt key rate start start := emptyAt_new key rate start
  have hanswers := hnew.trace order hrate hsteady hstart
  refine ⟨?_, ?_, ?_⟩
  · intro first last hle
    rw [← permitted_filter, hanswers, permitted_decisions]
    exact total_admitted_le hrate (by exact_mod_cast hburst.le) hle (amounts_sorted hsorted) (amounts_nonneg hsteady) _
  · have hfiltered : (start :: (calls.filter LimiterCall.isAction).map LimiterCall.time).Pairwise (· ≤ ·) :=
      hstart.sublist ((List.filter_sublist.map _).cons_cons _)
    have hsame := hnew.trace order hrate (fun call hcall => hsteady call (List.mem_of_mem_filter hcall)) hfiltered
    rw [hanswers, hsame, decisions_filter_isAction]
  · rintro before q later q' rest time rfl hkey hkey' hone hother hdenied
    have hq : (LimiterCall.canDoAction q).requestFor key = some q := requestFor_eq_some.mpr ⟨rfl, hkey⟩
    have hq' : (LimiterCall.canDoAction q').requestFor key = some q' := requestFor_eq_some.mpr ⟨rfl, hkey'⟩
    have hbefore := hnew.after order hrate before q.timeNow (fun call hcall => hsteady call (by simp [hcall]))
      (hstart.sublist (by simp [LimiterCall.time]))
    obtain ⟨hanswer, hstep⟩ := hbefore.step_request order hrate le_rfl (hsteady _ (by simp)) hq
    have htold := hanswer.symm.trans hdenied
    rw [Except.ok.injEq, Option.some.injEq] at htold
    -- the denied request adds nothing, so the bucket is empty when it would have been
    rw [refill, if_neg (by simp [(Prod.mk.inj htold).1])] at hstep
    have hlater := hstep.after order hrate later q'.timeNow (fun call hcall => hsteady call (by simp [hcall]))
      (hstart.sublist (by simp [LimiterCall.time]))
    rw [foldl_emptyAfter_of_none hother] at hlater
    have hle : q.timeNow ≤ q'.timeNow := by
      have htimes : [q.timeNow, q'.timeNow].Pairwise (· ≤ ·) := hstart.sublist (by simp [LimiterCall.time])
      simpa using htimes
    have hafter : after cfg order (new κ) (before ++ .canDoAction q :: later) =
        after cfg order ((after cfg order (new κ) before).step cfg order (.canDoAction q)).2 later := by
      rw [Ratelimiter.after, List.foldl_append, List.foldl_cons]
      rfl
    rw [hafter, (hlater.step_request order hrate le_rfl (hsteady _ (by simp)) hq').1, answerOf,
      admits_iff_of_denied hrate hburst hone hle htold]
    exact ⟨_, rfl⟩

/-- Two actions at once, and two requests for a third one with a pruning between them. -/
theorem leakyBucket_example : (permitted 7 0 1 (trace ⟨1, 2⟩ (IterOrder.sorted ℕ) (new ℕ)
        [.canDoAction ⟨none, some 7, none, none, true, 2, 0⟩, .canDoAction ⟨none, some 7, none, none, true, 1, 1 / 2⟩,
          .pruneMessageCounts (3 / 4), .canDoAction ⟨none, some 7, none, none, true, 1, 1⟩]) : ℚ) ≤
      (2 : ℤ) + 1 * (1 - 0) := by
  refine (leakyBucket ⟨1, 2⟩ (IterOrder.sorted ℕ) 7 zero_lt_one zero_lt_two ?_ ?_).1 0 1 zero_le_one
  · intro call hcall
    simp only [List.mem_cons, List.not_mem_nil, or_false] at hcall
    rcases hcall with rfl | rfl | rfl | rfl
    · exact fun _ => ⟨rfl, rfl, rfl, by decide⟩
    · exact fun _ => ⟨rfl, rfl, rfl, by decide⟩
    · exact trivial
    · exact fun _ => ⟨rfl, rfl, rfl, by decide⟩
  · simp only [List.pairwise_cons, List.mem_cons, LimiterCall.time]
    norm_num

end Ratelimiter

end Setka.Api.Ratelimiting
