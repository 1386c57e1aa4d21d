/-
# Setka.Api.Ratelimiting — limits on how often something may be done.

A bucket counts the actions of a key since it was last empty, and leaks with a rate. The rate is checked before the
answer divides by it, but not before a bucket is written: an action that is recorded under a rate of zero raises.
-/
import Mathlib.Tactic.Linarith
import Setka.Lib.Action
import Setka.Lib.Dict
import Setka.Lib.Transition
import Setka.Util.WheelTimer

namespace Setka.Api.Ratelimiting

open Setka.Lib Setka.Util Dict

/-! ## §1 Limiters -/

/-- What the functions of this module raise. -/
inductive RatelimitError
  | valueError
  | zeroDivisionError
  deriving DecidableEq

/-- `RatelimitSettings`, and what a module overrides them by. -/
structure RatelimitSettings where
  perSecond : ℚ
  burstCount : ℤ

/-- An entry of `actions`: the number of tokens, when the bucket was last empty, and its rate. -/
structure Bucket where
  actionCount : ℤ
  timeStart : ℚ
  rateHz : ℚ

variable {κ : Type} [DecidableEq κ]

/-- What a `Ratelimiter` keeps: the buckets, and when they may be pruned. -/
structure Ratelimiter (κ : Type) [DecidableEq κ] where
  actions : Dict κ Bucket
  timer : WheelTimer κ

/-- A limiter as it is made. -/
def Ratelimiter.new (κ : Type) [DecidableEq κ] : Ratelimiter κ :=
  ⟨.empty, WheelTimer.new κ 5000 (by decide)⟩

/-- The settings of the limiter that a `RequestRatelimiter` makes for itself. -/
def requestSettings : RatelimitSettings := ⟨0, 0⟩

/-- The requester of an action, with what the limiter finds out about it: whether its application service is rate
limited, the `messages_per_second` of its row in `ratelimit_override`, and what a module says. -/
structure Requester (κ : Type) where
  user : κ
  appServiceLimited : Option Bool
  override : Option (Option ℤ)
  moduleOverride : Option RatelimitSettings

/-- The arguments of `can_do_action`, at its time. -/
structure Request (κ : Type) where
  requester : Option (Requester κ)
  key : Option κ
  rateHz : Option ℚ
  burstCount : Option ℤ
  update : Bool
  nActions : ℤ
  timeNow : ℚ

/-- `a / b`. -/
def divide (a b : ℚ) : Except RatelimitError ℚ := if b = 0 then .error .zeroDivisionError else .ok (a / b)

/-- `int(time_s * 1000)`. -/
def milliseconds (time : ℚ) : ℤ := (time * 1000).num.tdiv (time * 1000).den

/-- `_get_key`. -/
def getKey (requester : Option (Requester κ)) (key : Option κ) : Except RatelimitError κ :=
  match key, requester with
  | some key, _ => .ok key
  | none, some requester => .ok requester.user
  | none, none => .error .valueError

/-- Whether a requester is not limited at all. -/
def Requester.exempt (requester : Requester κ) : Bool :=
  requester.appServiceLimited = some false ||
    requester.override.any fun messagesPerSecond => messagesPerSecond.getD 0 = 0

namespace Ratelimiter

/-- `_get_action_counts`. -/
def getActionCounts (cfg : RatelimitSettings) (l : Ratelimiter κ) (key : κ) (timeNow : ℚ) : Bucket :=
  l.actions.getD key ⟨0, timeNow, cfg.perSecond⟩

/-- `_record_action_inner`. -/
def recordActionInner (l : Ratelimiter κ) (key : κ) (bucket : Bucket) (timeNow : ℚ) :
    Except RatelimitError (Ratelimiter κ) := do
  let spent ← divide bucket.actionCount bucket.rateHz
  let pruneTime := bucket.timeStart + spent
  if pruneTime ≤ timeNow then pure { l with actions := l.actions.erase key }
  else
    pure
      { actions := l.actions.set key bucket
        timer := l.timer.insert (milliseconds timeNow) key (milliseconds (pruneTime + 1 / 10)) }

end Ratelimiter

/-- The rate and the burst that apply to a request. -/
def Request.settings (cfg : RatelimitSettings) (q : Request κ) : RatelimitSettings :=
  match q.requester.bind Requester.moduleOverride with
  | some override => override
  | none => ⟨q.rateHz.getD cfg.perSecond, q.burstCount.getD cfg.burstCount⟩

/-- How much is in a bucket, and the bucket, which is begun anew if nothing is. -/
def performed (rateHz timeNow : ℚ) (bucket : Bucket) : ℚ × Bucket :=
  let performedCount := bucket.actionCount - (timeNow - bucket.timeStart) * rateHz
  if performedCount < 0 then (0, ⟨0, timeNow, rateHz⟩)
  else (performedCount, { bucket with rateHz })

/-- `time_allowed`. -/
def timeAllowed (settings : RatelimitSettings) (timeNow : ℚ) (bucket : Bucket) : Except RatelimitError ℚ :=
  if 0 < settings.perSecond then do
    let wait ← divide (bucket.actionCount - settings.burstCount + 1) settings.perSecond
    pure (max (bucket.timeStart + wait) timeNow)
  else pure (-1)

namespace Ratelimiter

/-- What `can_do_action` does with a requester that is limited. -/
def checkAction (cfg : RatelimitSettings) (l : Ratelimiter κ) (q : Request κ) (key : κ) :
    Except RatelimitError ((Bool × ℚ) × Ratelimiter κ) :=
  let settings := q.settings cfg
  let (performedCount, bucket) := performed settings.perSecond q.timeNow (l.getActionCounts cfg key q.timeNow)
  if settings.burstCount - q.nActions < performedCount then do
    let time ← timeAllowed settings q.timeNow bucket
    pure ((false, time), l)
  else do
    let bucket := { bucket with actionCount := bucket.actionCount + q.nActions }
    let l ← if q.update then l.recordActionInner key bucket q.timeNow else pure l
    let time ← timeAllowed settings q.timeNow bucket
    pure ((true, time), l)

/-- `can_do_action`. -/
def canDoAction (cfg : RatelimitSettings) (l : Ratelimiter κ) (q : Request κ) :
    Except RatelimitError ((Bool × ℚ) × Ratelimiter κ) := do
  let key ← getKey q.requester q.key
  if q.requester.any Requester.exempt then pure ((true, -1), l) else l.checkAction cfg q key

/-- `record_action`. -/
def recordAction (cfg : RatelimitSettings) (l : Ratelimiter κ) (requester : Option (Requester κ)) (key : Option κ)
    (nActions : ℤ) (timeNow : ℚ) : Except RatelimitError (Ratelimiter κ) := do
  let key ← getKey requester key
  let bucket := l.getActionCounts cfg key timeNow
  l.recordActionInner key { bucket with actionCount := bucket.actionCount + nActions } timeNow

/-- One turn of the loop of `_prune_message_counts`. -/
def pruneKey (timeNow : ℚ) (actions : Dict κ Bucket) (key : κ) : Dict κ Bucket :=
  match actions.get? key with
  | none => actions
  | some bucket =>
    if 0 < bucket.actionCount - (timeNow - bucket.timeStart) * bucket.rateHz then actions else actions.erase key

/-- `_prune_message_counts`. -/
def pruneMessageCounts (order : IterOrder κ) (l : Ratelimiter κ) (timeNow : ℚ) : Ratelimiter κ :=
  let (toPrune, timer) := l.timer.fetch order (milliseconds timeNow)
  { actions := toPrune.foldl (pruneKey timeNow) l.actions, timer }

end Ratelimiter

/-- The calls on a limiter. -/
inductive LimiterCall (κ : Type)
  | canDoAction (q : Request κ)
  | recordAction (requester : Option (Requester κ)) (key : Option κ) (nActions : ℤ) (timeNow : ℚ)
  | pruneMessageCounts (timeNow : ℚ)

/-- What a call returns: `can_do_action` its answer, the others nothing. -/
abbrev Answer : Type := Except RatelimitError (Option (Bool × ℚ))

/-- A call: what it returns or raises, and the limiter after it. A call that raises changes nothing. -/
def Ratelimiter.step (cfg : RatelimitSettings) (order : IterOrder κ) (l : Ratelimiter κ) :
    LimiterCall κ → Answer × Ratelimiter κ
  | .canDoAction q =>
    match l.canDoAction cfg q with
    | .ok (answer, l) => (.ok (some answer), l)
    | .error e => (.error e, l)
  | .recordAction requester key nActions timeNow =>
    match l.recordAction cfg requester key nActions timeNow with
    | .ok l => (.ok none, l)
    | .error e => (.error e, l)
  | .pruneMessageCounts timeNow => (.ok none, l.pruneMessageCounts order timeNow)

namespace Ratelimiter

/-- The limiter after some calls. -/
def after (cfg : RatelimitSettings) (order : IterOrder κ) (l : Ratelimiter κ) (calls : List (LimiterCall κ)) :
    Ratelimiter κ :=
  calls.foldl (fun l call => (l.step cfg order call).2) l

/-! ## §2 Where it divides -/

theorem timeAllowed_ok (settings : RatelimitSettings) (timeNow : ℚ) (bucket : Bucket) :
    timeAllowed settings timeNow bucket = .ok (if 0 < settings.perSecond then
        max (bucket.timeStart + (bucket.actionCount - settings.burstCount + 1) / settings.perSecond) timeNow
      else -1) := by
  rw [timeAllowed]
  split
  · next hrate =>
      rw [divide, if_neg hrate.ne']
      rfl
  · rfl

variable {l : Ratelimiter κ} {key : κ} {bucket : Bucket} {timeNow : ℚ}

theorem recordActionInner_of_zero
    (h : bucket.rateHz = 0) : l.recordActionInner key bucket timeNow = .error .zeroDivisionError := by
  rw [recordActionInner, divide, if_pos h]
  rfl

theorem recordActionInner_of_ne (h : bucket.rateHz ≠ 0) : l.recordActionInner key bucket timeNow = .ok
      (if bucket.timeStart + bucket.actionCount / bucket.rateHz ≤ timeNow then
        { l with actions := l.actions.erase key }
      else
        { actions := l.actions.set key bucket
          timer := l.timer.insert (milliseconds timeNow) key
            (milliseconds (bucket.timeStart + bucket.actionCount / bucket.rateHz + 1 / 10)) }) := by
  rw [recordActionInner, divide, if_neg h]
  show (if _ then _ else _) = _
  split
  · rfl
  · rfl

theorem recordActionInner_divides_iff (l : Ratelimiter κ) (key : κ) (bucket : Bucket) (timeNow : ℚ) :
    l.recordActionInner key bucket timeNow = .error .zeroDivisionError ↔ bucket.rateHz = 0 := by
  constructor
  · intro h
    by_contra hrate
    rw [recordActionInner_of_ne hrate] at h
    cases h
  · exact recordActionInner_of_zero

/-- The tokens that a key's bucket counts. -/
def storedCount (l : Ratelimiter κ) (key : κ) : ℤ := ((l.actions.get? key).map Bucket.actionCount).getD 0

/-- Every bucket that is kept leaks. -/
def Leaking (l : Ratelimiter κ) : Prop := ∀ key bucket, l.actions.get? key = some bucket → bucket.rateHz ≠ 0

/-- What keeps a call from dividing by zero: a request that is not limited, is not recorded, has a rate, or finds no
room; an action whose key has a bucket, or for which the limiter has a rate. -/
def Guarded (cfg : RatelimitSettings) (l : Ratelimiter κ) : LimiterCall κ → Prop
  | .canDoAction q =>
    ∀ key, getKey q.requester q.key = .ok key →
      q.requester.any Requester.exempt = true ∨ q.update = false ∨ (q.settings cfg).perSecond ≠ 0 ∨
        (q.settings cfg).burstCount - q.nActions < max 0 (l.storedCount key)
  | .recordAction requester key _ _ =>
    ∀ name, getKey requester key = .ok name → (l.actions.get? name).isSome ∨ cfg.perSecond ≠ 0
  | .pruneMessageCounts _ => True

/-- Under a rate of zero nothing leaks. -/
theorem performed_of_zero (cfg : RatelimitSettings) (l : Ratelimiter κ) (key : κ) (timeNow : ℚ) :
    (performed 0 timeNow (l.getActionCounts cfg key timeNow)).1 = max 0 (l.storedCount key : ℚ) := by
  have hcount : (l.getActionCounts cfg key timeNow).actionCount = l.storedCount key := by
    rw [getActionCounts, Dict.getD, storedCount]
    cases l.actions.get? key with
    | none => rfl
    | some bucket => rfl
  rw [performed, hcount, mul_zero, sub_zero]
  split
  · next hneg => exact (max_eq_left hneg.le).symm
  · next hpos => exact (max_eq_right (not_lt.mp hpos)).symm

theorem performed_rateHz (rateHz timeNow : ℚ) (bucket : Bucket) :
    (performed rateHz timeNow bucket).2.rateHz = rateHz := by
  rw [performed]
  split
  · rfl
  · rfl

/-- A request that is limited divides by zero where it is admitted and recorded under no rate. -/
theorem checkAction_divides_iff (cfg : RatelimitSettings) (l : Ratelimiter κ) (q : Request κ) (key : κ) :
    l.checkAction cfg q key = .error .zeroDivisionError ↔
      q.update = true ∧ (q.settings cfg).perSecond = 0 ∧
        max 0 (l.storedCount key) ≤ (q.settings cfg).burstCount - q.nActions := by
  have hroom : (q.settings cfg).perSecond = 0 → ((q.settings cfg).burstCount - q.nActions <
        (performed (q.settings cfg).perSecond q.timeNow (l.getActionCounts cfg key q.timeNow)).1 ↔
      (q.settings cfg).burstCount - q.nActions < max 0 (l.storedCount key)) := by
    intro hrate
    rw [hrate, performed_of_zero]
    exact_mod_cast Iff.rfl
  have hbucket := performed_rateHz (q.settings cfg).perSecond q.timeNow (l.getActionCounts cfg key q.timeNow)
  rw [checkAction]
  generalize performed (q.settings cfg).perSecond q.timeNow (l.getActionCounts cfg key q.timeNow) = found at *
  obtain ⟨performedCount, bucket⟩ := found
  dsimp only at hroom hbucket ⊢
  split
  · next hdenied =>
      rw [timeAllowed_ok]
      constructor
      · rintro ⟨⟩
      · rintro ⟨-, hrate, hle⟩
        exact absurd ((hroom hrate).mp hdenied) (not_lt.mpr hle)
  next hallowed =>
    cases hupdate : q.update with
    | false =>
      rw [timeAllowed_ok]
      constructor
      · rintro ⟨⟩
      · rintro ⟨⟨⟩, -⟩
    | true =>
      by_cases hrate : (q.settings cfg).perSecond = 0
      · have hzero : ({ bucket with actionCount := bucket.actionCount + q.nActions } : Bucket).rateHz = 0 :=
          hbucket.trans hrate
        rw [if_pos rfl, recordActionInner_of_zero hzero]
        exact ⟨fun _ => ⟨rfl, hrate, not_lt.mp fun h => hallowed ((hroom hrate).mpr h)⟩, fun _ => rfl⟩
      · have hne : ({ bucket with actionCount := bucket.actionCount + q.nActions } : Bucket).rateHz ≠ 0 :=
          fun h => hrate (hbucket.symm.trans h)
        rw [if_pos rfl, recordActionInner_of_ne hne, timeAllowed_ok]
        constructor
        · rintro ⟨⟩
        · rintro ⟨-, hzero, -⟩
          exact absurd hzero hrate

/-! ## §3 Histories -/

theorem leaking_new : Leaking (new κ) := by
  rintro key bucket ⟨⟩

theorem Leaking.erase (h : Leaking l) (key : κ) (timer : WheelTimer κ) : Leaking ⟨l.actions.erase key, timer⟩ := by
  intro key' bucket hget
  obtain ⟨-, hget⟩ := of_get?_erase hget
  exact h key' bucket hget

variable {l' : Ratelimiter κ}

/-- What was written was divided by, so it leaks. -/
theorem Leaking.recordActionInner (h : Leaking l)
    (hrecord : l.recordActionInner key bucket timeNow = .ok l') : Leaking l' := by
  by_cases hrate : bucket.rateHz = 0
  · rw [recordActionInner_of_zero hrate] at hrecord
    cases hrecord
  rw [recordActionInner_of_ne hrate, Except.ok.injEq] at hrecord
  subst hrecord
  split
  · exact h.erase key l.timer
  intro key' bucket' hget
  rcases of_get?_set hget with ⟨-, rfl⟩ | ⟨-, hget⟩
  · exact hrate
  · exact h key' bucket' hget

variable {cfg : RatelimitSettings}

/-- A request changes nothing, or writes a bucket of its key. -/
theorem canDoAction_state {q : Request κ} {answer : Bool × ℚ} (h : l.canDoAction cfg q = .ok (answer, l')) :
    l' = l ∨ ∃ key bucket, getKey q.requester q.key = .ok key ∧ l.recordActionInner key bucket q.timeNow = .ok l' := by
  obtain ⟨key, hkey, h⟩ := except_bind_eq_ok.mp h
  split at h
  · cases h
    exact Or.inl rfl
  rw [checkAction] at h
  dsimp only at h
  split at h
  · obtain ⟨time, -, h⟩ := except_bind_eq_ok.mp h
    cases h
    exact Or.inl rfl
  split at h
  · obtain ⟨written, hwritten, h⟩ := except_bind_eq_ok.mp h
    obtain ⟨time, -, h⟩ := except_bind_eq_ok.mp h
    cases h
    exact Or.inr ⟨key, _, hkey, hwritten⟩
  · obtain ⟨written, hwritten, h⟩ := except_bind_eq_ok.mp h
    obtain ⟨time, -, h⟩ := except_bind_eq_ok.mp h
    cases hwritten
    cases h
    exact Or.inl rfl

theorem get?_recordActionInner_of_ne {name : κ} (hrecord : l.recordActionInner name bucket timeNow = .ok l')
    (hne : key ≠ name) : l'.actions.get? key = l.actions.get? key := by
  by_cases hrate : bucket.rateHz = 0
  · rw [recordActionInner_of_zero hrate] at hrecord
    cases hrecord
  rw [recordActionInner_of_ne hrate, Except.ok.injEq] at hrecord
  subst hrecord
  split
  · exact (get?_erase ..).trans (if_neg hne)
  · exact (get?_set ..).trans (if_neg hne)

/-- What pruning leaves: a bucket, or nothing of one that is empty. -/
theorem get?_foldl_pruneKey (timeNow : ℚ) (keys : List κ) (actions : Dict κ Bucket) (key : κ) :
    (keys.foldl (pruneKey timeNow) actions).get? key = actions.get? key ∨
      (keys.foldl (pruneKey timeNow) actions).get? key = none ∧
        ∃ bucket, actions.get? key = some bucket ∧
          bucket.actionCount - (timeNow - bucket.timeStart) * bucket.rateHz ≤ 0 := by
  induction keys generalizing actions with
  | nil => exact Or.inl rfl
  | cons first keys ih =>
    have hfirst : (pruneKey timeNow actions first).get? key = actions.get? key ∨
        (pruneKey timeNow actions first).get? key = none ∧
          ∃ bucket, actions.get? key = some bucket ∧
            bucket.actionCount - (timeNow - bucket.timeStart) * bucket.rateHz ≤ 0 := by
      rw [pruneKey]
      split
      · exact Or.inl rfl
      next bucket hget =>
        split
        · exact Or.inl rfl
        next hempty =>
          rw [get?_erase]
          by_cases hkey : key = first
          · rw [if_pos hkey]
            exact Or.inr ⟨rfl, bucket, hkey ▸ hget, not_lt.mp hempty⟩
          · rw [if_neg hkey]
            exact Or.inl rfl
    rw [List.foldl_cons]
    rcases ih (pruneKey timeNow actions first) with hrest | ⟨hrest, bucket, hget, hempty⟩
    · rw [hrest]
      exact hfirst
    rcases hfirst with hsame | ⟨hnone, -⟩
    · exact Or.inr ⟨hrest, bucket, hsame ▸ hget, hempty⟩
    · rw [hnone] at hget
      cases hget

theorem Leaking.step {order : IterOrder κ} (h : Leaking l)
    (call : LimiterCall κ) : Leaking (l.step cfg order call).2 := by
  cases call with
  | canDoAction q =>
    rw [Ratelimiter.step]
    split
    · next answer l' hok =>
        rcases canDoAction_state hok with rfl | ⟨key, bucket, -, hrecord⟩
        · exact h
        · exact h.recordActionInner hrecord
    · exact h
  | recordAction requester key nActions timeNow =>
    rw [Ratelimiter.step]
    split
    · next l' hok =>
        obtain ⟨name, -, hrecord⟩ := except_bind_eq_ok.mp hok
        exact h.recordActionInner hrecord
    · exact h
  | pruneMessageCounts timeNow =>
    intro key bucket hget
    rcases get?_foldl_pruneKey timeNow (l.timer.fetch order (milliseconds timeNow)).1 l.actions key with
      hsame | ⟨hnone, -⟩
    · exact h key bucket (hsame ▸ hget)
    · exact absurd (hnone.symm.trans hget) (by simp)

theorem leaking_after (cfg : RatelimitSettings) (order : IterOrder κ) (calls : List (LimiterCall κ)) :
    Leaking (after cfg order (new κ) calls) := by
  have hrun : ∀ l : Ratelimiter κ, Leaking l → Leaking (after cfg order l calls) := by
    induction calls with
    | nil => exact fun l h => h
    | cons call calls ih => exact fun l h => ih _ (h.step call)
  exact hrun _ leaking_new

omit [DecidableEq κ] in
theorem getKey_ne_zeroDivisionError (requester : Option (Requester κ)) (key : Option κ) :
    getKey requester key ≠ .error .zeroDivisionError := by
  cases key with
  | some key => simp [getKey]
  | none =>
    cases requester with
    | some requester => simp [getKey]
    | none => simp [getKey]

omit [DecidableEq κ] in
/-- What is raised after the key is found is raised for the key. -/
theorem bind_getKey_iff {β : Type} (requester : Option (Requester κ)) (key : Option κ)
    (rest : κ → Except RatelimitError β) :
    (getKey requester key >>= rest) = .error .zeroDivisionError ↔
      ∃ name, getKey requester key = .ok name ∧ rest name = .error .zeroDivisionError := by
  have hne := getKey_ne_zeroDivisionError requester key
  cases hkey : getKey requester key with
  | error e =>
    constructor
    · intro h
      have herror : e = .zeroDivisionError := by simpa [bind, Except.bind] using h
      exact absurd (hkey.trans (congrArg Except.error herror)) hne
    · rintro ⟨name, ⟨⟩, -⟩
  | ok name =>
    show rest name = _ ↔ _
    constructor
    · exact fun h => ⟨name, rfl, h⟩
    rintro ⟨name', hname, h⟩
    cases hname
    exact h

theorem canDoAction_divides_iff (cfg : RatelimitSettings) (order : IterOrder κ) (l : Ratelimiter κ) (q : Request κ) :
    (l.step cfg order (.canDoAction q)).1 = .error .zeroDivisionError ↔ ¬ Guarded cfg l (.canDoAction q) := by
  have hstep : (l.step cfg order (.canDoAction q)).1 = .error .zeroDivisionError ↔
      l.canDoAction cfg q = .error .zeroDivisionError := by
    rw [Ratelimiter.step]
    split
    · next answer l' hok => simp [hok]
    · next e herror => simp [herror]
  rw [hstep, canDoAction, bind_getKey_iff, Guarded]
  push Not
  refine exists_congr fun name => and_congr_right fun _ => ?_
  by_cases hexempt : q.requester.any Requester.exempt = true
  · simp [hexempt, pure, Except.pure]
  · rw [if_neg hexempt, checkAction_divides_iff, ← Bool.not_eq_false]
    exact ⟨fun h => ⟨hexempt, h⟩, fun h => h.2⟩

theorem recordAction_divides_iff (order : IterOrder κ) (h : Leaking l) (requester : Option (Requester κ))
    (key : Option κ) (nActions : ℤ) (timeNow : ℚ) :
    (l.step cfg order (.recordAction requester key nActions timeNow)).1 = .error .zeroDivisionError ↔
      ¬ Guarded cfg l (.recordAction requester key nActions timeNow) := by
  have hstep : (l.step cfg order (.recordAction requester key nActions timeNow)).1 = .error .zeroDivisionError ↔
      l.recordAction cfg requester key nActions timeNow = .error .zeroDivisionError := by
    rw [Ratelimiter.step]
    split
    · next l' hok => simp [hok]
    · next e herror => simp [herror]
  rw [hstep, recordAction, bind_getKey_iff, Guarded]
  push Not
  refine exists_congr fun name => and_congr_right fun _ => ?_
  -- A bucket that is kept has been divided by before; a new one has the rate of the limiter.
  cases hget : l.actions.get? name with
  | some bucket =>
    have hbucket : l.getActionCounts cfg name timeNow = bucket := by
      rw [getActionCounts, Dict.getD, hget]
      rfl
    have hrate : bucket.rateHz ≠ 0 := h name bucket hget
    rw [recordActionInner_divides_iff, hbucket]
    simp [hrate]
  | none =>
    have hbucket : l.getActionCounts cfg name timeNow = ⟨0, timeNow, cfg.perSecond⟩ := by
      rw [getActionCounts, Dict.getD, hget]
      rfl
    rw [recordActionInner_divides_iff, hbucket]
    simp

/-- A call divides by zero where nothing keeps it from that. -/
theorem step_divides_iff {order : IterOrder κ} (h : Leaking l) (call : LimiterCall κ) :
    (l.step cfg order call).1 = .error .zeroDivisionError ↔ ¬ Guarded cfg l call := by
  cases call with
  | canDoAction q => exact canDoAction_divides_iff cfg order l q
  | recordAction requester key nActions timeNow => exact recordAction_divides_iff order h requester key nActions timeNow
  | pruneMessageCounts timeNow =>
    constructor
    · rintro ⟨⟩
    · intro hnot
      exact absurd trivial hnot

/-- **Division by zero.** After every history, a limiter does not divide by zero as long as each call is kept from
it, and not longer. -/
theorem neverDivides_iff (cfg : RatelimitSettings) (order : IterOrder κ) (calls : List (LimiterCall κ)) :
    AllSteps (fun before call => ((after cfg order (new κ) before).step cfg order call).1 ≠ .error .zeroDivisionError)
        calls ↔
      AllSteps (fun before call => Guarded cfg (after cfg order (new κ) before) call) calls := by
  refine forall_congr' fun before => forall_congr' fun call => forall_congr' fun rest => forall_congr' fun _ => ?_
  show _ ≠ _ ↔ _
  rw [ne_eq, step_divides_iff (leaking_after cfg order before), not_not]

/-- The first action under a rate of zero, for which there is room. -/
theorem zeroRate_divides : ¬ (∀ (cfg : RatelimitSettings) (order : IterOrder ℕ) (calls : List (LimiterCall ℕ)),
      AllSteps
        (fun before call => ((after cfg order (new ℕ) before).step cfg order call).1 ≠ .error .zeroDivisionError)
        calls) := by
  intro h
  have hfirst := h ⟨0, 1⟩ (IterOrder.sorted ℕ) [.canDoAction ⟨none, some 7, none, none, true, 1, 0⟩] []
    (.canDoAction ⟨none, some 7, none, none, true, 1, 0⟩) [] rfl
  refine hfirst ((canDoAction_divides_iff ..).mpr fun hguarded => ?_)
  rcases hguarded 7 rfl with hexempt | hupdate | hrate | hfull
  · exact absurd hexempt (by decide)
  · exact absurd hupdate (by decide)
  · exact hrate rfl
  · exact absurd hfull (by decide)

end Ratelimiter

end Setka.Api.Ratelimiting
