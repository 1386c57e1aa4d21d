/-
# Setka.Appservice.Scheduler — transactions for one application service.

`_TransactionController.send` stores a transaction and sends it at once where the service is up; a failed
attempt marks the service as down and starts a recoverer, which retries the stored transactions, the
oldest first, until none is left. Every `await` is a point where another of these tasks may run, so each
action below is what happens between two of them. A transaction is its id here: nothing depends on what it
contains, except that nothing is stored for a service that is down when there are no events.

The order of delivery and that nothing is left behind depend on three answers that a task acts on later:
the state of the service, read by a send, and the empty answer of a retry. `UpToDate` says that they still
hold then.
-/
import Setka.Lib.Transition
import Mathlib.Data.List.Basic

namespace Setka.Appservice

open Setka.Lib
open List (mem_cons_of_mem mem_cons_self)

/-! ## §1 The state -/

/-- `ApplicationServiceState`. -/
inductive ServiceState
  | up
  | down
  deriving DecidableEq

/-- Where a call of `send` stands: before it reads the state of the service, before it stores the
transaction, in the attempt to send it, and before it deletes it. `_ServiceQueuer` has one call at a
time. -/
inductive Sending
  | idle
  | started (hasEvents : Bool)
  | checked (serviceIsUp : Bool)
  | attempting (txnId : ℕ)
  | sent (txnId : ℕ)
  deriving DecidableEq

/-- Where a recoverer stands: its retry is scheduled, or it asks for the oldest transaction, has one in an
attempt, deletes one, or was told that there is none. -/
inductive Retrying
  | scheduled
  | asking
  | attempting (txnId : ℕ)
  | sent (txnId : ℕ)
  | foundNone
  deriving DecidableEq

/-- `_Recoverer`. It runs one retry at a time: the timer that starts one is active only between two of
them, and `force_retry` raises where there is no active timer to cancel. -/
structure Recoverer where
  backoffCounter : ℕ
  retrying : Retrying
  deriving DecidableEq

/-- `_backoff`: what follows on a retry that did not send everything. -/
def Recoverer.backoff (r : Recoverer) : Recoverer :=
  ⟨if r.backoffCounter < 9 then r.backoffCounter + 1 else r.backoffCounter, .scheduled⟩

/-- The tables and the tasks of one application service. `failing` and `starting` count the calls of
`_on_txn_fail` before and after they store that the service is down, `recovered` the calls of
`on_recovered` that have yet to store that it is up. `created` and `accepted` record what has happened. -/
structure Controller where
  state : Option ServiceState
  txns : List ℕ
  nextId : ℕ
  sending : Sending
  failing : ℕ
  starting : ℕ
  recoverer : Option Recoverer
  recovered : ℕ
  created : List ℕ
  accepted : List ℕ
  deriving DecidableEq

/-- What can happen between two awaits. -/
inductive Action
  /-- `send` is called. -/
  | send (hasEvents : Bool)
  /-- `_is_service_up`, and the end of the call when there is nothing to store. -/
  | isServiceUp
  /-- `create_appservice_txn`. The sequence of ids is shared, so some may be left out. -/
  | createTxn (skipped : ℕ)
  /-- The attempt of the call ends. -/
  | attempt (succeeds : Bool)
  /-- `complete_appservice_txn` of the call. -/
  | complete
  /-- `_on_txn_fail` stores that the service is down. -/
  | setDown
  /-- `start_recoverer`. -/
  | startRecoverer
  /-- The timer of the recoverer, or `force_retry`. -/
  | timer
  | forceRetry
  /-- `get_oldest_unsent_txn`. -/
  | getOldest
  /-- The attempt of the retry ends. -/
  | retryAttempt (succeeds : Bool)
  /-- `complete_appservice_txn` of the retry. -/
  | retryComplete
  /-- `on_recovered` up to its await. -/
  | onRecovered
  /-- `on_recovered` stores that the service is up. -/
  | setUp
  deriving DecidableEq

/-! ## §2 The steps -/

namespace Controller

def isDown (c : Controller) : Bool := c.state = some .down

def withRetrying (c : Controller) (r : Recoverer) (retrying : Retrying) : Controller :=
  { c with recoverer := some { r with retrying } }

/-- Delete a transaction. -/
def delete (c : Controller) (txnId : ℕ) : Controller := { c with txns := c.txns.filter (· ≠ txnId) }

/-- The service accepts a transaction. -/
def accept (c : Controller) (txnId : ℕ) : Controller := { c with accepted := txnId :: c.accepted }

/-- The steps of `send`. -/
def stepSend (c : Controller) : Action → Option Controller
  | .send hasEvents => if c.sending = .idle then some { c with sending := .started hasEvents } else none
  | .isServiceUp =>
    match c.sending with
    | .started hasEvents =>
      let serviceIsUp := !c.isDown
      if !serviceIsUp && !hasEvents then some { c with sending := .idle }
      else some { c with sending := .checked serviceIsUp }
    | _ => none
  | .createTxn skipped =>
    match c.sending with
    | .checked serviceIsUp =>
      let newTxnId := c.nextId + skipped
      some { c with
        txns := c.txns ++ [newTxnId]
        nextId := newTxnId + 1
        created := newTxnId :: c.created
        sending := if serviceIsUp then .attempting newTxnId else .idle }
    | _ => none
  | .attempt succeeds =>
    match c.sending with
    | .attempting txnId =>
      if succeeds then some { c.accept txnId with sending := .sent txnId }
      else some { c with sending := .idle, failing := c.failing + 1 }
    | _ => none
  | .complete =>
    match c.sending with
    | .sent txnId => some { c.delete txnId with sending := .idle }
    | _ => none
  | _ => none

/-- The steps of `_on_txn_fail`. The assertion of `start_recoverer` fails where there is a recoverer, and
`_on_txn_fail` only logs that. -/
def stepFail (c : Controller) : Action → Option Controller
  | .setDown =>
    if 0 < c.failing then
      some { c with failing := c.failing - 1, starting := c.starting + 1, state := some .down }
    else none
  | .startRecoverer =>
    if 0 < c.starting then
      some { c with
        starting := c.starting - 1
        recoverer := c.recoverer.or (some ⟨1, .scheduled⟩) }
    else none
  | _ => none

/-- The steps of a recoverer and of `on_recovered`. -/
def stepRecover (c : Controller) : Action → Option Controller
  | .timer =>
    match c.recoverer with
    | some r => if r.retrying = .scheduled then some (c.withRetrying r .asking) else none
    | none => none
  | .forceRetry =>
    match c.recoverer with
    | some r => if r.retrying = .scheduled then some (c.withRetrying r .asking) else some c
    | none => some c
  | .getOldest =>
    match c.recoverer with
    | some r =>
      if r.retrying = .asking then
        match c.txns.min? with
        | some txnId => some (c.withRetrying r (.attempting txnId))
        | none => some (c.withRetrying r .foundNone)
      else none
    | none => none
  | .retryAttempt succeeds =>
    match c.recoverer with
    | some r =>
      match r.retrying with
      | .attempting txnId =>
        if succeeds then some ((c.accept txnId).withRetrying r (.sent txnId))
        else some { c with recoverer := some r.backoff }
      | _ => none
    | none => none
  | .retryComplete =>
    match c.recoverer with
    | some r =>
      match r.retrying with
      | .sent txnId => some ((c.delete txnId).withRetrying { r with backoffCounter := 1 } .asking)
      | _ => none
    | none => none
  | .onRecovered =>
    match c.recoverer with
    | some r =>
      if r.retrying = .foundNone then some { c with recoverer := none, recovered := c.recovered + 1 }
      else none
    | none => none
  | .setUp =>
    if 0 < c.recovered then some { c with recovered := c.recovered - 1, state := some .up } else none
  | _ => none

/-- One step: nothing else than these three kinds of tasks touches the service. -/
def step (c : Controller) (a : Action) : Option Controller :=
  (c.stepSend a).or ((c.stepFail a).or (c.stepRecover a))

def run (c : Controller) (actions : List Action) : Option Controller := actions.foldlM step c

/-- What `start` makes of the tables: a service that is down has a recoverer, one that is not has nothing
stored. What is not stored any more was accepted, and in order. -/
structure Start (c : Controller) : Prop where
  idle : c.sending = .idle ∧ c.failing = 0 ∧ c.starting = 0 ∧ c.recovered = 0
  down : c.state = some .down → c.recoverer = some ⟨1, .scheduled⟩
  notDown : c.state ≠ some .down → c.recoverer = none ∧ c.txns = []
  stored : ∀ t ∈ c.txns, t ∈ c.created
  issued : ∀ t ∈ c.created, t < c.nextId
  known : ∀ t ∈ c.accepted, t ∈ c.created
  kept : ∀ t ∈ c.created, t ∉ c.txns → t ∈ c.accepted
  ordered : ∀ t ∈ c.accepted, ∀ t' ∈ c.created, t' < t → t' ∈ c.accepted

/-- No send, no failure task and no retry is in progress, and there is no recoverer. -/
def Quiet (c : Controller) : Prop :=
  c.sending = .idle ∧ c.failing = 0 ∧ c.starting = 0 ∧ c.recovered = 0 ∧ c.recoverer = none

/-- **What is asked of every state**: a transaction is accepted after all those before it, deleted after
it was accepted, and none is left when nobody is there to send it. -/
structure Safe (c : Controller) : Prop where
  ordered : ∀ t ∈ c.accepted, ∀ t' ∈ c.created, t' < t → t' ∈ c.accepted
  kept : ∀ t ∈ c.created, t ∉ c.txns → t ∈ c.accepted
  delivered : c.Quiet → c.txns = []

/-- **The answers that a task acts on still hold**: a send finds the service up only when no failed
transaction has yet to mark it as down; it leaves a transaction to a recoverer only when there is one or
one is about to be started; and a recoverer leaves only when nothing is stored. -/
def UpToDate (c : Controller) : Action → Prop
  | .isServiceUp => c.state ≠ some .down → c.failing = 0
  | .createTxn _ => c.sending = .checked false → 0 < c.starting ∨ c.recoverer ≠ none
  | .onRecovered => c.txns = []
  | _ => True

/-! ## §3 What a step can do -/

/-- The steps one by one, with what has to hold for each. -/
inductive Step (c : Controller) : Action → Controller → Prop
  | send (hasEvents : Bool) : c.sending = .idle → Step c (.send hasEvents) { c with sending := .started hasEvents }
  | nothingToStore : c.sending = .started false → Step c .isServiceUp { c with sending := .idle }
  | isServiceUp (hasEvents : Bool) : c.sending = .started hasEvents →
      Step c .isServiceUp { c with sending := .checked (!c.isDown) }
  | createTxn (serviceIsUp : Bool) (skipped : ℕ) : c.sending = .checked serviceIsUp →
      Step c (.createTxn skipped) { c with
        txns := c.txns ++ [c.nextId + skipped]
        nextId := c.nextId + skipped + 1
        created := (c.nextId + skipped) :: c.created
        sending := if serviceIsUp then .attempting (c.nextId + skipped) else .idle }
  | attemptSucceeds (t : ℕ) : c.sending = .attempting t →
      Step c (.attempt true) { c.accept t with sending := .sent t }
  | attemptFails (t : ℕ) : c.sending = .attempting t →
      Step c (.attempt false) { c with sending := .idle, failing := c.failing + 1 }
  | complete (t : ℕ) : c.sending = .sent t → Step c .complete { c.delete t with sending := .idle }
  | setDown : 0 < c.failing → Step c .setDown
      { c with failing := c.failing - 1, starting := c.starting + 1, state := some .down }
  | startRecoverer : 0 < c.starting → Step c .startRecoverer
      { c with starting := c.starting - 1, recoverer := c.recoverer.or (some ⟨1, .scheduled⟩) }
  | retry (a : Action) (r : Recoverer) : c.recoverer = some r → r.retrying = .scheduled →
      Step c a (c.withRetrying r .asking)
  | refused : Step c .forceRetry c
  | oldest (r : Recoverer) (t : ℕ) : c.recoverer = some r → c.txns.min? = some t →
      Step c .getOldest (c.withRetrying r (.attempting t))
  | foundNone (r : Recoverer) : c.recoverer = some r → Step c .getOldest (c.withRetrying r .foundNone)
  | retrySucceeds (r : Recoverer) (t : ℕ) : c.recoverer = some r → r.retrying = .attempting t →
      Step c (.retryAttempt true) ((c.accept t).withRetrying r (.sent t))
  | retryFails (r : Recoverer) : c.recoverer = some r →
      Step c (.retryAttempt false) { c with recoverer := some r.backoff }
  | retryComplete (r : Recoverer) (t : ℕ) : c.recoverer = some r → r.retrying = .sent t →
      Step c .retryComplete ((c.delete t).withRetrying { r with backoffCounter := 1 } .asking)
  | onRecovered (r : Recoverer) : c.recoverer = some r →
      Step c .onRecovered { c with recoverer := none, recovered := c.recovered + 1 }
  | setUp : 0 < c.recovered → Step c .setUp { c with recovered := c.recovered - 1, state := some .up }

variable {c c' : Controller} {a : Action}

theorem Step.of_stepSend (h : c.stepSend a = some c') : Step c a c' := by
  cases a <;> simp only [stepSend] at h
  case send hasEvents =>
    split at h
    · rename_i hidle
      obtain rfl := Option.some.inj h
      exact .send hasEvents hidle
    · cases h
  case isServiceUp =>
    split at h
    · rename_i hasEvents hstarted
      split at h <;> obtain rfl := Option.some.inj h
      · rename_i hnothing
        obtain rfl : hasEvents = false := by simpa using (Bool.and_eq_true_iff.mp hnothing).2
        exact .nothingToStore hstarted
      · exact .isServiceUp hasEvents hstarted
    · cases h
  case createTxn skipped =>
    split at h
    · rename_i serviceIsUp hchecked
      obtain rfl := Option.some.inj h
      exact .createTxn serviceIsUp skipped hchecked
    · cases h
  case attempt succeeds =>
    split at h
    · rename_i t ht
      split at h <;> obtain rfl := Option.some.inj h
      · rename_i hsucceeds
        exact hsucceeds ▸ .attemptSucceeds t ht
      · rename_i hfails
        exact Bool.eq_false_of_not_eq_true hfails ▸ .attemptFails t ht
    · cases h
  case complete =>
    split at h
    · rename_i t ht
      obtain rfl := Option.some.inj h
      exact .complete t ht
    · cases h
  all_goals cases h

theorem Step.of_stepFail (h : c.stepFail a = some c') : Step c a c' := by
  cases a <;> simp only [stepFail] at h
  case setDown =>
    split at h
    · rename_i hfailing
      obtain rfl := Option.some.inj h
      exact .setDown hfailing
    · cases h
  case startRecoverer =>
    split at h
    · rename_i hstarting
      obtain rfl := Option.some.inj h
      exact .startRecoverer hstarting
    · cases h
  all_goals cases h

theorem Step.of_stepRecover (h : c.stepRecover a = some c') : Step c a c' := by
  unfold stepRecover at h
  cases hr : c.recoverer with
  | none =>
    cases a <;> simp only [hr] at h
    case forceRetry =>
      obtain rfl := Option.some.inj h
      exact .refused
    case setUp =>
      split at h
      · rename_i hrecovered
        obtain rfl := Option.some.inj h
        rw [← hr]
        exact .setUp hrecovered
      · cases h
    all_goals cases h
  | some r =>
    cases a <;> simp only [hr] at h
    case timer =>
      split at h
      · rename_i hscheduled
        obtain rfl := Option.some.inj h
        exact .retry _ r hr hscheduled
      · cases h
    case forceRetry =>
      split at h <;> obtain rfl := Option.some.inj h
      · rename_i hscheduled
        exact .retry _ r hr hscheduled
      · exact .refused
    case getOldest =>
      split at h
      · split at h <;> obtain rfl := Option.some.inj h
        · rename_i t ht
          exact .oldest r t hr ht
        · exact .foundNone r hr
      · cases h
    case retryAttempt succeeds =>
      split at h
      · rename_i t ht
        split at h <;> obtain rfl := Option.some.inj h
        · rename_i hsucceeds
          exact hsucceeds ▸ .retrySucceeds r t hr ht
        · rename_i hfails
          exact Bool.eq_false_of_not_eq_true hfails ▸ .retryFails r hr
      · cases h
    case retryComplete =>
      split at h
      · rename_i t ht
        obtain rfl := Option.some.inj h
        exact .retryComplete r t hr ht
      · cases h
    case onRecovered =>
      split at h
      · obtain rfl := Option.some.inj h
        exact .onRecovered r hr
      · cases h
    case setUp =>
      split at h
      · rename_i hrecovered
        obtain rfl := Option.some.inj h
        rw [← hr]
        exact .setUp hrecovered
      · cases h
    all_goals cases h

theorem Step.of_step (h : c.step a = some c') : Step c a c' := by
  rcases Option.or_eq_some_iff.mp h with h | ⟨-, h⟩
  · exact .of_stepSend h
  rcases Option.or_eq_some_iff.mp h with h | ⟨-, h⟩
  · exact .of_stepFail h
  · exact .of_stepRecover h

/-! ## §4 What has been accepted -/

/-- All transactions before `t` have been accepted, so that `t` may be. -/
def Due (created accepted : List ℕ) (t : ℕ) : Prop :=
  t ∈ created ∧ ∀ t' ∈ created, t' < t → t' ∈ accepted

theorem Due.accept {created accepted : List ℕ} {t : ℕ} (h : Due created accepted t) (x : ℕ) :
    Due created (x :: accepted) t :=
  ⟨h.1, fun t' ht' hlt => mem_cons_of_mem x (h.2 t' ht' hlt)⟩

/-- A later transaction makes no difference to those before it. -/
theorem Due.create {created accepted : List ℕ} {t n : ℕ} (h : Due created accepted t)
    (hn : ∀ x ∈ created, x < n) : Due (n :: created) accepted t := by
  refine ⟨mem_cons_of_mem n h.1, fun t' ht' hlt => ?_⟩
  rcases List.mem_cons.mp ht' with rfl | ht'
  · have htn := hn t h.1
    omega
  · exact h.2 t' ht' hlt

/-- A send has an attempt for a transaction that is due, and deletes one that was accepted. -/
def SendingOk (created accepted : List ℕ) : Sending → Prop
  | .attempting t => Due created accepted t
  | .sent t => t ∈ accepted
  | _ => True

/-- So does a retry. -/
def RetryingOk (created accepted : List ℕ) : Retrying → Prop
  | .attempting t => Due created accepted t
  | .sent t => t ∈ accepted
  | _ => True

/-- **The history is in order**, and what the tasks are about to do keeps it so. -/
structure History (c : Controller) : Prop where
  stored : ∀ t ∈ c.txns, t ∈ c.created
  issued : ∀ t ∈ c.created, t < c.nextId
  known : ∀ t ∈ c.accepted, t ∈ c.created
  kept : ∀ t ∈ c.created, t ∉ c.txns → t ∈ c.accepted
  ordered : ∀ t ∈ c.accepted, ∀ t' ∈ c.created, t' < t → t' ∈ c.accepted
  sending : SendingOk c.created c.accepted c.sending
  retrying : ∀ r, c.recoverer = some r → RetryingOk c.created c.accepted r.retrying

namespace History

variable {t : ℕ}

theorem accept (h : History c) (ht : Due c.created c.accepted t) : History (c.accept t) where
  stored := h.stored
  issued := h.issued
  known := List.forall_mem_cons.mpr ⟨ht.1, h.known⟩
  kept := fun x hx hnot => mem_cons_of_mem t (h.kept x hx hnot)
  ordered := by
    refine List.forall_mem_cons.mpr ⟨fun t' ht' hlt => ?_, fun x hx t' ht' hlt => ?_⟩
    · exact mem_cons_of_mem t (ht.2 t' ht' hlt)
    · exact mem_cons_of_mem t (h.ordered x hx t' ht' hlt)
  sending := by
    have hs := h.sending
    show SendingOk c.created (t :: c.accepted) c.sending
    cases hsending : c.sending <;> rw [hsending] at hs
    case attempting => exact hs.accept t
    case sent => exact mem_cons_of_mem t hs
    all_goals trivial
  retrying := by
    intro r hr
    have hs := h.retrying r hr
    show RetryingOk c.created (t :: c.accepted) r.retrying
    cases hretrying : r.retrying <;> rw [hretrying] at hs
    case attempting => exact hs.accept t
    case sent => exact mem_cons_of_mem t hs
    all_goals trivial

theorem delete (h : History c) (ht : t ∈ c.accepted) : History (c.delete t) where
  stored := fun x hx => h.stored x (List.mem_of_mem_filter hx)
  issued := h.issued
  known := h.known
  kept := by
    intro x hx hnot
    by_cases hxt : x = t
    · rw [hxt]
      exact ht
    refine h.kept x hx fun hin => hnot (List.mem_filter.mpr ⟨hin, ?_⟩)
    rw [decide_eq_true_eq]
    exact hxt
  ordered := h.ordered
  sending := h.sending
  retrying := h.retrying

/-- Only the tasks differ. -/
theorem tasks (h : History c) {c' : Controller} (htxns : c'.txns = c.txns) (hnext : c'.nextId = c.nextId)
    (hcreated : c'.created = c.created) (haccepted : c'.accepted = c.accepted)
    (hsending : SendingOk c.created c.accepted c'.sending)
    (hretrying : ∀ r, c'.recoverer = some r → RetryingOk c.created c.accepted r.retrying) : History c' where
  stored := by
    rw [htxns, hcreated]
    exact h.stored
  issued := by
    rw [hcreated, hnext]
    exact h.issued
  known := by
    rw [hcreated, haccepted]
    exact h.known
  kept := by
    rw [htxns, hcreated, haccepted]
    exact h.kept
  ordered := by
    rw [hcreated, haccepted]
    exact h.ordered
  sending := by
    rw [hcreated, haccepted]
    exact hsending
  retrying := by
    rw [hcreated, haccepted]
    exact hretrying

/-- The oldest transaction that is stored is due. -/
theorem due_of_min? (h : History c) (ht : c.txns.min? = some t) : Due c.created c.accepted t := by
  obtain ⟨hin, hmin⟩ := List.min?_eq_some_iff.mp ht
  refine ⟨h.stored t hin, fun t' ht' hlt => h.kept t' ht' fun hin' => ?_⟩
  have hle := hmin t' hin'
  omega

end History

/-! ## §5 Who is in charge -/

/-- The number of recoverers. -/
def registered (c : Controller) : ℕ := c.recoverer.elim 0 fun _ => 1

/-- A send that found the service up is under way. -/
def Direct : Sending → Prop
  | .checked serviceIsUp => serviceIsUp = true
  | .attempting _ => True
  | .sent _ => True
  | _ => False

/-- **One task at a time is in charge** of a service that is failing, down or recovering; while none is,
sends go straight to it. What is stored is in the hands of the send that stored it, or of a task that
starts a recoverer, or of the recoverer. -/
structure InCharge (c : Controller) : Prop where
  one : c.failing + c.starting + c.recovered + c.registered ≤ 1
  down : c.state = some .down ↔ 0 < c.starting + c.recovered + c.registered
  direct : Direct c.sending → c.failing + c.starting + c.recovered + c.registered = 0
  covered : ∀ t ∈ c.txns, c.sending = .attempting t ∨ c.sending = .sent t ∨
    0 < c.failing + c.starting + c.registered

theorem registered_of_some {r : Recoverer} (h : c.recoverer = some r) : c.registered = 1 := by
  rw [registered, h]
  rfl

theorem recoverer_eq_none (h : c.registered = 0) : c.recoverer = none := by
  cases hr : c.recoverer with
  | none => rfl
  | some r =>
    rw [registered_of_some hr] at h
    omega

theorem isDown_eq_true : c.isDown = true ↔ c.state = some .down := by
  rw [isDown, decide_eq_true_eq]

namespace InCharge

/-- A send that found the service up finds nothing stored. -/
theorem txns_eq_nil (h : InCharge c) (hchecked : c.sending = .checked true) : c.txns = [] := by
  refine List.eq_nil_iff_forall_not_mem.mpr fun t ht => ?_
  have hnone := h.direct (by rw [hchecked]; rfl)
  rcases h.covered t ht with hs | hs | hpos
  · rw [hchecked] at hs
    cases hs
  · rw [hchecked] at hs
    cases hs
  · omega

/-- A step of the recoverer that leaves it in charge. -/
theorem withRecoverer (h : InCharge c) {r r' : Recoverer} (hr : c.recoverer = some r) {c' : Controller}
    (hr' : c'.recoverer = some r') (hstate : c'.state = c.state) (hsending : c'.sending = c.sending)
    (hfailing : c'.failing = c.failing) (hstarting : c'.starting = c.starting)
    (hrecovered : c'.recovered = c.recovered) : InCharge c' := by
  have hreg : c'.registered = c.registered := by rw [registered_of_some hr, registered_of_some hr']
  have hpos := registered_of_some hr'
  refine ⟨?_, ?_, ?_, fun t ht => Or.inr (Or.inr (by omega))⟩
  · rw [hfailing, hstarting, hrecovered, hreg]
    exact h.one
  · rw [hstate, hstarting, hrecovered, hreg]
    exact h.down
  · rw [hsending, hfailing, hstarting, hrecovered, hreg]
    exact h.direct

/-- A step of a send that stores nothing. -/
theorem withSending (h : InCharge c) {c' : Controller} (hstate : c'.state = c.state)
    (hfailing : c'.failing = c.failing) (hstarting : c'.starting = c.starting)
    (hrecovered : c'.recovered = c.recovered) (hrecoverer : c'.recoverer = c.recoverer)
    (hdirect : Direct c'.sending → c.failing + c.starting + c.recovered + c.registered = 0)
    (hcovered : ∀ t ∈ c'.txns, c'.sending = .attempting t ∨ c'.sending = .sent t ∨
      0 < c.failing + c.starting + c.registered) : InCharge c' := by
  have hreg : c'.registered = c.registered := by rw [registered, hrecoverer, registered]
  refine ⟨?_, ?_, ?_, ?_⟩
  · rw [hfailing, hstarting, hrecovered, hreg]
    exact h.one
  · rw [hstate, hstarting, hrecovered, hreg]
    exact h.down
  · rw [hfailing, hstarting, hrecovered, hreg]
    exact hdirect
  · rw [hfailing, hstarting, hreg]
    exact hcovered

/-- What is stored while the send has nothing in hand is for others to send. -/
theorem covered_of_not_direct (h : InCharge c) (hidle : ∀ t, c.sending ≠ .attempting t ∧ c.sending ≠ .sent t)
    {t : ℕ} (ht : t ∈ c.txns) : 0 < c.failing + c.starting + c.registered := by
  rcases h.covered t ht with hs | hs | hpos
  · exact absurd hs (hidle t).1
  · exact absurd hs (hidle t).2
  · exact hpos

end InCharge

/-! ## §6 Steps and runs -/

/-- **Step lemma**: while the answers that tasks act on still hold, one task stays in charge. -/
theorem InCharge.step (h : InCharge c) (hok : c.UpToDate a) (hstep : Step c a c') : InCharge c' := by
  have hone := h.one
  cases hstep with
  | send hasEvents hidle =>
    refine h.withSending rfl rfl rfl rfl rfl False.elim fun t ht => Or.inr (Or.inr ?_)
    exact h.covered_of_not_direct (fun t => by simp [hidle]) ht
  | nothingToStore hstarted =>
    refine h.withSending rfl rfl rfl rfl rfl False.elim fun t ht => Or.inr (Or.inr ?_)
    exact h.covered_of_not_direct (fun t => by simp [hstarted]) ht
  | isServiceUp hasEvents hstarted =>
    refine h.withSending rfl rfl rfl rfl rfl (fun hup => ?_) fun t ht => Or.inr (Or.inr ?_)
    · -- the answer is that the service is up: nobody is failing either
      have hnot : c.state ≠ some .down := fun hdown => by
        rw [isDown_eq_true.mpr hdown] at hup
        cases hup
      have hfailing := hok hnot
      have hrest := mt h.down.mpr hnot
      omega
    · exact h.covered_of_not_direct (fun t => by simp [hstarted]) ht
  | createTxn serviceIsUp skipped hchecked =>
    cases serviceIsUp with
    | true =>
      have hnil := h.txns_eq_nil hchecked
      refine h.withSending rfl rfl rfl rfl rfl (fun _ => h.direct (by rw [hchecked]; rfl)) fun t ht => ?_
      obtain rfl : t = c.nextId + skipped := by simpa [hnil] using ht
      exact Or.inl rfl
    | false =>
      -- left to a recoverer that is there, or about to be started
      have hpos : 0 < c.starting + c.registered := by
        rcases hok hchecked with hstarting | hne
        · omega
        obtain ⟨r, hr⟩ := Option.ne_none_iff_exists'.mp hne
        have hreg := registered_of_some hr
        omega
      refine h.withSending rfl rfl rfl rfl rfl False.elim fun t _ => Or.inr (Or.inr ?_)
      omega
  | attemptSucceeds t ht =>
    refine h.withSending rfl rfl rfl rfl rfl (fun _ => h.direct (by rw [ht]; trivial)) fun t' ht' => ?_
    rcases h.covered t' ht' with hs | hs | hpos
    · obtain rfl : t = t' := Sending.attempting.inj (ht.symm.trans hs)
      exact Or.inr (Or.inl rfl)
    · rw [ht] at hs
      cases hs
    · exact Or.inr (Or.inr hpos)
  | attemptFails t ht =>
    have hnone := h.direct (by rw [ht]; trivial)
    refine ⟨?_, ?_, False.elim, fun t' ht' => Or.inr (Or.inr ?_)⟩
    · show c.failing + 1 + c.starting + c.recovered + c.registered ≤ 1
      omega
    · exact h.down
    · show 0 < c.failing + 1 + c.starting + c.registered
      omega
  | complete t ht =>
    refine h.withSending rfl rfl rfl rfl rfl False.elim fun t' ht' => ?_
    -- the one that was stored is gone
    obtain ⟨hin, hne⟩ := List.mem_filter.mp ht'
    rcases h.covered t' hin with hs | hs | hpos
    · rw [ht] at hs
      cases hs
    · obtain rfl : t = t' := Sending.sent.inj (ht.symm.trans hs)
      exact absurd rfl (of_decide_eq_true hne)
    · omega
  | setDown hfailing =>
    refine ⟨?_, ?_, ?_, fun t ht => Or.inr (Or.inr ?_)⟩
    · show c.failing - 1 + (c.starting + 1) + c.recovered + c.registered ≤ 1
      omega
    · show some ServiceState.down = some .down ↔ 0 < c.starting + 1 + c.recovered + c.registered
      exact iff_of_true rfl (by omega)
    · intro hdirect
      have hnone := h.direct hdirect
      omega
    · show 0 < c.failing - 1 + (c.starting + 1) + c.registered
      omega
  | startRecoverer hstarting =>
    have hnone : c.recoverer = none := recoverer_eq_none (by omega)
    have hdown := h.down.mpr (by omega)
    rw [hnone, Option.none_or]
    refine ⟨?_, ?_, ?_, fun t ht => Or.inr (Or.inr ?_)⟩
    · show c.failing + (c.starting - 1) + c.recovered + 1 ≤ 1
      omega
    · show c.state = some .down ↔ 0 < c.starting - 1 + c.recovered + 1
      exact iff_of_true hdown (by omega)
    · intro hdirect
      have hnone := h.direct hdirect
      omega
    · show 0 < c.failing + (c.starting - 1) + 1
      omega
  | retry a r hr hscheduled => exact h.withRecoverer hr rfl rfl rfl rfl rfl rfl
  | refused => exact h
  | oldest r t hr ht => exact h.withRecoverer hr rfl rfl rfl rfl rfl rfl
  | foundNone r hr => exact h.withRecoverer hr rfl rfl rfl rfl rfl rfl
  | retrySucceeds r t hr ht => exact h.withRecoverer hr rfl rfl rfl rfl rfl rfl
  | retryFails r hr => exact h.withRecoverer hr rfl rfl rfl rfl rfl rfl
  | retryComplete r t hr ht => exact h.withRecoverer hr rfl rfl rfl rfl rfl rfl
  | onRecovered r hr =>
    have hreg := registered_of_some hr
    have hnil : c.txns = [] := hok
    refine ⟨?_, ?_, ?_, fun t ht => ?_⟩
    · show c.failing + c.starting + (c.recovered + 1) + 0 ≤ 1
      omega
    · show c.state = some .down ↔ 0 < c.starting + (c.recovered + 1) + 0
      exact iff_of_true (h.down.mpr (by omega)) (by omega)
    · intro hdirect
      have hnone := h.direct hdirect
      omega
    · have ht : t ∈ c.txns := ht
      rw [hnil] at ht
      exact absurd ht List.not_mem_nil
  | setUp hrecovered =>
    refine ⟨?_, ?_, ?_, h.covered⟩
    · show c.failing + c.starting + (c.recovered - 1) + c.registered ≤ 1
      omega
    · show some ServiceState.up = some .down ↔ 0 < c.starting + (c.recovered - 1) + c.registered
      exact iff_of_false (by decide) (by omega)
    · intro hdirect
      have hnone := h.direct hdirect
      omega

/-- **Step lemma**: the history stays in order. -/
theorem History.step (h : History c) (hcharge : InCharge c) (hstep : Step c a c') : History c' := by
  have hretrying : ∀ {r : Recoverer} {retrying : Retrying} {created accepted : List ℕ},
      RetryingOk created accepted retrying → ∀ r', some { r with retrying } = some r' →
        RetryingOk created accepted r'.retrying := by
    rintro r retrying created accepted hok r' hr'
    obtain rfl := Option.some.inj hr'
    exact hok
  cases hstep with
  | send hasEvents hidle => exact h.tasks rfl rfl rfl rfl trivial h.retrying
  | nothingToStore hstarted => exact h.tasks rfl rfl rfl rfl trivial h.retrying
  | isServiceUp hasEvents hstarted => exact h.tasks rfl rfl rfl rfl trivial h.retrying
  | createTxn serviceIsUp skipped hchecked =>
    have hnew : ∀ x ∈ c.created, x < c.nextId + skipped := fun x hx =>
      Nat.lt_add_right skipped (h.issued x hx)
    refine ⟨?_, ?_, ?_, ?_, ?_, ?_, ?_⟩
    · intro t ht
      rcases List.mem_append.mp ht with ht | ht
      · exact mem_cons_of_mem _ (h.stored t ht)
      · rw [List.mem_singleton.mp ht]
        exact mem_cons_self
    · refine List.forall_mem_cons.mpr ⟨Nat.lt_succ_self _, fun x hx => ?_⟩
      exact (hnew x hx).trans (Nat.lt_succ_self _)
    · exact fun t ht => mem_cons_of_mem _ (h.known t ht)
    · intro t ht hnot
      rcases List.mem_cons.mp ht with rfl | ht
      · exact absurd (List.mem_append_right _ mem_cons_self) hnot
      · exact h.kept t ht fun hin => hnot (List.mem_append_left _ hin)
    · intro t ht t' ht' hlt
      rcases List.mem_cons.mp ht' with rfl | ht'
      · have hle := hnew t (h.known t ht)
        omega
      · exact h.ordered t ht t' ht' hlt
    · cases serviceIsUp with
      | false => trivial
      | true =>
        -- nothing else is stored, so everything before it was accepted
        have hnil := hcharge.txns_eq_nil hchecked
        refine ⟨mem_cons_self, fun t' ht' hlt => ?_⟩
        rcases List.mem_cons.mp ht' with rfl | ht'
        · omega
        · exact h.kept t' ht' (by rw [hnil]; exact List.not_mem_nil)
    · intro r hr
      have hs := h.retrying r hr
      show RetryingOk ((c.nextId + skipped) :: c.created) c.accepted r.retrying
      cases hphase : r.retrying <;> rw [hphase] at hs
      case attempting => exact hs.create hnew
      case sent => exact hs
      all_goals trivial
  | attemptSucceeds t ht =>
    have hs := h.sending
    rw [ht] at hs
    have haccept := h.accept hs
    exact haccept.tasks rfl rfl rfl rfl mem_cons_self haccept.retrying
  | attemptFails t ht => exact h.tasks rfl rfl rfl rfl trivial h.retrying
  | complete t ht =>
    have hs := h.sending
    rw [ht] at hs
    exact (h.delete hs).tasks rfl rfl rfl rfl trivial h.retrying
  | setDown hfailing => exact h.tasks rfl rfl rfl rfl h.sending h.retrying
  | startRecoverer hstarting =>
    refine h.tasks rfl rfl rfl rfl h.sending fun r hr => ?_
    rcases Option.or_eq_some_iff.mp hr with hr | ⟨-, hr⟩
    · exact h.retrying r hr
    · obtain rfl := Option.some.inj hr
      trivial
  | retry a r hr hscheduled => exact h.tasks rfl rfl rfl rfl h.sending (hretrying trivial)
  | refused => exact h
  | oldest r t hr ht => exact h.tasks rfl rfl rfl rfl h.sending (hretrying (h.due_of_min? ht))
  | foundNone r hr => exact h.tasks rfl rfl rfl rfl h.sending (hretrying trivial)
  | retrySucceeds r t hr ht =>
    have hs := h.retrying r hr
    rw [ht] at hs
    have haccept := h.accept hs
    exact haccept.tasks rfl rfl rfl rfl haccept.sending (hretrying mem_cons_self)
  | retryFails r hr =>
    refine h.tasks rfl rfl rfl rfl h.sending fun r' hr' => ?_
    obtain rfl := Option.some.inj hr'
    trivial
  | retryComplete r t hr ht =>
    have hs := h.retrying r hr
    rw [ht] at hs
    exact (h.delete hs).tasks rfl rfl rfl rfl h.sending (hretrying trivial)
  | onRecovered r hr => exact h.tasks rfl rfl rfl rfl h.sending fun r' hr' => by cases hr'
  | setUp hrecovered => exact h.tasks rfl rfl rfl rfl h.sending h.retrying

theorem Start.inCharge (h : Start c) : InCharge c := by
  obtain ⟨hidle, hfailing, hstarting, hrecovered⟩ := h.idle
  have hnone : ¬ Direct c.sending := by
    rw [hidle]
    exact id
  by_cases hdown : c.state = some .down
  · have hreg := registered_of_some (h.down hdown)
    refine ⟨by omega, iff_of_true hdown (by omega), fun hd => absurd hd hnone, fun t _ => ?_⟩
    exact Or.inr (Or.inr (by omega))
  obtain ⟨hnorec, hnil⟩ := h.notDown hdown
  have hreg : c.registered = 0 := by rw [registered, hnorec]; rfl
  refine ⟨by omega, iff_of_false hdown (by omega), fun hd => absurd hd hnone, fun t ht => ?_⟩
  rw [hnil] at ht
  exact absurd ht List.not_mem_nil

theorem Start.history (h : Start c) : History c where
  stored := h.stored
  issued := h.issued
  known := h.known
  kept := h.kept
  ordered := h.ordered
  sending := by
    rw [h.idle.1]
    trivial
  retrying := by
    intro r hr
    by_cases hdown : c.state = some .down
    · obtain rfl := Option.some.inj ((h.down hdown).symm.trans hr)
      trivial
    · rw [(h.notDown hdown).1] at hr
      cases hr

theorem safe_of_inCharge (hhistory : History c) (h : InCharge c) : Safe c where
  ordered := hhistory.ordered
  kept := hhistory.kept
  delivered := by
    rintro ⟨hidle, hfailing, hstarting, -, hnone⟩
    have hreg : c.registered = 0 := by rw [registered, hnone]; rfl
    refine List.eq_nil_iff_forall_not_mem.mpr fun t ht => ?_
    have hpos := h.covered_of_not_direct (fun t => by simp [hidle]) ht
    omega

/-- **Delivery in order, and nothing stranded**: in every run whose tasks act on answers that still hold,
every state is safe. -/
theorem safe_of_upToDate (start : Controller) (hstart : Start start) (actions : List Action)
    (hok : Along step UpToDate start actions) (c : Controller) (hrun : start.run actions = some c) :
    Safe c := by
  have hinv : History c ∧ InCharge c := by
    refine Along.invariant (fun c => History c ∧ InCharge c) (fun s a t hs ha hst => ?_)
      ⟨hstart.history, hstart.inCharge⟩ hok hrun
    have hstep := Step.of_step hst
    exact ⟨hs.1.step hs.2 hstep, hs.2.step ha hstep⟩
  exact safe_of_inCharge hinv.1 hinv.2

/-! ### Runs -/

instance (c : Controller) : (a : Action) → Decidable (c.UpToDate a)
  | .isServiceUp => inferInstanceAs (Decidable (_ → _))
  | .createTxn _ => inferInstanceAs (Decidable (_ → _ ∨ _))
  | .onRecovered => inferInstanceAs (Decidable (_ = _))
  | .send _ | .attempt _ | .complete | .setDown | .startRecoverer | .timer | .forceRetry | .getOldest
  | .retryAttempt _ | .retryComplete | .setUp => isTrue trivial

instance (c : Controller) : Decidable c.Quiet := inferInstanceAs (Decidable (_ ∧ _))

/-- A service that nothing has been sent to yet. -/
def fresh : Controller := ⟨none, [], 1, .idle, 0, 0, none, 0, [], []⟩

theorem fresh_start : Start fresh := by
  constructor <;> simp [fresh]

/-- A transaction is stored, and the attempt fails. -/
def failedSend : List Action := [.send true, .isServiceUp, .createTxn 0, .attempt false]

/-- The service is marked as down, and a recoverer delivers what is stored. -/
def recovery : List Action :=
  [.setDown, .startRecoverer, .timer, .getOldest, .retryAttempt true, .retryComplete, .getOldest]

theorem safe_of_upToDate_example :
    ∃ c, fresh.run (failedSend ++ recovery ++ [.onRecovered, .setUp]) = some c ∧ Safe c := by
  refine ⟨_, rfl, ?_⟩
  exact safe_of_upToDate fresh fresh_start (failedSend ++ recovery ++ [.onRecovered, .setUp])
    (by decide +kernel) _ rfl

/-- A second send goes ahead before the failure of the first one is recorded, and overtakes it; and a
transaction that is left to a recoverer is stored after the recoverer found nothing more to send. -/
theorem overtakes_and_strands :
    (∃ c, fresh.run (failedSend ++ [.send true, .isServiceUp, .createTxn 0, .attempt true]) = some c ∧
      ¬ Safe c) ∧
    ∃ c, fresh.run (failedSend ++ recovery ++
      [.send true, .isServiceUp, .onRecovered, .createTxn 0, .setUp]) = some c ∧ c.Quiet ∧ c.txns = [2] ∧
      ¬ Safe c := by
  refine ⟨⟨_, rfl, fun h => ?_⟩, _, rfl, by decide +kernel, by decide +kernel, fun h => ?_⟩
  · exact absurd (h.ordered 2 (by decide +kernel) 1 (by decide +kernel) (by decide)) (by decide +kernel)
  · exact absurd (h.delivered (by decide +kernel)) (by decide +kernel)

end Controller

end Setka.Appservice
