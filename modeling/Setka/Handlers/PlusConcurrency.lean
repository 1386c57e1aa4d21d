/-
# Setka.Handlers.PlusConcurrency — two operations on one user's account data.

Nothing keeps two requests of a user apart: each reads a value, computes, and writes the whole value
back. Where the accesses that conflict happen in one order, the account data end up as after the
operations one by one; otherwise one of them may overwrite what the other has written.
-/
import Setka.Handlers.PlusSteps

namespace Setka.Handlers.Plus

open Setka.Api Setka.Lib

/-! ## §1 Two operations -/

/-- An operation that changes the account data of a user, with the time at which it is called. -/
inductive Operation
  | activateSubscription (now : ℤ) (a : Activation)
  | recordPayment (now : ℤ) (payment : PaymentArgs)
  | markPaymentFailed (now : ℤ) (paymentId message : String)
  | setSubscription (now : ℤ) (updates : List (String × Json))
  | upsertStickerPack (now : ℤ) (a : UpsertArgs)
  | deleteStickerPack (now : ℤ) (readIds : ℕ → ℕ → Uuid) (packId : String) (adminOverride : Bool)

/-- The operation, without interruption. -/
def Operation.action (cfg : Config) (uni : PyStr.Unicode) (userId : String) : Operation → Action State Error Unit
  | activateSubscription now a => do
      let _ ← Plus.activateSubscription cfg now { a with userId }
      pure ()
  | recordPayment now payment => Plus.recordPayment now userId payment
  | markPaymentFailed now paymentId message => Plus.markPaymentFailed now userId paymentId message
  | setSubscription now updates => do
      let _ ← Plus.setSubscription cfg now userId updates
      pure ()
  | upsertStickerPack now a => do
      let _ ← Plus.upsertStickerPack cfg uni now userId a
      pure ()
  | deleteStickerPack now readIds packId adminOverride =>
    Plus.deleteStickerPack uni now readIds userId packId adminOverride

/-- The operation, access by access. -/
def Operation.steps (cfg : Config) (uni : PyStr.Unicode) (userId : String) : Operation → Steps Unit
  | activateSubscription now a => do
      let _ ← activateSubscriptionSteps cfg now { a with userId }
      pure ()
  | recordPayment now payment => recordPaymentSteps now userId payment
  | markPaymentFailed now paymentId message => markPaymentFailedSteps now userId paymentId message
  | setSubscription now updates => do
      let _ ← setSubscriptionSteps cfg now userId updates
      pure ()
  | upsertStickerPack now a => do
      let _ ← upsertStickerPackSteps cfg uni now userId a
      pure ()
  | deleteStickerPack now readIds packId adminOverride =>
    deleteStickerPackSteps uni now readIds userId packId adminOverride

theorem Operation.refines (cfg : Config) (uni : PyStr.Unicode) (userId : String) (op : Operation) :
    Refines (op.action cfg uni userId) (op.steps cfg uni userId) := by
  cases op with
  | activateSubscription now a =>
    exact (refines_activateSubscription cfg now _).bind fun _ => refines_pure ()
  | recordPayment now payment => exact refines_recordPayment now userId payment
  | markPaymentFailed now paymentId message =>
    exact refines_markPaymentFailed now userId paymentId message
  | setSubscription now updates =>
    exact (refines_setSubscription cfg now userId updates).bind fun _ => refines_pure ()
  | upsertStickerPack now a =>
    exact (refines_upsertStickerPack cfg uni now userId a).bind fun _ => refines_pure ()
  | deleteStickerPack now readIds packId adminOverride =>
    exact refines_deleteStickerPack uni now readIds userId packId adminOverride

/-- Two operations of one user that are under way: `true` is the first of them, `false` the second. -/
def together (cfg : Config) (uni : PyStr.Unicode) (userId : String) (first second : Operation)
    (s : State) : Shared Bool (String × String) (Option (List (String × Json))) Error Unit where
  procs i := (if i then first else second).steps cfg uni userId
  store := s.store

/-- The state after one operation and then another. -/
def oneByOne (cfg : Config) (uni : PyStr.Unicode) (userId : String) (first second : Operation)
    (s : State) : State :=
  ((second.action cfg uni userId).run ((first.action cfg uni userId).run s).2).2

/-- **The outcome of some order**: the subscription, the payments and the packs are those after the
operations one by one. -/
def SomeOrder (cfg : Config) (uni : PyStr.Unicode) (userId : String) (first second : Operation)
    (s : State) (store : String × String → Option (List (String × Json))) : Prop :=
  (∀ type ∈ [subscriptionType, paymentsType, stickerPacksType],
    store (userId, type) = (oneByOne cfg uni userId first second s).accountData userId type) ∨
  ∀ type ∈ [subscriptionType, paymentsType, stickerPacksType],
    store (userId, type) = (oneByOne cfg uni userId second first s).accountData userId type

/-! ## §2 Conflicts in one order -/

/-- No access of operation `i` comes after an access of the other that it conflicts with. -/
def GoesFirst (i : Bool) (trace : List (Bool × Access (String × String))) : Prop :=
  trace.Pairwise fun x y => x.1 = !i → y.1 = i → ¬ x.2.Conflicts y.2

instance (i : Bool) (trace : List (Bool × Access (String × String))) : Decidable (GoesFirst i trace) :=
  inferInstanceAs (Decidable (List.Pairwise _ _))

theorem agrees_of_goesFirst {i : Bool} {trace : List (Bool × Access (String × String))}
    (h : GoesFirst i trace) : Shared.Agrees [i, !i] trace := by
  apply h.imp
  rintro x y hxy ⟨l₁, l₂, hl, hmem⟩
  apply hxy
  · rcases l₁ with _ | ⟨a, _ | ⟨b, l₁⟩⟩
    · cases hmem
    · simp only [List.cons_append, List.nil_append, List.cons.injEq] at hl
      exact hl.2.1.symm
    · simp at hl
  · rcases l₁ with _ | ⟨a, _ | ⟨b, l₁⟩⟩
    · cases hmem
    · simp only [List.cons_append, List.nil_append, List.cons.injEq] at hl
      rw [List.mem_singleton.mp hmem, hl.1]
    · simp at hl

theorem store_run {cfg : Config} {uni : PyStr.Unicode} {userId : String} (op : Operation) (s : State) :
    ((op.steps cfg uni userId).run s.store).2 = ((op.action cfg uni userId).run s).2.store :=
  (congrArg Prod.snd (op.refines cfg uni userId s)).symm

/-- One operation and then another, as programs and as methods. -/
theorem serial_together (cfg : Config) (uni : PyStr.Unicode) (userId : String)
    (first second : Operation) (s : State) :
    serial (together cfg uni userId first second s).procs [true, false] s.store =
        (oneByOne cfg uni userId first second s).store ∧
      serial (together cfg uni userId first second s).procs [false, true] s.store =
        (oneByOne cfg uni userId second first s).store := by
  constructor
  · show ((second.steps cfg uni userId).run ((first.steps cfg uni userId).run s.store).2).2 = _
    rw [store_run, store_run]
    rfl
  show ((first.steps cfg uni userId).run ((second.steps cfg uni userId).run s.store).2).2 = _
  rw [store_run, store_run]
  rfl

/-- **Conflicts in one order lose nothing.** -/
theorem someOrder_of_goesFirst {cfg : Config} {uni : PyStr.Unicode} {userId : String}
    {first second : Operation} {s : State} {turns : List Bool}
    (hdone : ((together cfg uni userId first second s).run turns).Done)
    (h : GoesFirst true ((together cfg uni userId first second s).trace turns) ∨
      GoesFirst false ((together cfg uni userId first second s).trace turns)) :
    SomeOrder cfg uni userId first second s ((together cfg uni userId first second s).run turns).store := by
  obtain ⟨hfirst, hsecond⟩ := serial_together cfg uni userId first second s
  rcases h with h | h
  · obtain ⟨hstore, -⟩ := Shared.store_run_of_agrees (by decide) (by decide) hdone (agrees_of_goesFirst h)
    left
    intro type _
    rw [hstore]
    exact congrFun hfirst (userId, type)
  · obtain ⟨hstore, -⟩ := Shared.store_run_of_agrees (by decide) (by decide) hdone (agrees_of_goesFirst h)
    right
    intro type _
    rw [hstore]
    exact congrFun hsecond (userId, type)

/-- A month that is paid for. -/
def exampleMonth (paymentId : String) : Operation :=
  .activateSubscription 1700000000000
    { userId := "@user:server"
      paymentId
      paymentProvider := "robokassa"
      amount := .finite 299
      planId := none
      durationDays := some 30
      currency := "RUB" }

/-- A payment is recorded while a month is activated, before the activation gets to the payments. -/
theorem someOrder_of_goesFirst_example : SomeOrder exampleConfig asciiTables "@user:server" (exampleMonth "1")
      (.markPaymentFailed 1700000000000 "2" "canceled") exampleState
      ((together exampleConfig asciiTables "@user:server" (exampleMonth "1")
        (.markPaymentFailed 1700000000000 "2" "canceled") exampleState).run
          [true, false, true, true, true]).store := by
  apply someOrder_of_goesFirst
  · intro i
    cases i <;> decide +kernel
  · right
    decide +kernel

/-- **Two months that are paid for at once are one month.** -/
theorem paid_month_lost : ¬ ∀ (first second : Operation) (turns : List Bool),
    ((together exampleConfig asciiTables "@user:server" first second exampleState).run turns).Done →
    SomeOrder exampleConfig asciiTables "@user:server" first second exampleState
      ((together exampleConfig asciiTables "@user:server" first second exampleState).run turns).store := by
  intro h
  have hdone : ((together exampleConfig asciiTables "@user:server" (exampleMonth "1")
      (exampleMonth "2") exampleState).run [true, false, true, false, true, true, false, false]).Done := by
    intro i
    cases i <;> decide +kernel
  have hsub : subscriptionType ∈ [subscriptionType, paymentsType, stickerPacksType] :=
    List.mem_cons_self
  rcases h _ _ _ hdone with horder | horder
  · have hexpiry := congrArg storedExpiry (horder subscriptionType hsub)
    revert hexpiry
    decide +kernel
  have hexpiry := congrArg storedExpiry (horder subscriptionType hsub)
  revert hexpiry
  decide +kernel

end Setka.Handlers.Plus
