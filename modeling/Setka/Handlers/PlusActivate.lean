/-
# Setka.Handlers.PlusActivate — when an activation goes through.

`activate_subscription` reads two values of the user's account data and writes both. It goes through
exactly when both can be read and the payment has an id; nothing that it computes in between raises.
-/
import Setka.Handlers.PlusCredit

namespace Setka.Handlers.Plus

open Setka.Api Setka.Lib Setka.Lib.Action

/-! ## §1 Reading account data -/

/-- What is stored for the user can be read: neither the subscription nor the payments hold a number
that Python cannot convert. -/
def Readable (cfg : Config) (now : ℤ) (s : State) (userId : String) : Prop :=
  (∃ sub, getSubscription cfg now s userId = .ok sub) ∧
  ∃ payments, getPayments now s userId = .ok payments

variable {now : ℤ} {s : State} {userId : String}

theorem getPayments_congr {t : State} (h : t.accountData userId paymentsType = s.accountData userId paymentsType) :
    getPayments now t userId = getPayments now s userId := by
  unfold getPayments
  rw [h]

variable {cfg : Config}

theorem getSubscription_congr {t : State}
    (h : t.accountData userId subscriptionType = s.accountData userId subscriptionType) :
    getSubscription cfg now t userId = getSubscription cfg now s userId := by
  unfold getSubscription
  rw [h]

/-- Whether a subscription can be read does not depend on the time. -/
theorem normalizeSubscription_ok_of_ok {raw : Option (List (String × Json))} {sub : Subscription}
    (h : normalizeSubscription cfg now raw = .ok sub) (later : ℤ) :
    ∃ sub', normalizeSubscription cfg later raw = .ok sub' := by
  cases raw with
  | none => exact ⟨_, rfl⟩
  | some raw =>
    simp only [normalizeSubscription, except_bind_eq_ok] at h ⊢
    obtain ⟨startedAt, hstarted, expiry, hexpiry, updatedAt, hupdated, amount, hamount, days, hdays,
      price, hprice, -⟩ := h
    exact ⟨_, startedAt, hstarted, expiry, hexpiry, updatedAt, hupdated, amount, hamount, days,
      hdays, price, hprice, rfl⟩

theorem paymentsType_ne_subscriptionType : paymentsType ≠ subscriptionType := by decide

theorem getPayments_addSubscription (now : ℤ) (s : State) (userId u : String) (content : List (String × Json)) :
    getPayments now (s.addAccountData userId subscriptionType content) u = getPayments now s u := by
  apply getPayments_congr
  rw [accountData_addAccountData, if_neg]
  exact fun h => paymentsType_ne_subscriptionType h.2

/-! ## §2 Recording a payment -/

/-- The state after an entry was put in front of the payments read before. -/
def State.recorded (s : State) (userId : String) (entry : Payment) (current : List Payment) : State :=
  { s.addAccountData userId paymentsType
      [("payments", .arr (((entry :: current.filter fun item => item.paymentId ≠ entry.paymentId).take
        100).map Payment.toJson))] with
    payanywayPendingUsers := indexPending userId entry s.payanywayPendingUsers }

variable {payment : PaymentArgs}

/-- **What `record_payment` does**, once the payments can be read and the id and the status are not
blank. -/
theorem recordPayment_run {paymentId status : String} {current : List Payment}
    (hcurrent : getPayments now s userId = .ok current)
    (hid : cleanStr 255 (some (.str payment.paymentId)) = some paymentId)
    (hstatus : cleanStr 32 (some (.str payment.status)) = some status) :
    (recordPayment now userId payment).run s = (.ok (), s.recorded userId
        (payment.entry now paymentId status (current.find? fun item => item.paymentId = paymentId))
        current) := by
  have hread : (Action.reads fun s => getPayments now s userId).run s = (.ok current, s) := by
    rw [run_reads, hcurrent]
  unfold recordPayment
  rw [run_bind_of_ok hread, hid, hstatus]
  rfl

theorem recordPayment_of_error {e : Error} (h : getPayments now s userId = .error e) :
    (recordPayment now userId payment).run s = (.error e, s) := by
  have hread : (Action.reads fun s => getPayments now s userId).run s = (.error e, s) := by
    rw [run_reads, h]
  exact run_bind_of_error hread _

theorem recordPayment_of_blank (h : cleanStr 255 (some (.str payment.paymentId)) = none) :
    ∃ e, (recordPayment now userId payment).run s = (.error e, s) := by
  cases hcurrent : getPayments now s userId with
  | error e => exact ⟨e, recordPayment_of_error hcurrent⟩
  | ok current =>
    have hread : (Action.reads fun s => getPayments now s userId).run s = (.ok current, s) := by
      rw [run_reads, hcurrent]
    refine ⟨.synapseError 400 "payment_id and status are required" "M_INVALID_PARAM", ?_⟩
    unfold recordPayment
    rw [run_bind_of_ok hread, h]
    rfl

/-! ## §3 Activating -/

/-- The entry that an activation records. -/
def Activation.paymentArgs (now : ℤ) (a : Activation) (plan : Plan) : PaymentArgs where
  paymentId := a.paymentId
  status := "success"
  provider := a.paymentProvider
  createdAt := now
  amount := some (a.effectiveAmount plan)
  currency := some a.currency
  requestId := none
  label := none
  planId := some plan.id
  message := none
  assistantFields := none

theorem cleanStr_success : cleanStr 32 (some (.str "success")) = some "success" := by decide

/-- The subscription that an activation writes can be read back. -/
theorem normalizeSubscription_payload (cfg : Config) (now : ℤ) (a : Activation) (plan : Plan)
    (existing : Subscription) :
    ∃ sub, normalizeSubscription cfg now (some (a.payload now plan existing)) = .ok sub :=
  ⟨_, rfl⟩

/-- Once the subscription was read, the new one is stored and the payment is recorded. -/
theorem activateSubscription_run {a : Activation} {existing : Subscription}
    (h : getSubscription cfg now s a.userId = .ok existing) : (activateSubscription cfg now a).run s =
      (recordPayment now a.userId (a.paymentArgs now (cfg.plans.resolvePlan a.planId)) >>= fun _ =>
        .lift (normalizeSubscription cfg now (some (a.payload now (cfg.plans.resolvePlan a.planId) existing)))).run
        (s.addAccountData a.userId subscriptionType (a.payload now (cfg.plans.resolvePlan a.planId) existing)) := by
  unfold activateSubscription
  rw [run_bind_of_ok (run_getSubscription h), run_bind_of_ok (run_modify _ _)]
  rfl

/-- **An activation goes through** exactly when the user's account data can be read and the payment id
is not blank. -/
theorem activateSubscription_ok_iff {a : Activation} :
    (∃ sub t, (activateSubscription cfg now a).run s = (.ok sub, t)) ↔
      Readable cfg now s a.userId ∧ cleanStr 255 (some (.str a.paymentId)) ≠ none := by
  cases hsub : getSubscription cfg now s a.userId with
  | error e =>
    rw [activateSubscription_of_error hsub]
    constructor
    · rintro ⟨sub, t, h⟩
      exact absurd (congrArg Prod.fst h) (by simp)
    · rintro ⟨⟨⟨sub, h⟩, -⟩, -⟩
      exact absurd (hsub.symm.trans h) (by simp)
  | ok existing =>
    have hpayments := getPayments_addSubscription now s a.userId a.userId
      (a.payload now (cfg.plans.resolvePlan a.planId) existing)
    rw [activateSubscription_run hsub]
    cases hid : cleanStr 255 (some (.str a.paymentId)) with
    | none =>
      have hblank : ∃ e, (recordPayment now a.userId (a.paymentArgs now (cfg.plans.resolvePlan a.planId))).run
          (s.addAccountData a.userId subscriptionType
            (a.payload now (cfg.plans.resolvePlan a.planId) existing)) = (.error e, _) :=
        recordPayment_of_blank hid
      obtain ⟨e, he⟩ := hblank
      rw [run_bind_of_error he]
      constructor
      · rintro ⟨sub, t, h⟩
        exact absurd (congrArg Prod.fst h) (by simp)
      · rintro ⟨-, h⟩
        exact absurd rfl h
    | some paymentId =>
      cases hcurrent : getPayments now s a.userId with
      | error e =>
        rw [run_bind_of_error (recordPayment_of_error (hpayments.trans hcurrent))]
        constructor
        · rintro ⟨sub, t, h⟩
          exact absurd (congrArg Prod.fst h) (by simp)
        · rintro ⟨⟨-, current, h⟩, -⟩
          exact absurd (hcurrent.symm.trans h) (by simp)
      | ok current =>
        obtain ⟨sub, hnormal⟩ := normalizeSubscription_payload cfg now a (cfg.plans.resolvePlan a.planId) existing
        have hrecord : (recordPayment now a.userId (a.paymentArgs now (cfg.plans.resolvePlan a.planId))).run
            (s.addAccountData a.userId subscriptionType
              (a.payload now (cfg.plans.resolvePlan a.planId) existing)) = (.ok (), _) :=
          recordPayment_run (hpayments.trans hcurrent) hid cleanStr_success
        rw [run_bind_of_ok hrecord, run_lift, hnormal]
        constructor
        · intro _
          exact ⟨⟨⟨existing, hsub⟩, current, hcurrent⟩, by simp⟩
        · intro _
          exact ⟨sub, _, rfl⟩

end Setka.Handlers.Plus
