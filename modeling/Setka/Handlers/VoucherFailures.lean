/-
# Setka.Handlers.VoucherFailures — a redemption whose activation fails.

`redeem_voucher` first commits a transaction that takes the redemption, and then activates the subscription by
writes to the account data, each of which may fail. Nothing gives the redemption back. So a call that raises leaves
everything as it was exactly when it raises in the transaction.
-/
import Setka.Handlers.PlusSteps
import Setka.Handlers.VoucherRedeem
import Setka.Lib.Faults

namespace Setka.Handlers.Plus

open Setka.Api Setka.Lib Setka.Lib.Action Prog

/-! ## §1 Accesses that fail -/

/-- What an access to the account data raises, if it fails. -/
abbrev Faults : Type := Access (String × String) → Option Error

/-- An operation on the account data, access by access, where accesses may fail. -/
def onStore {α : Type} (fault : Faults) (p : Steps α) : Action VoucherState Error α :=
  ⟨fun s => ((p.runFaulty fault s.plus.store).1,
    { s with plus := { s.plus with accountData := fun u t => (p.runFaulty fault s.plus.store).2 (u, t) } })⟩

/-- `redeem_voucher`, where accesses may fail. -/
def redeemVoucherFaulty (cfg : Config) (uni : PyStr.Unicode) (now : ℤ) (fault : Faults) (userId code : String) :
    Action VoucherState Error (String × Subscription) :=
  match normalizeVoucherCode uni code with
  | none => .raise (.synapseError 400 "Недействительный промокод" "M_INVALID_PARAM")
  | some normalized => do
      let voucher ← onTables (reserve now userId normalized)
      let subscription ← onStore fault (activateSubscriptionSteps cfg now
        (voucher.activation cfg userId normalized))
      pure (normalized, subscription)

/-- Where no access fails, it is the method as it was modelled before. -/
theorem redeemVoucherFaulty_none (cfg : Config) (uni : PyStr.Unicode) (now : ℤ) (userId code : String)
    (s : VoucherState) :
    let m := (redeemVoucherFaulty cfg uni now (fun _ => none) userId code).run s
    let n := (redeemVoucher cfg uni now userId code).run s
    m.1 = n.1 ∧ m.2.tables = n.2.tables ∧ m.2.plus.store = n.2.plus.store := by
  unfold redeemVoucherFaulty redeemVoucher
  cases normalizeVoucherCode uni code with
  | none => exact ⟨rfl, rfl, rfl⟩
  | some normalized =>
    cases hr : reserve now userId normalized s.tables with
    | error e =>
      rw [run_bind_of_error (run_onTables_error hr), run_bind_of_error (run_onTables_error hr)]
      exact ⟨rfl, rfl, rfl⟩
    | ok r =>
      obtain ⟨voucher, tables⟩ := r
      rw [run_bind_of_ok (run_onTables_ok hr), run_bind_of_ok (run_onTables_ok hr)]
      have hsame := refines_activateSubscription cfg now (voucher.activation cfg userId normalized) s.plus
      have hnone : ∀ b ∈ (activateSubscriptionSteps cfg now (voucher.activation cfg userId normalized)).accesses
          s.plus.store, (fun _ => none : Faults) b = none := fun _ _ => rfl
      rw [← runFaulty_of_forall hnone] at hsame
      rcases hrun : (activateSubscription cfg now
        (voucher.activation cfg userId normalized)).run s.plus with ⟨e | sub, plus⟩
      all_goals
        rw [hrun] at hsame
        rw [run_bind, run_bind]
        unfold onStore onPlus
        dsimp only
        rw [hrun, ← hsame]
        exact ⟨rfl, rfl, rfl⟩

/-! ## §2 The accesses of an activation -/

/-- The four accesses of an activation, in their order. -/
def activationAccesses (userId : String) : List (Access (String × String)) :=
  [⟨(userId, subscriptionType), false⟩, ⟨(userId, subscriptionType), true⟩, ⟨(userId, paymentsType), false⟩,
    ⟨(userId, paymentsType), true⟩]

variable {userId : String} {s : State}

/-- A read that goes through, and what comes after it. -/
theorem accesses_readData_bind {α β : Type} {type : String} {f : State → Except Error α} {a : α}
    (hf : ∀ s t : State, t.accountData userId type = s.accountData userId type → f t = f s) (h : f s = .ok a)
    (next : α → Steps β) : (readData userId type f >>= next).accesses s.store =
      ⟨(userId, type), false⟩ :: (next a).accesses s.store := by
  have hread : (readData userId type f).run s.store = (.ok a, s.store) := by
    rw [← refines_reads hf s, run_reads, h]
  rw [accesses_bind_of_ok hread]
  rfl

/-- A write, and what comes after it. -/
theorem accesses_writeData_bind {β : Type} (userId type : String) (content : List (String × Json)) (s : State)
    (next : Unit → Steps β) : (writeData userId type content >>= next).accesses s.store =
      ⟨(userId, type), true⟩ :: (next ()).accesses (s.addAccountData userId type content).store := by
  rw [store_addAccountData]
  rfl

variable {now : ℤ}

theorem accesses_recordPayment {paymentId status : String} {payment : PaymentArgs} {current : List Payment}
    (hcurrent : getPayments now s userId = .ok current)
    (hid : cleanStr 255 (some (.str payment.paymentId)) = some paymentId)
    (hstatus : cleanStr 32 (some (.str payment.status)) = some status) :
    (recordPaymentSteps now userId payment).accesses s.store =
      [⟨(userId, paymentsType), false⟩, ⟨(userId, paymentsType), true⟩] := by
  unfold recordPaymentSteps
  rw [accesses_readData_bind (fun _ _ h => getPayments_congr h) hcurrent, hid, hstatus]
  rfl

/-- An activation that goes through makes all four. -/
theorem accesses_activateSubscription {cfg : Config} {a : Activation} (hreadable : Readable cfg now s a.userId)
    (hid : cleanStr 255 (some (.str a.paymentId)) ≠ none) :
    (activateSubscriptionSteps cfg now a).accesses s.store = activationAccesses a.userId := by
  obtain ⟨⟨existing, hexisting⟩, current, hcurrent⟩ := hreadable
  obtain ⟨paymentId, hid⟩ := Option.ne_none_iff_exists'.mp hid
  have hcurrent' := (getPayments_addSubscription now s a.userId a.userId
    (a.payload now (cfg.plans.resolvePlan a.planId) existing)).trans hcurrent
  have hrecord : (recordPayment now a.userId (a.paymentArgs now (cfg.plans.resolvePlan a.planId))).run
      (s.addAccountData a.userId subscriptionType
        (a.payload now (cfg.plans.resolvePlan a.planId) existing)) = (.ok (), _) :=
    recordPayment_run hcurrent' hid cleanStr_success
  have hrun := refines_recordPayment now a.userId (a.paymentArgs now (cfg.plans.resolvePlan a.planId))
    (s.addAccountData a.userId subscriptionType (a.payload now (cfg.plans.resolvePlan a.planId) existing))
  rw [hrecord] at hrun
  have haccesses : (recordPaymentSteps now a.userId (a.paymentArgs now (cfg.plans.resolvePlan a.planId))).accesses
      (s.addAccountData a.userId subscriptionType
        (a.payload now (cfg.plans.resolvePlan a.planId) existing)).store = _ :=
    accesses_recordPayment hcurrent' hid cleanStr_success
  unfold activateSubscriptionSteps
  rw [accesses_readData_bind (fun _ _ h => getSubscription_congr h) hexisting, accesses_writeData_bind,
    accesses_bind_of_ok hrun.symm, haccesses]
  rfl

/-- **An activation goes through** when the data can be read and none of the four accesses fails. -/
theorem onStore_activate_ok_iff {cfg : Config} {fault : Faults} {a : Activation} {s : VoucherState}
    (hid : cleanStr 255 (some (.str a.paymentId)) ≠ none) :
    (∃ sub t, (onStore fault (activateSubscriptionSteps cfg now a)).run s = (.ok sub, t)) ↔
      Readable cfg now s.plus a.userId ∧ ∀ b ∈ activationAccesses a.userId, fault b = none := by
  have hsame := refines_activateSubscription cfg now a s.plus
  constructor
  · rintro ⟨sub, t, hrun⟩
    have hfst : ((activateSubscriptionSteps cfg now a).runFaulty fault s.plus.store).1 = .ok sub :=
      congrArg Prod.fst hrun
    have hfaulty : (activateSubscriptionSteps cfg now a).runFaulty fault s.plus.store = (.ok sub, _) :=
      Prod.ext hfst rfl
    obtain ⟨hok, hnone⟩ := runFaulty_ok_iff.mp hfaulty
    rw [← hsame] at hok
    have hsub : ((activateSubscription cfg now a).run s.plus).1 = .ok sub := congrArg Prod.fst hok
    have hreadable := (activateSubscription_ok_iff.mp ⟨sub, _, Prod.ext hsub rfl⟩).1
    rw [accesses_activateSubscription hreadable hid] at hnone
    exact ⟨hreadable, hnone⟩
  · rintro ⟨hreadable, hnone⟩
    obtain ⟨sub, plus, hactivate⟩ := activateSubscription_ok_iff.mpr ⟨hreadable, hid⟩
    rw [hactivate] at hsame
    rw [← accesses_activateSubscription hreadable hid] at hnone
    have hfaulty := runFaulty_ok_iff.mpr ⟨hsame.symm, hnone⟩
    refine ⟨sub, _, Prod.ext ?_ rfl⟩
    show ((activateSubscriptionSteps cfg now a).runFaulty fault s.plus.store).1 = _
    rw [hfaulty]

/-! ## §3 All or nothing -/

/-- A call that raises takes no redemption, and leaves the subscription of the user. -/
def AllOrNothing (cfg : Config) (uni : PyStr.Unicode) (now : ℤ) (fault : Faults) (userId code : String)
    (s : VoucherState) : Prop :=
  ∀ e t, (redeemVoucherFaulty cfg uni now fault userId code).run s = (.error e, t) →
    t.tables = s.tables ∧ t.plus.accountData userId subscriptionType = s.plus.accountData userId subscriptionType

/-- A transaction that commits adds a row. -/
theorem reserve_ne_self {normalized : String} {t t' : VoucherTables} {v : Voucher}
    (h : reserve now userId normalized t = .ok (v, t')) : t' ≠ t := by
  have hrows : t'.redemptions.length = t.redemptions.length + 1 := by
    unfold reserve at h
    split at h
    · cases h
    iterate 4
      split at h
      · cases h
    obtain ⟨t₁, hinsert, h⟩ := except_bind_eq_ok.mp h
    obtain ⟨-, rfl⟩ := Prod.mk.inj (Except.ok.inj h)
    unfold VoucherTables.insertRedemption at hinsert
    split at hinsert
    · cases hinsert
    · obtain rfl := Except.ok.inj hinsert
      exact List.length_append
  rintro rfl
  omega

/-- The voucher of the example, not yet redeemed. -/
def voucherCreated : VoucherState := runOps exampleConfig asciiTables exampleVoucherState (exampleOps.take 1)

/-- The writes of one type fail. -/
def failingWrites (type : String) : Faults := fun b =>
  if b.key.2 = type ∧ b.writes = true then some .exception else none

end Setka.Handlers.Plus
