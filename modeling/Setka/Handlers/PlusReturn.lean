/-
# Setka.Handlers.PlusReturn — the browser comes back from the provider.

The pages that a provider sends the browser back to are open to everyone, and name a user and a payment.
Where the payload does not stand for a success, the payment of that id is recorded as failed, whatever
its status was, and the index of pending payments forgets it.
-/
import Setka.Handlers.PlusPayments
import Setka.Handlers.PlusSignature

namespace Setka.Handlers.Plus

open Setka.Api Setka.Lib Setka.Lib.Action

/-! ## §1 The handlers -/

/-- An entry of the list as the argument of `record_payment`. -/
def Payment.toArgs (p : Payment) : PaymentArgs where
  paymentId := p.paymentId
  status := p.status
  provider := p.provider
  createdAt := p.createdAt
  amount := p.amount
  currency := p.currency
  requestId := p.requestId
  label := p.label
  planId := p.planId
  message := p.message
  assistantFields := if p.assistantFields.items = [] then none else some p.assistantFields

/-- `mark_payment_failed`. -/
def markPaymentFailed (now : ℤ) (userId paymentId message : String) : Action State Error Unit := do
  let payments ← .reads fun s => getPayments now s userId
  match payments.find? fun item => item.paymentId = paymentId with
  | none => pure ()
  | some item =>
    recordPayment now userId { item.toArgs with
        paymentId
        status := "failed"
        message := some (PyStr.take 255 message) }

/-- Whom and what a return is about, and whether it stands for a success. -/
structure Returned where
  userId : String
  paymentId : String
  success : Bool

/-- `resolve_robokassa_browser_return` up to the call that marks the payment. -/
def robokassaReturned (cfg : Config) (now : ℤ) (s : State) (payload : Dict String String)
    (success : Bool) : Except Error Returned := do
  let invId := PyStr.strip (payload.getD "InvId" "")
  let shp := extractRobokassaShp payload
  let uid := PyStr.strip (shp.getD "uid" "")
  let paymentId := PyStr.strip (shp.getD "pid" "")
  let outSum := PyStr.strip (payload.getD "OutSum" "")
  let signature := PyStr.strip (payload.getD "SignatureValue" "")
  let isTest : Bool := PyStr.strip (payload.getD "IsTest" "0") = "1"
  let password1 := orElse (robokassaPasswords cfg isTest).1 (robokassaPasswords cfg false).1
  let signed : Bool := PyStr.upper signature = PyStr.upper (robokassaResultSignature cfg outSum invId password1 shp)
  -- a return without these parameters is taken at its word
  let success := success && (outSum = "" || invId = "" || signature = "" || signed)
  let userId ← if uid = "" then pure "" else decodeRobokassaUid uid
  let paymentId ← if paymentId = "" ∧ userId ≠ "" ∧ invId ≠ "" then do
      let pending ← findPaymentByInvId now s userId invId
      pure ((pending.map Payment.paymentId).getD paymentId)
    else pure paymentId
  pure { userId, paymentId, success }

/-- `resolve_payanyway_browser_return` up to the call that marks the payment. -/
def payanywayReturned (payload : Dict String String) (success : Bool) : Except Error Returned := do
  let paymentId := orElse (PyStr.strip (payload.getD "MNT_TRANSACTION_ID" ""))
    (PyStr.strip (payload.getD "payment_id" ""))
  let userId ← payanywayUserIdFromPayload payload
  pure { userId, paymentId, success }

/-- The last part of both: a payment that was not a success is marked. -/
def markReturned (now : ℤ) (r : Returned) : Action State Error Unit :=
  if r.success = false ∧ r.userId ≠ "" ∧ r.paymentId ≠ "" then
    markPaymentFailed now r.userId r.paymentId "Оплата отменена"
  else pure ()

/-- `resolve_robokassa_browser_return`. -/
def resolveRobokassaBrowserReturn (cfg : Config) (now : ℤ) (payload : Dict String String)
    (success : Bool) : Action State Error (String × String) := do
  let returned ← .reads fun s => robokassaReturned cfg now s payload success
  markReturned now returned
  let invId := PyStr.strip (payload.getD "InvId" "")
  pure (returned.userId, orElse returned.paymentId (if invId = "" then "" else "robokassa_" ++ invId))

/-- `resolve_payanyway_browser_return`. -/
def resolvePayanywayBrowserReturn (now : ℤ) (payload : Dict String String) (success : Bool) :
    Action State Error (String × String) := do
  let returned ← .reads fun _ => payanywayReturned payload success
  markReturned now returned
  pure (returned.userId, returned.paymentId)

/-- A browser that comes back. -/
inductive BrowserReturn
  | robokassa (payload : Dict String String) (success : Bool)
  | payanyway (payload : Dict String String) (success : Bool)

/-- Whom and what it is about. -/
def BrowserReturn.returned (cfg : Config) (now : ℤ) (s : State) : BrowserReturn → Except Error Returned
  | robokassa payload success => robokassaReturned cfg now s payload success
  | payanyway payload success => payanywayReturned payload success

/-- The state after it was resolved. -/
def BrowserReturn.resolve (cfg : Config) (now : ℤ) (s : State) : BrowserReturn → State
  | robokassa payload success => ((resolveRobokassaBrowserReturn cfg now payload success).run s).2
  | payanyway payload success => ((resolvePayanywayBrowserReturn now payload success).run s).2

/-! ## §2 What a return writes -/

/-- The payment that a return marks, if there is one: whose it is, and the list that it is found in. -/
def BrowserReturn.marks? (cfg : Config) (now : ℤ) (s : State) (b : BrowserReturn) :
    Option (String × Payment × List Payment) :=
  match b.returned cfg now s with
  | .error _ => none
  | .ok r =>
    if r.success = false ∧ r.userId ≠ "" ∧ r.paymentId ≠ "" then
      match getPayments now s r.userId with
      | .error _ => none
      | .ok payments =>
        (payments.find? fun item => item.paymentId = r.paymentId).map fun item =>
          (r.userId, item, payments)
    else none

/-- The entry that a marked payment is replaced by. -/
def failedEntry (now : ℤ) (item : Payment) (payments : List Payment) : Payment :=
  PaymentArgs.entry now (PyStr.strip item.paymentId) "failed"
    (payments.find? fun p => p.paymentId = PyStr.strip item.paymentId)
    { item.toArgs with
      status := "failed"
      message := some (PyStr.take 255 "Оплата отменена") }

variable {now : ℤ} {userId : String} {s : State} {payments : List Payment}

theorem markPaymentFailed_run {paymentId : String} (h : getPayments now s userId = .ok payments) :
    ((markPaymentFailed now userId paymentId "Оплата отменена").run s).2 =
      match payments.find? fun item => item.paymentId = paymentId with
      | none => s
      | some item => s.recorded userId (failedEntry now item payments) payments := by
  have hread : (Action.reads fun s => getPayments now s userId).run s = (.ok payments, s) := by
    rw [run_reads, h]
  unfold markPaymentFailed
  rw [run_bind_of_ok hread]
  cases hfind : payments.find? fun item => item.paymentId = paymentId with
  | none => rfl
  | some item =>
    have hid : item.paymentId = paymentId := by simpa using List.find?_some hfind
    have hfits := (getPayments_fits h).1 item (List.mem_of_find?_eq_some hfind)
    have hclean : cleanStr 255 (some (.str paymentId)) = some (PyStr.strip item.paymentId) := by
      rw [← hid]
      exact cleanStr_of_fits hfits.paymentId
    have hrecord : (recordPayment now userId { item.toArgs with
          paymentId
          status := "failed"
          message := some (PyStr.take 255 "Оплата отменена") }).run s = _ :=
      recordPayment_run h hclean (by decide : cleanStr 32 (some (.str "failed")) = some "failed")
    rw [hrecord]
    rfl

/-- **What a return does**: it records the payment that it marks, and nothing else. -/
theorem BrowserReturn.resolve_eq (cfg : Config) (now : ℤ) (s : State) (b : BrowserReturn) : b.resolve cfg now s =
      match b.marks? cfg now s with
      | none => s
      | some (userId, item, payments) =>
        s.recorded userId (failedEntry now item payments) payments := by
  have hresolve : b.resolve cfg now s = match b.returned cfg now s with
      | .error _ => s
      | .ok r => ((markReturned now r).run s).2 := by
    cases b with
    | robokassa payload success =>
      show ((resolveRobokassaBrowserReturn cfg now payload success).run s).2 =
        match robokassaReturned cfg now s payload success with
        | .error _ => s
        | .ok r => ((markReturned now r).run s).2
      unfold resolveRobokassaBrowserReturn
      cases hreturned : robokassaReturned cfg now s payload success with
      | error e => rw [run_bind_of_error (by rw [run_reads, hreturned])]
      | ok r =>
        rw [run_bind_of_ok (by rw [run_reads, hreturned])]
        exact run_bind_pure_state _ _ s
    | payanyway payload success =>
      show ((resolvePayanywayBrowserReturn now payload success).run s).2 =
        match payanywayReturned payload success with
        | .error _ => s
        | .ok r => ((markReturned now r).run s).2
      unfold resolvePayanywayBrowserReturn
      rcases hreturned : payanywayReturned payload success with e | r
      · rfl
      · exact run_bind_pure_state (markReturned now r) _ s
  rw [hresolve]
  unfold BrowserReturn.marks?
  cases b.returned cfg now s with
  | error e => rfl
  | ok r =>
    dsimp only
    unfold markReturned
    split
    · cases hpayments : getPayments now s r.userId with
      | error e =>
        unfold markPaymentFailed
        rw [run_bind_of_error (by rw [run_reads, hpayments])]
      | ok payments =>
        dsimp only
        rw [markPaymentFailed_run hpayments]
        cases payments.find? fun item => item.paymentId = r.paymentId with
        | none => rfl
        | some item => rfl
    · rfl

/-! ## §3 Payments that are paid -/

variable {cfg : Config} {item : Payment}

theorem BrowserReturn.marks?_eq_some {b : BrowserReturn} (h : b.marks? cfg now s = some (userId, item, payments)) :
    getPayments now s userId = .ok payments ∧ item ∈ payments := by
  unfold BrowserReturn.marks? at h
  split at h
  · cases h
  split at h
  · split at h
    · cases h
    · rename_i payments' hpayments
      obtain ⟨item', hfind, heq⟩ := Option.map_eq_some_iff.mp h
      obtain ⟨rfl, hrest⟩ := Prod.mk.inj heq
      obtain ⟨rfl, rfl⟩ := Prod.mk.inj hrest
      exact ⟨hpayments, List.mem_of_find?_eq_some hfind⟩
  · cases h

theorem cleanStr_failed : cleanStr 32 (some (.str "failed")) = some "failed" := by decide

theorem failedEntry_fits (h : item.Fits) (now : ℤ) (payments : List Payment) :
    (failedEntry now item payments).Fits := by
  apply entry_fits
  · exact cleanStr_of_fits h.paymentId
  · exact cleanStr_failed

theorem failedEntry_status (now : ℤ) (item : Payment) (payments : List Payment) :
    (failedEntry now item payments).recleaned.2 = "failed" := by
  show PyStr.lower (PyStr.strip (PyStr.lower "failed")) = "failed"
  decide

/-- Every payment that was read as paid is read with the same status. -/
def KeepsPaid (before after : List Payment) : Prop :=
  ∀ p ∈ before, p.IsPaid → ∃ q ∈ after, q.paymentId = p.paymentId ∧ q.status = p.status

/-- Every user's paid payments are read as they were. -/
def PaidUnchanged (now : ℤ) (s t : State) : Prop :=
  ∀ u before, getPayments now s u = .ok before → ∃ after, getPayments now t u = .ok after ∧ KeepsPaid before after

theorem PaidUnchanged.refl (now : ℤ) (s : State) : PaidUnchanged now s s :=
  fun _ before hbefore => ⟨before, hbefore, fun p hp _ => ⟨p, hp, rfl, rfl⟩⟩

/-- **A marked payment spares the others** and is not paid itself: each paid payment is, cleaned once
more, among those that `record_payment` keeps. -/
def SparesPaid (item : Payment) (payments : List Payment) : Prop :=
  ∀ p ∈ payments, p.IsPaid →
    ∃ r ∈ keptBeside (PyStr.strip item.paymentId) payments, r.recleaned = (p.paymentId, p.status)

theorem keepsPaid_iff {entry : Payment} (hentry : entry.recleaned.2 = "failed") {before kept after : List Payment}
    (h : (after.map fun q => (q.paymentId, q.status)).Perm (entry.recleaned :: kept.map Payment.recleaned)) :
    KeepsPaid before after ↔
      ∀ p ∈ before, p.IsPaid → ∃ r ∈ kept, r.recleaned = (p.paymentId, p.status) := by
  have hmem : ∀ p : Payment, p.IsPaid → ((∃ q ∈ after, q.paymentId = p.paymentId ∧ q.status = p.status) ↔
        ∃ r ∈ kept, r.recleaned = (p.paymentId, p.status)) := by
    intro p hp
    have hread : (∃ q ∈ after, q.paymentId = p.paymentId ∧ q.status = p.status) ↔
        (p.paymentId, p.status) ∈ after.map fun q => (q.paymentId, q.status) := by
      rw [List.mem_map]
      simp only [Prod.mk.injEq]
    -- the new entry is not paid
    have hne : (p.paymentId, p.status) ≠ entry.recleaned := by
      intro heq
      have hstatus : p.status = "failed" := by rw [← hentry, ← heq]
      rcases hp with hp | hp
      · exact absurd (hstatus.symm.trans hp) (by decide)
      · exact absurd (hstatus.symm.trans hp) (by decide)
    rw [hread, h.mem_iff, List.mem_cons, or_iff_right hne, List.mem_map]
  constructor
  · exact fun hkeeps p hp hpaid => (hmem p hpaid).mp (hkeeps p hp hpaid)
  · exact fun hkept p hp hpaid => (hmem p hpaid).mpr (hkept p hp hpaid)

theorem paidUnchanged_recorded_iff (hpayments : getPayments now s userId = .ok payments) (hitem : item ∈ payments) :
    PaidUnchanged now s (s.recorded userId (failedEntry now item payments) payments) ↔
      SparesPaid item payments := by
  have hfits := failedEntry_fits ((getPayments_fits hpayments).1 item hitem) now payments
  obtain ⟨after, hafter, hperm⟩ := getPayments_recorded hpayments hfits now
  have hkeeps : KeepsPaid payments after ↔ SparesPaid item payments :=
    keepsPaid_iff (failedEntry_status now item payments) hperm
  constructor
  · intro h
    obtain ⟨after', hafter', hkept⟩ := h userId payments hpayments
    obtain rfl := Except.ok.inj (hafter.symm.trans hafter')
    exact hkeeps.mp hkept
  intro h u before hbefore
  by_cases hu : u = userId
  · subst hu
    obtain rfl := Except.ok.inj (hpayments.symm.trans hbefore)
    exact ⟨after, hafter, hkeeps.mpr h⟩
  refine ⟨before, ?_, fun p hp _ => ⟨p, hp, rfl, rfl⟩⟩
  rw [getPayments_recorded_other hu]
  exact hbefore

/-! ## §4 Callbacks that were on their way -/

/-- Every signed callback that would have been credited before is credited after. -/
def CallbacksUnchanged (cfg : Config) (s t : State) : Prop :=
  ∀ now payload g, granted cfg now s payload = some g → granted cfg now t payload = some g

theorem CallbacksUnchanged.refl (cfg : Config) (s : State) : CallbacksUnchanged cfg s s :=
  fun _ _ _ h => h

/-- A user whose subscription can be read, so that a payment is credited. -/
def Creditable (cfg : Config) (s : State) (userId : String) : Prop :=
  userId ≠ "" ∧ ∃ sub, getSubscription cfg 0 s userId = .ok sub

/-- **The index entry that a marked payment loses is not needed**: the payment is of another provider,
or is not pending for anyone who could be credited. -/
def SparesPending (cfg : Config) (s : State) (item : Payment) : Prop :=
  (cleanStr 64 (some (.str item.provider))).getD "unknown" = "payanyway" →
    ∀ userId, s.payanywayPendingUsers.get? (PyStr.strip item.paymentId) = some userId → ¬ Creditable cfg s userId

theorem getSubscription_recorded (cfg : Config) (now : ℤ) (s : State) (userId : String)
    (entry : Payment) (current : List Payment) (u : String) :
    getSubscription cfg now (s.recorded userId entry current) u = getSubscription cfg now s u := by
  apply getSubscription_congr
  show (if u = userId ∧ subscriptionType = paymentsType then _ else _) = _
  rw [if_neg fun h => paymentsType_ne_subscriptionType h.2.symm]

theorem pendingUsers_failed (s : State) (now : ℤ) (userId : String) (item : Payment) (payments : List Payment) :
    (s.recorded userId (failedEntry now item payments) payments).payanywayPendingUsers =
      if (cleanStr 64 (some (.str item.provider))).getD "unknown" = "payanyway" then
        s.payanywayPendingUsers.erase (PyStr.strip item.paymentId)
      else s.payanywayPendingUsers := by
  show indexPending userId (failedEntry now item payments) s.payanywayPendingUsers = _
  unfold indexPending
  have hprovider : (failedEntry now item payments).provider =
      (cleanStr 64 (some (.str item.provider))).getD "unknown" := by
    simp only [failedEntry, PaymentArgs.entry, Payment.toArgs]
  have hid : (failedEntry now item payments).paymentId = PyStr.strip item.paymentId := by
    simp only [failedEntry, PaymentArgs.entry]
  have hstatus : (failedEntry now item payments).status = "failed" := by
    show PyStr.lower "failed" = "failed"
    decide
  rw [hprovider, hstatus, hid, if_neg (by decide : ("failed" : String) ≠ "pending"),
    if_pos (by decide : "failed" ∈ ["paid", "failed", "canceled"])]

/-- The recipient of a callback, and whether the subscription can be read. -/
theorem recipient_eq_some_iff {payload : Dict String String} : recipient cfg now s payload = some userId ↔
      payanywayRecipient s payload = some userId ∧
        ∃ sub, getSubscription cfg now s userId = .ok sub := by
  unfold recipient
  rw [Option.filter_eq_some_iff]
  refine and_congr_right fun _ => ?_
  cases getSubscription cfg now s userId with
  | ok sub => simp
  | error e => simp

theorem granted_eq_some_iff {payload : Dict String String} {g : Grant} : granted cfg now s payload = some g ↔
      Accepted cfg payload ∧ ∃ userId, recipient cfg now s payload = some userId ∧
        g = ⟨userId, referredPlan cfg payload, referredAmount cfg payload (referredPlan cfg payload)⟩ := by
  by_cases haccepted : Accepted cfg payload
  · rw [granted_of_accepted haccepted, Option.map_eq_some_iff]
    simp only [haccepted, true_and, eq_comm]
  · rw [granted_of_no_order fun o ho => haccepted (accepted_of_order ho)]
    simp [haccepted]

/-- A callback about a transaction, signed, that names nobody. -/
def unnamedCallback (transactionId signature : String) : Dict String String where
  items := [("MNT_TRANSACTION_ID", transactionId), ("MNT_SIGNATURE", signature)]
  nodup := by
    show ["MNT_TRANSACTION_ID", "MNT_SIGNATURE"].Nodup
    decide

theorem accepted_unnamedCallback (cfg : Config) {transactionId : String} (h : PyStr.strip transactionId ≠ "") :
    ∃ signature, Accepted cfg (unnamedCallback transactionId signature) := by
  have hsignature : ∃ expected, ∀ signature,
      payanywayPaySignature cfg (unnamedCallback transactionId signature) = .ok expected := by
    have hamount : ∀ signature, orElse (PyStr.strip
        ((unnamedCallback transactionId signature).getD "MNT_AMOUNT" "")) "0" = "0" := fun _ => rfl
    have hparse : ∃ x, PyFloat.parse "0" = some x :=
      Option.isSome_iff_exists.mp (by decide +kernel)
    obtain ⟨x, hx⟩ := hparse
    unfold payanywayPaySignature
    simp only [hamount, hx]
    exact ⟨cfg.md5 (String.join ["", transactionId, "", x.format2, "", "", "0",
      cfg.payanywayIntegrityCode]), fun _ => rfl⟩
  obtain ⟨expected, hexpected⟩ := hsignature
  exact ⟨expected, ⟨expected, hexpected expected, rfl⟩, h⟩

/-- It is for whom the transaction is pending for. -/
theorem payanywayRecipient_unnamedCallback {s : State} {transactionId signature : String}
    (h : PyStr.strip transactionId = transactionId) :
    payanywayRecipient s (unnamedCallback transactionId signature) =
      (s.payanywayPendingUsers.get? transactionId).filter fun userId => userId ≠ "" := by
  have hnamed : payanywayUserIdFromPayload (unnamedCallback transactionId signature) = .ok "" := rfl
  have htransaction : PyStr.strip
      ((unnamedCallback transactionId signature).getD "MNT_TRANSACTION_ID" "") = transactionId := h
  unfold payanywayRecipient
  rw [hnamed, htransaction]
  dsimp only
  rw [if_pos rfl, Dict.getD]
  cases s.payanywayPendingUsers.get? transactionId with
  | none => rfl
  | some userId =>
    by_cases hblank : userId = ""
    · rw [Option.getD_some, if_pos hblank, Option.filter_some, if_neg (by simp [hblank])]
    · rw [Option.getD_some, if_neg hblank, Option.filter_some, if_pos (by simp [hblank])]

theorem callbacksUnchanged_recorded_iff (hitem : item.Fits) (payments : List Payment) :
    CallbacksUnchanged cfg s (s.recorded userId (failedEntry now item payments) payments) ↔
      SparesPending cfg s item := by
  have hpending := pendingUsers_failed s now userId item payments
  constructor
  · rintro h hprovider v hv ⟨hv', sub, hsub⟩
    -- a callback about the marked payment that names nobody
    obtain ⟨signature, haccepted⟩ := accepted_unnamedCallback cfg hitem.paymentId.strip.not_blank
    have hrecipient := @payanywayRecipient_unnamedCallback s _ signature (PyStr.strip_strip item.paymentId)
    rw [hv, Option.filter_some, if_pos (by simpa using hv')] at hrecipient
    have hgranted := granted_eq_some_iff.mpr ⟨haccepted, v, recipient_eq_some_iff.mpr ⟨hrecipient, sub, hsub⟩, rfl⟩
    obtain ⟨-, v', hrecipient', -⟩ := granted_eq_some_iff.mp (h 0 _ _ hgranted)
    have hnone := (recipient_eq_some_iff.mp hrecipient').1
    rw [payanywayRecipient_unnamedCallback (PyStr.strip_strip item.paymentId), hpending,
      if_pos hprovider, Dict.get?_erase, if_pos rfl] at hnone
    cases hnone
  · intro h later payload g hgranted
    obtain ⟨haccepted, v, hrecipient, rfl⟩ := granted_eq_some_iff.mp hgranted
    obtain ⟨hnamed, sub, hsub⟩ := recipient_eq_some_iff.mp hrecipient
    refine granted_eq_some_iff.mpr ⟨haccepted, v, recipient_eq_some_iff.mpr ⟨?_, sub, ?_⟩, rfl⟩
    · unfold payanywayRecipient at hnamed ⊢
      cases hpayload : payanywayUserIdFromPayload payload with
      | error e =>
        rw [hpayload] at hnamed
        cases hnamed
      | ok named =>
        rw [hpayload] at hnamed
        dsimp only at hnamed ⊢
        by_cases hblank : named = ""
        · rw [if_pos hblank] at hnamed ⊢
          have hindex : s.payanywayPendingUsers.get?
              (PyStr.strip (payload.getD "MNT_TRANSACTION_ID" "")) = some v ∧ v ≠ "" := by
            unfold Dict.getD at hnamed
            cases hget : s.payanywayPendingUsers.get?
                (PyStr.strip (((payload.get? "MNT_TRANSACTION_ID").getD ""))) with
            | none =>
              rw [hget] at hnamed
              cases hnamed
            | some w =>
              rw [hget, Option.getD_some] at hnamed
              split at hnamed
              · cases hnamed
              rename_i hw
              obtain rfl := Option.some.inj hnamed
              exact ⟨hget, hw⟩
          -- the entry that is erased is not the one that names the recipient
          have hkept : (s.recorded userId (failedEntry now item payments) payments).payanywayPendingUsers.get?
                (PyStr.strip (payload.getD "MNT_TRANSACTION_ID" "")) = some v := by
            rw [hpending]
            split
            · rename_i hprovider
              rw [Dict.get?_erase, if_neg]
              · exact hindex.1
              intro heq
              rw [heq] at hindex
              obtain ⟨sub', hsub'⟩ := normalizeSubscription_ok_of_ok hsub 0
              exact h hprovider v hindex.1 ⟨hindex.2, sub', hsub'⟩
            · exact hindex.1
          rw [Dict.getD_of_get? hkept, if_neg hindex.2]
        · rw [if_neg hblank] at hnamed ⊢
          exact hnamed
    · rw [getSubscription_recorded]
      exact hsub

/-! ## §5 When a return rewrites nothing -/

/-- **A return that may come**: it marks no payment, or one whose replacement loses neither a paid
payment nor a pending one. -/
def BrowserReturn.Harmless (cfg : Config) (now : ℤ) (s : State) (b : BrowserReturn) : Prop :=
  ∀ userId item payments, b.marks? cfg now s = some (userId, item, payments) →
    SparesPaid item payments ∧ SparesPending cfg s item

/-- **A browser return leaves the paid payments and the callbacks on their way alone** exactly when it
may come. -/
theorem resolve_unchanged_iff (cfg : Config) (now : ℤ) (s : State) (b : BrowserReturn) :
    PaidUnchanged now s (b.resolve cfg now s) ∧ CallbacksUnchanged cfg s (b.resolve cfg now s) ↔
      b.Harmless cfg now s := by
  rw [b.resolve_eq cfg now s]
  unfold BrowserReturn.Harmless
  cases hmarks : b.marks? cfg now s with
  | none =>
    refine iff_of_true ⟨PaidUnchanged.refl now s, CallbacksUnchanged.refl cfg s⟩ ?_
    intro userId item payments h
    cases h
  | some marked =>
    obtain ⟨userId, item, payments⟩ := marked
    obtain ⟨hpayments, hitem⟩ := BrowserReturn.marks?_eq_some hmarks
    have hfits := (getPayments_fits hpayments).1 item hitem
    rw [paidUnchanged_recorded_iff hpayments hitem, callbacksUnchanged_recorded_iff hfits]
    constructor
    · rintro h userId' item' payments' heq
      obtain ⟨rfl, hrest⟩ := Prod.mk.inj (Option.some.inj heq)
      obtain ⟨rfl, rfl⟩ := Prod.mk.inj hrest
      exact h
    · exact fun h => h userId item payments rfl

/-- A user with one paid payment. -/
def examplePaidState : State :=
  exampleState.addAccountData "@a:s" paymentsType
    [("payments", .arr [.obj [("payment_id", .str "7"), ("status", .str "paid"),
      ("provider", .str "payanyway"), ("created_at", .int 1700000000000)]])]

/-- The fail page, opened by anyone, for that user and payment. -/
def exampleFailPage : BrowserReturn :=
  .payanyway
    { items := [("MNT_TRANSACTION_ID", "7"), ("MNT_SUBSCRIBER_ID", "QGE6cw")]
      nodup := by
        show ["MNT_TRANSACTION_ID", "MNT_SUBSCRIBER_ID"].Nodup
        decide } false

/-- The statuses of a user's payments. -/
def statuses (s : State) (userId : String) : Option (List String) :=
  (getPayments 1700000000000 s userId).toOption.map fun payments => payments.map Payment.status

/-- The paid payment is then recorded as failed. -/
theorem paid_marked_failed : ¬ PaidUnchanged 1700000000000 examplePaidState
    (exampleFailPage.resolve exampleConfig 1700000000000 examplePaidState) := by
  intro h
  have hbefore : statuses examplePaidState "@a:s" = some ["paid"] := by decide +kernel
  have hafter : statuses (exampleFailPage.resolve exampleConfig 1700000000000 examplePaidState)
      "@a:s" = some ["failed"] := by decide +kernel
  obtain ⟨before, hread, hstatuses⟩ := Option.map_eq_some_iff.mp hbefore
  rw [except_toOption_eq_some] at hread
  obtain ⟨after, hread', hkeeps⟩ := h "@a:s" before hread
  have hstatuses' : after.map Payment.status = ["failed"] := by
    obtain ⟨after', hread'', hstatuses''⟩ := Option.map_eq_some_iff.mp hafter
    rw [except_toOption_eq_some] at hread''
    obtain rfl := Except.ok.inj (hread'.symm.trans hread'')
    exact hstatuses''
  have hpaid : "paid" ∈ before.map Payment.status := by
    rw [hstatuses]
    exact List.mem_singleton.mpr rfl
  obtain ⟨p, hp, hstatus⟩ := List.mem_map.mp hpaid
  obtain ⟨q, hq, -, hsame⟩ := hkeeps p hp (Or.inr hstatus)
  have hfailed : q.status ∈ after.map Payment.status := List.mem_map_of_mem hq
  rw [hstatuses', hsame, hstatus] at hfailed
  exact absurd hfailed (by decide)

end Setka.Handlers.Plus
