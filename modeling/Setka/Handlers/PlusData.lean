/-
# Setka.Handlers.PlusData — what Setka Plus keeps in account data.

The cleaning functions of `handlers/setka_plus.py`, plans, and the normalised reading of the stored
subscription and payments.
-/
import Mathlib.Data.List.Sort
import Setka.Api.Errors
import Setka.Lib.Dict
import Setka.Lib.Json

namespace Setka.Handlers.Plus

open Setka.Api Setka.Lib

/-! ## §1 Cleaning

A missing value and a JSON `null` are both Python's `None`. -/

/-- `_clean_str`. -/
def cleanStr (maxLen : ℕ) : Option Json → Option String
  | some (.str s) =>
    let normalized := PyStr.strip s
    if normalized = "" then none else some (PyStr.take maxLen normalized)
  | _ => none

/-- `int(x)` of a floating point number. -/
def intOfFloat : PyFloat → Except Error ℤ
  | .finite q => .ok (if 0 ≤ q then ⌊q⌋ else ⌈q⌉)
  | .nan => .error .valueError
  | .inf => .error .overflowError
  | .negInf => .error .overflowError

/-- `_clean_int`. Only the `ValueError` of a string is caught. -/
def cleanInt : Option Json → Except Error (Option ℤ)
  | some (.int n) => .ok (some n)
  | some (.float x) => (intOfFloat x).map some
  | some (.str s) =>
    match PyFloat.parse s with
    | none => .ok none
    | some x =>
      match intOfFloat x with
      | .ok n => .ok (some n)
      | .error .valueError => .ok none
      | .error e => .error e
  | _ => .ok none

/-- The unit of a timestamp: small values are seconds. -/
def timestampMs (allowZero : Bool) (timestamp : ℤ) : Option ℤ :=
  if timestamp = 0 then (if allowZero then some 0 else none)
  else if timestamp < 0 then none
  else if timestamp < 10000000000 then some (timestamp * 1000)
  else some timestamp

/-- `_clean_timestamp_ms`. -/
def cleanTimestampMs (allowZero : Bool) (value : Option Json) : Except Error (Option ℤ) :=
  (cleanInt value).map fun timestamp => timestamp.bind (timestampMs allowZero)

/-- `_clean_float`. The conversion of an integer beyond the largest float raises. -/
def cleanFloat : Option Json → Except Error (Option PyFloat)
  | some (.float x) => .ok (if x.isPos then some x else none)
  | some (.int n) =>
    if 2 ^ 1024 - 2 ^ 970 ≤ n.natAbs then .error .overflowError
    else .ok (if 0 < n then some (.finite n) else none)
  | some (.str s) =>
    .ok ((PyFloat.parse s).bind fun x => if x.isPos then some x else none)
  | _ => .ok none

/-- `_clean_float` of a string, which never raises. -/
def cleanFloatStr (s : String) : Option PyFloat :=
  (PyFloat.parse s).bind fun x => if x.isPos then some x else none

/-! ## §2 Plans -/

/-- A plan as `_normalize_plans` leaves it: its id and its name were cleaned, its duration is positive, and its price
is a positive one that was rounded. -/
structure Plan where
  id : String
  name : String
  priceRub : PyFloat
  durationDays : ℤ
  features : List String
  active : Bool
  isDefault : Bool
  sortOrder : ℤ
  id_clean : ∃ raw, cleanStr 64 raw = some id
  name_clean : ∃ raw, cleanStr 120 raw = some name
  durationDays_pos : 0 < durationDays
  priceRub_rounded : ∃ price : PyFloat, price.isPos ∧ priceRub = price.round2

/-- What `_load_plans` returns: a nonempty list of plans with distinct ids. -/
structure Plans where
  list : List Plan
  nonempty : list ≠ []
  nodup : (list.map Plan.id).Nodup

/-- `_find_plan_by_id`. -/
def Plans.findPlanById (plans : Plans) (planId : Option String) : Option Plan :=
  match cleanStr 64 (planId.map Json.str) with
  | none => none
  | some normalizedId => plans.list.find? fun plan => plan.id = normalizedId

/-- `_resolve_plan` where the plan asked for is missing or inactive. -/
def Plans.fallback (plans : Plans) : Plan :=
  match plans.list.find? fun candidate => candidate.active && candidate.isDefault with
  | some defaultActive => defaultActive
  | none =>
    match plans.list.find? fun candidate => candidate.active with
    | some firstActive => firstActive
    | none => plans.list.head plans.nonempty

/-- `_resolve_plan`. -/
def Plans.resolvePlan (plans : Plans) (planId : Option String) : Plan :=
  match plans.findPlanById planId with
  | some plan => if plan.active then plan else plans.fallback
  | none => plans.fallback

/-! ## §3 The handler's configuration and state -/

/-- The fields of `SetkaPlusHandler` that its payment methods read, with the two hash functions. -/
structure Config where
  plans : Plans
  plusPriceRub : PyFloat
  plusDurationDays : ℤ
  yoomoneyToken : String
  yoomoneyReceiver : String
  yoomoneyReturnUrl : String
  yoomoneyNotificationSecret : String
  robokassaMerchantLogin : String
  robokassaPassword1 : String
  robokassaPassword2 : String
  robokassaTestPassword1 : String
  robokassaTestPassword2 : String
  robokassaIsTest : Bool
  robokassaCallbackBaseUrl : String
  payanywayMntId : String
  payanywayIntegrityCode : String
  payanywayIsTest : Bool
  payanywayApiUsername : String
  payanywayApiPassword : String
  payanywaySimplaSelf : Bool
  vouchersOnly : Bool
  md5 : String → String
  sha1 : String → String

/-- Account data by user and type, and the in-memory index of pending PayAnyWay payments. -/
structure State where
  accountData : String → String → Option (List (String × Json))
  payanywayPendingUsers : Dict String String

/-- `AccountDataTypes.SETKA_PLUS_SUBSCRIPTION` and `SETKA_PLUS_PAYMENTS`. -/
def subscriptionType : String := "io.setka.plus.subscription"

def paymentsType : String := "io.setka.plus.payments"

/-- `add_account_data_for_user`. -/
def State.addAccountData (s : State) (userId type : String) (content : List (String × Json)) : State :=
  { s with
    accountData := fun u t => if u = userId ∧ t = type then some content else s.accountData u t }

@[simp] theorem accountData_addAccountData (s : State) (userId type : String)
    (content : List (String × Json)) (u t : String) :
    (s.addAccountData userId type content).accountData u t =
      if u = userId ∧ t = type then some content else s.accountData u t := rfl

/-! ## §4 The subscription -/

/-- A normalised subscription. -/
structure Subscription where
  tier : String
  planName : String
  status : String
  startedAt : ℤ
  expiresAt : ℤ
  updatedAt : ℤ
  isActive : Bool
  priceRub : PyFloat
  durationDays : ℤ
  lastPaymentId : Option String
  paymentProvider : Option String
  amount : Option PyFloat
  currency : Option String

/-- `_SUBSCRIPTION_STATUS`. -/
def subscriptionStatus : List String := ["inactive", "pending", "active", "expired", "canceled"]

/-- The status after comparison with the expiry. -/
def effectiveStatus (status : String) (isActive : Bool) : String :=
  if status = "active" ∧ isActive = false then "expired"
  else if status ∈ ["inactive", "expired", "canceled"] ∧ isActive = true then "active"
  else status

/-- `_normalize_subscription`. -/
def normalizeSubscription (cfg : Config) (now : ℤ) (raw : Option (List (String × Json))) :
    Except Error Subscription :=
  let defaultPlan := cfg.plans.resolvePlan none
  match raw with
  | none =>
    .ok
      { tier := defaultPlan.id
        planName := defaultPlan.name
        status := "inactive"
        startedAt := 0
        expiresAt := 0
        updatedAt := now
        isActive := false
        priceRub := defaultPlan.priceRub
        durationDays := defaultPlan.durationDays
        lastPaymentId := none
        paymentProvider := none
        amount := none
        currency := none }
  | some raw => do
      let get := Json.member? raw
      let tier := (cleanStr 64 (get "tier")).getD defaultPlan.id
      let status := PyStr.lower ((cleanStr 32 (get "status")).getD "inactive")
      let status := if status ∈ subscriptionStatus then status else "inactive"
      let startedAt ← cleanTimestampMs true (get "started_at")
      let expiresAt ← cleanTimestampMs true (get "expires_at")
      let updatedAt ← cleanTimestampMs false (get "updated_at")
      let amount ← cleanFloat (get "amount")
      let resolvedPlan := (cfg.plans.findPlanById (some tier)).getD defaultPlan
      let durationDays ← cleanInt (get "duration_days")
      let priceRub ← cleanFloat (get "price_rub")
      let expiresAt := expiresAt.getD 0
      let isActive : Bool := now < expiresAt
      pure
        { tier
          planName := (cleanStr 120 (get "plan_name")).getD resolvedPlan.name
          status := effectiveStatus status isActive
          startedAt := startedAt.getD 0
          expiresAt
          updatedAt := updatedAt.getD now
          isActive
          priceRub := (priceRub.getD resolvedPlan.priceRub).round2
          durationDays :=
            match durationDays with
            | some days => if days ≤ 0 then resolvedPlan.durationDays else days
            | none => resolvedPlan.durationDays
          lastPaymentId := cleanStr 255 (get "last_payment_id")
          paymentProvider := cleanStr 64 (get "payment_provider")
          amount := amount.map PyFloat.round2
          currency := some ((cleanStr 16 (get "currency")).getD "RUB") }

/-- `get_subscription`. -/
def getSubscription (cfg : Config) (now : ℤ) (s : State) (userId : String) : Except Error Subscription :=
  normalizeSubscription cfg now (s.accountData userId subscriptionType)

/-! ## §5 The payments -/

/-- A normalised entry of the payment list. -/
structure Payment where
  paymentId : String
  status : String
  provider : String
  createdAt : ℤ
  amount : Option PyFloat
  currency : Option String
  requestId : Option String
  label : Option String
  planId : Option String
  message : Option String
  assistantFields : Dict String String

/-- `_clean_assistant_fields`. -/
def cleanAssistantFields (raw : List (String × Json)) : Dict String String :=
  raw.foldl (fun cleaned (key, value) =>
    match cleanStr 64 (some (.str key)), cleanStr 2048 (some value) with
    | some fieldName, some fieldValue => cleaned.set fieldName fieldValue
    | _, _ => cleaned) Dict.empty

/-- One item of the stored list, `none` where it is skipped. -/
def normalizePayment (now : ℤ) : Json → Except Error (Option Payment)
  | .obj item => do
      let get := Json.member? item
      match cleanStr 255 (get "payment_id"), cleanStr 32 (get "status") with
      | some paymentId, some status => do
          let createdAt ← cleanTimestampMs false (get "created_at")
          let amount ← cleanFloat (get "amount")
          pure (some
            { paymentId
              status := PyStr.lower status
              provider := (cleanStr 64 (get "provider")).getD "unknown"
              createdAt := createdAt.getD now
              amount := amount.map PyFloat.round2
              currency := cleanStr 16 (get "currency")
              requestId := cleanStr 255 (get "request_id")
              label := cleanStr 255 (get "label")
              planId := cleanStr 64 (get "plan_id")
              message := cleanStr 255 (get "message")
              assistantFields :=
                match get "assistant_fields" with
                | some (.obj fields) => cleanAssistantFields fields
                | _ => Dict.empty })
      | _, _ => pure none
  | _ => pure none

/-- `get_payments`: at most 100 entries, the newest first. -/
def getPayments (now : ℤ) (s : State) (userId : String) : Except Error (List Payment) :=
  match (s.accountData userId paymentsType).bind fun raw => Json.member? raw "payments" with
  | some (.arr rawPayments) => do
      let normalized ← rawPayments.mapM (normalizePayment now)
      let sorted := (normalized.filterMap id).insertionSort fun a b => b.createdAt ≤ a.createdAt
      pure (sorted.take 100)
  | _ => pure []

/-- `find_payment_by_inv_id`. -/
def findPaymentByInvId (now : ℤ) (s : State) (userId invId : String) : Except Error (Option Payment) := do
  let payments ← getPayments now s userId
  pure (payments.find? fun item => item.requestId.getD "" = invId)

/-- A payment that is recorded as paid. -/
def Payment.IsPaid (p : Payment) : Prop := p.status = "success" ∨ p.status = "paid"

instance (p : Payment) : Decidable p.IsPaid := inferInstanceAs (Decidable (_ ∨ _))

end Setka.Handlers.Plus
