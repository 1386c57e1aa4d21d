/-
# Setka.Handlers.Plus — payments for Setka Plus.

The payment methods of `SetkaPlusHandler`: what a checkout request sends to a provider, what a
provider's callback leads to, and the one operation, `activate_subscription`, all of them end in. The
time, random identifiers and the answers of the providers' HTTP interfaces are arguments. Analytics
are best effort and left out.
-/
import Setka.Handlers.PlusData
import Setka.Lib.Action
import Setka.Lib.Base64

namespace Setka.Handlers.Plus

open Setka.Api Setka.Lib

/-! ## §1 Writing account data -/

/-- `a or b` of strings. -/
def orElse (a b : String) : String := if a = "" then b else a

/-- The normalised subscription as a JSON object. -/
def Subscription.toMembers (s : Subscription) : List (String × Json) :=
  [("tier", .str s.tier), ("status", .str s.status), ("started_at", .int s.startedAt),
    ("expires_at", .int s.expiresAt), ("updated_at", .int s.updatedAt),
    ("is_active", .bool s.isActive), ("price_rub", .float s.priceRub),
    ("duration_days", .int s.durationDays), ("plan_name", .str s.planName)] ++
  (s.lastPaymentId.map fun v => ("last_payment_id", Json.str v)).toList ++
  (s.paymentProvider.map fun v => ("payment_provider", Json.str v)).toList ++
  (s.amount.map fun v => ("amount", Json.float v)).toList ++
  (s.currency.map fun v => ("currency", Json.str v)).toList

/-- A payment entry as a JSON object. -/
def Payment.toJson (p : Payment) : Json :=
  .obj ([("payment_id", .str p.paymentId), ("status", .str p.status),
      ("provider", .str p.provider), ("created_at", .int p.createdAt)] ++
    (p.amount.map fun v => ("amount", Json.float v)).toList ++
    (p.currency.map fun v => ("currency", Json.str v)).toList ++
    (p.requestId.map fun v => ("request_id", Json.str v)).toList ++
    (p.label.map fun v => ("label", Json.str v)).toList ++
    (p.planId.map fun v => ("plan_id", Json.str v)).toList ++
    (p.message.map fun v => ("message", Json.str v)).toList ++
    (if p.assistantFields.items = [] then [] else
      [("assistant_fields", .obj (p.assistantFields.items.map fun (k, v) => (k, .str v)))]))

/-- `set_subscription`. -/
def setSubscription (cfg : Config) (now : ℤ) (userId : String) (updates : List (String × Json)) :
    Action State Error Subscription := do
  let existing ← .reads fun s => getSubscription cfg now s userId
  let get := Json.member? updates
  let status ← match cleanStr 32 (get "status") with
    | none => pure []
    | some status =>
      if PyStr.lower status ∈ subscriptionStatus then
        pure [("status", Json.str (PyStr.lower status))]
      else
        .raise (.synapseError 400 ("Unsupported status: " ++ status) "M_INVALID_PARAM")
  let tier :=
    match cleanStr 64 (get "tier") with
    | none => []
    | some tier =>
      ("tier", Json.str tier) :: match cfg.plans.findPlanById (some tier) with
        | none => []
        | some plan =>
          [("plan_name", .str plan.name), ("duration_days", .int plan.durationDays),
            ("price_rub", .float plan.priceRub)]
  let startedAt ← .lift (cleanTimestampMs true (get "started_at"))
  let expiresAt ← .lift (cleanTimestampMs true (get "expires_at"))
  let amount ← .lift (cleanFloat (get "amount"))
  let payload := existing.toMembers ++ status ++ tier ++
    (startedAt.map fun v => ("started_at", Json.int v)).toList ++
    (expiresAt.map fun v => ("expires_at", Json.int v)).toList ++
    ((cleanStr 255 (get "last_payment_id")).map fun v => ("last_payment_id", Json.str v)).toList ++
    ((cleanStr 64 (get "payment_provider")).map fun v => ("payment_provider", Json.str v)).toList ++
    (amount.map fun v => ("amount", Json.float v.round2)).toList ++
    ((cleanStr 16 (get "currency")).map fun v => ("currency", Json.str v)).toList ++
    [("updated_at", .int now)]
  let payload ← .lift (normalizeSubscription cfg now (some payload))
  .modify fun s => s.addAccountData userId subscriptionType payload.toMembers
  pure payload

/-- The argument of `record_payment`. -/
structure PaymentArgs where
  paymentId : String
  status : String
  provider : String
  createdAt : ℤ
  amount : Option PyFloat
  currency : Option String
  requestId : Option String
  label : Option String
  planId : Option String
  message : Option String
  assistantFields : Option (Dict String String)

/-- The entry that `record_payment` puts in front of the list, once the id and the status are
clean. -/
def PaymentArgs.entry (now : ℤ) (paymentId status : String) (existing : Option Payment)
    (payment : PaymentArgs) : Payment where
  paymentId
  status := PyStr.lower status
  provider := (cleanStr 64 (some (.str payment.provider))).getD "unknown"
  createdAt := (timestampMs false payment.createdAt).getD now
  amount := payment.amount.bind fun amount => if amount.isPos then some amount.round2 else none
  currency := cleanStr 16 (payment.currency.map Json.str)
  requestId := cleanStr 255 (payment.requestId.map Json.str)
  label := cleanStr 255 (payment.label.map Json.str)
  planId := cleanStr 64 (payment.planId.map Json.str)
  message := cleanStr 255 (payment.message.map Json.str)
  assistantFields :=
    match payment.assistantFields, existing with
    | some fields, _ => cleanAssistantFields (fields.items.map fun (k, v) => (k, .str v))
    | none, some existing => existing.assistantFields
    | none, none => Dict.empty

/-- The in-memory index after an entry was recorded. -/
def indexPending (userId : String) (entry : Payment) (pending : Dict String String) : Dict String String :=
  if entry.provider = "payanyway" then
    if entry.status = "pending" then pending.set entry.paymentId userId
    else if entry.status ∈ ["paid", "failed", "canceled"] then pending.erase entry.paymentId
    else pending
  else pending

/-- `record_payment`. -/
def recordPayment (now : ℤ) (userId : String) (payment : PaymentArgs) : Action State Error Unit := do
  let current ← .reads fun s => getPayments now s userId
  match cleanStr 255 (some (.str payment.paymentId)), cleanStr 32 (some (.str payment.status)) with
  | some paymentId, some status => do
      let existing := current.find? fun item => item.paymentId = paymentId
      let entry := payment.entry now paymentId status existing
      let kept := current.filter fun item => item.paymentId ≠ paymentId
      let payments := (entry :: kept).take 100
      .modify fun s =>
        { s.addAccountData userId paymentsType [("payments", .arr (payments.map Payment.toJson))] with
          payanywayPendingUsers := indexPending userId entry s.payanywayPendingUsers }
  | _, _ =>
    .raise (.synapseError 400 "payment_id and status are required" "M_INVALID_PARAM")

/-- The arguments of `activate_subscription`. -/
structure Activation where
  userId : String
  paymentId : String
  paymentProvider : String
  amount : PyFloat
  planId : Option String
  durationDays : Option ℤ
  currency : String

/-- `effective_duration_days`. -/
def Activation.effectiveDurationDays (a : Activation) (plan : Plan) : ℤ :=
  match a.durationDays with
  | some days => if 0 < days then days else plan.durationDays
  | none => plan.durationDays

/-- `effective_amount`. -/
def Activation.effectiveAmount (a : Activation) (plan : Plan) : PyFloat :=
  if a.amount.isPos then a.amount.round2 else plan.priceRub.round2

/-- The expiry that `activate_subscription` writes: the plan's days, counted from now or from the end
of what was bought before. -/
def extendedExpiry (now previousExpiry days : ℤ) : ℤ :=
  (if now < previousExpiry then previousExpiry else now) + days * 24 * 60 * 60 * 1000

/-- The subscription that `activate_subscription` writes. -/
def Activation.payload (now : ℤ) (a : Activation) (plan : Plan) (existing : Subscription) : List (String × Json) :=
  let amount := a.effectiveAmount plan
  let days := a.effectiveDurationDays plan
  let previousExpiry := (timestampMs true existing.expiresAt).getD 0
  [("tier", .str plan.id), ("plan_name", .str plan.name), ("status", .str "active"),
    ("started_at", .int (if existing.startedAt = 0 then now else existing.startedAt)),
    ("expires_at", .int (extendedExpiry now previousExpiry days)),
    ("last_payment_id", .str a.paymentId), ("payment_provider", .str a.paymentProvider),
    ("amount", .float amount), ("currency", .str a.currency), ("duration_days", .int days),
    ("price_rub", .float amount), ("updated_at", .int now)]

/-- `activate_subscription`. -/
def activateSubscription (cfg : Config) (now : ℤ) (a : Activation) : Action State Error Subscription := do
  let plan := cfg.plans.resolvePlan a.planId
  let existing ← .reads fun s => getSubscription cfg now s a.userId
  let payload := a.payload now plan existing
  .modify fun s => s.addAccountData a.userId subscriptionType payload
  recordPayment now a.userId
    { paymentId := a.paymentId
      status := "success"
      provider := a.paymentProvider
      createdAt := now
      amount := some (a.effectiveAmount plan)
      currency := some a.currency
      requestId := none
      label := none
      planId := some plan.id
      message := none
      assistantFields := none }
  .lift (normalizeSubscription cfg now (some payload))

/-! ## §2 Checkout requests -/

/-- What a checkout request answers. `fields` are the query of the checkout link, or the fields of the
checkout form, that the browser hands to the provider. -/
structure Checkout where
  paymentId : String
  requestId : Option String
  provider : String
  status : String
  amount : PyFloat
  label : String
  planId : String
  planName : String
  fields : Dict String String

/-- A client's request for a checkout. -/
structure CheckoutRequest where
  userId : String
  amount : Option PyFloat
  description : Option String
  planId : Option String

/-- `final_amount`: the amount of the request, or the price of the plan. -/
def CheckoutRequest.finalAmount (r : CheckoutRequest) (plan : Plan) : PyFloat :=
  (match r.amount with
    | some amount => if amount.isPos then amount else plan.priceRub
    | none => plan.priceRub).round2

def CheckoutRequest.comment (r : CheckoutRequest) (plan : Plan) : String :=
  orElse (r.description.getD "") (plan.name ++ " subscription")

/-- `_assert_acquiring_enabled`. -/
def assertAcquiringEnabled (cfg : Config) : Action State Error Unit :=
  if cfg.vouchersOnly then
    .raise (.synapseError 403 "Online checkout is disabled; use a voucher code" "M_FORBIDDEN")
  else pure ()

/-- The last part of every checkout request: the payment is recorded as pending, and so is the
subscription. -/
def openCheckout (cfg : Config) (now : ℤ) (userId requestId : String)
    (assistantFields : Option (Dict String String)) (c : Checkout) :
    Action State Error Checkout := do
  recordPayment now userId
    { paymentId := c.paymentId
      status := "pending"
      provider := c.provider
      createdAt := now
      amount := some c.amount
      currency := some "RUB"
      requestId := some requestId
      label := some c.label
      planId := some c.planId
      message := none
      assistantFields }
  let _ ← setSubscription cfg now userId
    [("status", .str "pending"), ("tier", .str c.planId), ("amount", .float c.amount)]
  pure c

/-- The label of a YooMoney payment. -/
def yoomoneyLabel (userId planId labelUuid : String) : String :=
  "setka_plus|" ++ userId ++ "|" ++ planId ++ "|" ++ labelUuid

/-- `_build_quickpay_url`, as the query of the link. -/
def quickpayQuery (cfg : Config) (amount : PyFloat) (label description : String) : Dict String String :=
  let query := (((((Dict.empty.set "receiver" cfg.yoomoneyReceiver).set "quickpay-form" "shop").set
    "targets" description).set "paymentType" "AC").set "sum" amount.format2).set "label" label
  if cfg.yoomoneyReturnUrl = "" then query else query.set "successURL" cfg.yoomoneyReturnUrl

/-- `create_yoomoney_payment_request`. `response` is the answer to the `request-payment` call, `none`
where it raises. -/
def createYoomoneyPaymentRequest (cfg : Config) (now : ℤ) (labelUuid paymentUuid : String)
    (response : Option Json) (r : CheckoutRequest) : Action State Error Checkout := do
  assertAcquiringEnabled cfg
  let plan := cfg.plans.resolvePlan r.planId
  let finalAmount := r.finalAmount plan
  let label := yoomoneyLabel r.userId plan.id labelUuid
  let paymentId := "setka_plus_" ++ paymentUuid
  let (requestId, status) :=
    if cfg.yoomoneyToken = "" ∨ cfg.yoomoneyReceiver = "" then (none, "created")
    else
      match response with
      | none => (none, "pending_external")
      | some (.obj response) =>
        (cleanStr 255 (Json.member? response "request_id"),
          ((cleanStr 32 (Json.member? response "status")).map PyStr.lower).getD "created")
      | some _ => (none, "created")
  openCheckout cfg now r.userId (requestId.getD paymentId) none
    { paymentId
      requestId
      provider := "yoomoney"
      status
      amount := finalAmount
      label
      planId := plan.id
      planName := plan.name
      fields := quickpayQuery cfg finalAmount label (r.comment plan) }

/-- `_robokassa_passwords`. -/
def robokassaPasswords (cfg : Config) (isTest : Bool) : String × String :=
  if isTest ∧ cfg.robokassaTestPassword1 ≠ "" ∧ cfg.robokassaTestPassword2 ≠ "" then
    (cfg.robokassaTestPassword1, cfg.robokassaTestPassword2)
  else (cfg.robokassaPassword1, cfg.robokassaPassword2)

/-- The parts of a Robokassa signature that come from the `Shp_` parameters. -/
def shpParts (shp : Dict String String) : List String :=
  (shp.keys.insertionSort (· ≤ ·)).map fun key => "Shp_" ++ key ++ "=" ++ shp.getD key ""

/-- `_robokassa_payment_signature`. -/
def robokassaPaymentSignature (cfg : Config) (merchantLogin outSum : String) (invId : ℕ)
    (password1 : String) (shp : Dict String String) : String :=
  cfg.md5 (PyStr.join ":" ([merchantLogin, outSum, toString invId, password1] ++ shpParts shp))

/-- `_encode_robokassa_uid`. -/
def encodeRobokassaUid (userId : String) : String := Base64.encode userId

/-- The query of the Robokassa checkout link. -/
def robokassaQuery (cfg : Config) (outSum signature description : String) (invId : ℕ)
    (plan uid pid : String) : Dict String String :=
  let query := ((((((((((((Dict.empty.set "MerchantLogin" cfg.robokassaMerchantLogin).set
    "OutSum" outSum).set "InvId" (toString invId)).set "Description" description).set
    "SignatureValue" signature).set "Culture" "ru").set "Encoding" "utf-8").set
    "Shp_plan" plan).set "Shp_uid" uid).set "Shp_pid" pid).set
    "ResultURL" (cfg.robokassaCallbackBaseUrl ++ "/result")).set
    "SuccessURL" (cfg.robokassaCallbackBaseUrl ++ "/return/success")).set
    "FailURL" (cfg.robokassaCallbackBaseUrl ++ "/return/fail")
  if cfg.robokassaIsTest then query.set "IsTest" "1" else query

/-- `create_robokassa_payment_request`. -/
def createRobokassaPaymentRequest (cfg : Config) (now : ℤ) (paymentUuid : String) (invId : ℕ)
    (r : CheckoutRequest) : Action State Error Checkout := do
  assertAcquiringEnabled cfg
  let password1 := (robokassaPasswords cfg cfg.robokassaIsTest).1
  if cfg.robokassaMerchantLogin = "" ∨ password1 = "" then
    .raise (.synapseError 500 "SETKA_PLUS_ROBOKASSA_PASSWORD1 is not configured" "M_UNKNOWN")
  else do
    let plan := cfg.plans.resolvePlan r.planId
    let finalAmount := r.finalAmount plan
    let paymentId := "setka_plus_" ++ paymentUuid
    let outSum := finalAmount.format2
    let planRef := PyStr.take 64 plan.id
    let uid := encodeRobokassaUid r.userId
    let pid := PyStr.take 64 paymentId
    let shp := ((Dict.empty.set "plan" planRef).set "uid" uid).set "pid" pid
    let signature := robokassaPaymentSignature cfg cfg.robokassaMerchantLogin outSum invId password1 shp
    openCheckout cfg now r.userId (toString invId) none
      { paymentId
        requestId := some (toString invId)
        provider := "robokassa"
        status := "created"
        amount := finalAmount
        label := "robokassa:" ++ toString invId
        planId := plan.id
        planName := plan.name
        fields := robokassaQuery cfg outSum signature (PyStr.take 100 (r.comment plan)) invId planRef uid pid }

/-- `_payanyway_form_signature`, without a subscriber and in rubles. -/
def payanywayFormSignature (cfg : Config) (transactionId amount testMode : String) : String :=
  cfg.md5 (String.join [cfg.payanywayMntId, transactionId, amount, "RUB", "", testMode, cfg.payanywayIntegrityCode])

/-- `_payanyway_assistant_fields`, without the return links, which carry nothing back. -/
def payanywayAssistantFields (cfg : Config) (paymentId amountStr testMode description planId
    encodedUserId : String) : Dict String String :=
  let fields := ((((((Dict.empty.set "MNT_ID" cfg.payanywayMntId).set
    "MNT_TRANSACTION_ID" paymentId).set "MNT_AMOUNT" amountStr).set "MNT_CURRENCY_CODE" "RUB").set
    "MNT_TEST_MODE" testMode).set "MNT_DESCRIPTION" (PyStr.take 500 description)).set
    "MNT_SIGNATURE" (payanywayFormSignature cfg paymentId amountStr testMode)
  if cfg.payanywaySimplaSelf then fields
  else
    ((fields.set "MNT_CUSTOM1" (PyStr.take 32 planId)).set
      "MNT_CUSTOM2" (PyStr.take 32 paymentId)).set "MNT_CUSTOM3" encodedUserId

/-- `create_payanyway_payment_request`. `operationId` is the result of the merchant API's invoice
call, which is made unless the form is in use. -/
def createPayanywayPaymentRequest (cfg : Config) (now : ℤ) (paymentUuid : String)
    (operationId : Option ℤ) (r : CheckoutRequest) : Action State Error Checkout := do
  assertAcquiringEnabled cfg
  if cfg.payanywayMntId = "" then
    .raise (.synapseError 500 "SETKA_PLUS_PAYANYWAY_MNT_ID is not configured" "M_UNKNOWN")
  else if cfg.payanywayIntegrityCode = "" ∧
      (cfg.payanywayApiUsername = "" ∨ cfg.payanywayApiPassword = "") then
    .raise (.synapseError 500
      "SETKA_PLUS_PAYANYWAY integrity code or Merchant API credentials required" "M_UNKNOWN")
  else do
    let plan := cfg.plans.resolvePlan r.planId
    let finalAmount := r.finalAmount plan
    let paymentId := "setka_plus_" ++ paymentUuid
    let testMode := if cfg.payanywayIsTest then "1" else "0"
    let merchantApi : Bool := cfg.payanywaySimplaSelf = false ∧ operationId.isSome
    let assistantFields :=
      if merchantApi then Dict.empty
      else payanywayAssistantFields cfg paymentId finalAmount.format2 testMode (r.comment plan)
        plan.id (PyStr.take 255 (encodeRobokassaUid r.userId))
    openCheckout cfg now r.userId paymentId (if merchantApi then none else some assistantFields)
      { paymentId
        requestId := some paymentId
        provider := "payanyway"
        status := "created"
        amount := finalAmount
        label := "payanyway:" ++ paymentId
        planId := plan.id
        planName := plan.name
        fields := assistantFields }

/-- What `process_yoomoney_payment` answers. -/
structure Processed where
  status : String
  paymentId : String
  requestId : String
  subscription : Subscription

/-- The status and the payment id in the answer to the `process-payment` call. -/
def processResponse (requestId : String) : Json → String × String
  | .obj response =>
    (((cleanStr 32 (Json.member? response "status")).map PyStr.lower).getD "unknown",
      (cleanStr 255 (Json.member? response "payment_id")).getD requestId)
  | _ => ("unknown", requestId)

/-- The activation that `process_yoomoney_payment` asks for: of the plan that the call names. -/
def processActivation (cfg : Config) (userId paymentId : String) (planId : Option String) : Activation :=
  let selectedPlan := cfg.plans.resolvePlan planId
  { userId
    paymentId
    paymentProvider := "yoomoney"
    amount := selectedPlan.priceRub
    planId := some selectedPlan.id
    durationDays := some selectedPlan.durationDays
    currency := "RUB" }

/-- `process_yoomoney_payment`. `response` is the answer to the `process-payment` call. -/
def processYoomoneyPayment (cfg : Config) (now : ℤ) (userId requestId : String)
    (planId : Option String) (response : Json) : Action State Error Processed :=
  if cfg.yoomoneyToken = "" then
    .raise (.synapseError 500 "SETKA_PLUS_YOOMONEY_OAUTH_TOKEN is not configured" "M_UNKNOWN")
  else
    match cleanStr 255 (some (.str requestId)) with
    | none => .raise (.synapseError 400 "request_id is required" "M_MISSING_PARAM")
    | some requestId => do
        let (status, paymentId) := processResponse requestId response
        let selectedPlan := cfg.plans.resolvePlan planId
        if status = "success" then do
          let subscription ← activateSubscription cfg now (processActivation cfg userId paymentId planId)
          pure ⟨status, paymentId, requestId, subscription⟩
        else do
          recordPayment now userId
            { paymentId
              status
              provider := "yoomoney"
              createdAt := now
              amount := some selectedPlan.priceRub
              currency := some "RUB"
              requestId := some requestId
              label := none
              planId := some selectedPlan.id
              message := none
              assistantFields := none }
          let subscription ← .reads fun s => getSubscription cfg now s userId
          pure ⟨status, paymentId, requestId, subscription⟩

/-! ## §3 Callbacks

Each handler first checks the callback and reads off an `Order`, then settles it. -/

/-- What an accepted callback asks for: the arguments of its activation, and of the entry it records
afterwards. -/
structure Order where
  userId : String
  paymentId : String
  provider : String
  amount : PyFloat
  planId : Option String
  currency : String
  status : String
  requestId : Option String
  label : String
  recordedPlanId : String

/-- The activation that an order asks for. -/
def Order.activation (o : Order) : Activation where
  userId := o.userId
  paymentId := o.paymentId
  paymentProvider := o.provider
  amount := o.amount
  planId := o.planId
  durationDays := none
  currency := o.currency

/-- The last part of every callback handler. -/
def settle (cfg : Config) (now : ℤ) (o : Order) : Action State Error Subscription := do
  let subscription ← activateSubscription cfg now o.activation
  recordPayment now o.userId
    { paymentId := o.paymentId
      status := o.status
      provider := o.provider
      createdAt := now
      amount := some o.amount
      currency := some o.currency
      requestId := o.requestId
      label := some o.label
      planId := some o.recordedPlanId
      message := none
      assistantFields := none }
  pure subscription

/-- `_calculate_yoomoney_webhook_hash`. -/
def calculateYoomoneyWebhookHash (cfg : Config) (payload : Dict String String) : String :=
  cfg.sha1 (PyStr.join "&" [payload.getD "notification_type" "", payload.getD "operation_id" "",
      payload.getD "amount" "", payload.getD "currency" "", payload.getD "datetime" "",
      payload.getD "sender" "", payload.getD "codepro" "", cfg.yoomoneyNotificationSecret,
      payload.getD "label" ""])

/-- The checks of `handle_yoomoney_webhook`. `uuid` stands in where the payload names no operation
and no request. -/
def yoomoneyOrder (cfg : Config) (uuid : String) (payload : Dict String String) : Except Error Order :=
  let providedHash := PyStr.lower (PyStr.strip (payload.getD "sha1_hash" ""))
  if cfg.yoomoneyNotificationSecret ≠ "" ∧
      (providedHash = "" ∨ providedHash ≠ calculateYoomoneyWebhookHash cfg payload) then
    .error (.synapseError 403 "Invalid YooMoney webhook signature" "M_FORBIDDEN")
  else
    let label := payload.getD "label" ""
    match PyStr.split '|' label with
    | "setka_plus" :: userId :: third :: rest =>
      let planId := if rest = [] then none else some third
      .ok
        { userId
          paymentId := orElse (payload.getD "operation_id" "") (orElse (payload.getD "request_id" "") uuid)
          provider := "yoomoney_webhook"
          amount := (cleanFloatStr (payload.getD "amount" "")).getD cfg.plusPriceRub
          planId
          currency := orElse (payload.getD "currency" "") "RUB"
          status := "success"
          requestId := none
          label
          recordedPlanId := orElse (planId.getD "") "setka_plus" }
    | _ => .error (.synapseError 400 "Unsupported payment label" "M_INVALID_PARAM")

/-- `handle_yoomoney_webhook`. -/
def handleYoomoneyWebhook (cfg : Config) (now : ℤ) (uuid : String) (payload : Dict String String) :
    Action State Error (String × Subscription) := do
  let order ← .lift (yoomoneyOrder cfg uuid payload)
  let subscription ← settle cfg now order
  pure (order.userId, subscription)

/-- `_robokassa_result_signature`. -/
def robokassaResultSignature (cfg : Config) (outSum invId password2 : String) (shp : Dict String String) : String :=
  cfg.md5 (PyStr.join ":" ([outSum, invId, password2] ++ shpParts shp))

/-- `_extract_robokassa_shp`. -/
def extractRobokassaShp (payload : Dict String String) : Dict String String :=
  payload.items.foldl (fun shp (key, value) =>
    if PyStr.startsWith "Shp_" key then shp.set (PyStr.drop 4 key) value else shp) Dict.empty

/-- `_decode_robokassa_uid`. All the exceptions of its steps are `ValueError`s. -/
def decodeRobokassaUid (encoded : String) : Except Error String :=
  match Base64.decode encoded with
  | some userId => .ok userId
  | none => .error .valueError

/-- The payment id of a Robokassa callback. -/
def robokassaPaymentId (now : ℤ) (s : State) (userId invId : String) (shp : Dict String String) :
    Except Error String := do
  let paymentId := PyStr.strip (shp.getD "pid" "")
  if paymentId ≠ "" then pure paymentId
  else do
    let pending ← findPaymentByInvId now s userId invId
    pure (orElse ((pending.map Payment.paymentId).getD "") ("robokassa_" ++ invId))

/-- The checks of `handle_robokassa_result`. -/
def robokassaOrder (cfg : Config) (now : ℤ) (s : State) (payload : Dict String String) : Except Error Order :=
  let outSum := PyStr.strip (payload.getD "OutSum" "")
  let invId := PyStr.strip (payload.getD "InvId" "")
  let signature := PyStr.strip (payload.getD "SignatureValue" "")
  if outSum = "" ∨ invId = "" ∨ signature = "" then
    .error (.synapseError 400 "Missing Robokassa parameters" "M_MISSING_PARAM")
  else
    let shp := extractRobokassaShp payload
    let uid := shp.getD "uid" ""
    if uid = "" then
      .error (.synapseError 400 "Missing Robokassa user reference" "M_MISSING_PARAM")
    else
      let isTest : Bool := PyStr.strip (payload.getD "IsTest" "0") = "1"
      let password2 := orElse (robokassaPasswords cfg isTest).2 (robokassaPasswords cfg false).2
      if password2 = "" then
        .error (.synapseError 500 "SETKA_PLUS_ROBOKASSA_PASSWORD2 is not configured" "M_UNKNOWN")
      else if PyStr.upper signature ≠ PyStr.upper (robokassaResultSignature cfg outSum invId password2 shp) then
        .error (.synapseError 403 "Invalid Robokassa signature" "M_FORBIDDEN")
      else do
        let userId ← decodeRobokassaUid uid
        let paymentId ← robokassaPaymentId now s userId invId shp
        pure
          { userId
            paymentId
            provider := "robokassa"
            amount := (cleanFloatStr outSum).getD cfg.plusPriceRub
            planId := shp.get? "plan"
            currency := "RUB"
            status := "paid"
            requestId := some invId
            label := "robokassa:" ++ invId
            recordedPlanId := orElse (shp.getD "plan" "") "setka_plus" }

/-- `handle_robokassa_result`. -/
def handleRobokassaResult (cfg : Config) (now : ℤ) (payload : Dict String String) : Action State Error String := do
  let order ← .reads fun s => robokassaOrder cfg now s payload
  let _ ← settle cfg now order
  pure (PyStr.strip (payload.getD "InvId" ""))

/-- `_payanyway_user_id_from_payload`. -/
def payanywayUserIdFromPayload (payload : Dict String String) : Except Error String :=
  let subscriber := PyStr.strip (payload.getD "MNT_SUBSCRIBER_ID" "")
  let custom := PyStr.strip (payload.getD "MNT_CUSTOM3" "")
  if subscriber ≠ "" then decodeRobokassaUid subscriber
  else if custom ≠ "" then decodeRobokassaUid custom
  else .ok ""

/-- `_payanyway_pay_signature`. -/
def payanywayPaySignature (cfg : Config) (payload : Dict String String) : Except Error String :=
  let amountRaw := PyStr.strip (payload.getD "MNT_AMOUNT" "")
  match PyFloat.parse (orElse amountRaw "0") with
  | none => .error .valueError
  | some amount =>
    .ok (cfg.md5 (String.join [payload.getD "MNT_ID" "", payload.getD "MNT_TRANSACTION_ID" "",
        payload.getD "MNT_OPERATION_ID" "", amount.format2,
        payload.getD "MNT_CURRENCY_CODE" "", payload.getD "MNT_SUBSCRIBER_ID" "",
        payload.getD "MNT_TEST_MODE" "0", cfg.payanywayIntegrityCode]))

/-- The answer of `handle_payanyway_pay_url` without an order, or the order. -/
def payanywayOrder (cfg : Config) (s : State) (payload : Dict String String) : Except Error (String ⊕ Order) :=
  if payload.items = [] then .ok (.inl "SUCCESS")
  else do
    let expected ← payanywayPaySignature cfg payload
    if PyStr.lower (payload.getD "MNT_SIGNATURE" "") ≠ PyStr.lower expected then
      .error (.synapseError 403 "Invalid PayAnyWay signature" "M_FORBIDDEN")
    else do
      let paymentId := PyStr.strip (payload.getD "MNT_TRANSACTION_ID" "")
      let userId ← payanywayUserIdFromPayload payload
      let userId :=
        if userId = "" ∧ paymentId ≠ "" then s.payanywayPendingUsers.getD paymentId ""
        else userId
      let planId := orElse (PyStr.strip (payload.getD "MNT_CUSTOM1" "")) "setka_plus"
      if paymentId = "" ∨ userId = "" then pure (.inl "FAIL")
      else
        pure (.inr
          { userId
            paymentId
            provider := "payanyway"
            amount := (cleanFloatStr (payload.getD "MNT_AMOUNT" "")).getD cfg.plusPriceRub
            planId := some planId
            currency := "RUB"
            status := "paid"
            requestId := some paymentId
            label := "payanyway:" ++ paymentId
            recordedPlanId := planId })

/-- `handle_payanyway_pay_url`. -/
def handlePayanywayPayUrl (cfg : Config) (now : ℤ) (payload : Dict String String) : Action State Error String := do
  match ← .reads fun s => payanywayOrder cfg s payload with
  | .inl answer => pure answer
  | .inr order => do
      let _ ← settle cfg now order
      pure "SUCCESS"

/-- A callback of one of the providers. -/
inductive Callback
  | yoomoney (uuid : String) (payload : Dict String String)
  | robokassa (payload : Dict String String)
  | payanyway (payload : Dict String String)

/-- The order a callback leads to, if any. -/
def Callback.order? (cfg : Config) (now : ℤ) (s : State) : Callback → Option Order
  | yoomoney uuid payload => (yoomoneyOrder cfg uuid payload).toOption
  | robokassa payload => (robokassaOrder cfg now s payload).toOption
  | payanyway payload =>
    match payanywayOrder cfg s payload with
    | .ok (.inr order) => some order
    | _ => none

/-- The state after a callback was handled. -/
def Callback.handle (cfg : Config) (now : ℤ) (s : State) : Callback → State
  | yoomoney uuid payload => ((handleYoomoneyWebhook cfg now uuid payload).run s).2
  | robokassa payload => ((handleRobokassaResult cfg now payload).run s).2
  | payanyway payload => ((handlePayanywayPayUrl cfg now payload).run s).2

end Setka.Handlers.Plus
