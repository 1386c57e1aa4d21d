/-
# Setka.Handlers.PlusPrice — what a subscription is sold for.

Runs of checkout requests, of payments that a provider reports back, and of `process` calls. The plan
and the amount leave the server in a checkout and come back in a callback or in a later call of the
client; the amount is the client's choice, and so is what no signature covers. A run in which the
client leaves both alone sells every plan at its price.
-/
import Setka.Handlers.PlusCredit

namespace Setka.Handlers.Plus

open Setka.Api Setka.Lib Setka.Lib.Action Dict PyStr PyFloat

/-! ## §1 Payments at the providers -/

/-- A payment that a request opened at a provider: for whom, for which plan, and the checkout that the
request answered with. -/
structure Invoice where
  userId : String
  plan : Plan
  checkout : Checkout

/-- An activation through a provider: of which payment, what the provider charged for it, and what was
activated. -/
structure Sale where
  invoice : Invoice
  charged : PyFloat
  plan : Plan
  durationDays : ℤ

/-- The server, the payments opened so far and the activations so far. -/
structure World where
  state : State
  invoices : List Invoice
  sales : List Sale

/-- A step of a run. The invoice and the amount of the last two are what the provider knows about the
payment it reports. -/
inductive Act
  | createYoomoney (now : ℤ) (labelUuid paymentUuid : String) (response : Option Json) (r : CheckoutRequest)
  | createRobokassa (now : ℤ) (paymentUuid : String) (invId : ℕ) (r : CheckoutRequest)
  | createPayanyway (now : ℤ) (paymentUuid : String) (operationId : Option ℤ) (r : CheckoutRequest)
  | callback (d : Delivery) (invoice : Invoice) (charged : PyFloat)
  | process (now : ℤ) (userId requestId : String) (planId : Option String) (response : Json)
      (invoice : Invoice) (charged : PyFloat)

/-- The activation that a callback leads to, if any. -/
def callbackActivation (cfg : Config) (s : State) (d : Delivery) : Option Activation :=
  match d.callback.order? cfg d.now s with
  | some o =>
    match getSubscription cfg d.now s o.userId with
    | .ok _ => some o.activation
    | .error _ => none
  | none => none

/-- The activation that a `process` call leads to, if any. -/
def processActivation? (cfg : Config) (now : ℤ) (s : State) (userId requestId : String)
    (planId : Option String) (response : Json) : Option Activation :=
  if cfg.yoomoneyToken = "" then none
  else
    match cleanStr 255 (some (.str requestId)) with
    | none => none
    | some requestId =>
      if (processResponse requestId response).1 = "success" then
        match getSubscription cfg now s userId with
        | .ok _ =>
          some (processActivation cfg userId (processResponse requestId response).2 planId)
        | .error _ => none
      else none

/-- What an activation sells. -/
def Activation.sale (cfg : Config) (a : Activation) (invoice : Invoice) (charged : PyFloat) : Sale where
  invoice
  charged
  plan := cfg.plans.resolvePlan a.planId
  durationDays := a.effectiveDurationDays (cfg.plans.resolvePlan a.planId)

/-- A request was answered: with a checkout, it opened a payment. -/
def World.opened (cfg : Config) (w : World) (r : CheckoutRequest) : Except Error Checkout × State → World
  | (.ok checkout, s) =>
    { w with
      state := s
      invoices := w.invoices ++ [⟨r.userId, cfg.plans.resolvePlan r.planId, checkout⟩] }
  | (.error _, s) => { w with state := s }

/-- A payment was reported: with an activation, something was sold. -/
def World.reported (cfg : Config) (w : World) (invoice : Invoice) (charged : PyFloat) (s : State) :
    Option Activation → World
  | some a => { w with state := s, sales := w.sales ++ [a.sale cfg invoice charged] }
  | none => { w with state := s }

/-- One step of a run. -/
def World.step (cfg : Config) (w : World) : Act → World
  | .createYoomoney now labelUuid paymentUuid response r =>
    w.opened cfg r ((createYoomoneyPaymentRequest cfg now labelUuid paymentUuid response r).run w.state)
  | .createRobokassa now paymentUuid invId r =>
    w.opened cfg r ((createRobokassaPaymentRequest cfg now paymentUuid invId r).run w.state)
  | .createPayanyway now paymentUuid operationId r =>
    w.opened cfg r ((createPayanywayPaymentRequest cfg now paymentUuid operationId r).run w.state)
  | .callback d invoice charged =>
    w.reported cfg invoice charged (Plus.step cfg w.state d) (callbackActivation cfg w.state d)
  | .process now userId requestId planId response invoice charged =>
    w.reported cfg invoice charged ((processYoomoneyPayment cfg now userId requestId planId response).run w.state).2
      (processActivation? cfg now w.state userId requestId planId response)

/-! ## §2 What the providers guarantee

The link to YooMoney is not signed. The `Shp_` parameters and the sum of a Robokassa link are, and so
is the sum of a PayAnyWay form, but not its `MNT_CUSTOM` fields. An invoice made through PayAnyWay's
merchant interface has no fields at all. -/

/-- The callback is the provider's report that it charged an amount for the payment. -/
def Reports (invoice : Invoice) (charged : PyFloat) : Callback → Prop
  | .yoomoney _ _ => invoice.checkout.provider = "yoomoney"
  | .robokassa payload =>
    invoice.checkout.provider = "robokassa" ∧
    (∀ key, PyStr.startsWith "Shp_" key → payload.get? key = invoice.checkout.fields.get? key) ∧
    PyFloat.parse (invoice.checkout.fields.getD "OutSum" "") = some charged
  | .payanyway payload =>
    invoice.checkout.provider = "payanyway" ∧
    PyFloat.parse invoice.checkout.amount.format2 = some charged ∧
    (invoice.checkout.fields.items = [] → payload.get? "MNT_CUSTOM1" = none)

/-- What comes from a provider is genuine: a payment that was opened, and what was charged for it. -/
def Act.Genuine (w : World) : Act → Prop
  | .createYoomoney _ _ _ _ _ => True
  | .createRobokassa _ _ _ _ => True
  | .createPayanyway _ _ _ _ => True
  | .callback d invoice charged => invoice ∈ w.invoices ∧ Reports invoice charged d.callback
  | .process _ _ requestId _ response invoice charged =>
    ∀ requestId', cleanStr 255 (some (.str requestId)) = some requestId' →
      (processResponse requestId' response).1 = "success" →
        invoice ∈ w.invoices ∧ invoice.checkout.provider = "yoomoney" ∧
        invoice.checkout.requestId = some requestId' ∧
        PyFloat.parse invoice.checkout.amount.format2 = some charged

/-! ## §3 When the client takes no liberties -/

/-- The amount of the request, where it has one, is not below the price of the plan. -/
def CheckoutRequest.AmountCovers (r : CheckoutRequest) (plan : Plan) : Prop :=
  ∀ amount, r.amount = some amount → amount.isPos → plan.priceRub.le amount.round2

/-- The reference under which a PayAnyWay callback names the plan. -/
def payanywayPlanRef (cfg : Config) (operationId : Option ℤ) (plan : Plan) : String :=
  if cfg.payanywaySimplaSelf ∨ operationId.isSome then "setka_plus"
  else orElse (PyStr.strip (PyStr.take 32 plan.id)) "setka_plus"

/-- The unsigned part of a payment is as the checkout has it. -/
def Untouched (invoice : Invoice) (charged : PyFloat) : Callback → Prop
  | .yoomoney _ payload =>
    payload.getD "label" "" = invoice.checkout.label ∧
    ∀ sum, PyFloat.parse (invoice.checkout.fields.getD "sum" "") = some sum → sum.le charged
  | .robokassa _ => True
  | .payanyway payload =>
    payload.get? "MNT_CUSTOM1" = invoice.checkout.fields.get? "MNT_CUSTOM1"

/-- A request asks for at least the price of a plan that the provider's reference to it leads back to,
a payer changes nothing in a checkout, and a `process` call names the plan of its payment. -/
def Act.Fair (cfg : Config) : Act → Prop
  | .createYoomoney _ _ _ _ r =>
    let plan := cfg.plans.resolvePlan r.planId
    r.AmountCovers plan ∧ '|' ∉ r.userId.toList ∧ '|' ∉ plan.id.toList ∧
    cfg.plans.resolvePlan (some plan.id) = plan
  | .createRobokassa _ _ _ r =>
    let plan := cfg.plans.resolvePlan r.planId
    r.AmountCovers plan ∧ cfg.plans.resolvePlan (some (PyStr.take 64 plan.id)) = plan
  | .createPayanyway _ _ operationId r =>
    let plan := cfg.plans.resolvePlan r.planId
    r.AmountCovers plan ∧ cfg.plans.resolvePlan (some (payanywayPlanRef cfg operationId plan)) = plan
  | .callback d invoice charged => Untouched invoice charged d.callback
  | .process _ _ _ planId _ invoice _ => cfg.plans.resolvePlan planId = invoice.plan

/-- Any genuine step, and one where the client also takes no liberties. -/
def GenuineStep (cfg : Config) (w w' : World) : Prop :=
  ∃ act, Act.Genuine w act ∧ w' = w.step cfg act

def FairStep (cfg : Config) (w w' : World) : Prop :=
  ∃ act, Act.Genuine w act ∧ act.Fair cfg ∧ w' = w.step cfg act

/-- A run starts without open payments. -/
def World.Initial (w : World) : Prop := w.invoices = [] ∧ w.sales = []

/-- What was activated is the plan that the payment was created for, and the provider charged at least
its price. -/
def Sale.AtItsPrice (sale : Sale) : Prop :=
  sale.plan = sale.invoice.plan ∧ sale.durationDays = sale.invoice.plan.durationDays ∧
  sale.invoice.plan.priceRub.le sale.charged

/-! ## §4 What a checkout carries -/

variable {cfg : Config} {now : ℤ} {userId : String} {c : Checkout} {s t : State}

theorem openCheckout_checkout {requestId : String} {assistantFields : Option (Dict String String)}
    {c' : Checkout} (h : (openCheckout cfg now userId requestId assistantFields c).run s = (.ok c', t)) :
    c' = c := by
  obtain ⟨_, s₁, -, h⟩ := exists_of_run_bind_eq_ok h
  obtain ⟨_, s₂, -, h⟩ := exists_of_run_bind_eq_ok h
  exact (Except.ok.inj (Prod.mk.inj h).1).symm

variable {paymentUuid : String} {r : CheckoutRequest}

theorem createYoomoney_checkout {labelUuid : String} {response : Option Json}
    (h : (createYoomoneyPaymentRequest cfg now labelUuid paymentUuid response r).run s = (.ok c, t)) :
    let plan := cfg.plans.resolvePlan r.planId
    c.provider = "yoomoney" ∧ c.amount = r.finalAmount plan ∧
      c.label = yoomoneyLabel r.userId plan.id labelUuid ∧
      c.fields = quickpayQuery cfg c.amount c.label (r.comment plan) := by
  obtain ⟨_, s₁, -, h⟩ := exists_of_run_bind_eq_ok h
  dsimp only at h
  split at h
  · obtain rfl := openCheckout_checkout h
    exact ⟨rfl, rfl, rfl, rfl⟩
  · obtain rfl := openCheckout_checkout h
    exact ⟨rfl, rfl, rfl, rfl⟩

theorem createRobokassa_checkout {invId : ℕ}
    (h : (createRobokassaPaymentRequest cfg now paymentUuid invId r).run s = (.ok c, t)) :
    let plan := cfg.plans.resolvePlan r.planId
    c.provider = "robokassa" ∧ c.amount = r.finalAmount plan ∧
      c.fields.get? "OutSum" = some c.amount.format2 ∧
      c.fields.get? "Shp_plan" = some (PyStr.take 64 plan.id) := by
  obtain ⟨_, s₁, -, h⟩ := exists_of_run_bind_eq_ok h
  dsimp only at h
  split at h
  · cases h
  obtain rfl := openCheckout_checkout h
  refine ⟨rfl, rfl, ?_, ?_⟩
  · unfold robokassaQuery
    split <;> simp
  · unfold robokassaQuery
    split <;> simp

theorem payanywayAssistantFields_custom1 (cfg : Config)
    (paymentId amountStr testMode description planId encodedUserId : String) :
    (payanywayAssistantFields cfg paymentId amountStr testMode description planId
      encodedUserId).get? "MNT_CUSTOM1" =
      if cfg.payanywaySimplaSelf then none else some (PyStr.take 32 planId) := by
  unfold payanywayAssistantFields
  split <;> simp

theorem createPayanyway_checkout {operationId : Option ℤ}
    (h : (createPayanywayPaymentRequest cfg now paymentUuid operationId r).run s = (.ok c, t)) :
    let plan := cfg.plans.resolvePlan r.planId
    c.provider = "payanyway" ∧ c.amount = r.finalAmount plan ∧
      orElse (PyStr.strip (c.fields.getD "MNT_CUSTOM1" "")) "setka_plus" =
        payanywayPlanRef cfg operationId plan := by
  obtain ⟨_, s₁, -, h⟩ := exists_of_run_bind_eq_ok h
  split at h
  · cases h
  split at h
  · cases h
  obtain rfl := openCheckout_checkout h
  refine ⟨rfl, rfl, ?_⟩
  rw [payanywayPlanRef]
  cases hself : cfg.payanywaySimplaSelf with
  | true =>
    simp only [Dict.getD, Bool.true_eq_false, false_and, decide_false, Bool.false_eq_true,
      if_false, payanywayAssistantFields_custom1, hself, if_true, Option.getD_none, true_or]
    decide
  | false =>
    cases operationId with
    | some operation =>
      simp only [Dict.getD, Option.isSome_some, and_self, decide_true, if_true,
        get?_empty, Option.getD_none, or_true]
      decide
    | none =>
      simp only [Dict.getD, Option.isSome_none, Bool.false_eq_true, and_false, decide_false,
        if_false, payanywayAssistantFields_custom1, hself, Option.getD_some, or_self]

/-! ## §5 What a callback brings back -/

/-- The parameter `k` is the value of the key `Shp_k`. -/
theorem get?_extractRobokassaShp (payload : Dict String String) (k : String) :
    (extractRobokassaShp payload).get? k = payload.get? ("Shp_" ++ k) := by
  suffices hfold : ∀ (items : List (String × String)) (shp : Dict String String), (items.map Prod.fst).Nodup →
      (items.foldl (fun shp item => if PyStr.startsWith "Shp_" item.1 then
        shp.set (PyStr.drop 4 item.1) item.2 else shp) shp).get? k =
        (items.lookup ("Shp_" ++ k)).or (shp.get? k) by
    have h := hfold payload.items Dict.empty payload.nodup
    rw [get?_empty, Option.or_none] at h
    exact h
  have hlength : "Shp_".toList.length = 4 := by decide
  intro items
  induction items with
  | nil => intro shp _; rfl
  | cons item items ih =>
    obtain ⟨key, value⟩ := item
    intro shp hnodup
    obtain ⟨hfresh, hnodup⟩ := List.nodup_cons.mp hnodup
    rw [List.foldl_cons, ih _ hnodup]
    by_cases hkey : key = "Shp_" ++ k
    · -- the entry of the parameter, which no later entry repeats
      subst hkey
      have hlater : items.lookup ("Shp_" ++ k) = none := by
        rw [List.lookup_eq_none_iff]
        intro item hitem
        rw [bne_iff_ne]
        rintro heq
        exact hfresh (List.mem_map.mpr ⟨item, hitem, heq.symm⟩)
      have hdrop : PyStr.drop 4 ("Shp_" ++ k) = k := by
        rw [← hlength, drop_append]
      have hset : (if PyStr.startsWith "Shp_" ("Shp_" ++ k) then
          shp.set (PyStr.drop 4 ("Shp_" ++ k)) value else shp) = shp.set k value := by
        rw [if_pos (startsWith_iff.mpr ⟨k, rfl⟩), hdrop]
      show (items.lookup ("Shp_" ++ k)).or (Dict.get? (if _ then _ else _) k) = _
      rw [hlater, hset, List.lookup_cons_self, get?_set, if_pos rfl]
      rfl
    · have hother : (("Shp_" ++ k) == key) = false := beq_false_of_ne (Ne.symm hkey)
      rw [List.lookup_cons, hother]
      congr 1
      split
      · rename_i hprefix
        obtain ⟨rest, rfl⟩ := startsWith_iff.mp hprefix
        rw [← hlength, drop_append, get?_set, if_neg]
        rintro rfl
        exact hkey rfl
      · rfl

variable {payload : Dict String String} {o : Order}

theorem robokassaOrder_planId (h : robokassaOrder cfg now s payload = .ok o) :
    o.planId = payload.get? "Shp_plan" := by
  unfold robokassaOrder at h
  dsimp only at h
  split at h
  · cases h
  split at h
  · cases h
  split at h
  · cases h
  · split at h
    · cases h
    · obtain ⟨userId, -, h⟩ := except_bind_eq_ok.mp h
      obtain ⟨paymentId, -, h⟩ := except_bind_eq_ok.mp h
      obtain rfl := Except.ok.inj h
      have hkey : "Shp_" ++ "plan" = "Shp_plan" := by decide
      rw [← hkey, ← get?_extractRobokassaShp]

theorem yoomoneyOrder_parts {uuid : String} (h : yoomoneyOrder cfg uuid payload = .ok o) :
    ∃ third rest, PyStr.split '|' (payload.getD "label" "") = "setka_plus" :: o.userId :: third :: rest ∧
      o.planId = if rest = [] then none else some third := by
  unfold yoomoneyOrder at h
  dsimp only at h
  split at h
  · cases h
  split at h
  · rename_i userId third rest hsplit
    obtain rfl := Except.ok.inj h
    exact ⟨third, rest, hsplit, rfl⟩
  · cases h

theorem payanywayOrder_planId (h : payanywayOrder cfg s payload = .ok (.inr o)) :
    o.planId = some (orElse (PyStr.strip (payload.getD "MNT_CUSTOM1" "")) "setka_plus") := by
  unfold payanywayOrder at h
  split at h
  · cases h
  obtain ⟨expected, -, h⟩ := except_bind_eq_ok.mp h
  split at h
  · cases h
  obtain ⟨userId, -, h⟩ := except_bind_eq_ok.mp h
  extract_lets user planId at h
  split at h
  · cases h
  · obtain rfl := Sum.inr.inj (Except.ok.inj h)
    rfl

/-- The parts of a label whose user and plan have no bar. -/
theorem split_yoomoneyLabel {planId : String} (labelUuid : String) (huser : '|' ∉ userId.toList)
    (hplan : '|' ∉ planId.toList) :
    ∃ rest, rest ≠ [] ∧ PyStr.split '|' (yoomoneyLabel userId planId labelUuid) =
      "setka_plus" :: userId :: planId :: rest := by
  have htext : (yoomoneyLabel userId planId labelUuid).toList = "setka_plus".toList ++
      '|' :: (userId.toList ++ '|' :: (planId.toList ++ '|' :: labelUuid.toList)) := by
    simp [yoomoneyLabel, String.toList_append]
  refine ⟨(labelUuid.toList.splitOn '|').map String.ofList, ?_, ?_⟩
  · rw [Ne, List.map_eq_nil_iff]
    exact List.splitOn_ne_nil _ _
  rw [PyStr.split, htext, List.splitOn_append_cons_self_of_not_mem (by decide),
    List.splitOn_append_cons_self_of_not_mem huser,
    List.splitOn_append_cons_self_of_not_mem hplan]
  simp

/-! ## §6 What a fair request opens -/

theorem Plans.fallback_mem (plans : Plans) : plans.fallback ∈ plans.list := by
  unfold fallback
  split
  · rename_i plan hfind
    exact List.mem_of_find?_eq_some hfind
  split
  · rename_i plan hfind
    exact List.mem_of_find?_eq_some hfind
  · exact List.head_mem plans.nonempty

/-- A resolved plan is one of the list, and active unless it is what missing plans fall back to. -/
theorem Plans.resolvePlan_spec (plans : Plans) (planId : Option String) : plans.resolvePlan planId ∈ plans.list ∧
      ((plans.resolvePlan planId).active = true ∨
        plans.resolvePlan planId = plans.fallback) := by
  unfold resolvePlan
  split
  · rename_i plan hfind
    unfold findPlanById at hfind
    split at hfind
    · cases hfind
    split
    · rename_i hactive
      exact ⟨List.mem_of_find?_eq_some hfind, Or.inl hactive⟩
    · exact ⟨plans.fallback_mem, Or.inr rfl⟩
  · exact ⟨plans.fallback_mem, Or.inr rfl⟩

/-- A plan id that survives cleaning leads back to its plan. -/
theorem Plans.resolvePlan_id (plans : Plans) (planId : Option String)
    (h : cleanStr 64 (some (.str (plans.resolvePlan planId).id)) = some (plans.resolvePlan planId).id) :
    plans.resolvePlan (some (plans.resolvePlan planId).id) = plans.resolvePlan planId := by
  obtain ⟨hmem, hactive⟩ := plans.resolvePlan_spec planId
  generalize plans.resolvePlan planId = plan at h hmem hactive ⊢
  have hfind : plans.findPlanById (some plan.id) = some plan := by
    unfold findPlanById
    rw [Option.map_some, h]
    show (plans.list.find? fun p : Plan => p.id = plan.id) = some plan
    cases hp : plans.list.find? fun p : Plan => p.id = plan.id with
    | none => exact absurd (List.find?_eq_none.mp hp plan hmem) (by simp)
    | some p =>
      -- ids are distinct
      have hid : p.id = plan.id := by simpa using List.find?_some hp
      rw [List.inj_on_of_nodup_map plans.nodup (List.mem_of_find?_eq_some hp) hmem hid]
  rw [resolvePlan, hfind]
  dsimp only
  split
  · rfl
  rename_i hinactive
  rcases hactive with hactive | rfl
  · exact absurd hactive hinactive
  · rfl

theorem CheckoutRequest.isPos_finalAmount (r : CheckoutRequest) (plan : Plan) :
    ∃ x : PyFloat, x.isPos ∧ r.finalAmount plan = x.round2 ∧
      (x.round2 = plan.priceRub ∨ r.amount = some x) := by
  obtain ⟨price, hprice, hrounded⟩ := plan.priceRub_rounded
  have hplan : plan.priceRub.round2 = price.round2 := by rw [hrounded, round2_round2]
  rw [finalAmount]
  cases hamount : r.amount with
  | none => exact ⟨price, hprice, hplan, Or.inl hrounded.symm⟩
  | some amount =>
    by_cases hpos : amount.isPos
    · exact ⟨amount, hpos, by simp [hpos], Or.inr rfl⟩
    · exact ⟨price, hprice, by simp [hpos, hplan], Or.inl hrounded.symm⟩

/-- The provider reads the amount that the server asked for. -/
theorem CheckoutRequest.parse_finalAmount (r : CheckoutRequest) (plan : Plan) :
    PyFloat.parse (r.finalAmount plan).format2 = some (r.finalAmount plan) := by
  obtain ⟨x, hpos, hx, -⟩ := r.isPos_finalAmount plan
  rw [hx, parse_format2_round2 hpos]

theorem CheckoutRequest.AmountCovers.le_finalAmount {plan : Plan}
    (h : r.AmountCovers plan) : plan.priceRub.le (r.finalAmount plan) := by
  obtain ⟨x, hpos, hx, hprice | hamount⟩ := r.isPos_finalAmount plan
  · rw [hx, ← hprice]
    exact le_self_round2 hpos
  · rw [hx]
    exact h x hamount hpos

/-- A payment as a fair request opens it: the provider asks for at least the price, and what a callback
brings back leads to the plan. -/
structure Invoice.Fair (cfg : Config) (i : Invoice) : Prop where
  price : i.plan.priceRub.le i.checkout.amount
  amount : PyFloat.parse i.checkout.amount.format2 = some i.checkout.amount
  yoomoney : i.checkout.provider = "yoomoney" → cfg.plans.resolvePlan (some i.plan.id) = i.plan ∧
    (∃ userId rest, rest ≠ [] ∧
      PyStr.split '|' i.checkout.label = "setka_plus" :: userId :: i.plan.id :: rest) ∧
    i.checkout.fields.get? "sum" = some i.checkout.amount.format2
  robokassa : i.checkout.provider = "robokassa" →
    cfg.plans.resolvePlan (i.checkout.fields.get? "Shp_plan") = i.plan ∧
    i.checkout.fields.get? "OutSum" = some i.checkout.amount.format2
  payanyway : i.checkout.provider = "payanyway" → cfg.plans.resolvePlan
      (some (orElse (PyStr.strip (i.checkout.fields.getD "MNT_CUSTOM1" "")) "setka_plus")) = i.plan

/-- The invariant of fair runs. -/
structure World.Fair (cfg : Config) (w : World) : Prop where
  invoices : ∀ i ∈ w.invoices, i.Fair cfg
  sales : ∀ sale ∈ w.sales, sale.AtItsPrice

variable {w : World}

theorem World.Fair.opened (hw : w.Fair cfg) {result : Except Error Checkout × State}
    (h : ∀ c s, result = (.ok c, s) →
      Invoice.Fair cfg ⟨r.userId, cfg.plans.resolvePlan r.planId, c⟩) : (w.opened cfg r result).Fair cfg := by
  obtain ⟨answer, s⟩ := result
  cases answer with
  | error e => exact ⟨hw.invoices, hw.sales⟩
  | ok c =>
    refine ⟨fun i hi => ?_, hw.sales⟩
    rcases List.mem_append.mp hi with hi | hi
    · exact hw.invoices i hi
    · obtain rfl := List.mem_singleton.mp hi
      exact h c s rfl

theorem World.Fair.reported (hw : w.Fair cfg) {invoice : Invoice} {charged : PyFloat}
    {activation : Option Activation} (h : ∀ a, activation = some a → (a.sale cfg invoice charged).AtItsPrice) :
    (w.reported cfg invoice charged s activation).Fair cfg := by
  cases activation with
  | none => exact ⟨hw.invoices, hw.sales⟩
  | some a =>
    refine ⟨hw.invoices, fun sale hsale => ?_⟩
    rcases List.mem_append.mp hsale with hsale | hsale
    · exact hw.sales sale hsale
    · obtain rfl := List.mem_singleton.mp hsale
      exact h a rfl

/-! ## §7 What a fair report sells -/

variable {a : Activation}

theorem callbackActivation_eq_some {d : Delivery} (h : callbackActivation cfg s d = some a) :
    ∃ o existing, d.callback.order? cfg d.now s = some o ∧
      getSubscription cfg d.now s o.userId = .ok existing ∧ a = o.activation := by
  unfold callbackActivation at h
  split at h
  · rename_i o ho
    split at h
    · rename_i existing hsub
      exact ⟨o, existing, ho, hsub, (Option.some.inj h).symm⟩
    · cases h
  · cases h

/-- **The plan that a callback names is the plan of its payment**, and the provider charged enough. -/
theorem Invoice.Fair.callback {i : Invoice} (hi : i.Fair cfg) {charged : PyFloat} {c : Callback}
    (hreport : Reports i charged c) (hsame : Untouched i charged c) (ho : c.order? cfg now s = some o) :
    cfg.plans.resolvePlan o.planId = i.plan ∧ i.plan.priceRub.le charged := by
  cases c with
  | yoomoney uuid payload =>
    obtain ⟨hplan, ⟨userId, rest, hrest, hlabel⟩, hsum⟩ := hi.yoomoney hreport
    obtain ⟨hecho, hpaid⟩ := hsame
    have horder : yoomoneyOrder cfg uuid payload = .ok o := except_toOption_eq_some.mp ho
    obtain ⟨third, rest', hsplit, hid⟩ := yoomoneyOrder_parts horder
    rw [hecho, hlabel] at hsplit
    obtain ⟨-, hsplit⟩ := List.cons.inj hsplit
    obtain ⟨-, hsplit⟩ := List.cons.inj hsplit
    obtain ⟨rfl, rfl⟩ := List.cons.inj hsplit
    refine ⟨by rw [hid, if_neg hrest, hplan], PyFloat.le_trans hi.price (hpaid _ ?_)⟩
    rw [getD_of_get? hsum, hi.amount]
  | robokassa payload =>
    obtain ⟨hprovider, hshp, hcharged⟩ := hreport
    obtain ⟨hplan, hsum⟩ := hi.robokassa hprovider
    have horder : robokassaOrder cfg now s payload = .ok o := except_toOption_eq_some.mp ho
    rw [robokassaOrder_planId horder, hshp "Shp_plan" (by decide)]
    rw [getD_of_get? hsum, hi.amount] at hcharged
    obtain rfl := Option.some.inj hcharged
    exact ⟨hplan, hi.price⟩
  | payanyway payload =>
    obtain ⟨hprovider, hcharged, -⟩ := hreport
    have horder : payanywayOrder cfg s payload = .ok (.inr o) := by
      simp only [Callback.order?] at ho
      split at ho
      · rename_i order horder
        rw [horder, Option.some.inj ho]
      · cases ho
    have hecho : payload.getD "MNT_CUSTOM1" "" = i.checkout.fields.getD "MNT_CUSTOM1" "" :=
      congrArg (Option.getD · "") hsame
    rw [hi.amount] at hcharged
    obtain rfl := Option.some.inj hcharged
    rw [payanywayOrder_planId horder, hecho]
    exact ⟨hi.payanyway hprovider, hi.price⟩

theorem Activation.effectiveDurationDays_of_pos {plan : Plan} {days : ℤ} (h : a.durationDays = some days)
    (hdays : 0 < days) : a.effectiveDurationDays plan = days := by
  rw [effectiveDurationDays, h]
  exact if_pos hdays

theorem processActivation_sale (cfg : Config) (userId paymentId : String) (planId : Option String)
    (invoice : Invoice) (charged : PyFloat) :
    (processActivation cfg userId paymentId planId).sale cfg invoice charged =
      { invoice
        charged
        plan := cfg.plans.resolvePlan (some (cfg.plans.resolvePlan planId).id)
        durationDays := (cfg.plans.resolvePlan planId).durationDays } := by
  rw [Activation.sale, Activation.effectiveDurationDays_of_pos (a := processActivation _ _ _ _) rfl
    (cfg.plans.resolvePlan planId).durationDays_pos]
  rfl

theorem processActivation?_eq_some {requestId : String} {planId : Option String} {response : Json}
    (h : processActivation? cfg now s userId requestId planId response = some a) :
    ∃ requestId' existing, cfg.yoomoneyToken ≠ "" ∧
      cleanStr 255 (some (.str requestId)) = some requestId' ∧
      (processResponse requestId' response).1 = "success" ∧
      getSubscription cfg now s userId = .ok existing ∧
      a = processActivation cfg userId (processResponse requestId' response).2 planId := by
  unfold processActivation? at h
  split at h
  · cases h
  rename_i htoken
  split at h
  · cases h
  rename_i requestId' hid
  split at h
  · rename_i hsuccess
    split at h
    · rename_i existing hsub
      exact ⟨requestId', existing, htoken, hid, hsuccess, hsub, (Option.some.inj h).symm⟩
    · cases h
  · cases h

/-- So does a `process` call. -/
theorem processYoomoneyPayment_subscription (cfg : Config) (now : ℤ) (s : State)
    (userId requestId : String) (planId : Option String) (response : Json) :
    match processActivation? cfg now s userId requestId planId response with
    | some a => ∃ existing, getSubscription cfg now s a.userId = .ok existing ∧
        SameSubscriptions (s.addAccountData a.userId subscriptionType
            (a.payload now (cfg.plans.resolvePlan a.planId) existing))
          ((processYoomoneyPayment cfg now userId requestId planId response).run s).2
    | none => SameSubscriptions s ((processYoomoneyPayment cfg now userId requestId planId response).run s).2 := by
  by_cases htoken : cfg.yoomoneyToken = ""
  · rw [processActivation?, processYoomoneyPayment, if_pos htoken, if_pos htoken]
    exact SameSubscriptions.refl s
  rw [processActivation?, processYoomoneyPayment, if_neg htoken, if_neg htoken]
  cases cleanStr 255 (some (.str requestId)) with
  | none => exact SameSubscriptions.refl s
  | some requestId' =>
    dsimp only
    by_cases hsuccess : (processResponse requestId' response).1 = "success"
    · rw [if_pos hsuccess, if_pos hsuccess]
      cases hsub : getSubscription cfg now s userId with
      | ok existing =>
        refine ⟨existing, hsub, SameSubscriptions.trans _ _ _
          (activateSubscription_subscription (a := processActivation cfg userId
            (processResponse requestId' response).2 planId) hsub) ?_⟩
        exact Action.Keeps.after SameSubscriptions.refl (fun _ => keeps_pure SameSubscriptions.refl _) _ s
      | error e =>
        rw [run_bind_of_error (activateSubscription_of_error
          (a := processActivation cfg userId (processResponse requestId' response).2 planId) hsub)]
        exact SameSubscriptions.refl s
    · rw [if_neg hsuccess, if_neg hsuccess]
      refine Action.Keeps.bind SameSubscriptions.refl SameSubscriptions.trans
        (recordPayment_keeps _ _ _) (fun _ => ?_) s
      refine Action.Keeps.bind SameSubscriptions.refl SameSubscriptions.trans
        (keeps_reads SameSubscriptions.refl _) fun _ => ?_
      exact keeps_pure SameSubscriptions.refl _

/-- One fair step keeps the invariant. -/
theorem World.Fair.step (hw : w.Fair cfg) {act : Act} (hgenuine : act.Genuine w)
    (hfair : act.Fair cfg) : (w.step cfg act).Fair cfg := by
  cases act with
  | createYoomoney now labelUuid paymentUuid response r =>
    obtain ⟨hcovers, huser, hbar, hplan⟩ := hfair
    apply hw.opened
    intro c s hrun
    obtain ⟨hprovider, hamount, hlabel, hfields⟩ := createYoomoney_checkout hrun
    obtain ⟨rest, hrest, hsplit⟩ := split_yoomoneyLabel labelUuid huser hbar
    refine ⟨?_, ?_, fun _ => ⟨hplan, ⟨r.userId, rest, hrest, ?_⟩, ?_⟩, ?_, ?_⟩
    · show PyFloat.le _ c.amount
      rw [hamount]
      exact hcovers.le_finalAmount
    · show PyFloat.parse c.amount.format2 = some c.amount
      rw [hamount, r.parse_finalAmount]
    · show PyStr.split '|' c.label = _
      rw [hlabel, hsplit]
    · show c.fields.get? "sum" = some c.amount.format2
      rw [hfields, quickpayQuery]
      split <;> simp
    · intro h
      exact absurd (hprovider.symm.trans h) (by decide)
    · intro h
      exact absurd (hprovider.symm.trans h) (by decide)
  | createRobokassa now paymentUuid invId r =>
    obtain ⟨hcovers, hplan⟩ := hfair
    apply hw.opened
    intro c s hrun
    obtain ⟨hprovider, hamount, hsum, href⟩ := createRobokassa_checkout hrun
    refine ⟨?_, ?_, ?_, fun _ => ⟨?_, hsum⟩, ?_⟩
    · show PyFloat.le _ c.amount
      rw [hamount]
      exact hcovers.le_finalAmount
    · show PyFloat.parse c.amount.format2 = some c.amount
      rw [hamount, r.parse_finalAmount]
    · intro h
      exact absurd (hprovider.symm.trans h) (by decide)
    · show cfg.plans.resolvePlan (c.fields.get? "Shp_plan") = _
      rw [href, hplan]
    · intro h
      exact absurd (hprovider.symm.trans h) (by decide)
  | createPayanyway now paymentUuid operationId r =>
    obtain ⟨hcovers, hplan⟩ := hfair
    apply hw.opened
    intro c s hrun
    obtain ⟨hprovider, hamount, href⟩ := createPayanyway_checkout hrun
    refine ⟨?_, ?_, ?_, ?_, fun _ => ?_⟩
    · show PyFloat.le _ c.amount
      rw [hamount]
      exact hcovers.le_finalAmount
    · show PyFloat.parse c.amount.format2 = some c.amount
      rw [hamount, r.parse_finalAmount]
    · intro h
      exact absurd (hprovider.symm.trans h) (by decide)
    · intro h
      exact absurd (hprovider.symm.trans h) (by decide)
    · show cfg.plans.resolvePlan (some (orElse (PyStr.strip (c.fields.getD "MNT_CUSTOM1" "")) "setka_plus")) = _
      rw [href, hplan]
  | callback d invoice charged =>
    obtain ⟨hmem, hreport⟩ := hgenuine
    apply hw.reported
    intro a ha
    obtain ⟨o, existing, ho, -, rfl⟩ := callbackActivation_eq_some ha
    obtain ⟨hplan, hpaid⟩ := (hw.invoices invoice hmem).callback hreport hfair ho
    refine ⟨hplan, ?_, hpaid⟩
    show (cfg.plans.resolvePlan o.planId).durationDays = invoice.plan.durationDays
    rw [hplan]
  | process now userId requestId planId response invoice charged =>
    apply hw.reported
    intro a ha
    obtain ⟨requestId', existing, -, hid, hsuccess, -, rfl⟩ := processActivation?_eq_some ha
    obtain ⟨hmem, hprovider, -, hcharged⟩ := hgenuine requestId' hid hsuccess
    have hi := hw.invoices invoice hmem
    have hselected : cfg.plans.resolvePlan planId = invoice.plan := hfair
    have hplan := (hi.yoomoney hprovider).1
    rw [hi.amount] at hcharged
    obtain rfl := Option.some.inj hcharged
    rw [processActivation_sale, hselected, hplan]
    exact ⟨rfl, rfl, hi.price⟩

/-! ## §8 One payment through Robokassa -/

def exampleShop : Config :=
  { exampleConfig with
    robokassaMerchantLogin := "setka"
    robokassaPassword1 := "first"
    robokassaPassword2 := "second" }

/-- A checkout for the plan of a month, with or without a kopeck as the amount in its body. -/
def exampleAct (kopeck : Bool) : Act :=
  .createRobokassa 1700000000000 "7" 1
    ⟨"@user:server", if kopeck then some (.finite (1 / 100)) else none, none, some "setka_plus_month"⟩

def exampleOpened (kopeck : Bool) : World :=
  World.step exampleShop ⟨exampleState, [], []⟩ (exampleAct kopeck)

theorem exampleOpened_invoices : ∀ kopeck, (exampleOpened kopeck).invoices ≠ [] := by
  decide +kernel

def exampleInvoice (kopeck : Bool) : Invoice :=
  (exampleOpened kopeck).invoices.head (exampleOpened_invoices kopeck)

/-- The provider charges what the checkout says, and reports it with its own signature. -/
def exampleReport (kopeck : Bool) : Act :=
  .callback ⟨1700000060000, .robokassa ((exampleInvoice kopeck).checkout.fields.set "SignatureValue" "digest")⟩
    (exampleInvoice kopeck) (.finite (if kopeck then 1 / 100 else 299))

def exampleSold (kopeck : Bool) : World :=
  (exampleOpened kopeck).step exampleShop (exampleReport kopeck)

theorem exampleInvoice_checkout : ∀ kopeck, (exampleInvoice kopeck).checkout.provider = "robokassa" ∧
    PyFloat.parse ((exampleInvoice kopeck).checkout.fields.getD "OutSum" "") =
      some (.finite (if kopeck then 1 / 100 else 299)) := by
  decide +kernel

theorem exampleReport_genuine (kopeck : Bool) : (exampleReport kopeck).Genuine (exampleOpened kopeck) := by
  obtain ⟨hprovider, hcharged⟩ := exampleInvoice_checkout kopeck
  refine ⟨List.head_mem _, hprovider, fun key hkey => ?_, hcharged⟩
  rw [get?_set, if_neg]
  rintro rfl
  exact absurd hkey (by decide)

end Setka.Handlers.Plus
