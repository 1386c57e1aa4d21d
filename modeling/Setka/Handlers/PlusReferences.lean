/-
# Setka.Handlers.PlusReferences — what a checkout says about itself to the callback.

A checkout hands the provider a reference to the user and the plan, and the callback brings it back. Each provider
has its own: a label with bars, signed parameters of which the user is in base64, and form fields that are cut. The
label and the fields are not read back as they were for every user and every plan.
-/
import Setka.Handlers.PlusClean
import Setka.Handlers.PlusSignature

namespace Setka.Handlers.Plus

open Setka.Api Setka.Lib Setka.Lib.Action Dict PyStr Base64

/-! ## §1 There and back -/

/-- A create request of one of the providers was answered with `c`. -/
inductive Opened (cfg : Config) (r : CheckoutRequest) (c : Checkout) : Prop
  | yoomoney {now : ℤ} {labelUuid paymentUuid : String} {response : Option Json} {s t : State}
      (h : (createYoomoneyPaymentRequest cfg now labelUuid paymentUuid response r).run s = (.ok c, t))
  | robokassa {now : ℤ} {paymentUuid : String} {invId : ℕ} {s t : State}
      (h : (createRobokassaPaymentRequest cfg now paymentUuid invId r).run s = (.ok c, t))
  | payanyway {now : ℤ} {paymentUuid : String} {operationId : Option ℤ} {s t : State}
      (h : (createPayanywayPaymentRequest cfg now paymentUuid operationId r).run s = (.ok c, t))

/-- The callback has the references as the checkout handed them out, where the form includes them. -/
def CarriesBack (c : Checkout) : Callback → Prop
  | .yoomoney _ payload =>
    c.provider = "yoomoney" ∧ payload.getD "label" "" = c.fields.getD "label" ""
  | .robokassa payload =>
    c.provider = "robokassa" ∧ ∀ key, PyStr.startsWith "Shp_" key → payload.get? key = c.fields.get? key
  | .payanyway payload =>
    c.provider = "payanyway" ∧ (c.fields.get? "MNT_CUSTOM1").isSome ∧
    payload.get? "MNT_CUSTOM1" = c.fields.get? "MNT_CUSTOM1" ∧
    payload.get? "MNT_CUSTOM3" = c.fields.get? "MNT_CUSTOM3" ∧
    PyStr.strip (payload.getD "MNT_SUBSCRIBER_ID" "") = ""

/-- The callback is complete and its signature verifies. -/
def Verified (cfg : Config) : Callback → Prop
  | .yoomoney _ payload =>
    cfg.yoomoneyNotificationSecret = "" ∨
    (PyStr.lower (PyStr.strip (payload.getD "sha1_hash" "")) ≠ "" ∧
      PyStr.lower (PyStr.strip (payload.getD "sha1_hash" "")) = calculateYoomoneyWebhookHash cfg payload)
  | .robokassa payload =>
    let outSum := PyStr.strip (payload.getD "OutSum" "")
    let invId := PyStr.strip (payload.getD "InvId" "")
    let signature := PyStr.strip (payload.getD "SignatureValue" "")
    let isTest : Bool := PyStr.strip (payload.getD "IsTest" "0") = "1"
    let password2 := orElse (robokassaPasswords cfg isTest).2 (robokassaPasswords cfg false).2
    outSum ≠ "" ∧ invId ≠ "" ∧ signature ≠ "" ∧ password2 ≠ "" ∧
    PyStr.upper signature =
      PyStr.upper (robokassaResultSignature cfg outSum invId password2 (extractRobokassaShp payload))
  | .payanyway payload => Accepted cfg payload

/-- The callback is read as an order for this user and this plan. -/
def Recovers (cfg : Config) (now : ℤ) (s : State) (d : Callback) (userId planId : String) : Prop :=
  ∃ o, d.order? cfg now s = some o ∧ o.userId = userId ∧ o.planId = some planId

/-- The reference to a user and a plan is read back as it was: no bars in a label, and nothing cut off in a form. -/
def Survives (userId planId : String) : Callback → Prop
  | .yoomoney _ _ => '|' ∉ userId.toList ∧ '|' ∉ planId.toList
  | .robokassa _ => True
  | .payanyway _ => planId.toList.length ≤ 32 ∧ userId.utf8ByteSize ≤ 191

/-! ## §2 What a checkout hands out -/

variable {cfg : Config} {r : CheckoutRequest} {c : Checkout}

/-- A checkout is for the plan that its request resolves to. -/
theorem Opened.planId (h : Opened cfg r c) : c.planId = (cfg.plans.resolvePlan r.planId).id := by
  cases h with
  | yoomoney h =>
    obtain ⟨_, s₁, -, h⟩ := exists_of_run_bind_eq_ok h
    split at h
    all_goals
      obtain rfl := openCheckout_checkout h
      rfl
  | robokassa h =>
    obtain ⟨_, s₁, -, h⟩ := exists_of_run_bind_eq_ok h
    dsimp only at h
    split at h
    · cases h
    · obtain rfl := openCheckout_checkout h
      rfl
  | payanyway h =>
    obtain ⟨_, s₁, -, h⟩ := exists_of_run_bind_eq_ok h
    split at h
    · cases h
    split at h
    · cases h
    · obtain rfl := openCheckout_checkout h
      rfl

theorem quickpayQuery_label (cfg : Config) (amount : PyFloat) (label description : String) :
    (quickpayQuery cfg amount label description).get? "label" = some label := by
  unfold quickpayQuery
  split <;> simp

theorem Opened.label (h : Opened cfg r c) (hprovider : c.provider = "yoomoney") :
    ∃ labelUuid, c.fields.getD "label" "" = yoomoneyLabel r.userId c.planId labelUuid := by
  have hplan := h.planId
  cases h with
  | @yoomoney _ labelUuid _ _ _ _ h =>
    obtain ⟨-, -, hlabel, hfields⟩ := createYoomoney_checkout h
    refine ⟨labelUuid, ?_⟩
    rw [hplan, ← hlabel, hfields, getD_of_get? (quickpayQuery_label ..)]
  | robokassa h =>
    rw [(createRobokassa_checkout h).1] at hprovider
    exact absurd hprovider (by decide)
  | payanyway h =>
    rw [(createPayanyway_checkout h).1] at hprovider
    exact absurd hprovider (by decide)

theorem Opened.shp (h : Opened cfg r c) (hprovider : c.provider = "robokassa") :
    c.fields.get? "Shp_plan" = some (PyStr.take 64 c.planId) ∧
      c.fields.get? "Shp_uid" = some (encodeRobokassaUid r.userId) ∧
      ∃ paymentUuid, c.fields.get? "Shp_pid" = some (PyStr.take 64 ("setka_plus_" ++ paymentUuid)) := by
  cases h with
  | yoomoney h =>
    rw [(createYoomoney_checkout h).1] at hprovider
    exact absurd hprovider (by decide)
  | @robokassa _ paymentUuid _ _ _ h =>
    obtain ⟨_, s₁, -, h⟩ := exists_of_run_bind_eq_ok h
    dsimp only at h
    split at h
    · cases h
    obtain rfl := openCheckout_checkout h
    unfold robokassaQuery
    refine ⟨?_, ?_, paymentUuid, ?_⟩
    all_goals split <;> simp
  | payanyway h =>
    rw [(createPayanyway_checkout h).1] at hprovider
    exact absurd hprovider (by decide)

theorem payanywayAssistantFields_custom3 (cfg : Config)
    (paymentId amountStr testMode description planId encodedUserId : String) :
    (payanywayAssistantFields cfg paymentId amountStr testMode description planId encodedUserId).get? "MNT_CUSTOM3" =
      if cfg.payanywaySimplaSelf then none else some encodedUserId := by
  unfold payanywayAssistantFields
  split <;> simp

theorem Opened.custom (h : Opened cfg r c) (hprovider : c.provider = "payanyway")
    (hform : (c.fields.get? "MNT_CUSTOM1").isSome) :
    c.fields.get? "MNT_CUSTOM1" = some (PyStr.take 32 c.planId) ∧
      c.fields.get? "MNT_CUSTOM3" = some (PyStr.take 255 (encodeRobokassaUid r.userId)) := by
  cases h with
  | yoomoney h =>
    rw [(createYoomoney_checkout h).1] at hprovider
    exact absurd hprovider (by decide)
  | robokassa h =>
    rw [(createRobokassa_checkout h).1] at hprovider
    exact absurd hprovider (by decide)
  | @payanyway _ _ operationId _ _ h =>
    obtain ⟨_, s₁, -, h⟩ := exists_of_run_bind_eq_ok h
    split at h
    · cases h
    split at h
    · cases h
    obtain rfl := openCheckout_checkout h
    by_cases hapi : decide (cfg.payanywaySimplaSelf = false ∧ operationId.isSome = true) = true
    · rw [if_pos hapi] at hform
      exact absurd hform (by simp)
    rw [if_neg hapi, payanywayAssistantFields_custom1] at hform
    rw [if_neg hapi, payanywayAssistantFields_custom1, payanywayAssistantFields_custom3]
    split at hform
    · exact absurd hform (by simp)
    rename_i hself
    rw [if_neg hself, if_neg hself]
    exact ⟨rfl, rfl⟩

/-! ## §3 YooMoney -/

variable {payload : Dict String String} {now : ℤ} {s : State} {userId planId : String}

/-- **A label is read back** unless there is a bar in it that separates nothing. -/
theorem recovers_yoomoney_iff {uuid labelUuid : String} (hverified : Verified cfg (.yoomoney uuid payload))
    (hlabel : payload.getD "label" "" = yoomoneyLabel userId planId labelUuid) :
    Recovers cfg now s (.yoomoney uuid payload) userId planId ↔
      '|' ∉ userId.toList ∧ '|' ∉ planId.toList := by
  constructor
  · rintro ⟨o, ho, rfl, hplan⟩
    obtain ⟨third, rest, hsplit, hthird⟩ := yoomoneyOrder_parts (except_toOption_eq_some.mp ho)
    have hpart : ∀ part ∈ PyStr.split '|' (payload.getD "label" ""), '|' ∉ part.toList :=
      fun part hpart => not_mem_of_mem_split hpart
    rw [hsplit] at hpart
    have hthird : third = planId := by
      rw [hplan] at hthird
      split at hthird
      · cases hthird
      · exact (Option.some.inj hthird).symm
    exact ⟨hpart _ (by simp), hthird ▸ hpart _ (by simp)⟩
  · rintro ⟨huser, hplan⟩
    obtain ⟨rest, hrest, hsplit⟩ := split_yoomoneyLabel labelUuid huser hplan
    rw [← hlabel] at hsplit
    have hchecks : ¬(cfg.yoomoneyNotificationSecret ≠ "" ∧
        (PyStr.lower (PyStr.strip (payload.getD "sha1_hash" "")) = "" ∨
          PyStr.lower (PyStr.strip (payload.getD "sha1_hash" "")) ≠ calculateYoomoneyWebhookHash cfg payload)) := by
      rintro ⟨hsecret, hhash⟩
      rcases hverified with hnone | ⟨hthere, hsame⟩
      · exact hsecret hnone
      · exact hhash.elim hthere fun hother => hother hsame
    unfold Recovers Callback.order? yoomoneyOrder
    dsimp only
    rw [if_neg hchecks, hsplit]
    exact ⟨_, rfl, rfl, if_neg hrest⟩

/-! ## §4 Robokassa -/

/-- **The parameters are read back**, for every user. -/
theorem recovers_robokassa {pid : String} (hverified : Verified cfg (.robokassa payload)) (huser : userId ≠ "")
    (hplan : payload.get? "Shp_plan" = some planId)
    (huid : payload.get? "Shp_uid" = some (encodeRobokassaUid userId))
    (hpid : payload.get? "Shp_pid" = some pid) (hblank : PyStr.strip pid ≠ "") :
    Recovers cfg now s (.robokassa payload) userId planId := by
  obtain ⟨hsum, hinvoice, hsignature, hpassword, hsame⟩ := hverified
  have hshp : ∀ key value, payload.get? ("Shp_" ++ key) = some value →
      (extractRobokassaShp payload).get? key = some value := fun key value h =>
    (get?_extractRobokassaShp payload key).trans h
  have hplan' := hshp "plan" planId (by rw [show "Shp_" ++ "plan" = "Shp_plan" by decide]; exact hplan)
  have huid' := hshp "uid" _ (by rw [show "Shp_" ++ "uid" = "Shp_uid" by decide]; exact huid)
  have hpid' := hshp "pid" pid (by rw [show "Shp_" ++ "pid" = "Shp_pid" by decide]; exact hpid)
  have huser' : encodeRobokassaUid userId ≠ "" := by
    intro hempty
    have htwo := two_le_length_encode huser
    rw [show Base64.encode userId = "" from hempty] at htwo
    exact absurd htwo (by decide)
  have hdecode : decodeRobokassaUid (encodeRobokassaUid userId) = .ok userId := by
    unfold decodeRobokassaUid encodeRobokassaUid
    rw [decode_encode]
  have hpayment : robokassaPaymentId now s userId (PyStr.strip (payload.getD "InvId" ""))
      (extractRobokassaShp payload) = .ok (PyStr.strip pid) := by
    unfold robokassaPaymentId
    rw [getD_of_get? hpid', if_pos hblank]
    rfl
  unfold Recovers Callback.order? robokassaOrder
  dsimp only
  rw [if_neg (by simp [hsum, hinvoice, hsignature]), getD_of_get? huid', if_neg huser', if_neg hpassword,
    if_neg (not_not.mpr hsame), hdecode]
  refine ⟨_, except_toOption_eq_some.mpr (except_bind_eq_ok.mpr ⟨userId, rfl,
    except_bind_eq_ok.mpr ⟨_, hpayment, rfl⟩⟩), rfl, ?_⟩
  exact hplan'

/-! ## §5 PayAnyWay -/

/-- A clean id is stripped, unless it was cut to its bound. -/
theorem strip_of_clean {maxLen : ℕ} {raw : Option Json} {x : String} (h : cleanStr maxLen raw = some x)
    (hlength : x.toList.length < maxLen) : PyStr.strip x = x := by
  unfold cleanStr at h
  split at h
  · rename_i text
    dsimp only at h
    split at h
    · cases h
    obtain rfl := Option.some.inj h
    have hwhole : (PyStr.strip text).toList.length ≤ maxLen := by
      rw [toList_take, List.length_take] at hlength
      omega
    rw [take_eq_self hwhole, strip_strip]
  · cases h

/-- **A plan is read back** from 32 characters of its id when it has no more. -/
theorem planRef_eq_iff (plan : Plan) :
    orElse (PyStr.strip (PyStr.take 32 plan.id)) "setka_plus" = plan.id ↔ plan.id.toList.length ≤ 32 := by
  obtain ⟨raw, hclean⟩ := plan.id_clean
  constructor
  · intro h
    by_contra hlong
    have hshort : (orElse (PyStr.strip (PyStr.take 32 plan.id)) "setka_plus").toList.length ≤ 32 := by
      unfold orElse
      split
      · decide
      · exact (length_strip_le _).trans (length_take_le 32 _)
    rw [h] at hshort
    exact hlong hshort
  · intro hshort
    have hstrip := strip_of_clean hclean (by omega)
    have hblank := (fits_of_cleanStr (by omega) hclean).not_blank
    rw [take_eq_self hshort, hstrip]
    rw [hstrip] at hblank
    exact if_neg hblank

/-- **A user is read back** from 255 characters of the encoding when these are all. -/
theorem decode_take_encode :
    Base64.decode (PyStr.take 255 (Base64.encode userId)) = some userId ↔ userId.utf8ByteSize ≤ 191 := by
  constructor
  · intro h
    have hsize := size_le_of_decode h
    have hlength := length_take_le 255 (Base64.encode userId)
    omega
  · intro hsize
    have hlength := length_encode userId
    rw [take_eq_self (by omega), decode_encode]

/-- The user that a callback with the reference names, if it can be read. -/
theorem payanywayUserIdFromPayload_custom (huser : userId ≠ "")
    (hsubscriber : PyStr.strip (payload.getD "MNT_SUBSCRIBER_ID" "") = "")
    (hcustom : payload.get? "MNT_CUSTOM3" = some (PyStr.take 255 (encodeRobokassaUid userId))) :
    payanywayUserIdFromPayload payload = decodeRobokassaUid (PyStr.take 255 (encodeRobokassaUid userId)) ∧
      Base64.decode (PyStr.take 255 (encodeRobokassaUid userId)) ≠ some "" := by
  refine ⟨?_, decode_ne_empty (fun c => mem_take_encodeRobokassaUid) (two_le_length_take huser)⟩
  unfold payanywayUserIdFromPayload
  rw [getD_of_get? hcustom, hsubscriber, strip_encodeRobokassaUid, if_neg (not_not.mpr rfl),
    if_pos (take_encodeRobokassaUid_ne_empty huser)]

/-- **The fields are read back** when nothing was cut off. -/
theorem recovers_payanyway_iff {plan : Plan} (haccepted : Accepted cfg payload) (huser : userId ≠ "")
    (hsubscriber : PyStr.strip (payload.getD "MNT_SUBSCRIBER_ID" "") = "")
    (hplan : payload.get? "MNT_CUSTOM1" = some (PyStr.take 32 plan.id))
    (hcustom : payload.get? "MNT_CUSTOM3" = some (PyStr.take 255 (encodeRobokassaUid userId))) :
    Recovers cfg now s (.payanyway payload) userId plan.id ↔
      plan.id.toList.length ≤ 32 ∧ userId.utf8ByteSize ≤ 191 := by
  obtain ⟨hread, hnonempty⟩ := payanywayUserIdFromPayload_custom huser hsubscriber hcustom
  have hrecipient : payanywayRecipient s payload = some userId ↔ userId.utf8ByteSize ≤ 191 := by
    rw [← decode_take_encode]
    unfold payanywayRecipient
    rw [hread]
    unfold decodeRobokassaUid encodeRobokassaUid at *
    cases hdecode : Base64.decode (PyStr.take 255 (Base64.encode userId)) with
    | none => simp
    | some named =>
      have hnamed : named ≠ "" := fun hempty => hnonempty (by rw [hdecode, hempty])
      dsimp only
      rw [if_neg hnamed, if_neg hnamed]
  rw [← hrecipient, ← planRef_eq_iff]
  constructor
  · rintro ⟨o, ho, huser', hplan'⟩
    obtain ⟨named, hnamed, rfl⟩ := (payanywayOrder_of_accepted haccepted o).mp (order?_payanyway.mp ho)
    unfold payanywayOrderFor at huser' hplan'
    rw [getD_of_get? hplan] at hplan'
    exact ⟨Option.some.inj hplan', huser' ▸ hnamed⟩
  · rintro ⟨hplan', hnamed⟩
    refine ⟨payanywayOrderFor cfg payload userId,
      order?_payanyway.mpr ((payanywayOrder_of_accepted haccepted _).mpr ⟨userId, hnamed, rfl⟩), rfl, ?_⟩
    unfold payanywayOrderFor
    rw [getD_of_get? hplan, hplan']

/-! ## §6 All three -/

/-- **A checkout's references survive** the way to the provider and back exactly when there is no bar in them that a
label could take for its own, and when a form has room for them. -/
theorem recovers_iff_survives {cfg : Config} {now : ℤ} {s : State} {r : CheckoutRequest} {c : Checkout} {d : Callback}
    (hopened : Opened cfg r c) (huser : r.userId ≠ "") (hback : CarriesBack c d) (hverified : Verified cfg d) :
    Recovers cfg now s d r.userId c.planId ↔ Survives r.userId c.planId d := by
  cases d with
  | yoomoney uuid payload =>
    obtain ⟨hprovider, hlabel⟩ := hback
    obtain ⟨labelUuid, hfield⟩ := hopened.label hprovider
    exact recovers_yoomoney_iff hverified (hlabel.trans hfield)
  | robokassa payload =>
    obtain ⟨hprovider, hfields⟩ := hback
    obtain ⟨hplan, huid, paymentUuid, hpid⟩ := hopened.shp hprovider
    have hfield : ∀ key, PyStr.startsWith "Shp_" key = true → payload.get? key = c.fields.get? key := hfields
    refine iff_of_true (recovers_robokassa hverified huser ?_ ((hfield _ (by decide)).trans huid)
      ((hfield _ (by decide)).trans hpid) ?_) trivial
    · -- an id has no more than 64 characters
      obtain ⟨raw, hclean⟩ := (cfg.plans.resolvePlan r.planId).id_clean
      have hfits := (fits_of_cleanStr (by omega) hclean).length
      rw [← hopened.planId] at hfits
      rw [hfield _ (by decide), hplan, PyStr.take_eq_self hfits]
    · intro hblank
      have hspace := PyStr.strip_eq_empty_iff.mp hblank 's' (by
        rw [PyStr.toList_take, String.toList_append]
        exact List.mem_cons_self)
      exact absurd hspace (by decide)
  | payanyway payload =>
    obtain ⟨hprovider, hform, hplan, huser', hsubscriber⟩ := hback
    obtain ⟨hcustom1, hcustom3⟩ := hopened.custom hprovider hform
    rw [hopened.planId] at hcustom1 ⊢
    exact recovers_payanyway_iff hverified huser hsubscriber (hplan.trans hcustom1) (huser'.trans hcustom3)

theorem examplePrice_rounded : ∃ price : PyFloat, price.isPos ∧ .finite 299 = price.round2 :=
  ⟨.finite 299, by decide, by decide +kernel⟩

/-- A plan for examples. -/
def examplePlan (id : String) (h : cleanStr 64 (some (.str id)) = some id) : Plan where
  id
  name := "Setka Plus"
  priceRub := .finite 299
  durationDays := 30
  features := []
  active := true
  isDefault := true
  sortOrder := 10
  id_clean := ⟨_, h⟩
  name_clean := ⟨some (.str "Setka Plus"), by decide⟩
  durationDays_pos := thirty_days_pos
  priceRub_rounded := examplePrice_rounded

/-- A shop with one plan, which sells through PayAnyWay's form too. -/
def exampleShopWith (plan : Plan) : Config :=
  { exampleConfig with
    plans := ⟨[plan], by simp, by simp⟩
    payanywayMntId := "1"
    payanywayIntegrityCode := "code"
    payanywaySimplaSelf := false }

def exampleRequest : CheckoutRequest := ⟨"@user:server", none, none, none⟩

/-- The checkout of a request through YooMoney, and of one through PayAnyWay. -/
def exampleYoomoney (plan : Plan) : Except Error Checkout :=
  ((createYoomoneyPaymentRequest (exampleShopWith plan) 1700000000000 "7" "8" none exampleRequest).run
    exampleState).1

def examplePayanyway (plan : Plan) : Except Error Checkout :=
  ((createPayanywayPaymentRequest (exampleShopWith plan) 1700000000000 "8" none exampleRequest).run exampleState).1

def monthPlan : Plan := examplePlan "setka_plus_month" (by decide)

def barPlan : Plan := examplePlan "pro|max" (by decide)

def longPlan : Plan := examplePlan "setka_plus_for_all_of_the_family_1" (by decide +kernel)

/-- A signed notification about a label. -/
def notified (label : String) : Callback :=
  .yoomoney "" ⟨[("sha1_hash", "digest"), ("operation_id", "1"), ("amount", "299.00"), ("label", label)], by simp⟩

/-- A signed report about fields of a form. -/
def reported (plan user : String) : Callback :=
  .payanyway ⟨[("MNT_TRANSACTION_ID", "setka_plus_8"), ("MNT_AMOUNT", "299.00"), ("MNT_SIGNATURE", "digest"),
    ("MNT_CUSTOM1", plan), ("MNT_CUSTOM3", user)], by simp⟩

theorem opened_yoomoney {plan : Plan} {label : String}
    (h : (exampleYoomoney plan).toOption.map (fun c => (c.provider, c.fields.getD "label" "", c.planId)) =
      some ("yoomoney", label, planId)) :
    ∃ c, Opened (exampleShopWith plan) exampleRequest c ∧ CarriesBack c (notified label) ∧
      Verified (exampleShopWith plan) (notified label) ∧ c.planId = planId := by
  obtain ⟨c, hc, hfields⟩ := Option.map_eq_some_iff.mp h
  obtain ⟨hprovider, hrest⟩ := Prod.mk.inj hfields
  obtain ⟨hlabel, hplan⟩ := Prod.mk.inj hrest
  have hrun : ((createYoomoneyPaymentRequest (exampleShopWith plan) 1700000000000 "7" "8" none exampleRequest).run
      exampleState).1 = .ok c := except_toOption_eq_some.mp hc
  have hverified : Verified (exampleShopWith plan) (notified label) := by
    have hdigest : PyStr.lower (PyStr.strip "digest") = "digest" := by decide
    exact .inr ⟨fun hempty => absurd (hdigest.symm.trans hempty) (by decide), hdigest⟩
  exact ⟨c, .yoomoney (Prod.ext hrun rfl), ⟨hprovider, hlabel.symm⟩, hverified, hplan⟩

/-- A month is sold through YooMoney. -/
theorem recovers_iff_survives_month : ∃ c, Opened (exampleShopWith monthPlan) exampleRequest c ∧
      (Recovers (exampleShopWith monthPlan) 1700000000000 exampleState
          (notified "setka_plus|@user:server|setka_plus_month|7") exampleRequest.userId c.planId ↔
        Survives exampleRequest.userId c.planId (notified "setka_plus|@user:server|setka_plus_month|7")) := by
  obtain ⟨c, hopened, hback, hverified, -⟩ := opened_yoomoney
    (show (exampleYoomoney monthPlan).toOption.map (fun c => (c.provider, c.fields.getD "label" "", c.planId)) =
      some ("yoomoney", "setka_plus|@user:server|setka_plus_month|7", "setka_plus_month") by decide +kernel)
  exact ⟨c, hopened, recovers_iff_survives hopened (by decide) hback hverified⟩

/-- A plan with a bar in its id does not come back from a label, nor one with a long id from a form. -/
theorem references_lost : (∃ c, Opened (exampleShopWith barPlan) exampleRequest c ∧
      CarriesBack c (notified "setka_plus|@user:server|pro|max|7") ∧
      Verified (exampleShopWith barPlan) (notified "setka_plus|@user:server|pro|max|7") ∧
      ¬Recovers (exampleShopWith barPlan) 1700000000000 exampleState
        (notified "setka_plus|@user:server|pro|max|7") exampleRequest.userId c.planId) ∧
    ∃ c, Opened (exampleShopWith longPlan) exampleRequest c ∧
      CarriesBack c (reported "setka_plus_for_all_of_the_family" "QHVzZXI6c2VydmVy") ∧
      Verified (exampleShopWith longPlan) (reported "setka_plus_for_all_of_the_family" "QHVzZXI6c2VydmVy") ∧
      ¬Recovers (exampleShopWith longPlan) 1700000000000 exampleState
        (reported "setka_plus_for_all_of_the_family" "QHVzZXI6c2VydmVy") exampleRequest.userId c.planId := by
  constructor
  · obtain ⟨c, hopened, hback, hverified, hplan⟩ := opened_yoomoney
      (show (exampleYoomoney barPlan).toOption.map (fun c => (c.provider, c.fields.getD "label" "", c.planId)) =
        some ("yoomoney", "setka_plus|@user:server|pro|max|7", "pro|max") by decide +kernel)
    refine ⟨c, hopened, hback, hverified, fun hrecovers => ?_⟩
    have hlabel : "setka_plus|@user:server|pro|max|7" =
        yoomoneyLabel exampleRequest.userId "pro|max" "7" := by decide +kernel
    have hclear := ((recovers_yoomoney_iff hverified hlabel).mp (hplan ▸ hrecovers)).2
    exact hclear (by decide)
  have hcreated : (examplePayanyway longPlan).toOption.map (fun c => (c.provider, c.planId,
      c.fields.get? "MNT_CUSTOM1", c.fields.get? "MNT_CUSTOM3")) =
      some ("payanyway", longPlan.id, some "setka_plus_for_all_of_the_family", some "QHVzZXI6c2VydmVy") := by
    decide +kernel
  obtain ⟨c, hc, hfields⟩ := Option.map_eq_some_iff.mp hcreated
  obtain ⟨hprovider, hrest⟩ := Prod.mk.inj hfields
  obtain ⟨hplan, hrest⟩ := Prod.mk.inj hrest
  obtain ⟨hcustom1, hcustom3⟩ := Prod.mk.inj hrest
  have hrun : ((createPayanywayPaymentRequest (exampleShopWith longPlan) 1700000000000 "8" none
      exampleRequest).run exampleState).1 = .ok c := except_toOption_eq_some.mp hc
  have haccepted : Accepted (exampleShopWith longPlan)
      ⟨[("MNT_TRANSACTION_ID", "setka_plus_8"), ("MNT_AMOUNT", "299.00"), ("MNT_SIGNATURE", "digest"),
        ("MNT_CUSTOM1", "setka_plus_for_all_of_the_family"), ("MNT_CUSTOM3", "QHVzZXI6c2VydmVy")], by decide⟩ :=
    ⟨⟨"digest", by decide +kernel, by decide⟩, by decide⟩
  refine ⟨c, .payanyway (Prod.ext hrun rfl), ⟨hprovider, by rw [hcustom1]; rfl, hcustom1.symm, hcustom3.symm, rfl⟩,
    haccepted, fun hrecovers => ?_⟩
  rw [hplan] at hrecovers
  have huser : exampleRequest.userId ≠ "" := by decide
  have hplanRef : some "setka_plus_for_all_of_the_family" = some (PyStr.take 32 longPlan.id) := by decide +kernel
  have huserRef : some "QHVzZXI6c2VydmVy" =
      some (PyStr.take 255 (encodeRobokassaUid exampleRequest.userId)) := by decide +kernel
  have hshort := ((recovers_payanyway_iff haccepted huser rfl hplanRef huserRef).mp hrecovers).1
  exact absurd hshort (by decide +kernel)

end Setka.Handlers.Plus
