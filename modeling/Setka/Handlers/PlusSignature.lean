/-
# Setka.Handlers.PlusSignature — what the signature of a PayAnyWay callback covers.

Two payloads that a signature cannot tell apart, given to `handle_payanyway_pay_url` in one state. The
signed string has no `MNT_CUSTOM` field, and the plan is read from `MNT_CUSTOM1` and the user, where
`MNT_SUBSCRIBER_ID` is blank, from `MNT_CUSTOM3`. The hash is any function of its input.
-/
import Setka.Handlers.PlusPrice

namespace Setka.Handlers.Plus

open Setka.Api Setka.Lib

/-! ## §1 Payloads and what they grant -/

/-- The fields that `_payanyway_pay_signature` concatenates. -/
def signedFields : List String :=
  ["MNT_ID", "MNT_TRANSACTION_ID", "MNT_OPERATION_ID", "MNT_AMOUNT", "MNT_CURRENCY_CODE",
    "MNT_SUBSCRIBER_ID", "MNT_TEST_MODE"]

/-- The payloads agree on every signed field and on the signature. -/
def SignedAlike (p q : Dict String String) : Prop :=
  ∀ field ∈ "MNT_SIGNATURE" :: signedFields, p.get? field = q.get? field

/-- What an activation gives: to whom, which plan, for how much. -/
structure Grant where
  userId : String
  plan : Plan
  amount : PyFloat

/-- What a callback activates, if it is not refused. -/
def granted (cfg : Config) (now : ℤ) (s : State) (payload : Dict String String) : Option Grant :=
  (callbackActivation cfg s ⟨now, .payanyway payload⟩).map fun a =>
    ⟨a.userId, cfg.plans.resolvePlan a.planId, a.effectiveAmount (cfg.plans.resolvePlan a.planId)⟩

/-- The signature verifies, and there is a transaction. -/
def Accepted (cfg : Config) (payload : Dict String String) : Prop :=
  (∃ expected, payanywayPaySignature cfg payload = .ok expected ∧
    PyStr.lower (payload.getD "MNT_SIGNATURE" "") = PyStr.lower expected) ∧
  PyStr.strip (payload.getD "MNT_TRANSACTION_ID" "") ≠ ""

/-- The user that the payload names, or else the one that the transaction is pending for. -/
def payanywayRecipient (s : State) (payload : Dict String String) : Option String :=
  match payanywayUserIdFromPayload payload with
  | .error _ => none
  | .ok userId =>
    let userId :=
      if userId = "" then
        s.payanywayPendingUsers.getD (PyStr.strip (payload.getD "MNT_TRANSACTION_ID" "")) ""
      else userId
    if userId = "" then none else some userId

/-- The recipient, if the subscription can be read. -/
def recipient (cfg : Config) (now : ℤ) (s : State) (payload : Dict String String) : Option String :=
  (payanywayRecipient s payload).filter fun userId =>
    match getSubscription cfg now s userId with
    | .ok _ => true
    | .error _ => false

/-- The plan that the payload refers to. -/
def referredPlan (cfg : Config) (payload : Dict String String) : Plan :=
  cfg.plans.resolvePlan (some (orElse (PyStr.strip (payload.getD "MNT_CUSTOM1" "")) "setka_plus"))

/-- The amount of an activation of a plan for the payload. -/
def referredAmount (cfg : Config) (payload : Dict String String) (plan : Plan) : PyFloat :=
  let amount := (cleanFloatStr (payload.getD "MNT_AMOUNT" "")).getD cfg.plusPriceRub
  if amount.isPos then amount.round2 else plan.priceRub.round2

/-! ## §2 What a callback activates -/

/-- The order of an accepted callback. -/
def payanywayOrderFor (cfg : Config) (payload : Dict String String) (userId : String) : Order :=
  let paymentId := PyStr.strip (payload.getD "MNT_TRANSACTION_ID" "")
  let planId := orElse (PyStr.strip (payload.getD "MNT_CUSTOM1" "")) "setka_plus"
  { userId
    paymentId
    provider := "payanyway"
    amount := (cleanFloatStr (payload.getD "MNT_AMOUNT" "")).getD cfg.plusPriceRub
    planId := some planId
    currency := "RUB"
    status := "paid"
    requestId := some paymentId
    label := "payanyway:" ++ paymentId
    recordedPlanId := planId }

variable {payload : Dict String String}

theorem items_ne_nil_of_getD {field : String}
    (h : PyStr.strip (payload.getD field "") ≠ "") : payload.items ≠ [] := by
  intro hitems
  have hblank : payload.getD field "" = "" := by
    rw [Dict.getD, Dict.get?, hitems, List.lookup_nil, Option.getD_none]
  rw [hblank] at h
  exact h (by decide)

variable {cfg : Config} {s : State}

theorem accepted_of_order {o : Order} (h : payanywayOrder cfg s payload = .ok (.inr o)) : Accepted cfg payload := by
  unfold payanywayOrder at h
  split at h
  · exact absurd h (by simp)
  obtain ⟨expected, hexpected, h⟩ := except_bind_eq_ok.mp h
  split at h
  · exact absurd h (by simp)
  rename_i hsignature
  refine ⟨⟨expected, hexpected, not_not.mp hsignature⟩, fun hblank => ?_⟩
  obtain ⟨userId, -, h⟩ := except_bind_eq_ok.mp h
  rw [if_pos (Or.inl hblank)] at h
  exact absurd (Except.ok.inj h) (by simp)

/-- **The order of an accepted callback is for its recipient**, and without one there is none. -/
theorem payanywayOrder_of_accepted (h : Accepted cfg payload) (o : Order) :
    payanywayOrder cfg s payload = .ok (.inr o) ↔
      ∃ userId, payanywayRecipient s payload = some userId ∧
        o = payanywayOrderFor cfg payload userId := by
  obtain ⟨⟨expected, hexpected, hsignature⟩, htransaction⟩ := h
  unfold payanywayOrder payanywayRecipient
  rw [if_neg (items_ne_nil_of_getD htransaction), hexpected]
  show (if _ then _ else _) = _ ↔ _
  rw [if_neg (not_not.mpr hsignature)]
  cases payanywayUserIdFromPayload payload with
  | error e =>
    simp only [bind, Except.bind, reduceCtorEq, false_and, exists_false]
  | ok named =>
    simp only [bind, Except.bind, htransaction, ne_eq, not_false_eq_true, and_true, false_or]
    generalize (if named = "" then s.payanywayPendingUsers.getD
      (PyStr.strip (payload.getD "MNT_TRANSACTION_ID" "")) "" else named) = userId
    by_cases hblank : userId = ""
    · simp [hblank, pure, Except.pure]
    simp only [hblank, if_false, Option.some.injEq, exists_eq_left', pure, Except.pure,
      Except.ok.injEq, Sum.inr.injEq]
    exact eq_comm

theorem order?_payanyway {cfg : Config} {now : ℤ} {s : State} {payload : Dict String String} {o : Order} :
    (Callback.payanyway payload).order? cfg now s = some o ↔
      payanywayOrder cfg s payload = .ok (.inr o) := by
  unfold Callback.order?
  dsimp only
  split
  · rename_i o' ho
    rw [ho]
    simp
  rename_i hno
  simp only [reduceCtorEq, false_iff]
  exact hno o

theorem granted_of_no_order {now : ℤ}
    (h : ∀ o, payanywayOrder cfg s payload ≠ .ok (.inr o)) : granted cfg now s payload = none := by
  have horder : (Callback.payanyway payload).order? cfg now s = none := by
    rw [Option.eq_none_iff_forall_ne_some]
    exact fun o ho => h o (order?_payanyway.mp ho)
  unfold granted callbackActivation
  rw [horder]
  rfl

/-- **An accepted callback activates what its references say.** -/
theorem granted_of_accepted {now : ℤ} (h : Accepted cfg payload) :
    granted cfg now s payload = (recipient cfg now s payload).map fun userId =>
      ⟨userId, referredPlan cfg payload, referredAmount cfg payload (referredPlan cfg payload)⟩ := by
  have horder := payanywayOrder_of_accepted (s := s) h
  unfold recipient
  cases hrecipient : payanywayRecipient s payload with
  | none =>
    simp only [hrecipient, reduceCtorEq, false_and, exists_false, iff_false] at horder
    exact granted_of_no_order horder
  | some userId =>
    have ho := (@order?_payanyway cfg now s payload _).mpr ((horder _).mpr ⟨userId, hrecipient, rfl⟩)
    unfold granted callbackActivation
    rw [ho, Option.filter_some]
    show Option.map _ (match getSubscription cfg now s userId with
      | .ok _ => _
      | .error _ => none) = _
    cases hsub : getSubscription cfg now s userId with
    | error e => rfl
    | ok sub =>
      rw [if_pos rfl, Option.map_some, Option.map_some]
      unfold referredAmount referredPlan payanywayOrderFor Order.activation Activation.effectiveAmount
      dsimp only

/-! ## §3 What the call writes -/

/-! ## §4 Two runs -/

variable {p q : Dict String String}

theorem SignedAlike.getD (h : SignedAlike p q) (field : String)
    (hfield : field ∈ "MNT_SIGNATURE" :: signedFields) (default : String) :
    p.getD field default = q.getD field default := by
  unfold Dict.getD
  rw [h field hfield]

theorem payanywayPaySignature_congr
    (h : SignedAlike p q) : payanywayPaySignature cfg p = payanywayPaySignature cfg q := by
  unfold payanywayPaySignature
  rw [h.getD "MNT_ID" (by decide), h.getD "MNT_TRANSACTION_ID" (by decide),
    h.getD "MNT_OPERATION_ID" (by decide), h.getD "MNT_AMOUNT" (by decide),
    h.getD "MNT_CURRENCY_CODE" (by decide), h.getD "MNT_SUBSCRIBER_ID" (by decide),
    h.getD "MNT_TEST_MODE" (by decide)]

theorem accepted_congr (h : SignedAlike p q) : Accepted cfg p ↔ Accepted cfg q := by
  unfold Accepted
  rw [payanywayPaySignature_congr h, h.getD "MNT_SIGNATURE" (by decide), h.getD "MNT_TRANSACTION_ID" (by decide)]

/-- What no signature covers refers to the same: the user, where `MNT_SUBSCRIBER_ID` does not name one,
and the plan. -/
def SameReferences (cfg : Config) (now : ℤ) (s : State) (p q : Dict String String) : Prop :=
  Accepted cfg p → recipient cfg now s p = recipient cfg now s q ∧
    (recipient cfg now s p ≠ none → referredPlan cfg p = referredPlan cfg q)

/-- **Two payloads that the signature cannot tell apart have the same effect** exactly when their
unsigned fields refer to the same user and plan. -/
theorem granted_eq_iff_sameReferences {cfg : Config} {now : ℤ} {s : State}
    {p q : Dict String String} (h : SignedAlike p q) :
    granted cfg now s p = granted cfg now s q ↔ SameReferences cfg now s p q := by
  unfold SameReferences
  by_cases hp : Accepted cfg p
  · have hq := (accepted_congr h).mp hp
    rw [granted_of_accepted hp, granted_of_accepted hq]
    have hamount : ∀ plan, referredAmount cfg p plan = referredAmount cfg q plan := by
      intro plan
      unfold referredAmount
      rw [h.getD "MNT_AMOUNT" (by decide)]
    cases recipient cfg now s p with
    | none =>
      cases recipient cfg now s q with
      | none => simp
      | some v => simp [hp]
    | some u =>
      cases recipient cfg now s q with
      | none => simp [hp]
      | some v =>
        simp only [Option.map_some, Option.some.injEq, Grant.mk.injEq, ne_eq, reduceCtorEq,
          not_false_eq_true, true_imp_iff, hp]
        constructor
        · rintro ⟨huser, hplan, -⟩
          exact ⟨huser, hplan⟩
        · rintro ⟨huser, hplan⟩
          exact ⟨huser, hplan, by rw [hamount, hplan]⟩
  · -- a payload that is refused, and so is the other one
    have hq : ¬ Accepted cfg q := fun hq => hp ((accepted_congr h).mpr hq)
    rw [granted_of_no_order fun o ho => hp (accepted_of_order ho),
      granted_of_no_order fun o ho => hq (accepted_of_order ho)]
    simp [hp]

/-- A signed callback about transaction `7`, with what it says of the user and the plan. -/
def examplePayUrlFor (customUser customPlan : String) : Dict String String where
  items :=
    [("MNT_TRANSACTION_ID", "7"), ("MNT_AMOUNT", "299.00"), ("MNT_SIGNATURE", "digest"),
      ("MNT_CUSTOM3", customUser), ("MNT_CUSTOM1", customPlan)]
  nodup := by
    show ["MNT_TRANSACTION_ID", "MNT_AMOUNT", "MNT_SIGNATURE", "MNT_CUSTOM3", "MNT_CUSTOM1"].Nodup
    decide

theorem signedAlike_examplePayUrlFor (u v m n : String) :
    SignedAlike (examplePayUrlFor u m) (examplePayUrlFor v n) := by
  intro field hfield
  simp only [signedFields, List.mem_cons, List.not_mem_nil, or_false] at hfield
  rcases hfield with rfl | rfl | rfl | rfl | rfl | rfl | rfl | rfl <;> rfl

/-- Another name of the default plan gives the same. -/
theorem granted_examplePayUrl_plan :
    granted exampleConfig 0 exampleState (examplePayUrlFor "QGE6cw" "setka_plus_month") =
      granted exampleConfig 0 exampleState (examplePayUrlFor "QGE6cw" "month") := by
  refine (granted_eq_iff_sameReferences (signedAlike_examplePayUrlFor _ _ _ _)).mpr fun _ =>
    ⟨?_, fun _ => ?_⟩
  · decide +kernel
  · rfl

/-- Whoever sends a signed callback on chooses who gets the subscription. -/
theorem user_not_signed : ¬ ∀ p q, SignedAlike p q →
      granted exampleConfig 0 exampleState p = granted exampleConfig 0 exampleState q := by
  intro h
  have hsame := congrArg (Option.map Grant.userId) (h _ _ (signedAlike_examplePayUrlFor "QGE6cw" "QGI6cw" "" ""))
  revert hsame
  decide +kernel

end Setka.Handlers.Plus
