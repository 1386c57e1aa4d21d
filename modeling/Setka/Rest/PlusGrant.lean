/-
# Setka.Rest.PlusGrant — whether a client can give itself Plus.

The subscription is account data, and its expiry is all that makes it active. A client writes account
data of any type, so it can write an expiry. Every checkout writes the subscription again, and turns an
expiry that is small enough to be seconds into milliseconds twice more. Nothing else that a client asks
for moves the expiry, except a payment that YooMoney reports as made.
-/
import Setka.Handlers.PlusActivate
import Setka.Handlers.PlusPrice
import Setka.Handlers.StickerPackMap
import Setka.Handlers.SubscriptionStable
import Setka.Rest.Client

namespace Setka.Rest

open Setka.Api Setka.Lib Setka.Handlers Setka.Handlers.Plus Setka.Lib.Action Json

/-! ## §1 A subscription that is not active -/

/-- The stored value is that of an active subscription. -/
def ContentActive (cfg : Config) (now : ℤ) (raw : Option (List (String × Json))) : Prop :=
  ∃ sub, normalizeSubscription cfg now raw = .ok sub ∧ sub.isActive = true

/-- **Without Plus**: from now on, no read reports an active subscription, and `_assert_plus_active`
raises. -/
def WithoutPlus (cfg : Config) (now : ℤ) (s : State) (userId : String) : Prop :=
  ∀ later, now ≤ later → (∀ sub, getSubscription cfg later s userId = .ok sub → sub.isActive = false) ∧
    ∃ e, ((assertPlusActive cfg later userId).run s).1 = .error e

variable {cfg : Config} {now : ℤ} {sub : Subscription}

theorem isActive_of_normalizeSubscription {raw : List (String × Json)}
    (h : normalizeSubscription cfg now (some raw) = .ok sub) :
    sub.isActive = decide (now < storedExpiry (some raw)) := by
  rw [← normalizeSubscription_expiresAt h]
  simp only [normalizeSubscription, except_bind_eq_ok] at h
  obtain ⟨startedAt, -, expiry, -, updatedAt, -, amount, -, days, -, price, -, h⟩ := h
  obtain rfl := Except.ok.inj h
  rfl

/-- What is not active now is not active later. -/
theorem not_contentActive_later {later : ℤ} (hle : now ≤ later) {raw : Option (List (String × Json))}
    (h : ¬ ContentActive cfg now raw) : ¬ ContentActive cfg later raw := by
  rintro ⟨sub, hsub, hactive⟩
  cases raw with
  | none =>
    obtain rfl := Except.ok.inj hsub
    exact absurd hactive (by simp)
  | some raw =>
    obtain ⟨sub', hsub'⟩ := normalizeSubscription_ok_of_ok hsub now
    refine h ⟨sub', hsub', ?_⟩
    rw [isActive_of_normalizeSubscription hsub, decide_eq_true_eq] at hactive
    rw [isActive_of_normalizeSubscription hsub', decide_eq_true_eq]
    omega

variable {s : State} {userId : String}

theorem assertPlusActive_error_iff : (∃ e, ((assertPlusActive cfg now userId).run s).1 = .error e) ↔
      ¬ ContentActive cfg now (s.accountData userId subscriptionType) := by
  unfold assertPlusActive
  cases hsub : getSubscription cfg now s userId with
  | error e =>
    rw [run_bind_of_error (run_getSubscription hsub)]
    refine iff_of_true ⟨e, rfl⟩ ?_
    rintro ⟨sub, hok, -⟩
    exact absurd (hsub.symm.trans hok) (by simp)
  | ok sub =>
    rw [run_bind_of_ok (run_getSubscription hsub)]
    cases hactive : sub.isActive with
    | true => exact iff_of_false (by rintro ⟨e, he⟩; cases he) fun h => h ⟨sub, hsub, hactive⟩
    | false =>
      refine iff_of_true ⟨_, rfl⟩ ?_
      rintro ⟨sub', hok, hactive'⟩
      obtain rfl := Except.ok.inj (hsub.symm.trans hok)
      exact absurd (hactive.symm.trans hactive') (by simp)

theorem withoutPlus_iff : WithoutPlus cfg now s userId ↔
      ¬ ContentActive cfg now (s.accountData userId subscriptionType) := by
  constructor
  · exact fun h => assertPlusActive_error_iff.mp (h now le_rfl).2
  intro h later hle
  have hlater := not_contentActive_later hle h
  refine ⟨fun sub hsub => ?_, assertPlusActive_error_iff.mpr hlater⟩
  cases hactive : sub.isActive with
  | true => exact absurd ⟨sub, hsub, hactive⟩ hlater
  | false => rfl

variable {t : State}

theorem WithoutPlus.congr (h : t.accountData userId subscriptionType = s.accountData userId subscriptionType) :
    WithoutPlus cfg now t userId ↔ WithoutPlus cfg now s userId := by
  rw [withoutPlus_iff, withoutPlus_iff, h]

/-! ## §2 What leaves the subscriptions alone -/

variable {type : String}

theorem sameSubscriptions_addAccountData (htype : type ≠ subscriptionType) (s : State) (userId : String)
    (content : List (String × Json)) : SameSubscriptions s (s.addAccountData userId type content) := by
  intro u
  rw [accountData_addAccountData, if_neg]
  exact fun h => htype h.2.symm

theorem sameSubscriptions_removeAccountData (htype : type ≠ subscriptionType) (s : State)
    (userId : String) : SameSubscriptions s (s.removeAccountData userId type) := by
  unfold State.removeAccountData
  split
  · exact sameSubscriptions_addAccountData htype s userId []
  · exact SameSubscriptions.refl s

theorem stickerPacksType_ne_subscriptionType : stickerPacksType ≠ subscriptionType := by decide

section Keeps

variable {α β : Type}

theorem keeps_bind {m : Action State Error α} {f : α → Action State Error β}
    (hm : m.Keeps SameSubscriptions) (hf : ∀ a, (f a).Keeps SameSubscriptions) :
    (m >>= f).Keeps SameSubscriptions :=
  Action.Keeps.bind SameSubscriptions.refl SameSubscriptions.trans hm hf

/-- An action whose answer is dropped. -/
theorem keeps_drop {m : Action State Error α} (hm : m.Keeps SameSubscriptions) :
    (m >>= fun _ => (pure () : Action State Error Unit)).Keeps SameSubscriptions :=
  keeps_bind hm fun _ => keeps_pure SameSubscriptions.refl ()

end Keeps

theorem assertPlusActive_keeps (cfg : Config) (now : ℤ) (userId : String) :
    (assertPlusActive cfg now userId).Keeps SameSubscriptions := by
  refine keeps_bind (keeps_reads SameSubscriptions.refl _) fun sub => ?_
  split
  · exact keeps_pure SameSubscriptions.refl _
  · exact keeps_raise SameSubscriptions.refl _

theorem upsertStickerPack_keeps (cfg : Config) (uni : PyStr.Unicode) (now : ℤ) (userId : String)
    (a : UpsertArgs) : (upsertStickerPack cfg uni now userId a).Keeps SameSubscriptions := by
  unfold upsertStickerPack
  split
  · exact keeps_raise SameSubscriptions.refl _
  dsimp only
  refine keeps_bind (keeps_reads SameSubscriptions.refl _) fun packs => ?_
  split
  · exact keeps_raise SameSubscriptions.refl _
  refine keeps_bind ?_ fun _ => ?_
  · unfold assertEmojiAllowed
    split
    · split
      · exact keeps_raise SameSubscriptions.refl _
      · exact assertPlusActive_keeps cfg now userId
    · exact keeps_pure SameSubscriptions.refl _
  · refine keeps_bind (keeps_lift SameSubscriptions.refl _) fun stickers => ?_
    refine keeps_bind (fun s => ?_) fun _ => keeps_pure SameSubscriptions.refl _
    exact sameSubscriptions_addAccountData stickerPacksType_ne_subscriptionType s userId _

theorem deleteStickerPack_keeps (uni : PyStr.Unicode) (now : ℤ) (readIds : ℕ → ℕ → Uuid)
    (userId packId : String) (adminOverride : Bool) :
    (deleteStickerPack uni now readIds userId packId adminOverride).Keeps SameSubscriptions := by
  refine keeps_bind (keeps_reads SameSubscriptions.refl _) fun packs => ?_
  dsimp only
  split
  · exact keeps_raise SameSubscriptions.refl _
  split
  · exact keeps_pure SameSubscriptions.refl _
  split
  · exact fun s =>
      sameSubscriptions_removeAccountData stickerPacksType_ne_subscriptionType s userId
  · exact fun s =>
      sameSubscriptions_addAccountData stickerPacksType_ne_subscriptionType s userId _

theorem importSharedPack_keeps (cfg : Config) (uni : PyStr.Unicode) (now : ℤ)
    (readIds : ℕ → ℕ → Uuid) (newIds : ℕ → Uuid) (newPackId : Uuid) (tokens : ShareTokens)
    (userId token : String) :
    (importSharedPack cfg uni now readIds newIds newPackId tokens userId token).Keeps SameSubscriptions := by
  refine keeps_bind (keeps_reads SameSubscriptions.refl _) fun sharedPack => ?_
  split
  · exact keeps_bind (assertPlusActive_keeps cfg now userId) fun _ =>
      upsertStickerPack_keeps cfg uni now userId _
  · exact upsertStickerPack_keeps cfg uni now userId _

/-! ## §3 What a checkout writes -/

/-- The expiry that a stored one is read as. -/
def reread (expiry : ℤ) : ℤ := (timestampMs true expiry).getD 0

/-- A normalised subscription that was stored can be read. -/
theorem normalizeSubscription_toMembers (cfg : Config) (now : ℤ) (sub : Subscription) :
    ∃ sub', normalizeSubscription cfg now (some sub.toMembers) = .ok sub' := by
  exact ⟨_, normalizeSubscription_some_iff.mpr ⟨sub.numbers, sub.reads_toMembers, rfl⟩⟩

theorem storedExpiry_toMembers (sub : Subscription) : storedExpiry (some sub.toMembers) = reread sub.expiresAt := by
  obtain ⟨-, -, -, hexpires, -⟩ := member?_toMembers sub
  rw [storedExpiry, hexpires]
  rfl

variable {updates : List (String × Json)} {e : Error}

theorem storeUpdates_error {existing : Subscription} {status : List (String × Json)}
    (h : (storeUpdates cfg now userId updates existing status).run s = (.error e, t)) : t = s := by
  unfold storeUpdates at h
  dsimp only at h
  rcases run_bind_eq_error h with h₁ | ⟨startedAt, s₁, hlift, h₁⟩
  · exact (Prod.mk.inj h₁).2.symm
  obtain rfl : s = s₁ := (Prod.mk.inj hlift).2
  rcases run_bind_eq_error h₁ with h₂ | ⟨expiry, s₂, hlift, h₂⟩
  · exact (Prod.mk.inj h₂).2.symm
  obtain rfl : s = s₂ := (Prod.mk.inj hlift).2
  rcases run_bind_eq_error h₂ with h₃ | ⟨amount, s₃, hlift, h₃⟩
  · exact (Prod.mk.inj h₃).2.symm
  obtain rfl : s = s₃ := (Prod.mk.inj hlift).2
  rcases run_bind_eq_error h₃ with h₄ | ⟨payload, s₄, hlift, h₄⟩
  · exact (Prod.mk.inj h₄).2.symm
  -- nothing raises from the write on
  cases (Prod.mk.inj h₄).1

theorem setSubscription_error (h : (setSubscription cfg now userId updates).run s = (.error e, t)) : t = s := by
  rw [setSubscription_eq] at h
  rcases run_bind_eq_error h with h | ⟨existing, s₁, hread, h⟩
  · exact (Prod.mk.inj h).2.symm
  obtain rfl : s = s₁ := (Prod.mk.inj hread).2
  split at h
  · exact storeUpdates_error h
  split at h
  · exact storeUpdates_error h
  · exact (Prod.mk.inj h).2.symm

theorem storeUpdates_ok (hupdates : Json.member? updates "expires_at" = none) {existing : Subscription}
    {status : List (String × Json)} (hstatus : Json.member? status "expires_at" = none)
    (h : (storeUpdates cfg now userId updates existing status).run s = (.ok sub, t)) :
    t = s.addAccountData userId subscriptionType sub.toMembers ∧
      sub.expiresAt = reread existing.expiresAt := by
  unfold storeUpdates at h
  dsimp only at h
  obtain ⟨startedAt, s₁, hlift, h⟩ := exists_of_run_bind_eq_ok h
  obtain ⟨-, rfl⟩ := Prod.mk.inj hlift
  obtain ⟨expiry, s₂, hlift₂, h⟩ := exists_of_run_bind_eq_ok h
  obtain ⟨hexpiry, rfl⟩ := Prod.mk.inj hlift₂
  rw [hupdates] at hexpiry
  obtain rfl : none = expiry := Except.ok.inj hexpiry
  obtain ⟨amount, s₃, hlift₃, h⟩ := exists_of_run_bind_eq_ok h
  obtain ⟨-, rfl⟩ := Prod.mk.inj hlift₃
  obtain ⟨payload, s₄, hlift₄, h⟩ := exists_of_run_bind_eq_ok h
  obtain ⟨hpayload, rfl⟩ := Prod.mk.inj hlift₄
  obtain ⟨hsub, ht⟩ := Prod.mk.inj h
  obtain rfl := Except.ok.inj hsub
  refine ⟨ht.symm, ?_⟩
  rw [normalizeSubscription_expiresAt hpayload]
  -- none of the other members is called `expires_at`
  have htier := member?_tierMembers cfg (cleanStr 64 (Json.member? updates "tier")) "expires_at"
    (by decide) (by decide) (by decide) (by decide)
  obtain ⟨-, -, -, hexpires, -⟩ := member?_toMembers existing
  rw [storedExpiry]
  simp only [member?_append, member?_optional, member?_cons, member?_nil,
    String.reduceEq, if_false, Option.none_or, Option.or_none, Option.map_none, htier,
    hstatus, hexpires, Option.toList_none]
  rfl

/-- **What `set_subscription` writes** when the updates name no expiry. -/
theorem setSubscription_ok (hupdates : Json.member? updates "expires_at" = none)
    (h : (setSubscription cfg now userId updates).run s = (.ok sub, t)) :
    t = s.addAccountData userId subscriptionType sub.toMembers ∧
      sub.expiresAt = reread (Plus.expiresAt s userId) := by
  rw [setSubscription_eq] at h
  obtain ⟨existing, s₁, hread, h⟩ := exists_of_run_bind_eq_ok h
  obtain ⟨hexisting, rfl⟩ := Prod.mk.inj hread
  rw [Plus.expiresAt, ← normalizeSubscription_expiresAt hexisting]
  split at h
  · exact storeUpdates_ok hupdates rfl h
  split at h
  · exact storeUpdates_ok hupdates rfl h
  · exact absurd (congrArg Prod.fst h) (by simp)

/-- A subscription is written again, with the expiry that was stored. -/
def Rewritten (s t : State) (userId : String) : Prop :=
  ∃ sub : Subscription, sub.expiresAt = reread (Plus.expiresAt s userId) ∧
    SameSubscriptions (s.addAccountData userId subscriptionType sub.toMembers) t

/-- What a request for a checkout does to the subscriptions: nothing where it raises. -/
def OpensCheckout (userId : String) (m : Action State Error Checkout) : Prop :=
  ∀ s, match m.run s with
    | (.ok _, t) => Rewritten s t userId
    | (.error _, t) => SameSubscriptions s t

theorem OpensCheckout.raise (userId : String) (e : Error) :
    OpensCheckout userId (Action.raise e) := fun s => SameSubscriptions.refl s

variable {α : Type}

/-- The check that comes first changes nothing. -/
theorem OpensCheckout.afterCheck {check : Action State Error α} {f : α → Action State Error Checkout}
    (hcheck : ∀ s, (check.run s).2 = s)
    (hf : ∀ a, OpensCheckout userId (f a)) : OpensCheckout userId (check >>= f) := by
  intro s
  have hstate := hcheck s
  rcases hrun : check.run s with ⟨r, s'⟩
  rw [hrun] at hstate
  obtain rfl : s' = s := hstate
  cases r with
  | error e =>
    rw [run_bind_of_error hrun]
    exact SameSubscriptions.refl s'
  | ok a =>
    rw [run_bind_of_ok hrun]
    exact hf a s'

theorem openCheckout_opens (cfg : Config) (now : ℤ) (userId requestId : String)
    (assistantFields : Option (Dict String String)) (c : Checkout) :
    OpensCheckout userId (openCheckout cfg now userId requestId assistantFields c) := by
  intro s
  have hrecord := recordPayment_keeps now userId
    { paymentId := c.paymentId
      status := "pending"
      provider := c.provider
      createdAt := now
      amount := some c.amount
      currency := some "RUB"
      requestId := some requestId
      label := some c.label
      planId := some c.planId
      message := none
      assistantFields } s
  unfold openCheckout
  generalize recordPayment now userId _ = record at hrecord
  rcases hrun : record.run s with ⟨r, s₁⟩
  rw [hrun] at hrecord
  cases r with
  | error e =>
    rw [run_bind_of_error hrun]
    exact hrecord
  | ok _ =>
    rw [run_bind_of_ok hrun]
    rcases hset : (setSubscription cfg now userId
      [("status", .str "pending"), ("tier", .str c.planId), ("amount", .float c.amount)]).run s₁
      with ⟨r, t⟩
    cases r with
    | error e =>
      rw [run_bind_of_error hset]
      obtain rfl := setSubscription_error hset
      exact hrecord
    | ok sub =>
      rw [run_bind_of_ok hset]
      obtain ⟨rfl, hexpires⟩ := setSubscription_ok rfl hset
      have hstored : Plus.expiresAt s₁ userId = Plus.expiresAt s userId := by
        unfold Plus.expiresAt
        rw [hrecord userId]
      refine ⟨sub, by rw [hexpires, hstored], fun u => ?_⟩
      show (s₁.addAccountData _ _ _).accountData u subscriptionType = _
      rw [accountData_addAccountData, accountData_addAccountData, hrecord u]

theorem assertAcquiringEnabled_state (cfg : Config) (s : State) : ((assertAcquiringEnabled cfg).run s).2 = s := by
  unfold assertAcquiringEnabled
  split
  · rfl
  · rfl

theorem createYoomoney_opens (cfg : Config) (now : ℤ) (labelUuid paymentUuid : String)
    (response : Option Json) (r : CheckoutRequest) : OpensCheckout r.userId
      (createYoomoneyPaymentRequest cfg now labelUuid paymentUuid response r) := by
  refine OpensCheckout.afterCheck (assertAcquiringEnabled_state cfg) fun _ => ?_
  dsimp only
  split
  · exact openCheckout_opens cfg now r.userId _ _ _
  · exact openCheckout_opens cfg now r.userId _ _ _

theorem createRobokassa_opens (cfg : Config) (now : ℤ) (paymentUuid : String) (invId : ℕ)
    (r : CheckoutRequest) : OpensCheckout r.userId (createRobokassaPaymentRequest cfg now paymentUuid invId r) := by
  refine OpensCheckout.afterCheck (assertAcquiringEnabled_state cfg) fun _ => ?_
  dsimp only
  split
  · exact OpensCheckout.raise _ _
  · exact openCheckout_opens cfg now r.userId _ _ _

theorem createPayanyway_opens (cfg : Config) (now : ℤ) (paymentUuid : String)
    (operationId : Option ℤ) (r : CheckoutRequest) : OpensCheckout r.userId
      (createPayanywayPaymentRequest cfg now paymentUuid operationId r) := by
  refine OpensCheckout.afterCheck (assertAcquiringEnabled_state cfg) fun _ => ?_
  split
  · exact OpensCheckout.raise _ _
  split
  · exact OpensCheckout.raise _ _
  · exact openCheckout_opens cfg now r.userId _ _ _

variable {body : List (String × Json)}

theorem checkoutRequest_userId {r : CheckoutRequest}
    (h : checkoutRequest userId body = .ok r) : r.userId = userId := by
  obtain ⟨amount, -, h⟩ := except_bind_eq_ok.mp h
  obtain ⟨description, -, h⟩ := except_bind_eq_ok.mp h
  obtain ⟨planId, -, h⟩ := except_bind_eq_ok.mp h
  obtain rfl := Except.ok.inj h
  rfl

/-! ## §4 Requests -/

/-- **What a request may not do** for its client to stay without Plus. An account-data request does not
store an active subscription; a checkout that is opened does not find an expiry that is in the future
once it was taken for seconds twice more; and YooMoney does not report a payment as made. -/
def Harmless (env : Settings) (w : Server) (r : ClientRequest) : Prop :=
  match r.request with
  | .putAccountData type body => r.userId = r.requester → type = subscriptionType →
      ¬ ContentActive env.cfg r.surroundings.now (some body)
  | .createPayment provider body => ∀ c t,
      (createPayment env r.surroundings r.requester r.userId provider body).run w.plus = (.ok c, t) →
        reread (reread (Plus.expiresAt w.plus r.userId)) ≤ r.surroundings.now
  | .processPayment body => r.requester = r.userId → ∀ requestId planId answer,
      processParams body = .ok (requestId, planId) → r.surroundings.yoomoneyAnswer = some answer →
        processActivation? env.cfg r.surroundings.now w.plus r.userId requestId planId answer = none
  | _ => True

theorem withoutPlus_addAccountData_iff {content : List (String × Json)} :
    WithoutPlus cfg now (s.addAccountData userId subscriptionType content) userId ↔
      ¬ ContentActive cfg now (some content) := by
  rw [withoutPlus_iff, accountData_addAccountData, if_pos ⟨rfl, rfl⟩]

/-- An emptied subscription is not active. -/
theorem not_contentActive_nil (hnow : 0 ≤ now) : ¬ ContentActive cfg now (some []) := by
  rintro ⟨sub, hsub, hactive⟩
  rw [isActive_of_normalizeSubscription hsub, decide_eq_true_eq] at hactive
  have hexpiry : storedExpiry (some []) = 0 := rfl
  omega

theorem withoutPlus_removeAccountData (hnow : 0 ≤ now) (h : WithoutPlus cfg now s userId) (u type : String) :
    WithoutPlus cfg now (s.removeAccountData u type) userId := by
  unfold State.removeAccountData
  split
  · rw [withoutPlus_iff, accountData_addAccountData]
    split
    · exact not_contentActive_nil hnow
    · exact withoutPlus_iff.mp h
  · exact h

/-- The subscription of an activation is active. -/
theorem contentActive_payload (cfg : Config) (now : ℤ) (userId paymentId : String)
    (planId : Option String) (existing : Subscription) :
    let a := processActivation cfg userId paymentId planId
    ContentActive cfg now (some (a.payload now (cfg.plans.resolvePlan a.planId) existing)) := by
  intro a
  obtain ⟨sub, hsub⟩ := normalizeSubscription_payload cfg now a (cfg.plans.resolvePlan a.planId) existing
  refine ⟨sub, hsub, ?_⟩
  rw [isActive_of_normalizeSubscription hsub, decide_eq_true_eq]
  have hdays : a.effectiveDurationDays (cfg.plans.resolvePlan a.planId) =
      (cfg.plans.resolvePlan planId).durationDays :=
    Activation.effectiveDurationDays_of_pos rfl (cfg.plans.resolvePlan planId).durationDays_pos
  have hpos := (cfg.plans.resolvePlan planId).durationDays_pos
  have hexpires : Json.member? (a.payload now (cfg.plans.resolvePlan a.planId) existing)
      "expires_at" = some (.int (extendedExpiry now ((timestampMs true existing.expiresAt).getD 0)
        (a.effectiveDurationDays (cfg.plans.resolvePlan a.planId)))) := rfl
  have hlater : now < extendedExpiry now ((timestampMs true existing.expiresAt).getD 0)
      (a.effectiveDurationDays (cfg.plans.resolvePlan a.planId)) := by
    rw [hdays]
    unfold extendedExpiry
    split <;> omega
  have hstored : storedExpiry (some (a.payload now (cfg.plans.resolvePlan a.planId) existing)) =
      (timestampMs true (extendedExpiry now ((timestampMs true existing.expiresAt).getD 0)
        (a.effectiveDurationDays (cfg.plans.resolvePlan a.planId)))).getD 0 := by
    rw [storedExpiry, hexpires]
    rfl
  rw [hstored]
  exact lt_of_lt_of_le hlater (le_timestampMs _)

variable {check : Except Error Unit}

/-- A request that is checked first and then leaves the subscriptions alone. -/
theorem keeps_afterCheck {m : Action State Error α} (hm : m.Keeps SameSubscriptions) :
    (Action.lift check >>= fun _ => m).Keeps SameSubscriptions :=
  keeps_bind (keeps_lift SameSubscriptions.refl check) fun _ => hm

theorem postStickerPack_keeps (env : Settings) (e : Surroundings) (requester userId : String)
    (body : List (String × Json)) :
    (postStickerPack env e requester userId body).Keeps SameSubscriptions := by
  apply keeps_afterCheck
  split
  · exact keeps_raise SameSubscriptions.refl _
  · exact upsertStickerPack_keeps env.cfg env.tables e.now userId _

/-- Requests for account data that are refused change nothing. -/
theorem afterCheck_of_error {σ : Type} (h : check = .error e) (m : Action σ Error α)
    (s : σ) : ((Action.lift check >>= fun _ => m).run s).2 = s := by
  rw [run_bind_of_error (by rw [run_lift, h])]

theorem afterCheck_of_ok {σ : Type} (h : check = .ok ()) (m : Action σ Error α)
    (s : σ) : (Action.lift check >>= fun _ => m).run s = m.run s :=
  run_bind_of_ok (by rw [run_lift, h]) _

/-- A client may write its own subscription: no check is in its way. -/
theorem checkAccountData_subscription (verb requester : String) :
    checkAccountData verb requester requester subscriptionType = .ok () := by
  unfold checkAccountData checkCanSetAccountDataType
  rw [if_neg (fun h => h rfl), if_neg (by decide), if_neg (by decide)]
  rfl

variable {env : Settings} {requester : String}

theorem putAccountData_withoutPlus_iff (hnow : 0 ≤ now) (h : WithoutPlus env.cfg now s requester) :
    WithoutPlus env.cfg now ((putAccountData env requester userId type body).run s).2 requester ↔
      (userId = requester → type = subscriptionType → ¬ ContentActive env.cfg now (some body)) := by
  unfold putAccountData
  cases hcheck : checkAccountData "add" requester userId type with
  | error e =>
    refine iff_of_true h ?_
    rintro rfl rfl
    exact absurd (hcheck.symm.trans (checkAccountData_subscription "add" userId)) (by simp)
  | ok _ =>
    split
    · rename_i hempty
      refine iff_of_true (withoutPlus_removeAccountData hnow h userId type) ?_
      rintro - -
      rw [List.isEmpty_iff.mp hempty.2]
      exact not_contentActive_nil hnow
    show WithoutPlus env.cfg now (s.addAccountData userId type body) requester ↔ _
    by_cases hown : userId = requester ∧ type = subscriptionType
    · obtain ⟨rfl, rfl⟩ := hown
      rw [withoutPlus_addAccountData_iff]
      exact ⟨fun hnot _ _ => hnot, fun hnot => hnot rfl rfl⟩
    refine iff_of_true ?_ fun hu ht => absurd ⟨hu, ht⟩ hown
    rw [withoutPlus_iff, accountData_addAccountData, if_neg fun hand =>
      hown ⟨hand.1.symm, hand.2.symm⟩]
    exact withoutPlus_iff.mp h

theorem deleteAccountData_withoutPlus (hnow : 0 ≤ now) (h : WithoutPlus cfg now s requester) :
    WithoutPlus cfg now ((deleteAccountData requester userId type).run s).2 requester := by
  unfold deleteAccountData
  cases hcheck : checkAccountData "delete" requester userId type with
  | error e =>
    exact h
  | ok _ =>
    exact withoutPlus_removeAccountData hnow h userId type

theorem createPayment_opens (env : Settings) (e : Surroundings) (requester userId : String)
    (provider : Provider) (body : List (String × Json)) :
    OpensCheckout userId (createPayment env e requester userId provider body) := by
  refine OpensCheckout.afterCheck (fun _ => rfl) fun _ => ?_
  intro s
  cases hrequest : checkoutRequest userId body with
  | error err =>
    exact SameSubscriptions.refl s
  | ok request =>
    obtain rfl := checkoutRequest_userId hrequest
    cases provider with
    | yoomoney => exact createYoomoney_opens env.cfg e.now _ _ _ request s
    | robokassa => exact createRobokassa_opens env.cfg e.now _ _ request s
    | payanyway => exact createPayanyway_opens env.cfg e.now _ _ request s

/-- **A checkout gives Plus** exactly when it is opened and the expiry it writes again is read as one
in the future. -/
theorem createPayment_withoutPlus_iff {e : Surroundings} {provider : Provider}
    (h : WithoutPlus env.cfg e.now s requester) : WithoutPlus env.cfg e.now
        ((createPayment env e requester userId provider body).run s).2 requester ↔
      ∀ c t, (createPayment env e requester userId provider body).run s = (.ok c, t) →
        reread (reread (Plus.expiresAt s userId)) ≤ e.now := by
  have hopens := createPayment_opens env e requester userId provider body s
  rcases hrun : (createPayment env e requester userId provider body).run s with ⟨r, t⟩
  rw [hrun] at hopens
  cases r with
  | error err =>
    refine iff_of_true ((WithoutPlus.congr (hopens requester)).mpr h) ?_
    intro c t' h'
    exact absurd (congrArg Prod.fst h') (by simp)
  | ok c =>
    -- only a request for one's own account gets this far
    have hself : requester = userId := by
      by_contra hne
      have hcheck : assertSelf requester userId =
          .error (.synapseError 403 "Cannot access Setka Plus data for other users." "M_FORBIDDEN") := if_pos hne
      have hraise : ((createPayment env e requester userId provider body).run s).1 =
          .error (.synapseError 403 "Cannot access Setka Plus data for other users." "M_FORBIDDEN") := by
        unfold createPayment
        rw [run_bind_of_error (by rw [run_lift, hcheck])]
      rw [hrun] at hraise
      cases hraise
    subst hself
    obtain ⟨sub, hexpires, hsame⟩ := hopens
    obtain ⟨sub', hsub'⟩ := normalizeSubscription_toMembers env.cfg e.now sub
    have hactive : ContentActive env.cfg e.now (some sub.toMembers) ↔
        e.now < reread (reread (Plus.expiresAt s requester)) := by
      rw [← hexpires, ← storedExpiry_toMembers]
      constructor
      · rintro ⟨sub'', hsub'', hactive⟩
        rwa [isActive_of_normalizeSubscription hsub'', decide_eq_true_eq] at hactive
      intro hlt
      refine ⟨sub', hsub', ?_⟩
      rwa [isActive_of_normalizeSubscription hsub', decide_eq_true_eq]
    rw [WithoutPlus.congr (hsame requester), withoutPlus_addAccountData_iff, hactive, not_lt]
    exact ⟨fun hle _ _ _ => hle, fun hall => hall c t rfl⟩

/-- **A processed payment gives Plus** exactly when it leads to an activation. -/
theorem processPayment_withoutPlus_iff {e : Surroundings} (h : WithoutPlus env.cfg e.now s requester) :
    WithoutPlus env.cfg e.now ((processPayment env e requester userId body).run s).2 requester ↔
      (requester = userId → ∀ requestId planId answer,
        processParams body = .ok (requestId, planId) → e.yoomoneyAnswer = some answer →
          processActivation? env.cfg e.now s userId requestId planId answer = none) := by
  unfold processPayment
  by_cases hself : requester = userId
  · have hcheck : assertSelf requester userId = .ok () := if_neg fun hne => hne hself
    rw [hcheck, afterCheck_of_ok rfl]
    cases hparams : processParams body with
    | error err =>
      exact iff_of_true h fun _ _ _ _ hok => absurd hok (by simp)
    | ok params =>
      obtain ⟨requestId, planId⟩ := params
      rw [run_bind_of_ok (run_lift _ _)]
      cases hanswer : e.yoomoneyAnswer with
      | none => exact iff_of_true h fun _ _ _ _ _ hsome => absurd hsome (by simp)
      | some answer =>
        have hwrites := processYoomoneyPayment_subscription env.cfg e.now s userId requestId planId answer
        cases hactivation : processActivation? env.cfg e.now s userId requestId planId answer with
        | none =>
          rw [hactivation] at hwrites
          refine iff_of_true ((WithoutPlus.congr (hwrites requester)).mpr h) ?_
          intro _ requestId' planId' answer' hok hsome
          obtain ⟨rfl, rfl⟩ := Prod.mk.inj (Except.ok.inj hok)
          obtain rfl := Option.some.inj hsome
          exact hactivation
        | some a =>
          rw [hactivation] at hwrites
          obtain ⟨existing, -, hsame⟩ := hwrites
          obtain ⟨requestId', -, -, -, -, -, rfl⟩ := processActivation?_eq_some hactivation
          subst hself
          rw [WithoutPlus.congr (hsame requester)]
          refine iff_of_false (fun hnot => withoutPlus_addAccountData_iff.mp hnot
            (contentActive_payload env.cfg e.now requester _ planId existing)) fun hall => ?_
          have hnone := hall rfl requestId planId answer rfl rfl
          exact absurd (hactivation.symm.trans hnone) (by simp)
  · have hcheck : assertSelf requester userId =
        .error (.synapseError 403 "Cannot access Setka Plus data for other users." "M_FORBIDDEN") :=
      if_pos hself
    rw [hcheck, afterCheck_of_error rfl]
    exact iff_of_true h fun hsame => absurd hsame hself

theorem serve_keeps {e : Surroundings} {m : Action State Error Unit} (hm : m.Keeps SameSubscriptions)
    (h : WithoutPlus env.cfg e.now s requester) : WithoutPlus env.cfg e.now (m.run s).2 requester :=
  (WithoutPlus.congr (hm s requester)).mpr h

/-- What rooms keep is apart from what Setka Plus keeps. -/
theorem putRoomAccountData_plus (env : Settings) (requester userId roomId type : String)
    (body : List (String × Json)) (w : Server) :
    ((putRoomAccountData env requester userId roomId type body).run w).2.plus = w.plus := by
  unfold putRoomAccountData
  cases checkRoomAccountData env "add" requester userId roomId type with
  | error e => rw [afterCheck_of_error rfl]
  | ok _ =>
    rw [afterCheck_of_ok rfl]
    split
    · rw [run_modify]
      split
      · rfl
      · rfl
    · rfl

theorem deleteRoomAccountData_plus (env : Settings) (requester userId roomId type : String) (w : Server) :
    ((deleteRoomAccountData env requester userId roomId type).run w).2.plus = w.plus := by
  unfold deleteRoomAccountData
  cases checkRoomAccountData env "delete" requester userId roomId type with
  | error e => rw [afterCheck_of_error rfl]
  | ok _ =>
    rw [afterCheck_of_ok rfl, run_modify]
    split
    · rfl
    · rfl

/-- **One request leaves its client without Plus** exactly when it is harmless. -/
theorem withoutPlus_serve_iff {w : Server} {r : ClientRequest}
    (h : WithoutPlus env.cfg r.surroundings.now w.plus r.requester) :
    WithoutPlus env.cfg r.surroundings.now (w.serve env r).plus r.requester ↔ Harmless env w r := by
  obtain ⟨requester, userId, e, request⟩ := r
  have hreads : ∀ {α : Type} (f : State → Except Error α),
      ((Action.lift (assertSelf requester userId) >>= fun _ => Action.reads f >>= fun _ =>
        pure ()) : Action State Error Unit).Keeps SameSubscriptions :=
    fun f => keeps_afterCheck (keeps_drop (keeps_reads SameSubscriptions.refl f))
  cases request with
  | getSubscription => exact iff_of_true (serve_keeps (hreads _) h) trivial
  | getPayments => exact iff_of_true (serve_keeps (hreads _) h) trivial
  | getStickerPacks => exact iff_of_true (serve_keeps (hreads _) h) trivial
  | postStickerPack body =>
    exact iff_of_true (serve_keeps (keeps_drop (postStickerPack_keeps env e requester userId body)) h) trivial
  | putStickerPack packId body =>
    exact iff_of_true (serve_keeps (keeps_drop (keeps_afterCheck
      (upsertStickerPack_keeps env.cfg env.tables e.now userId _))) h) trivial
  | deleteStickerPack packId =>
    exact iff_of_true (serve_keeps (keeps_afterCheck
      (deleteStickerPack_keeps env.tables e.now e.readIds userId packId false)) h) trivial
  | shareStickerPack packId => exact iff_of_true (serve_keeps (hreads _) h) trivial
  | getSharedPack token => exact iff_of_true (serve_keeps (hreads _) h) trivial
  | importSharedPack token =>
    exact iff_of_true (serve_keeps (keeps_afterCheck (keeps_drop
      (importSharedPack_keeps env.cfg env.tables e.now e.readIds e.newIds e.uuid env.tokens userId
        token))) h) trivial
  | createPayment provider body =>
    show WithoutPlus env.cfg e.now ((createPayment env e requester userId provider body >>=
      fun _ => pure ()).run w.plus).2 requester ↔ _
    rw [run_bind_pure_state]
    exact createPayment_withoutPlus_iff h
  | processPayment body =>
    show WithoutPlus env.cfg e.now ((processPayment env e requester userId body >>=
      fun _ => pure ()).run w.plus).2 requester ↔ _
    rw [run_bind_pure_state]
    exact processPayment_withoutPlus_iff h
  | putAccountData type body => exact putAccountData_withoutPlus_iff e.now_nonneg h
  | deleteAccountData type =>
    refine iff_of_true ?_ trivial
    show WithoutPlus env.cfg e.now ((if env.msc3391Enabled then
      Rest.deleteAccountData requester userId type else pure ()).run w.plus).2 requester
    split
    · exact deleteAccountData_withoutPlus e.now_nonneg h
    · exact h
  | putRoomAccountData roomId type body =>
    refine iff_of_true ?_ trivial
    show WithoutPlus env.cfg e.now
      ((putRoomAccountData env requester userId roomId type body).run w).2.plus requester
    rw [putRoomAccountData_plus]
    exact h
  | deleteRoomAccountData roomId type =>
    refine iff_of_true ?_ trivial
    show WithoutPlus env.cfg e.now (if env.msc3391Enabled then
      ((deleteRoomAccountData env requester userId roomId type).run w).2 else w).plus requester
    split
    · rw [deleteRoomAccountData_plus]
      exact h
    · exact h

/-! ## §5 Runs -/

/-- A server and its clock. -/
structure Session where
  server : Server
  now : ℤ

/-- A client's request, sent no earlier than the one before. -/
def Session.Next (env : Settings) (userId : String) (w : Session) (r : ClientRequest) (v : Session) : Prop :=
  r.requester = userId ∧ w.now ≤ r.surroundings.now ∧
    v = ⟨w.server.serve env r, r.surroundings.now⟩

/-- A session in which the client starts without Plus. -/
def Session.Start (env : Settings) (userId : String) (w : Session) : Prop :=
  WithoutPlus env.cfg w.now w.server.plus userId

/-- The sessions that harmless requests lead to. -/
def HarmlessRun (env : Settings) (userId : String) : Session → Prop :=
  Reachable (Session.Start env userId) fun w v =>
    ∃ r, w.Next env userId r v ∧ Harmless env w.server r

theorem WithoutPlus.later {later : ℤ} (hle : now ≤ later)
    (h : WithoutPlus cfg now s userId) : WithoutPlus cfg later s userId :=
  fun t ht => h t (hle.trans ht)

/-- A server of one plan, without data. -/
def exampleSettings : Settings where
  cfg := exampleConfig
  tables := asciiTables
  tokens := ⟨fun _ => "", fun _ => .error .valueError, 0⟩
  msc3391Enabled := false
  validRoomId := fun _ => true

def exampleSession : Session := ⟨⟨exampleState, fun _ _ _ => none⟩, 1700000000000⟩

def exampleSurroundings : Surroundings where
  now := 1700000000000
  now_nonneg := by decide
  uuid := exampleUuid
  labelUuid := exampleUuid
  readIds := fun _ _ => exampleUuid
  newIds := fun _ => exampleUuid
  invId := 7
  yoomoneyAnswer := none
  operationId := none

/-- A request that stores an expiry. -/
def examplePut (expiry : ℤ) : ClientRequest where
  requester := "@user:server"
  userId := "@user:server"
  surroundings := exampleSurroundings
  request := .putAccountData subscriptionType [("expires_at", .int expiry)]

theorem exampleSession_start : HarmlessRun exampleSettings "@user:server" exampleSession :=
  Reachable.start (withoutPlus_iff.mpr fun ⟨sub, hsub, hactive⟩ => by
    obtain rfl := Except.ok.inj hsub
    exact absurd hactive (by simp))

end Setka.Rest
