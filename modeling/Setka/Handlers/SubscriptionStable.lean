/-
# Setka.Handlers.SubscriptionStable — subscriptions that are read, written and read again.

Every read of a subscription normalises it, and `set_subscription` normalises what it read once more. A timestamp of
a few weeks after the epoch is taken for seconds each time, a text that was cut behind a space is stripped the next
time, and an amount or a price that was rounded to nothing is dropped.
-/
import Setka.Handlers.PlusClean
import Setka.Handlers.PlusCredit

namespace Setka.Handlers.Plus

open Setka.Api Setka.Lib Json PyFloat Setka.Lib.Action
open Option (or_none none_or getD_some map_some getD_none map_none)

/-! ## §1 What is read -/

/-- The numbers that `_normalize_subscription` reads, none of which may raise. -/
structure SubscriptionNumbers where
  startedAt : Option ℤ
  expiresAt : Option ℤ
  updatedAt : Option ℤ
  amount : Option PyFloat
  durationDays : Option ℤ
  priceRub : Option PyFloat

/-- The tier of a stored subscription. -/
def tierOf (cfg : Config) (raw : List (String × Json)) : String :=
  (cleanStr 64 (Json.member? raw "tier")).getD (cfg.plans.resolvePlan none).id

/-- `resolved_plan`. -/
def resolvedPlan (cfg : Config) (tier : String) : Plan :=
  (cfg.plans.findPlanById (some tier)).getD (cfg.plans.resolvePlan none)

def planNameOf (cfg : Config) (raw : List (String × Json)) : String :=
  (cleanStr 120 (Json.member? raw "plan_name")).getD (resolvedPlan cfg (tierOf cfg raw)).name

/-- The status before it is compared with the expiry. -/
def statusOf (raw : List (String × Json)) : String :=
  let status := PyStr.lower ((cleanStr 32 (Json.member? raw "status")).getD "inactive")
  if status ∈ subscriptionStatus then status else "inactive"

/-- The subscription that is made of what was read. -/
def assemble (cfg : Config) (now : ℤ) (raw : List (String × Json)) (n : SubscriptionNumbers) : Subscription :=
  let resolvedPlan := resolvedPlan cfg (tierOf cfg raw)
  let isActive : Bool := now < n.expiresAt.getD 0
  { tier := tierOf cfg raw
    planName := planNameOf cfg raw
    status := effectiveStatus (statusOf raw) isActive
    startedAt := n.startedAt.getD 0
    expiresAt := n.expiresAt.getD 0
    updatedAt := n.updatedAt.getD now
    isActive
    priceRub := (n.priceRub.getD resolvedPlan.priceRub).round2
    durationDays :=
      match n.durationDays with
      | some days => if days ≤ 0 then resolvedPlan.durationDays else days
      | none => resolvedPlan.durationDays
    lastPaymentId := cleanStr 255 (Json.member? raw "last_payment_id")
    paymentProvider := cleanStr 64 (Json.member? raw "payment_provider")
    amount := n.amount.map PyFloat.round2
    currency := some ((cleanStr 16 (Json.member? raw "currency")).getD "RUB") }

section Fields

variable (cfg : Config) (now : ℤ) (raw : List (String × Json)) (n : SubscriptionNumbers)

theorem assemble_status : (assemble cfg now raw n).status =
    effectiveStatus (statusOf raw) (assemble cfg now raw n).isActive := by
  unfold assemble
  dsimp only

theorem assemble_isActive : (assemble cfg now raw n).isActive = decide (now < n.expiresAt.getD 0) := rfl

theorem assemble_priceRub : (assemble cfg now raw n).priceRub =
    (n.priceRub.getD (resolvedPlan cfg (tierOf cfg raw)).priceRub).round2 := rfl

theorem assemble_durationDays {days : ℤ} (h : n.durationDays = some days) (hpos : 0 < days) :
    (assemble cfg now raw n).durationDays = days := by
  unfold assemble
  rw [h]
  exact if_neg (Int.not_le.mpr hpos)

theorem assemble_lastPaymentId : (assemble cfg now raw n).lastPaymentId =
    cleanStr 255 (Json.member? raw "last_payment_id") := rfl

theorem assemble_paymentProvider : (assemble cfg now raw n).paymentProvider =
    cleanStr 64 (Json.member? raw "payment_provider") := rfl

theorem assemble_currency : (assemble cfg now raw n).currency =
    some ((cleanStr 16 (Json.member? raw "currency")).getD "RUB") := rfl

end Fields

/-- The numbers of a stored subscription are read. -/
structure Reads (raw : List (String × Json)) (n : SubscriptionNumbers) : Prop where
  startedAt : cleanTimestampMs true (Json.member? raw "started_at") = .ok n.startedAt
  expiresAt : cleanTimestampMs true (Json.member? raw "expires_at") = .ok n.expiresAt
  updatedAt : cleanTimestampMs false (Json.member? raw "updated_at") = .ok n.updatedAt
  amount : cleanFloat (Json.member? raw "amount") = .ok n.amount
  durationDays : cleanInt (Json.member? raw "duration_days") = .ok n.durationDays
  priceRub : cleanFloat (Json.member? raw "price_rub") = .ok n.priceRub

variable {cfg : Config} {now : ℤ} {raw : List (String × Json)} {s : Subscription}

theorem normalizeSubscription_some_iff :
    normalizeSubscription cfg now (some raw) = .ok s ↔ ∃ n, Reads raw n ∧ assemble cfg now raw n = s := by
  simp only [normalizeSubscription, except_bind_eq_ok]
  constructor
  · rintro ⟨startedAt, h1, expiresAt, h2, updatedAt, h3, amount, h4, days, h5, price, h6, heq⟩
    exact ⟨⟨startedAt, expiresAt, updatedAt, amount, days, price⟩, ⟨h1, h2, h3, h4, h5, h6⟩, Except.ok.inj heq⟩
  · rintro ⟨n, h, rfl⟩
    exact ⟨_, h.startedAt, _, h.expiresAt, _, h.updatedAt, _, h.amount, _, h.durationDays, _, h.priceRub, rfl⟩

theorem Reads.unique {n n' : SubscriptionNumbers} (h : Reads raw n) (h' : Reads raw n') : n = n' := by
  obtain ⟨startedAt, expiresAt, updatedAt, amount, durationDays, priceRub⟩ := n
  obtain rfl := Except.ok.inj (h.startedAt.symm.trans h'.startedAt)
  obtain rfl := Except.ok.inj (h.expiresAt.symm.trans h'.expiresAt)
  obtain rfl := Except.ok.inj (h.updatedAt.symm.trans h'.updatedAt)
  obtain rfl := Except.ok.inj (h.amount.symm.trans h'.amount)
  obtain rfl := Except.ok.inj (h.durationDays.symm.trans h'.durationDays)
  obtain rfl := Except.ok.inj (h.priceRub.symm.trans h'.priceRub)
  rfl

/-! ## §2 What is read again -/

/-- A price that `_clean_float` does not drop. -/
def positive (x : PyFloat) : Option PyFloat := if x.isPos then some x else none

/-- The members of a written subscription. -/
theorem member?_toMembers (s : Subscription) : Json.member? s.toMembers "tier" = some (.str s.tier) ∧
    Json.member? s.toMembers "status" = some (.str s.status) ∧
    Json.member? s.toMembers "started_at" = some (.int s.startedAt) ∧
    Json.member? s.toMembers "expires_at" = some (.int s.expiresAt) ∧
    Json.member? s.toMembers "updated_at" = some (.int s.updatedAt) ∧
    Json.member? s.toMembers "price_rub" = some (.float s.priceRub) ∧
    Json.member? s.toMembers "duration_days" = some (.int s.durationDays) ∧
    Json.member? s.toMembers "plan_name" = some (.str s.planName) ∧
    Json.member? s.toMembers "last_payment_id" = s.lastPaymentId.map Json.str ∧
    Json.member? s.toMembers "payment_provider" = s.paymentProvider.map Json.str ∧
    Json.member? s.toMembers "amount" = s.amount.map Json.float ∧
    Json.member? s.toMembers "currency" = s.currency.map Json.str := by
  simp only [Subscription.toMembers, member?_append, member?_optional, member?_cons,
    member?_nil, String.reduceEq, if_true, if_false, none_or, or_none, and_self]

/-- The numbers of a written subscription. -/
def Subscription.numbers (s : Subscription) : SubscriptionNumbers where
  startedAt := timestampMs true s.startedAt
  expiresAt := timestampMs true s.expiresAt
  updatedAt := timestampMs false s.updatedAt
  amount := s.amount.bind positive
  durationDays := some s.durationDays
  priceRub := positive s.priceRub

theorem Subscription.reads_toMembers (s : Subscription) : Reads s.toMembers s.numbers := by
  obtain ⟨-, -, hstarted, hexpires, hupdated, hprice, hdays, -, -, -, hamount, -⟩ := member?_toMembers s
  refine ⟨by rw [hstarted]; rfl, by rw [hexpires]; rfl, by rw [hupdated]; rfl, ?_, by rw [hdays]; rfl,
    by rw [hprice]; rfl⟩
  rw [hamount]
  unfold Subscription.numbers
  match s.amount with
  | none => rfl
  | some a => rfl

/-- **What is read again.** -/
theorem normalizeSubscription_toMembers_iff (cfg : Config) (now : ℤ) (s t : Subscription) :
    normalizeSubscription cfg now (some s.toMembers) = .ok t ↔ assemble cfg now s.toMembers s.numbers = t := by
  rw [normalizeSubscription_some_iff]
  constructor
  · rintro ⟨n, hreads, rfl⟩
    rw [hreads.unique s.reads_toMembers]
  · exact fun h => ⟨s.numbers, s.reads_toMembers, h⟩

/-! ## §3 What is left as it is -/

theorem cleanStr_getD_eq_iff {n : ℕ} {x d : String} (h : Fits n x) :
    (cleanStr n (some (.str x))).getD d = x ↔ PyStr.strip x = x := by
  rw [cleanStr_of_fits h, getD_some]

theorem cleanStr_map_eq_iff {n : ℕ} {o : Option String} (h : ∀ x, o = some x → Fits n x) :
    cleanStr n (o.map Json.str) = o ↔ ∀ x, o = some x → PyStr.strip x = x := by
  match o with
  | none => exact iff_of_true rfl nofun
  | some x =>
    rw [map_some, cleanStr_of_fits (h x rfl), Option.some.injEq]
    exact ⟨fun hx y hy => Option.some.inj hy ▸ hx, fun hx => hx x rfl⟩

/-- What a timestamp is cleaned to, with a default for those that are not used. -/
theorem timestampMs_getD (allowZero : Bool) (k d : ℤ) : (timestampMs allowZero k).getD d =
    if k = 0 then (if allowZero then 0 else d) else if k < 0 then d else if k < 10000000000 then k * 1000 else k := by
  unfold timestampMs
  split
  · split <;> rfl
  split
  · rfl
  · split <;> rfl

variable {t : ℤ}

/-- A time is taken for milliseconds unless it is a small number of them. -/
theorem timestampMs_getD_eq_iff (h : 0 ≤ t) : (timestampMs true t).getD 0 = t ↔ ¬(0 < t ∧ t < 10000000000) := by
  rw [timestampMs_getD, if_pos rfl]
  omega

theorem timestampMs_getD_now_iff (h : 0 < t ∨ t = now) :
    (timestampMs false t).getD now = t ↔ ¬(0 < t ∧ t < 10000000000) := by
  rw [timestampMs_getD, if_neg Bool.false_ne_true]
  omega

/-- The number that a value is cleaned to, if it is in a range. -/
def CleanedWithin (value : Option Json) (low high : ℤ) : Prop :=
  ∃ k, cleanInt value = .ok (some k) ∧ low < k ∧ k < high

variable {value : Option Json}

theorem cleanedWithin_iff {k : ℤ} (h : cleanInt value = .ok (some k)) (low high : ℤ) :
    CleanedWithin value low high ↔ low < k ∧ k < high := by
  unfold CleanedWithin
  rw [h]
  constructor
  · rintro ⟨j, hj, hrange⟩
    obtain rfl := Option.some.inj (Except.ok.inj hj)
    exact hrange
  · exact fun hrange => ⟨k, rfl, hrange⟩

theorem not_cleanedWithin (h : cleanInt value = .ok none) (low high : ℤ) : ¬CleanedWithin value low high := by
  rintro ⟨k, hk, -⟩
  exact absurd (h.symm.trans hk) nofun

theorem cleanTimestampMs_eq_ok {allowZero : Bool} {t : Option ℤ} (h : cleanTimestampMs allowZero value = .ok t) :
    cleanInt value = .ok none ∧ t = none ∨ ∃ k, cleanInt value = .ok (some k) ∧ t = timestampMs allowZero k := by
  unfold cleanTimestampMs at h
  match hclean : cleanInt value with
  | .error e =>
    rw [hclean] at h
    cases h
  | .ok none =>
    rw [hclean] at h
    exact Or.inl ⟨rfl, (Except.ok.inj h).symm⟩
  | .ok (some k) =>
    rw [hclean] at h
    exact Or.inr ⟨k, rfl, (Except.ok.inj h).symm⟩

/-- A time is a small number of milliseconds if it was given as a smaller one of seconds. -/
theorem cleanTimestampMs_small_iff {t : Option ℤ} (h : cleanTimestampMs true value = .ok t) :
    (0 < t.getD 0 ∧ t.getD 0 < 10000000000) ↔ CleanedWithin value 0 10000000 := by
  rcases cleanTimestampMs_eq_ok h with ⟨hclean, rfl⟩ | ⟨k, hclean, rfl⟩
  · exact iff_of_false (by simp) (not_cleanedWithin hclean _ _)
  · rw [cleanedWithin_iff hclean, timestampMs_getD, if_pos rfl]
    omega

theorem cleanTimestampMs_nonneg {t : Option ℤ} (h : cleanTimestampMs true value = .ok t) : 0 ≤ t.getD 0 := by
  rcases cleanTimestampMs_eq_ok h with ⟨-, rfl⟩ | ⟨k, -, rfl⟩
  · exact le_rfl
  · rw [timestampMs_getD, if_pos rfl]
    omega

/-- A time that has to be positive, or else is now. -/
theorem cleanTimestampMs_now_iff {t : Option ℤ} (h : cleanTimestampMs false value = .ok t) (now : ℤ) :
    (0 < t.getD now ∨ t.getD now = now) ∧
      ((0 < t.getD now ∧ t.getD now < 10000000000) ↔
        CleanedWithin value 0 10000000 ∨
          (∀ k, cleanInt value = .ok (some k) → k ≤ 0) ∧ 0 < now ∧ now < 10000000000) := by
  rcases cleanTimestampMs_eq_ok h with ⟨hclean, rfl⟩ | ⟨k, hclean, rfl⟩
  · refine ⟨.inr rfl, ?_⟩
    show (0 < now ∧ now < 10000000000) ↔ _
    have hnone : ∀ k, cleanInt value = .ok (some k) → k ≤ 0 := fun k hk => by
      cases hclean.symm.trans hk
    rw [or_iff_right (not_cleanedWithin hclean _ _), and_iff_right hnone]
  have hall : (∀ j, cleanInt value = .ok (some j) → j ≤ 0) ↔ k ≤ 0 := by
    constructor
    · exact fun hall => hall k hclean
    intro hle j hj
    obtain rfl := Option.some.inj (Except.ok.inj (hclean.symm.trans hj))
    exact hle
  rw [cleanedWithin_iff hclean, hall, timestampMs_getD, if_neg Bool.false_ne_true]
  omega

/-- An amount that was rounded is dropped if it is nothing. -/
theorem rounded_amount_iff (o : Option PyFloat) :
    ((o.map PyFloat.round2).bind positive).map PyFloat.round2 = o.map PyFloat.round2 ↔
      ∀ a, o = some a → a.round2.isPos = true := by
  match o with
  | none => exact iff_of_true rfl nofun
  | some a =>
    show (positive a.round2).map PyFloat.round2 = some a.round2 ↔ _
    unfold positive
    split
    · rename_i hpos
      rw [map_some, round2_round2]
      refine iff_of_true rfl fun b hb => ?_
      obtain rfl := Option.some.inj hb
      exact hpos
    · rename_i hnot
      exact iff_of_false nofun fun h => hnot (h a rfl)

/-- A price that was rounded to nothing is made good by that of the plan, unless that is nothing too. -/
theorem rounded_price_iff {price : PyFloat} (hprice : price.isPos = true) (plan : Plan) :
    ((positive price.round2).getD plan.priceRub).round2 = price.round2 ↔
      price.round2.isPos = true ∨ plan.priceRub.isPos = false := by
  unfold positive
  split
  · rename_i hpos
    exact iff_of_true (round2_round2 price) (.inl hpos)
  rename_i hnot
  rw [getD_none, plan.round2_priceRub, or_iff_right hnot]
  have hzero : ∀ x : PyFloat, x.isPos = true → x.round2.isPos ≠ true → x.round2 = .finite 0 := by
    intro x hx hround
    obtain ⟨n, hn⟩ | hinf := round2_of_isPos hx
    · rw [hn] at hround ⊢
      simpa [PyFloat.isPos] using hround
    · rw [hinf] at hround
      exact absurd rfl hround
  constructor
  · intro heq
    rw [heq]
    exact Bool.eq_false_of_not_eq_true hnot
  intro hfree
  obtain ⟨price', hprice', hplan⟩ := plan.priceRub_rounded
  rw [hzero price hprice hnot, hplan]
  refine hzero price' hprice' ?_
  rw [← hplan, hfree]
  simp

/-! ## §4 Normalising again -/

/-- **What is kept** when a subscription is read, written and read again. -/
structure KeptByRewriting (cfg : Config) (now : ℤ) (raw : List (String × Json)) : Prop where
  startedAt : ¬CleanedWithin (Json.member? raw "started_at") 0 10000000
  expiresAt : ¬CleanedWithin (Json.member? raw "expires_at") 0 10000000
  updatedAt : ¬CleanedWithin (Json.member? raw "updated_at") 0 10000000
  now : (∀ k, cleanInt (Json.member? raw "updated_at") = .ok (some k) → k ≤ 0) → ¬(0 < now ∧ now < 10000000000)
  tier : PyStr.strip (tierOf cfg raw) = tierOf cfg raw
  planName : PyStr.strip (planNameOf cfg raw) = planNameOf cfg raw
  lastPaymentId : ∀ x, cleanStr 255 (Json.member? raw "last_payment_id") = some x → PyStr.strip x = x
  paymentProvider : ∀ x, cleanStr 64 (Json.member? raw "payment_provider") = some x → PyStr.strip x = x
  currency : ∀ x, cleanStr 16 (Json.member? raw "currency") = some x → PyStr.strip x = x
  amount : ∀ a, cleanFloat (Json.member? raw "amount") = .ok (some a) → a.round2.isPos = true
  priceRub : ∀ p, cleanFloat (Json.member? raw "price_rub") = .ok (some p) →
    p.round2.isPos = true ∨ (resolvedPlan cfg (tierOf cfg raw)).priceRub.isPos = false

theorem fits_tierOf (cfg : Config) (raw : List (String × Json)) : Fits 64 (tierOf cfg raw) := by
  unfold tierOf
  cases hclean : cleanStr 64 (Json.member? raw "tier") with
  | none => exact Plan.fits_id _
  | some x => exact fits_of_cleanStr (by decide) hclean

theorem fits_planNameOf (cfg : Config) (raw : List (String × Json)) : Fits 120 (planNameOf cfg raw) := by
  unfold planNameOf
  cases hclean : cleanStr 120 (Json.member? raw "plan_name") with
  | none => exact Plan.fits_name _
  | some x => exact fits_of_cleanStr (by decide) hclean

theorem statusOf_mem (raw : List (String × Json)) : statusOf raw ∈ subscriptionStatus := by
  unfold statusOf
  dsimp only
  split
  · assumption
  · decide

variable {status : String}

theorem effectiveStatus_mem (h : status ∈ subscriptionStatus) (isActive : Bool) :
    effectiveStatus status isActive ∈ subscriptionStatus := by
  unfold effectiveStatus
  split
  · decide
  split
  · decide
  · exact h

/-- Comparing with the expiry twice is comparing once. -/
theorem effectiveStatus_effectiveStatus (status : String) (isActive : Bool) :
    effectiveStatus (effectiveStatus status isActive) isActive = effectiveStatus status isActive := by
  match isActive with
  | true =>
    unfold effectiveStatus
    simp only [Bool.true_eq_false, and_false, and_true, if_false]
    split
    · decide
    · rfl
  | false =>
    unfold effectiveStatus
    simp only [Bool.false_eq_true, and_false, and_true, if_false]
    split
    · decide
    · rfl

/-- A status that was written is read back. -/
theorem statusOf_of_mem (hstatus : status ∈ subscriptionStatus)
    (h : Json.member? raw "status" = some (.str status)) : statusOf raw = status := by
  have hall : (subscriptionStatus.all fun status =>
      PyStr.lower ((cleanStr 32 (some (.str status))).getD "inactive") = status) = true := by decide
  have hclean := of_decide_eq_true (List.all_eq_true.mp hall status hstatus)
  unfold statusOf
  rw [h]
  rw [hclean, if_pos hstatus]

theorem Subscription.ext {t : Subscription} (htier : s.tier = t.tier) (hplanName : s.planName = t.planName)
    (hstatus : s.status = t.status) (hstartedAt : s.startedAt = t.startedAt)
    (hexpiresAt : s.expiresAt = t.expiresAt) (hupdatedAt : s.updatedAt = t.updatedAt)
    (hisActive : s.isActive = t.isActive) (hpriceRub : s.priceRub = t.priceRub)
    (hdays : s.durationDays = t.durationDays) (hpaymentId : s.lastPaymentId = t.lastPaymentId)
    (hprovider : s.paymentProvider = t.paymentProvider) (hamount : s.amount = t.amount)
    (hcurrency : s.currency = t.currency) : s = t := by
  obtain ⟨⟩ := s
  obtain ⟨⟩ := t
  simp only [Subscription.mk.injEq]
  exact ⟨htier, hplanName, hstatus, hstartedAt, hexpiresAt, hupdatedAt, hisActive, hpriceRub, hdays, hpaymentId,
    hprovider, hamount, hcurrency⟩

section Rewriting

variable {cfg : Config} {now : ℤ} {raw : List (String × Json)} {n : SubscriptionNumbers}

theorem tierOf_toMembers_iff {s : Subscription} (hfits : Fits 64 s.tier) :
    tierOf cfg s.toMembers = s.tier ↔ PyStr.strip s.tier = s.tier := by
  unfold tierOf
  rw [(member?_toMembers s).1]
  exact cleanStr_getD_eq_iff hfits

theorem planNameOf_toMembers_iff {s : Subscription} (hfits : Fits 120 s.planName) :
    planNameOf cfg s.toMembers = s.planName ↔ PyStr.strip s.planName = s.planName := by
  unfold planNameOf
  rw [(member?_toMembers s).2.2.2.2.2.2.2.1]
  exact cleanStr_getD_eq_iff hfits

/-- A text that was read is left as it is unless it ends in white space. -/
theorem cleanStr_again_iff {m : ℕ} (hpos : 0 < m) (value : Option Json) :
    cleanStr m ((cleanStr m value).map Json.str) = cleanStr m value ↔
      ∀ x, cleanStr m value = some x → PyStr.strip x = x :=
  cleanStr_map_eq_iff fun _ hx => fits_of_cleanStr hpos hx

theorem currency_again_iff (value : Option Json) :
    (cleanStr 16 (some (.str ((cleanStr 16 value).getD "RUB")))).getD "RUB" = (cleanStr 16 value).getD "RUB" ↔
      ∀ x, cleanStr 16 value = some x → PyStr.strip x = x := by
  cases hclean : cleanStr 16 value with
  | none => exact iff_of_true (by decide) nofun
  | some x =>
    rw [getD_some, cleanStr_getD_eq_iff (fits_of_cleanStr (by decide) hclean)]
    exact ⟨fun hx y hy => Option.some.inj hy ▸ hx, fun hx => hx x rfl⟩

/-- The price that was read, rounded: that of the plan is left as it is. -/
theorem price_again_iff {value : Option Json} {price : Option PyFloat} (h : cleanFloat value = .ok price)
    (plan : Plan) :
    ((positive (price.getD plan.priceRub).round2).getD plan.priceRub).round2 = (price.getD plan.priceRub).round2 ↔
      ∀ p, price = some p → p.round2.isPos = true ∨ plan.priceRub.isPos = false := by
  match price with
  | some p =>
    rw [getD_some, rounded_price_iff (isPos_of_cleanFloat h)]
    exact ⟨fun hp q hq => Option.some.inj hq ▸ hp, fun hp => hp p rfl⟩
  | none =>
    refine iff_of_true ?_ nofun
    obtain ⟨p, hp, hrounded⟩ := plan.priceRub_rounded
    rw [getD_none, plan.round2_priceRub]
    unfold positive
    split
    · exact plan.round2_priceRub
    · exact plan.round2_priceRub

theorem durationDays_assemble_pos : 0 < (assemble cfg now raw n).durationDays := by
  have hplan := (resolvedPlan cfg (tierOf cfg raw)).durationDays_pos
  unfold assemble
  dsimp only
  split
  · split
    · exact hplan
    · omega
  · exact hplan

/-- **When a subscription that was written is read back**: whenever it is kept by rewriting. -/
theorem assemble_toMembers_iff (h : Reads raw n) :
    assemble cfg now (assemble cfg now raw n).toMembers (assemble cfg now raw n).numbers = assemble cfg now raw n ↔
      KeptByRewriting cfg now raw := by
  obtain ⟨-, hstatus, -, -, -, -, -, -, hpayment, hprovider, -, hcurrency⟩ :=
    member?_toMembers (assemble cfg now raw n)
  have hstarted := timestampMs_getD_eq_iff (cleanTimestampMs_nonneg h.startedAt)
  have hexpires := timestampMs_getD_eq_iff (cleanTimestampMs_nonneg h.expiresAt)
  obtain ⟨hpositive, hsmall⟩ := cleanTimestampMs_now_iff h.updatedAt now
  have hupdated := timestampMs_getD_now_iff hpositive
  rw [cleanTimestampMs_small_iff h.startedAt] at hstarted
  rw [cleanTimestampMs_small_iff h.expiresAt] at hexpires
  rw [hsmall, not_or] at hupdated
  have htier : tierOf cfg (assemble cfg now raw n).toMembers = tierOf cfg raw ↔
      PyStr.strip (tierOf cfg raw) = tierOf cfg raw := tierOf_toMembers_iff (fits_tierOf cfg raw)
  have hname : planNameOf cfg (assemble cfg now raw n).toMembers = planNameOf cfg raw ↔
      PyStr.strip (planNameOf cfg raw) = planNameOf cfg raw := planNameOf_toMembers_iff (fits_planNameOf cfg raw)
  have hprice := price_again_iff h.priceRub (resolvedPlan cfg (tierOf cfg raw))
  have hpaymentId := cleanStr_again_iff (by decide : 0 < 255) (Json.member? raw "last_payment_id")
  have hpaymentProvider := cleanStr_again_iff (by decide : 0 < 64) (Json.member? raw "payment_provider")
  have hcurrency' := currency_again_iff (Json.member? raw "currency")
  have hamount := rounded_amount_iff n.amount
  constructor
  · intro heq
    have htier' : tierOf cfg (assemble cfg now raw n).toMembers = tierOf cfg raw := congrArg Subscription.tier heq
    have hpaymentId' := congrArg Subscription.lastPaymentId heq
    have hprovider' := congrArg Subscription.paymentProvider heq
    have hprice' := congrArg Subscription.priceRub heq
    have hmoney := congrArg Subscription.currency heq
    rw [assemble_lastPaymentId, hpayment] at hpaymentId'
    rw [assemble_paymentProvider, hprovider] at hprovider'
    rw [assemble_currency, hcurrency] at hmoney
    rw [assemble_priceRub, htier'] at hprice'
    exact
      { startedAt := hstarted.mp (congrArg Subscription.startedAt heq)
        expiresAt := hexpires.mp (congrArg Subscription.expiresAt heq)
        updatedAt := (hupdated.mp (congrArg Subscription.updatedAt heq)).1
        now := fun hall hnow => (hupdated.mp (congrArg Subscription.updatedAt heq)).2 ⟨hall, hnow⟩
        tier := htier.mp htier'
        planName := hname.mp (congrArg Subscription.planName heq)
        lastPaymentId := hpaymentId.mp hpaymentId'
        paymentProvider := hpaymentProvider.mp hprovider'
        currency := hcurrency'.mp (Option.some.inj hmoney)
        amount := fun a ha => hamount.mp (congrArg Subscription.amount heq) a (Except.ok.inj (h.amount.symm.trans ha))
        priceRub := fun p hp => hprice.mp hprice' p (Except.ok.inj (h.priceRub.symm.trans hp)) }
  · intro hkept
    have htier' := htier.mpr hkept.tier
    have hexpires' := hexpires.mpr hkept.expiresAt
    have hstatus' : statusOf (assemble cfg now raw n).toMembers = (assemble cfg now raw n).status :=
      statusOf_of_mem (effectiveStatus_mem (statusOf_mem raw) _) hstatus
    have hactive : (assemble cfg now (assemble cfg now raw n).toMembers (assemble cfg now raw n).numbers).isActive =
        (assemble cfg now raw n).isActive := by
      show decide (now < (timestampMs true (n.expiresAt.getD 0)).getD 0) = decide (now < n.expiresAt.getD 0)
      rw [hexpires']
    refine Subscription.ext htier' (hname.mpr hkept.planName) ?_ (hstarted.mpr hkept.startedAt) hexpires'
      (hupdated.mpr ⟨hkept.updatedAt, fun hboth => hkept.now hboth.1 hboth.2⟩) hactive ?_ ?_ ?_ ?_ ?_ ?_
    · rw [assemble_status, hstatus', hactive, assemble_status]
      exact effectiveStatus_effectiveStatus _ _
    · rw [assemble_priceRub, htier']
      refine hprice.mpr fun p hp => hkept.priceRub p ?_
      rw [h.priceRub, hp]
    · exact assemble_durationDays _ _ _ _ rfl durationDays_assemble_pos
    · rw [assemble_lastPaymentId, hpayment]
      exact hpaymentId.mpr hkept.lastPaymentId
    · rw [assemble_paymentProvider, hprovider]
      exact hpaymentProvider.mpr hkept.paymentProvider
    · refine hamount.mpr fun a ha => hkept.amount a ?_
      rw [h.amount, ha]
    · rw [assemble_currency, hcurrency]
      exact congrArg some (hcurrency'.mpr hkept.currency)

end Rewriting

/-! ## §5 Writing a subscription -/

theorem startedAt_of_normalizeSubscription (h : normalizeSubscription cfg now (some raw) = .ok s)
    (hmember : Json.member? raw "started_at" = some (.int t)) : s.startedAt = (timestampMs true t).getD 0 := by
  obtain ⟨n, hreads, rfl⟩ := normalizeSubscription_some_iff.mp h
  have hstarted := hreads.startedAt
  rw [hmember] at hstarted
  exact congrArg (fun o => Option.getD o 0) (Except.ok.inj hstarted).symm

theorem expiresAt_of_normalizeSubscription (h : normalizeSubscription cfg now (some raw) = .ok s)
    (hmember : Json.member? raw "expires_at" = some (.int t)) : s.expiresAt = (timestampMs true t).getD 0 := by
  obtain ⟨n, hreads, rfl⟩ := normalizeSubscription_some_iff.mp h
  have hexpires := hreads.expiresAt
  rw [hmember] at hexpires
  exact congrArg (fun o => Option.getD o 0) (Except.ok.inj hexpires).symm

/-- `set_subscription` from the status on. -/
def storeUpdates (cfg : Config) (now : ℤ) (userId : String) (updates : List (String × Json))
    (existing : Subscription) (status : List (String × Json)) : Action State Error Subscription := do
  let get := Json.member? updates
  let tier :=
    match cleanStr 64 (get "tier") with
    | none => []
    | some tier =>
      ("tier", Json.str tier) :: match cfg.plans.findPlanById (some tier) with
        | none => []
        | some plan =>
          [("plan_name", .str plan.name), ("duration_days", .int plan.durationDays),
            ("price_rub", .float plan.priceRub)]
  let startedAt ← .lift (cleanTimestampMs true (get "started_at"))
  let expiresAt ← .lift (cleanTimestampMs true (get "expires_at"))
  let amount ← .lift (cleanFloat (get "amount"))
  let payload := existing.toMembers ++ status ++ tier ++
    (startedAt.map fun v => ("started_at", Json.int v)).toList ++
    (expiresAt.map fun v => ("expires_at", Json.int v)).toList ++
    ((cleanStr 255 (get "last_payment_id")).map fun v => ("last_payment_id", Json.str v)).toList ++
    ((cleanStr 64 (get "payment_provider")).map fun v => ("payment_provider", Json.str v)).toList ++
    (amount.map fun v => ("amount", Json.float v.round2)).toList ++
    ((cleanStr 16 (get "currency")).map fun v => ("currency", Json.str v)).toList ++
    [("updated_at", .int now)]
  let payload ← .lift (normalizeSubscription cfg now (some payload))
  .modify fun s => s.addAccountData userId subscriptionType payload.toMembers
  pure payload

theorem setSubscription_eq (cfg : Config) (now : ℤ) (userId : String)
    (updates : List (String × Json)) : setSubscription cfg now userId updates =
      (Action.reads fun s => getSubscription cfg now s userId) >>= fun existing =>
        match cleanStr 32 (Json.member? updates "status") with
        | none => storeUpdates cfg now userId updates existing []
        | some status =>
          if PyStr.lower status ∈ subscriptionStatus then
            storeUpdates cfg now userId updates existing [("status", .str (PyStr.lower status))]
          else
            .raise (.synapseError 400 ("Unsupported status: " ++ status) "M_INVALID_PARAM") := by
  apply bind_congr
  intro existing
  dsimp only
  cases cleanStr 32 (Json.member? updates "status") with
  | none =>
    exact pure_bind _ _
  | some status =>
    dsimp only
    split
    · exact pure_bind _ _
    · rw [raise_bind]

/-- The tier of the updates brings no timestamp along. -/
theorem member?_tierMembers (cfg : Config) (tier : Option String) (key : String) (htier : key ≠ "tier")
    (hname : key ≠ "plan_name") (hdays : key ≠ "duration_days") (hprice : key ≠ "price_rub") :
    Json.member? (match tier with
      | none => []
      | some tier => ("tier", Json.str tier) :: match cfg.plans.findPlanById (some tier) with
          | none => []
          | some plan => [("plan_name", .str plan.name), ("duration_days", .int plan.durationDays),
              ("price_rub", .float plan.priceRub)]) key = none := by
  match tier with
  | none => rfl
  | some tier =>
    rw [member?_cons, if_neg htier, or_none]
    match cfg.plans.findPlanById (some tier) with
    | none => rfl
    | some plan =>
      rw [member?_cons, if_neg hname, member?_cons, if_neg hdays, member?_cons, if_neg hprice]
      rfl

/-- **What `set_subscription` makes of the timestamps** that it is not asked to change: it reads them once more. -/
theorem timestamps_of_storeUpdates {userId : String} {updates : List (String × Json)} {existing : Subscription}
    {status : List (String × Json)} {st t : State} {sub : Subscription}
    (hstatus₁ : Json.member? status "started_at" = none) (hstatus₂ : Json.member? status "expires_at" = none)
    (h : (storeUpdates cfg now userId updates existing status).run st = (.ok sub, t)) :
    t = st.addAccountData userId subscriptionType sub.toMembers ∧
      (cleanTimestampMs true (Json.member? updates "started_at") = .ok none →
        sub.startedAt = (timestampMs true existing.startedAt).getD 0) ∧
      (cleanTimestampMs true (Json.member? updates "expires_at") = .ok none →
        sub.expiresAt = (timestampMs true existing.expiresAt).getD 0) := by
  unfold storeUpdates at h
  dsimp only at h
  obtain ⟨startedAt, s₁, hlift, h⟩ := exists_of_run_bind_eq_ok h
  obtain ⟨hstarted, rfl⟩ := Prod.mk.inj hlift
  obtain ⟨expiresAt, s₂, hlift₂, h⟩ := exists_of_run_bind_eq_ok h
  obtain ⟨hexpires, rfl⟩ := Prod.mk.inj hlift₂
  obtain ⟨amount, s₃, hlift₃, h⟩ := exists_of_run_bind_eq_ok h
  obtain ⟨-, rfl⟩ := Prod.mk.inj hlift₃
  obtain ⟨payload, s₄, hlift₄, h⟩ := exists_of_run_bind_eq_ok h
  obtain ⟨hpayload, rfl⟩ := Prod.mk.inj hlift₄
  obtain ⟨hsub, ht⟩ := Prod.mk.inj h
  obtain rfl := Except.ok.inj hsub
  obtain ⟨-, -, hmember₁, hmember₂, -⟩ := member?_toMembers existing
  refine ⟨ht.symm, fun hnone => ?_, fun hnone => ?_⟩
  · obtain rfl := Except.ok.inj (hstarted.symm.trans hnone)
    refine startedAt_of_normalizeSubscription hpayload ?_
    have htier := member?_tierMembers cfg (cleanStr 64 (Json.member? updates "tier")) "started_at"
      (by decide) (by decide) (by decide) (by decide)
    simp only [member?_append, member?_optional, member?_cons, member?_nil, String.reduceEq,
      if_false, none_or, or_none, map_none, htier, hstatus₁, hmember₁, Option.toList_none]
  · obtain rfl := Except.ok.inj (hexpires.symm.trans hnone)
    refine expiresAt_of_normalizeSubscription hpayload ?_
    have htier := member?_tierMembers cfg (cleanStr 64 (Json.member? updates "tier")) "expires_at"
      (by decide) (by decide) (by decide) (by decide)
    simp only [member?_append, member?_optional, member?_cons, member?_nil, String.reduceEq,
      if_false, none_or, or_none, map_none, htier, hstatus₂, hmember₂, Option.toList_none]

theorem timestamps_of_setSubscription {userId : String} {updates : List (String × Json)} {st t : State}
    {sub : Subscription} (h : (setSubscription cfg now userId updates).run st = (.ok sub, t)) :
    ∃ existing, getSubscription cfg now st userId = .ok existing ∧
      t = st.addAccountData userId subscriptionType sub.toMembers ∧
      (cleanTimestampMs true (Json.member? updates "started_at") = .ok none →
        sub.startedAt = (timestampMs true existing.startedAt).getD 0) ∧
      (cleanTimestampMs true (Json.member? updates "expires_at") = .ok none →
        sub.expiresAt = (timestampMs true existing.expiresAt).getD 0) := by
  rw [setSubscription_eq] at h
  obtain ⟨existing, s₁, hread, h⟩ := exists_of_run_bind_eq_ok h
  obtain ⟨hexisting, rfl⟩ := Prod.mk.inj hread
  refine ⟨existing, hexisting, ?_⟩
  split at h
  · exact timestamps_of_storeUpdates rfl rfl h
  split at h
  · exact timestamps_of_storeUpdates rfl rfl h
  · exact absurd (congrArg Prod.fst h) nofun

/-! ## §6 Stable subscriptions -/

/-- `set_subscription` on a stored subscription that is read as this one leaves the timestamps alone that it is not
asked to change. -/
def KeepsTimestamps (cfg : Config) (now : ℤ) (raw : Option (List (String × Json))) (s : Subscription) : Prop :=
  ∀ st userId updates sub t, st.accountData userId subscriptionType = raw →
    (setSubscription cfg now userId updates).run st = (.ok sub, t) →
    t.accountData userId subscriptionType = some sub.toMembers ∧
      (cleanTimestampMs true (Json.member? updates "started_at") = .ok none → sub.startedAt = s.startedAt) ∧
      (cleanTimestampMs true (Json.member? updates "expires_at") = .ok none → sub.expiresAt = s.expiresAt)

/-- **A stable subscription**, read from a stored value. -/
structure Stable (cfg : Config) (now : ℤ) (raw : Option (List (String × Json))) (s : Subscription) : Prop where
  idempotent : normalizeSubscription cfg now (some s.toMembers) = .ok s
  isActive : s.isActive = true ↔ now < s.expiresAt
  active : s.status = "active" → s.isActive = true
  expired : s.status = "expired" → s.isActive = false
  timestamps : KeepsTimestamps cfg now raw s

/-- A subscription that is read again has a currency. -/
theorem not_idempotent_of_no_currency (h : s.currency = none) :
    normalizeSubscription cfg now (some s.toMembers) ≠ .ok s := by
  rw [Ne, normalizeSubscription_toMembers_iff]
  intro heq
  have hcurrency := congrArg Subscription.currency heq
  rw [assemble_currency, h] at hcurrency
  cases hcurrency

theorem effectiveStatus_ne_active : effectiveStatus status false ≠ "active" := by
  unfold effectiveStatus
  simp only [Bool.false_eq_true, and_false, and_true, if_false]
  split
  · decide
  · assumption

theorem effectiveStatus_ne_expired : effectiveStatus status true ≠ "expired" := by
  unfold effectiveStatus
  simp only [Bool.true_eq_false, and_false, and_true, if_false]
  split
  · decide
  rename_i hnot
  rintro rfl
  exact hnot (by decide)

/-- A stored subscription with an expiry and a currency. -/
def exampleStored (expiresAt : ℤ) (currency : String) : List (String × Json) :=
  [("tier", .str "setka_plus_month"), ("status", .str "active"), ("started_at", .int 1700000000000),
    ("expires_at", .int expiresAt), ("updated_at", .int 1700000000000), ("price_rub", .float (.finite 299)),
    ("duration_days", .int 30), ("currency", .str currency)]

theorem readable_exampleStored (expiresAt : ℤ) (currency : String) :
    ∃ s, normalizeSubscription exampleConfig 1750000000000 (some (exampleStored expiresAt currency)) = .ok s :=
  ⟨_, normalizeSubscription_some_iff.mpr ⟨⟨_, _, _, _, _, _⟩, ⟨rfl, rfl, rfl, rfl, rfl, rfl⟩, rfl⟩⟩

end Setka.Handlers.Plus
