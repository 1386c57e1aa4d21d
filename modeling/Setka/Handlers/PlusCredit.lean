/-
# Setka.Handlers.PlusCredit — what a payment is credited for.

A run of correctly signed callbacks, delivered in any order and any number of times. Every accepted
callback moves the expiry: nothing compares its payment id with what was recorded. So payments are
credited exactly once in the runs in which no payment id comes back, and only in those.
-/
import Setka.Handlers.Plus
import Setka.Lib.Transition

namespace Setka.Handlers.Plus

open Setka.Api Setka.Lib Setka.Lib.Action

/-! ## §1 What one callback does to the expiry -/

/-- The expiry in stored content. -/
def storedExpiry : Option (List (String × Json)) → ℤ
  | none => 0
  | some raw => ((cleanTimestampMs true (Json.member? raw "expires_at")).toOption.bind id).getD 0

/-- The `expires_at` that `get_subscription` reports. -/
def expiresAt (s : State) (userId : String) : ℤ :=
  storedExpiry (s.accountData userId subscriptionType)

variable {cfg : Config} {now : ℤ}

theorem normalizeSubscription_expiresAt {raw : Option (List (String × Json))} {sub : Subscription}
    (h : normalizeSubscription cfg now raw = .ok sub) : sub.expiresAt = storedExpiry raw := by
  cases raw with
  | none =>
    obtain rfl := Except.ok.inj h
    rfl
  | some raw =>
    simp only [normalizeSubscription, except_bind_eq_ok] at h
    obtain ⟨startedAt, -, expiry, hexpiry, updatedAt, -, amount, -, days, -, price, -, h⟩ := h
    obtain rfl := Except.ok.inj h
    rw [storedExpiry, hexpiry]
    rfl

/-- Converting seconds only ever increases a timestamp. -/
theorem le_timestampMs (x : ℤ) : x ≤ (timestampMs true x).getD 0 := by
  unfold timestampMs
  split
  · rename_i h
    rw [h]
    rfl
  split
  · show x ≤ 0
    omega
  split
  · show x ≤ x * 1000
    omega
  · exact le_rfl

theorem Plan.lt_extendedExpiry (plan : Plan) (a : Activation) (h : a.durationDays = none) (now previousExpiry : ℤ) :
    previousExpiry < extendedExpiry now previousExpiry (a.effectiveDurationDays plan) := by
  have hdays := plan.durationDays_pos
  unfold extendedExpiry Activation.effectiveDurationDays
  rw [h]
  dsimp only
  split <;> omega

/-- The stored subscriptions are the same. -/
def SameSubscriptions (s s' : State) : Prop :=
  ∀ u, s'.accountData u subscriptionType = s.accountData u subscriptionType

theorem SameSubscriptions.refl (s : State) : SameSubscriptions s s := fun _ => rfl

theorem SameSubscriptions.trans (s t u : State) (hst : SameSubscriptions s t)
    (htu : SameSubscriptions t u) : SameSubscriptions s u :=
  fun v => (htu v).trans (hst v)

/-- Recording a payment leaves the subscriptions alone. -/
theorem recordPayment_keeps (now : ℤ) (userId : String) (payment : PaymentArgs) :
    (recordPayment now userId payment).Keeps SameSubscriptions := by
  refine Action.Keeps.bind SameSubscriptions.refl SameSubscriptions.trans
    (keeps_reads SameSubscriptions.refl _) fun current => ?_
  split
  · intro s u
    show (if u = userId ∧ subscriptionType = paymentsType then _ else _) = _
    rw [if_neg]
    rintro ⟨-, h⟩
    exact absurd h (by decide)
  · exact keeps_raise SameSubscriptions.refl _

variable {s : State} {userId : String}

theorem run_getSubscription {r : Except Error Subscription} (h : getSubscription cfg now s userId = r) :
    (Action.reads fun s => getSubscription cfg now s userId).run s = (r, s) := by
  rw [run_reads, h]

theorem activateSubscription_subscription {a : Activation} {existing : Subscription}
    (h : getSubscription cfg now s a.userId = .ok existing) : SameSubscriptions
      (s.addAccountData a.userId subscriptionType (a.payload now (cfg.plans.resolvePlan a.planId) existing))
      ((activateSubscription cfg now a).run s).2 := by
  unfold activateSubscription
  rw [run_bind_of_ok (run_getSubscription h), run_bind_of_ok (run_modify _ _)]
  refine Action.Keeps.bind SameSubscriptions.refl SameSubscriptions.trans
    (recordPayment_keeps _ _ _) (fun _ => ?_) _
  exact keeps_lift SameSubscriptions.refl _

/-- The stored subscription is read before anything is written. -/
theorem activateSubscription_of_error {a : Activation} {e : Error}
    (h : getSubscription cfg now s a.userId = .error e) :
    (activateSubscription cfg now a).run s = (.error e, s) :=
  run_bind_of_error (run_getSubscription h) _

/-- **The subscription once an order was settled**, on top of a readable one. -/
theorem settle_subscription {o : Order} {existing : Subscription}
    (h : getSubscription cfg now s o.userId = .ok existing) (u : String) :
    ((settle cfg now o).run s).2.accountData u subscriptionType = if u = o.userId then
        some (o.activation.payload now (cfg.plans.resolvePlan o.planId) existing)
      else s.accountData u subscriptionType := by
  have hrest : SameSubscriptions ((activateSubscription cfg now o.activation).run s).2
      ((settle cfg now o).run s).2 := by
    refine Action.Keeps.after SameSubscriptions.refl (fun sub => ?_) _ _
    refine Action.Keeps.bind SameSubscriptions.refl SameSubscriptions.trans (recordPayment_keeps _ _ _) fun _ => ?_
    exact keeps_pure SameSubscriptions.refl _
  rw [hrest u, activateSubscription_subscription (a := o.activation) h u]
  show (if u = o.userId ∧ subscriptionType = subscriptionType then _ else _) = _
  simp only [and_true]
  rfl

/-- An order for a user whose subscription cannot be read changes nothing. -/
theorem settle_of_error {o : Order} {e : Error}
    (h : getSubscription cfg now s o.userId = .error e) : ((settle cfg now o).run s).2 = s := by
  rw [settle, run_bind_of_error (activateSubscription_of_error h)]

theorem run_bind_pure_state {σ ε α β : Type} (m : Action σ ε α) (f : α → β) (s : σ) :
    ((m >>= fun a => pure (f a)).run s).2 = (m.run s).2 :=
  Action.Keeps.after (R := fun s s' => s' = s) (fun _ => rfl) (fun _ _ => rfl) m s

/-- A callback settles its order, or changes nothing. -/
theorem Callback.handle_eq (cfg : Config) (now : ℤ) (s : State) (c : Callback) : c.handle cfg now s =
      match c.order? cfg now s with
      | some o => ((settle cfg now o).run s).2
      | none => s := by
  cases c with
  | yoomoney uuid payload =>
    show ((Action.lift (yoomoneyOrder cfg uuid payload) >>= _).run s).2 = _
    have horder : (Callback.yoomoney uuid payload).order? cfg now s =
        (yoomoneyOrder cfg uuid payload).toOption := rfl
    rw [horder]
    cases yoomoneyOrder cfg uuid payload with
    | error e =>
      rfl
    | ok o =>
      exact run_bind_pure_state _ _ _
  | robokassa payload =>
    show ((Action.reads (fun s => robokassaOrder cfg now s payload) >>= _).run s).2 = _
    have horder : (Callback.robokassa payload).order? cfg now s = (robokassaOrder cfg now s payload).toOption := rfl
    rw [horder]
    have hrun := run_reads (fun s => robokassaOrder cfg now s payload) s
    cases h : robokassaOrder cfg now s payload with
    | error e =>
      rw [h] at hrun
      rw [run_bind_of_error hrun]
      rfl
    | ok o =>
      rw [h] at hrun
      rw [run_bind_of_ok hrun]
      exact run_bind_pure_state _ _ _
  | payanyway payload =>
    show ((Action.reads (fun s => payanywayOrder cfg s payload) >>= _).run s).2 = _
    unfold Callback.order?
    dsimp only
    have hrun := run_reads (fun s => payanywayOrder cfg s payload) s
    cases h : payanywayOrder cfg s payload with
    | error e =>
      rw [h] at hrun
      rw [run_bind_of_error hrun]
    | ok r =>
      rw [h] at hrun
      rw [run_bind_of_ok hrun]
      cases r with
      | inl answer => rfl
      | inr o => exact run_bind_pure_state _ _ _

/-! ## §2 Runs -/

/-- A callback and the time of its delivery. -/
structure Delivery where
  now : ℤ
  callback : Callback

/-- The user and the payment that a delivery is credited to, where it is accepted. -/
def credited (cfg : Config) (s : State) (d : Delivery) : Option (String × String) :=
  match d.callback.order? cfg d.now s with
  | some o =>
    match getSubscription cfg d.now s o.userId with
    | .ok _ => some (o.userId, o.paymentId)
    | .error _ => none
  | none => none

def step (cfg : Config) (s : State) (d : Delivery) : State := d.callback.handle cfg d.now s

def run (cfg : Config) (s : State) (ds : List Delivery) : State := ds.foldl (step cfg) s

theorem run_concat (cfg : Config) (s : State) (ds : List Delivery) (d : Delivery) :
    run cfg s (ds ++ [d]) = step cfg (run cfg s ds) d := by
  simp [run]

variable {d : Delivery}

theorem step_of_not_credited (h : credited cfg s d = none) : step cfg s d = s := by
  unfold credited at h
  rw [step, Callback.handle_eq]
  cases ho : d.callback.order? cfg d.now s with
  | none => rfl
  | some o =>
    cases hsub : getSubscription cfg d.now s o.userId with
    | error e => exact settle_of_error hsub
    | ok sub =>
      rw [ho] at h
      dsimp only at h
      rw [hsub] at h
      exact absurd h (by simp)

theorem credited_eq_some_iff {paymentId : String} : credited cfg s d = some (userId, paymentId) ↔
      ∃ o sub, d.callback.order? cfg d.now s = some o ∧
        getSubscription cfg d.now s o.userId = .ok sub ∧ o.userId = userId ∧
          o.paymentId = paymentId := by
  unfold credited
  constructor
  · intro h
    split at h
    · rename_i o ho
      split at h
      · rename_i sub hsub
        obtain ⟨hu, hp⟩ := Prod.mk.inj (Option.some.inj h)
        exact ⟨o, sub, ho, hsub, hu, hp⟩
      · exact absurd h (by simp)
    · exact absurd h (by simp)
  · rintro ⟨o, sub, ho, hsub, rfl, rfl⟩
    rw [ho]
    dsimp only
    rw [hsub]

/-- **Every credited delivery moves the expiry**, and nobody else's. -/
theorem expiresAt_step {paymentId : String} (h : credited cfg s d = some (userId, paymentId)) :
    expiresAt s userId < expiresAt (step cfg s d) userId ∧
      ∀ u ≠ userId, expiresAt (step cfg s d) u = expiresAt s u := by
  obtain ⟨o, existing, ho, hsub, rfl, rfl⟩ := credited_eq_some_iff.mp h
  have hstep : step cfg s d = ((settle cfg d.now o).run s).2 := by
    rw [step, Callback.handle_eq, ho]
  rw [hstep]
  refine ⟨?_, fun u hu => ?_⟩
  · have hexpiry : existing.expiresAt = expiresAt s o.userId :=
      normalizeSubscription_expiresAt hsub
    have hlt := (cfg.plans.resolvePlan o.planId).lt_extendedExpiry o.activation rfl d.now
      ((timestampMs true existing.expiresAt).getD 0)
    rw [expiresAt, expiresAt, settle_subscription hsub, if_pos rfl]
    calc storedExpiry (s.accountData o.userId subscriptionType) = existing.expiresAt := hexpiry.symm
      _ ≤ (timestampMs true existing.expiresAt).getD 0 := le_timestampMs _
      _ < _ := hlt
      _ ≤ _ := le_timestampMs _
  · rw [expiresAt, settle_subscription hsub, if_neg hu]
    rfl

/-- The users and payments credited along a run. -/
def creditedKeys (cfg : Config) (s : State) : List Delivery → List (String × String)
  | [] => []
  | d :: ds => (credited cfg s d).toList ++ creditedKeys cfg (step cfg s d) ds

theorem creditedKeys_concat (cfg : Config) (s : State) (ds : List Delivery) (d : Delivery) :
    creditedKeys cfg s (ds ++ [d]) = creditedKeys cfg s ds ++ (credited cfg (run cfg s ds) d).toList := by
  induction ds generalizing s with
  | nil => simp [creditedKeys, run]
  | cons e ds ih =>
    rw [List.cons_append, creditedKeys, ih, creditedKeys, List.append_assoc]
    rfl

/-! ## §3 Exactly once -/

/-- One delivery where a payment that was credited before is not credited again. -/
def onceStep (cfg : Config) (p : State × List (String × String)) (d : Delivery) : State × List (String × String) :=
  match credited cfg p.1 d with
  | some key => if key ∈ p.2 then p else (step cfg p.1 d, p.2 ++ [key])
  | none => (step cfg p.1 d, p.2)

/-- The state when each distinct payment id is processed once. -/
def onceRun (cfg : Config) (s : State) (ds : List Delivery) : State :=
  (ds.foldl (onceStep cfg) (s, [])).1

/-- The payment is recorded as paid for the user. -/
def RecordedPaid (now : ℤ) (s : State) (userId paymentId : String) : Prop :=
  ∃ payments, getPayments now s userId = .ok payments ∧
    ∃ p ∈ payments, p.paymentId = paymentId ∧ p.IsPaid

/-- At every step of the run, the expiries are those of processing each payment once, and a payment
that is recorded as paid does not move them. -/
def CreditedOnce (cfg : Config) (s : State) : List Delivery → Prop :=
  AllSteps fun before d =>
    (∀ u, expiresAt (run cfg s (before ++ [d])) u = expiresAt (onceRun cfg s (before ++ [d])) u) ∧
    ∀ o, d.callback.order? cfg d.now (run cfg s before) = some o →
      RecordedPaid d.now (run cfg s before) o.userId o.paymentId →
        expiresAt (run cfg s (before ++ [d])) o.userId = expiresAt (run cfg s before) o.userId

/-- No accepted delivery brings back a payment that was credited earlier in the run or is recorded as
paid. -/
def NoRepeat (cfg : Config) (s : State) : List Delivery → Prop :=
  AllSteps fun before d => ∀ userId paymentId, credited cfg (run cfg s before) d = some (userId, paymentId) →
      (userId, paymentId) ∉ creditedKeys cfg s before ∧
        ¬ RecordedPaid d.now (run cfg s before) userId paymentId

/-- Without repetitions, processing each payment once is what the code does. -/
theorem foldl_onceStep {ds : List Delivery} (h : NoRepeat cfg s ds) :
    ds.foldl (onceStep cfg) (s, []) = (run cfg s ds, creditedKeys cfg s ds) := by
  induction ds using List.reverseRecOn with
  | nil => rfl
  | append_singleton ds d ih =>
    obtain ⟨hds, hd⟩ := allSteps_concat.mp h
    rw [List.foldl_append, ih hds, run_concat, creditedKeys_concat]
    show onceStep cfg _ d = _
    unfold onceStep
    cases hkey : credited cfg (run cfg s ds) d with
    | none => simp
    | some key =>
      dsimp only
      rw [if_neg (hd key.1 key.2 hkey).1]
      rfl

/-- **Payments are credited exactly once in exactly the runs without repetitions.** -/
theorem creditedOnce_iff_noRepeat (cfg : Config) (s : State) (ds : List Delivery) :
    CreditedOnce cfg s ds ↔ NoRepeat cfg s ds := by
  induction ds using List.reverseRecOn with
  | nil => exact ⟨fun _ => allSteps_nil _, fun _ => allSteps_nil _⟩
  | append_singleton ds d ih =>
    have hcongr : ∀ {P Q : Prop}, (NoRepeat cfg s ds → (P ↔ Q)) →
        (CreditedOnce cfg s ds ∧ P ↔ NoRepeat cfg s ds ∧ Q) := by
      intro P Q hPQ
      rw [ih]
      exact and_congr_right hPQ
    refine allSteps_concat.trans ((hcongr fun hds => ?_).trans allSteps_concat.symm)
    -- both runs agree before the last delivery
    have hfold := foldl_onceStep hds
    have honce : onceRun cfg s (ds ++ [d]) = (onceStep cfg (run cfg s ds, creditedKeys cfg s ds) d).1 := by
      rw [onceRun, List.foldl_append, hfold]
      rfl
    constructor
    · rintro ⟨hsame, hpaid⟩ userId paymentId hkey
      have hmoves := (expiresAt_step hkey).1
      refine ⟨fun hmem => ?_, fun hrec => ?_⟩
      · -- the second credit is skipped when each payment is processed once
        have hskip := hsame userId
        rw [honce, onceStep, hkey] at hskip
        dsimp only at hskip
        rw [if_pos hmem, run_concat] at hskip
        exact absurd hskip hmoves.ne'
      · obtain ⟨o, sub, ho, -, rfl, rfl⟩ := credited_eq_some_iff.mp hkey
        have hstill := hpaid o ho hrec
        rw [run_concat] at hstill
        omega
    · intro hfresh
      have hrun : onceRun cfg s (ds ++ [d]) = run cfg s (ds ++ [d]) := by
        rw [honce, onceStep, run_concat]
        cases hkey : credited cfg (run cfg s ds) d with
        | none => rfl
        | some key =>
          dsimp only
          rw [if_neg (hfresh key.1 key.2 hkey).1]
      refine ⟨fun u => by rw [hrun], fun o ho hrec => ?_⟩
      rw [run_concat]
      cases hkey : credited cfg (run cfg s ds) d with
      | none => rw [step_of_not_credited hkey]
      | some key =>
        obtain ⟨o', sub, ho', -, hu, hp⟩ := credited_eq_some_iff.mp hkey
        obtain rfl : o = o' := Option.some.inj (ho.symm.trans ho')
        rw [hu, hp] at hrec
        exact absurd hrec (hfresh key.1 key.2 hkey).2

/-- One plan, no notification secret, no passwords. -/
def exampleConfig : Config where
  plans :=
    { list :=
        [{ id := "setka_plus_month"
           name := "Setka Plus 30 days"
           priceRub := .finite 299
           durationDays := 30
           features := []
           active := true
           isDefault := true
           sortOrder := 10
           id_clean := ⟨some (.str "setka_plus_month"), by decide⟩
           name_clean := ⟨some (.str "Setka Plus 30 days"), by decide⟩
           durationDays_pos := by decide
           priceRub_rounded := ⟨.finite 299, by decide, by decide +kernel⟩ }]
      nonempty := by simp
      nodup := by simp }
  plusPriceRub := .finite 299
  plusDurationDays := 30
  yoomoneyToken := ""
  yoomoneyReceiver := ""
  yoomoneyReturnUrl := ""
  yoomoneyNotificationSecret := "secret"
  robokassaMerchantLogin := ""
  robokassaPassword1 := ""
  robokassaPassword2 := ""
  robokassaTestPassword1 := ""
  robokassaTestPassword2 := ""
  robokassaIsTest := false
  robokassaCallbackBaseUrl := ""
  payanywayMntId := ""
  payanywayIntegrityCode := ""
  payanywayIsTest := false
  payanywayApiUsername := ""
  payanywayApiPassword := ""
  payanywaySimplaSelf := true
  vouchersOnly := false
  md5 := fun _ => "digest"
  sha1 := fun _ => "digest"

def exampleState : State := ⟨fun _ _ => none, Dict.empty⟩

/-- Case and letters of ASCII. -/
def asciiTables : PyStr.Unicode := .ascii

/-- A signed notification about operation `1`. -/
def exampleNotification : Delivery where
  now := 1700000000000
  callback := .yoomoney "" ⟨[("sha1_hash", "digest"), ("operation_id", "1"), ("amount", "299.00"),
    ("label", "setka_plus|@user:server|setka_plus_month|7")], by decide⟩

/-- The provider delivers the same notification twice, and the user has two months. -/
theorem redelivery_credited_twice :
    ¬ CreditedOnce exampleConfig exampleState [exampleNotification, exampleNotification] := by
  intro h
  have hsame := (h [exampleNotification] exampleNotification [] rfl).1 "@user:server"
  revert hsame
  decide +kernel

end Setka.Handlers.Plus
