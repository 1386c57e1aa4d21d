/-
# Setka.Handlers.PlusPending — payments that PayAnyWay has yet to report.

A PayAnyWay form names its user only where Simpla is off. Otherwise the callback finds the user in an
index of pending payments, which is in memory only: `record_payment` fills it and empties it, and a
restart loses it, while the payments themselves are kept.
-/
import Setka.Handlers.PlusReturn
import Setka.Handlers.StickerPacks

namespace Setka.Handlers.Plus

open Setka.Api Setka.Lib Dict Setka.Lib.Action

/-! ## §1 What touches the index -/

/-- The index of pending payments is the same, one key apart. -/
def SameIndexBut (key : Option String) (s t : State) : Prop :=
  ∀ k, key ≠ some k → t.payanywayPendingUsers.get? k = s.payanywayPendingUsers.get? k

theorem SameIndexBut.refl (key : Option String) (s : State) : SameIndexBut key s s := fun _ _ => rfl

theorem SameIndexBut.trans (key : Option String) (s t u : State) (hst : SameIndexBut key s t)
    (htu : SameIndexBut key t u) : SameIndexBut key s u :=
  fun k hk => (htu k hk).trans (hst k hk)

/-- The key that recording a payment of a provider sets or erases. -/
def indexKey? (provider paymentId : String) : Option String :=
  if (cleanStr 64 (some (.str provider))).getD "unknown" = "payanyway" then
    cleanStr 255 (some (.str paymentId))
  else none

section Keeps

variable {α β : Type} {key : Option String}

theorem keepsIndex_bind {m : Action State Error α} {f : α → Action State Error β}
    (hm : m.Keeps (SameIndexBut key)) (hf : ∀ a, (f a).Keeps (SameIndexBut key)) :
    (m >>= f).Keeps (SameIndexBut key) :=
  Action.Keeps.bind (SameIndexBut.refl key) (SameIndexBut.trans key) hm hf

/-- What does not write at all, or writes account data only. -/
theorem keepsIndex_of_index {m : Action State Error α}
    (h : ∀ s, (m.run s).2.payanywayPendingUsers = s.payanywayPendingUsers) :
    m.Keeps (SameIndexBut key) := by
  intro s k _
  rw [h s]

end Keeps

variable {userId : String}

/-- An entry that is not about a key, or is a success, or another provider's. -/
theorem get?_indexPending {k : String} {entry : Payment} {pending : Dict String String}
    (h : entry.provider = "payanyway" → entry.status ≠ "success" → k ≠ entry.paymentId) :
    (indexPending userId entry pending).get? k = pending.get? k := by
  unfold indexPending
  split
  · rename_i hprovider
    by_cases hsuccess : entry.status = "success"
    · rw [hsuccess, if_neg (by decide), if_neg (by decide)]
    have hne := h hprovider hsuccess
    split
    · rw [get?_set, if_neg hne]
    split
    · rw [get?_erase, if_neg hne]
    · rfl
  · rfl

variable {payment : PaymentArgs} {paymentId : String}

/-- **What recording a payment does to the index**, unless it is a success. -/
theorem recordPayment_keepsIndex (now : ℤ) (userId : String) {provider : String}
    (hpayment : payment.provider = provider) (hpaymentId : payment.paymentId = paymentId) :
    (recordPayment now userId payment).Keeps (SameIndexBut (indexKey? provider paymentId)) := by
  subst hpayment hpaymentId
  apply keepsIndex_bind (keepsIndex_of_index fun _ => rfl)
  intro current
  split
  · rename_i paymentId status hid hstatus
    intro s k hk
    apply get?_indexPending
    intro hprovider _
    show k ≠ paymentId
    rintro rfl
    apply hk
    unfold indexKey?
    rw [hid]
    exact if_pos hprovider
  · exact keepsIndex_of_index fun _ => rfl

theorem recordPayment_success_keepsIndex (now : ℤ) (userId : String) (h : payment.status = "success")
    (key : Option String) : (recordPayment now userId payment).Keeps (SameIndexBut key) := by
  apply keepsIndex_bind (keepsIndex_of_index fun _ => rfl)
  intro current
  split
  · rename_i paymentId status hid hstatus
    intro s k _
    apply get?_indexPending
    intro _ hsuccess
    rw [h, cleanStr_success] at hstatus
    obtain rfl := Option.some.inj hstatus
    exact absurd (by decide : PyStr.lower "success" = "success") hsuccess
  · exact keepsIndex_of_index fun _ => rfl

theorem setSubscription_keepsIndex (cfg : Config) (now : ℤ) (userId : String)
    (updates : List (String × Json)) (key : Option String) :
    (setSubscription cfg now userId updates).Keeps (SameIndexBut key) := by
  apply keepsIndex_bind (keepsIndex_of_index fun _ => rfl)
  intro existing
  dsimp only
  split
  · repeat (apply keepsIndex_bind (keepsIndex_of_index fun _ => rfl); intro _)
    exact keepsIndex_of_index fun _ => rfl
  split
  · repeat (apply keepsIndex_bind (keepsIndex_of_index fun _ => rfl); intro _)
    exact keepsIndex_of_index fun _ => rfl
  · exact keepsIndex_of_index fun _ => rfl

theorem activateSubscription_keepsIndex (cfg : Config) (now : ℤ) (a : Activation)
    (key : Option String) : (activateSubscription cfg now a).Keeps (SameIndexBut key) := by
  apply keepsIndex_bind (keepsIndex_of_index fun _ => rfl)
  intro existing
  apply keepsIndex_bind (keepsIndex_of_index fun _ => rfl)
  intro _
  apply keepsIndex_bind (recordPayment_success_keepsIndex now a.userId rfl key)
  exact fun _ => keepsIndex_of_index fun _ => rfl

theorem settle_keepsIndex (cfg : Config) (now : ℤ) (o : Order) :
    (settle cfg now o).Keeps (SameIndexBut (indexKey? o.provider o.paymentId)) := by
  apply keepsIndex_bind (activateSubscription_keepsIndex cfg now o.activation _)
  intro sub
  refine keepsIndex_bind ?_ fun _ => keepsIndex_of_index fun _ => rfl
  exact recordPayment_keepsIndex now o.userId rfl rfl

variable {c : Checkout}

theorem openCheckout_keepsIndex (cfg : Config) (now : ℤ) (userId requestId : String)
    (assistantFields : Option (Dict String String)) {provider : String} (hprovider : c.provider = provider)
    (hpaymentId : c.paymentId = paymentId) : (openCheckout cfg now userId requestId assistantFields c).Keeps
      (SameIndexBut (indexKey? provider paymentId)) := by
  apply keepsIndex_bind (recordPayment_keepsIndex now userId hprovider hpaymentId)
  intro _
  apply keepsIndex_bind (setSubscription_keepsIndex cfg now userId _ _)
  exact fun _ => keepsIndex_of_index fun _ => rfl

theorem assertAcquiringEnabled_keepsIndex (cfg : Config) (key : Option String) :
    (assertAcquiringEnabled cfg).Keeps (SameIndexBut key) := by
  apply keepsIndex_of_index
  intro s
  unfold assertAcquiringEnabled
  split <;> rfl

/-! ## §2 Checkouts -/

theorem createYoomoney_keepsIndex (cfg : Config) (now : ℤ) (labelUuid paymentUuid : String)
    (response : Option Json) (r : CheckoutRequest) :
    (createYoomoneyPaymentRequest cfg now labelUuid paymentUuid response r).Keeps (SameIndexBut none) := by
  have hkey : indexKey? "yoomoney" ("setka_plus_" ++ paymentUuid) = none := if_neg (by decide)
  rw [← hkey]
  apply keepsIndex_bind (assertAcquiringEnabled_keepsIndex cfg _)
  exact fun _ => openCheckout_keepsIndex cfg now r.userId _ _ rfl rfl

theorem createRobokassa_keepsIndex (cfg : Config) (now : ℤ) (paymentUuid : String) (invId : ℕ)
    (r : CheckoutRequest) :
    (createRobokassaPaymentRequest cfg now paymentUuid invId r).Keeps (SameIndexBut none) := by
  have hkey : indexKey? "robokassa" ("setka_plus_" ++ paymentUuid) = none := if_neg (by decide)
  rw [← hkey]
  apply keepsIndex_bind (assertAcquiringEnabled_keepsIndex cfg _)
  intro _
  dsimp only
  split
  · exact keepsIndex_of_index fun _ => rfl
  · exact openCheckout_keepsIndex cfg now r.userId _ _ rfl rfl

theorem createPayanyway_keepsIndex (cfg : Config) (now : ℤ) (paymentUuid : String)
    (operationId : Option ℤ) (r : CheckoutRequest) :
    (createPayanywayPaymentRequest cfg now paymentUuid operationId r).Keeps
      (SameIndexBut (indexKey? "payanyway" ("setka_plus_" ++ paymentUuid))) := by
  apply keepsIndex_bind (assertAcquiringEnabled_keepsIndex cfg _)
  intro _
  split
  · exact keepsIndex_of_index fun _ => rfl
  split
  · exact keepsIndex_of_index fun _ => rfl
  · exact openCheckout_keepsIndex cfg now r.userId _ _ rfl rfl

variable {now : ℤ} {s t : State}

/-- A payment of PayAnyWay that was recorded as pending is in the index. -/
theorem recordPayment_indexed (h : (recordPayment now userId payment).run s = (.ok (), t))
    (hprovider : payment.provider = "payanyway") (hstatus : payment.status = "pending")
    (hid : cleanStr 255 (some (.str payment.paymentId)) = some paymentId) :
    t.payanywayPendingUsers.get? paymentId = some userId := by
  have hpending : cleanStr 32 (some (.str payment.status)) = some "pending" := by
    rw [hstatus]
    decide
  cases hcurrent : getPayments now s userId with
  | error e =>
    rw [recordPayment_of_error hcurrent] at h
    cases (Prod.mk.inj h).1
  | ok current =>
    rw [recordPayment_run hcurrent hid hpending] at h
    obtain rfl := (Prod.mk.inj h).2
    have hentry : ∀ entry : Payment, entry.provider = "payanyway" → entry.status = "pending" →
        entry.paymentId = paymentId →
          (indexPending userId entry s.payanywayPendingUsers).get? paymentId = some userId := by
      intro entry hp hs hi
      unfold indexPending
      rw [if_pos hp, if_pos hs, hi, get?_set, if_pos rfl]
    apply hentry
    · show (cleanStr 64 (some (.str payment.provider))).getD "unknown" = "payanyway"
      rw [hprovider]
      decide
    · show PyStr.lower "pending" = "pending"
      decide
    · rfl

theorem strip_paymentId (uuid : Uuid) : PyStr.strip ("setka_plus_" ++ uuid.hex) = "setka_plus_" ++ uuid.hex := by
  apply PyStr.strip_of_not_space
  intro c hc
  rw [String.toList_append, List.mem_append] at hc
  rcases hc with hc | hc
  · exact PyStr.not_isSpace_of_all (s := "setka_plus_") (by decide) c hc
  · exact uuid.not_space c hc

theorem length_paymentId (uuid : Uuid) : ("setka_plus_" ++ uuid.hex).toList.length = 43 := by
  rw [String.toList_append, List.length_append, uuid.length_hex]
  rfl

theorem paymentId_ne_empty (uuid : Uuid) : "setka_plus_" ++ uuid.hex ≠ "" := by
  intro hempty
  have hlength := length_paymentId uuid
  rw [hempty] at hlength
  exact absurd hlength (by decide)

/-- The id of a payment is neither stripped nor cut. -/
theorem cleanStr_paymentId (uuid : Uuid) :
    cleanStr 255 (some (.str ("setka_plus_" ++ uuid.hex))) = some ("setka_plus_" ++ uuid.hex) := by
  have hfits : Fits 255 ("setka_plus_" ++ uuid.hex) := by
    refine ⟨?_, ?_⟩
    · rw [length_paymentId]
      decide
    · rw [strip_paymentId]
      exact paymentId_ne_empty uuid
  rw [cleanStr_of_fits hfits, strip_paymentId]

variable {cfg : Config}

theorem openCheckout_indexed {requestId : String} {assistantFields : Option (Dict String String)}
    {c' : Checkout} (h : (openCheckout cfg now userId requestId assistantFields c).run s = (.ok c', t))
    (hprovider : c.provider = "payanyway") (hid : cleanStr 255 (some (.str c.paymentId)) = some paymentId) :
    t.payanywayPendingUsers.get? paymentId = some userId := by
  obtain ⟨_, s₁, hrecord, h⟩ := exists_of_run_bind_eq_ok h
  obtain ⟨sub, s₂, hset, h⟩ := exists_of_run_bind_eq_ok h
  obtain rfl : s₂ = t := (Prod.mk.inj h).2
  have hkeeps := setSubscription_keepsIndex cfg now userId
    [("status", .str "pending"), ("tier", .str c.planId), ("amount", .float c.amount)] none s₁
  rw [hset] at hkeeps
  rw [hkeeps paymentId (by simp)]
  exact recordPayment_indexed hrecord hprovider rfl hid

/-- **A PayAnyWay checkout puts its payment into the index.** -/
theorem createPayanyway_indexed {uuid : Uuid} {operationId : Option ℤ} {r : CheckoutRequest}
    (h : (createPayanywayPaymentRequest cfg now uuid.hex operationId r).run s = (.ok c, t)) :
    c.paymentId = "setka_plus_" ++ uuid.hex ∧
      t.payanywayPendingUsers.get? ("setka_plus_" ++ uuid.hex) = some r.userId := by
  obtain ⟨_, s₁, -, h⟩ := exists_of_run_bind_eq_ok h
  split at h
  · cases h
  split at h
  · cases h
  have hindexed := openCheckout_indexed h rfl (cleanStr_paymentId uuid)
  obtain rfl := openCheckout_checkout h
  exact ⟨rfl, hindexed⟩

/-! ## §3 The other operations -/

theorem processYoomoney_keepsIndex (cfg : Config) (now : ℤ) (userId requestId : String)
    (planId : Option String) (response : Json) :
    (processYoomoneyPayment cfg now userId requestId planId response).Keeps (SameIndexBut none) := by
  unfold processYoomoneyPayment
  split
  · exact keepsIndex_of_index fun _ => rfl
  split
  · exact keepsIndex_of_index fun _ => rfl
  rename_i requestId _
  dsimp only
  split
  · apply keepsIndex_bind (activateSubscription_keepsIndex cfg now _ none)
    exact fun _ => keepsIndex_of_index fun _ => rfl
  have hkey : indexKey? "yoomoney" (processResponse requestId response).2 = none :=
    if_neg (by decide)
  rw [← hkey]
  refine keepsIndex_bind ?_ fun _ => keepsIndex_bind (keepsIndex_of_index fun _ => rfl) fun _ =>
    keepsIndex_of_index fun _ => rfl
  exact recordPayment_keepsIndex now userId rfl rfl

variable {payload : Dict String String} {o : Order}

theorem robokassaOrder_provider (h : robokassaOrder cfg now s payload = .ok o) : o.provider = "robokassa" := by
  unfold robokassaOrder at h
  dsimp only at h
  split at h
  · cases h
  split at h
  · cases h
  split at h
  · cases h
  · split at h
    · cases h
    · obtain ⟨userId, -, h⟩ := except_bind_eq_ok.mp h
      obtain ⟨paymentId, -, h⟩ := except_bind_eq_ok.mp h
      obtain rfl := Except.ok.inj h
      rfl

theorem yoomoneyOrder_provider {uuid : String}
    (h : yoomoneyOrder cfg uuid payload = .ok o) : o.provider = "yoomoney_webhook" := by
  unfold yoomoneyOrder at h
  dsimp only at h
  split at h
  · cases h
  split at h
  · obtain rfl := Except.ok.inj h
    rfl
  · cases h

/-- The id under which a callback of PayAnyWay has its payment recorded as paid. -/
def paidId? (cfg : Config) (s : State) (d : Delivery) : Option String :=
  match d.callback with
  | .payanyway _ =>
    (credited cfg s d).bind fun (_, paymentId) => cleanStr 255 (some (.str paymentId))
  | _ => none

theorem paidId?_payanyway {sub : Subscription} (ho : (Callback.payanyway payload).order? cfg now s = some o)
    (hsub : getSubscription cfg now s o.userId = .ok sub) :
    paidId? cfg s ⟨now, .payanyway payload⟩ = cleanStr 255 (some (.str o.paymentId)) := by
  have hcredited : credited cfg s ⟨now, .payanyway payload⟩ = some (o.userId, o.paymentId) :=
    credited_eq_some_iff.mpr ⟨o, sub, ho, hsub, rfl, rfl⟩
  show (credited cfg s ⟨now, .payanyway payload⟩).bind _ = _
  rw [hcredited]
  rfl

/-- **A callback erases the payment that it pays.** -/
theorem step_sameIndexBut (cfg : Config) (s : State) (d : Delivery) :
    SameIndexBut (paidId? cfg s d) s (Plus.step cfg s d) := by
  obtain ⟨now, callback⟩ := d
  by_cases hcredited : credited cfg s ⟨now, callback⟩ = none
  · rw [step_of_not_credited hcredited]
    exact SameIndexBut.refl _ s
  obtain ⟨⟨userId, paymentId⟩, hsome⟩ := Option.ne_none_iff_exists'.mp hcredited
  obtain ⟨o, sub, ho, hsub, -, -⟩ := credited_eq_some_iff.mp hsome
  have hstep : Plus.step cfg s ⟨now, callback⟩ = ((settle cfg now o).run s).2 := by
    rw [Plus.step, Callback.handle_eq]
    rw [ho]
  rw [hstep]
  have hsettle := settle_keepsIndex cfg now o s
  cases callback with
  | yoomoney uuid payload =>
    have hprovider := yoomoneyOrder_provider (except_toOption_eq_some.mp ho)
    rw [hprovider, indexKey?, if_neg (by decide)] at hsettle
    exact hsettle
  | robokassa payload =>
    have hprovider := robokassaOrder_provider (except_toOption_eq_some.mp ho)
    rw [hprovider, indexKey?, if_neg (by decide)] at hsettle
    exact hsettle
  | payanyway payload =>
    rw [paidId?_payanyway ho hsub]
    intro k hk
    apply hsettle k
    intro hkey
    apply hk
    unfold indexKey? at hkey
    split at hkey
    · exact hkey
    · cases hkey

/-- The key of the payment that a browser return marks. -/
def BrowserReturn.indexKey? (cfg : Config) (now : ℤ) (s : State) (b : BrowserReturn) : Option String :=
  match b.marks? cfg now s with
  | some (_, item, _) =>
    if (cleanStr 64 (some (.str item.provider))).getD "unknown" = "payanyway" then
      some (PyStr.strip item.paymentId)
    else none
  | none => none

theorem BrowserReturn.resolve_sameIndexBut (cfg : Config) (now : ℤ) (s : State)
    (b : BrowserReturn) : SameIndexBut (b.indexKey? cfg now s) s (b.resolve cfg now s) := by
  rw [b.resolve_eq cfg now s]
  unfold BrowserReturn.indexKey?
  cases hmarks : b.marks? cfg now s with
  | none => exact SameIndexBut.refl _ s
  | some marked =>
    dsimp only
    intro k hk
    rw [pendingUsers_failed]
    split
    · rename_i hprovider
      rw [if_pos hprovider] at hk
      rw [get?_erase, if_neg]
      rintro rfl
      exact hk rfl
    · rfl

/-! ## §4 Runs with restarts -/

/-- A PayAnyWay payment that was created and not paid since. -/
structure Unpaid where
  paymentId : String
  userId : String
  deriving DecidableEq

/-- The handler's state, and the payments that are still unpaid. -/
structure Desk where
  state : State
  unpaid : List Unpaid

/-- What happens at the desk. A voucher and an administrator activate a subscription, the general
account-data endpoint writes what it is given, and a restart empties what is in memory. -/
inductive Desk.Act
  | createYoomoney (now : ℤ) (labelUuid paymentUuid : String) (response : Option Json) (r : CheckoutRequest)
  | createRobokassa (now : ℤ) (paymentUuid : String) (invId : ℕ) (r : CheckoutRequest)
  | createPayanyway (now : ℤ) (uuid : Uuid) (operationId : Option ℤ) (r : CheckoutRequest) (named : r.userId ≠ "")
  | process (now : ℤ) (userId requestId : String) (planId : Option String) (response : Json)
  | callback (d : Delivery)
  | browserReturn (now : ℤ) (b : BrowserReturn)
  | activate (now : ℤ) (a : Activation)
  | setSubscription (now : ℤ) (userId : String) (updates : List (String × Json))
  | putAccountData (userId type : String) (content : List (String × Json))
  | restart

/-- The state after an action that opens and pays no PayAnyWay payment. -/
def Desk.write {α : Type} (w : Desk) (m : Action State Error α) : Desk :=
  { w with state := (m.run w.state).2 }

/-- The desk after a request for a PayAnyWay checkout. -/
def Desk.opened (w : Desk) (r : CheckoutRequest) : Except Error Checkout × State → Desk
  | (.ok c, state) => { state, unpaid := ⟨c.paymentId, r.userId⟩ :: w.unpaid }
  | (.error _, state) => { w with state }

def Desk.step (cfg : Config) (w : Desk) : Desk.Act → Desk
  | .createYoomoney now labelUuid paymentUuid response r =>
    w.write (createYoomoneyPaymentRequest cfg now labelUuid paymentUuid response r)
  | .createRobokassa now paymentUuid invId r =>
    w.write (createRobokassaPaymentRequest cfg now paymentUuid invId r)
  | .createPayanyway now uuid operationId r _ =>
    w.opened r ((createPayanywayPaymentRequest cfg now uuid.hex operationId r).run w.state)
  | .process now userId requestId planId response =>
    w.write (processYoomoneyPayment cfg now userId requestId planId response)
  | .callback d =>
    { state := Plus.step cfg w.state d
      unpaid := w.unpaid.filter fun p => paidId? cfg w.state d ≠ some p.paymentId }
  | .browserReturn now b => { w with state := b.resolve cfg now w.state }
  | .activate now a => w.write (activateSubscription cfg now a)
  | .setSubscription now userId updates => w.write (Plus.setSubscription cfg now userId updates)
  | .putAccountData userId type content =>
    { w with state := w.state.addAccountData userId type content }
  | .restart => { w with state := { w.state with payanywayPendingUsers := Dict.empty } }

/-- A run starts without unpaid payments. -/
def Desk.Initial (w : Desk) : Prop := w.unpaid = []

/-- **A step that leaves the unpaid payments in the index**: a payment id is new, no restart comes
between a payment and its callback, and no browser return marks an unpaid payment. -/
def Desk.Careful (cfg : Config) (w : Desk) : Desk.Act → Prop
  | .createPayanyway _ uuid _ _ _ => ∀ p ∈ w.unpaid, p.paymentId ≠ "setka_plus_" ++ uuid.hex
  | .restart => cfg.payanywaySimplaSelf = true → w.unpaid = []
  | .browserReturn now b => cfg.payanywaySimplaSelf = true →
      ∀ p ∈ w.unpaid, b.indexKey? cfg now w.state ≠ some p.paymentId
  | _ => True

def Desk.CarefulStep (cfg : Config) (w w' : Desk) : Prop :=
  ∃ act, w.Careful cfg act ∧ w' = w.step cfg act

/-- Unpaid payments have the ids of payments and users with names, and while forms do not name these,
the index does. -/
structure Desk.Indexed (cfg : Config) (w : Desk) : Prop where
  named : ∀ p ∈ w.unpaid, p.userId ≠ ""
  paymentId : ∀ p ∈ w.unpaid, ∃ uuid : Uuid, p.paymentId = "setka_plus_" ++ uuid.hex
  index : cfg.payanywaySimplaSelf = true →
    ∀ p ∈ w.unpaid, w.state.payanywayPendingUsers.get? p.paymentId = some p.userId

variable {w : Desk}

/-- A step that only touches keys which no unpaid payment has. -/
theorem Desk.Indexed.of_sameIndexBut {w' : Desk} {key : Option String} (h : w.Indexed cfg)
    (hunpaid : ∀ p ∈ w'.unpaid, p ∈ w.unpaid) (hindex : SameIndexBut key w.state w'.state)
    (hkey : cfg.payanywaySimplaSelf = true → ∀ p ∈ w'.unpaid, key ≠ some p.paymentId) : w'.Indexed cfg where
  named p hp := h.named p (hunpaid p hp)
  paymentId p hp := h.paymentId p (hunpaid p hp)
  index hself p hp := by
    rw [hindex p.paymentId (hkey hself p hp)]
    exact h.index hself p (hunpaid p hp)

theorem Desk.Indexed.write {α : Type} {m : Action State Error α} (h : w.Indexed cfg)
    (hm : m.Keeps (SameIndexBut none)) : (w.write m).Indexed cfg :=
  h.of_sameIndexBut (fun _ hp => hp) (hm w.state) fun _ _ _ => by simp

theorem Desk.Indexed.step (h : w.Indexed cfg) {act : Desk.Act}
    (hact : w.Careful cfg act) : (w.step cfg act).Indexed cfg := by
  cases act with
  | createYoomoney now labelUuid paymentUuid response r =>
    exact h.write (createYoomoney_keepsIndex cfg now labelUuid paymentUuid response r)
  | createRobokassa now paymentUuid invId r =>
    exact h.write (createRobokassa_keepsIndex cfg now paymentUuid invId r)
  | createPayanyway now uuid operationId r named =>
    have hkeeps := createPayanyway_keepsIndex cfg now uuid.hex operationId r w.state
    have hkey : indexKey? "payanyway" ("setka_plus_" ++ uuid.hex) = some ("setka_plus_" ++ uuid.hex) := by
      rw [indexKey?, if_pos (by decide), cleanStr_paymentId]
    rw [hkey] at hkeeps
    have hold : ∀ p ∈ w.unpaid, some ("setka_plus_" ++ uuid.hex) ≠ some p.paymentId := by
      intro p hp heq
      exact hact p hp (Option.some.inj heq).symm
    show (w.opened r _).Indexed cfg
    rcases hrun : (createPayanywayPaymentRequest cfg now uuid.hex operationId r).run w.state with
      ⟨result, state⟩
    rw [hrun] at hkeeps
    cases result with
    | error e => exact h.of_sameIndexBut (fun _ hp => hp) hkeeps fun _ => hold
    | ok c =>
      obtain ⟨hid, hindexed⟩ := createPayanyway_indexed hrun
      refine ⟨fun p hp => ?_, fun p hp => ?_, fun hself p hp => ?_⟩
      · rcases List.mem_cons.mp hp with rfl | hp
        · exact named
        · exact h.named p hp
      · rcases List.mem_cons.mp hp with rfl | hp
        · exact ⟨uuid, hid⟩
        · exact h.paymentId p hp
      · rcases List.mem_cons.mp hp with rfl | hp
        · dsimp only
          rw [hid]
          exact hindexed
        · show state.payanywayPendingUsers.get? p.paymentId = some p.userId
          rw [hkeeps p.paymentId (hold p hp)]
          exact h.index hself p hp
  | process now userId requestId planId response =>
    exact h.write (processYoomoney_keepsIndex cfg now userId requestId planId response)
  | callback d =>
    refine h.of_sameIndexBut (fun p hp => List.mem_of_mem_filter hp)
      (step_sameIndexBut cfg w.state d) fun _ p hp => ?_
    simpa using (List.mem_filter.mp hp).2
  | browserReturn now b =>
    exact h.of_sameIndexBut (fun _ hp => hp) (b.resolve_sameIndexBut cfg now w.state) hact
  | activate now a => exact h.write (activateSubscription_keepsIndex cfg now a none)
  | setSubscription now userId updates =>
    exact h.write (setSubscription_keepsIndex cfg now userId updates none)
  | putAccountData userId type content =>
    have hsame : SameIndexBut none w.state (w.state.addAccountData userId type content) :=
      fun _ _ => rfl
    exact h.of_sameIndexBut (fun _ hp => hp) hsame fun _ _ _ => by simp
  | restart =>
    refine ⟨h.named, h.paymentId, fun hself p hp => ?_⟩
    have hnone : w.unpaid = [] := hact hself
    exact absurd hp (by simp [Desk.step, hnone])

theorem Desk.indexed_of_reachable (h : Reachable Desk.Initial (Desk.CarefulStep cfg) w) : w.Indexed cfg := by
  refine h.invariant (fun w hinit => ?_) ?_
  · have hnone : w.unpaid = [] := hinit
    have hnot : ∀ p, p ∉ w.unpaid := fun p hp => absurd hp (by simp [hnone])
    exact ⟨fun p hp => absurd hp (hnot p), fun p hp => absurd hp (hnot p), fun _ p hp => absurd hp (hnot p)⟩
  · rintro w _ - hindexed ⟨act, hact, rfl⟩
    exact hindexed.step hact

/-! ## §5 The callback of a form -/

/-- A payment is recorded on top of readable ones, and they can be read again. -/
theorem recordPayment_readable {status : String} {current : List Payment}
    (hcurrent : getPayments now s userId = .ok current)
    (hid : cleanStr 255 (some (.str payment.paymentId)) = some paymentId)
    (hstatus : cleanStr 32 (some (.str payment.status)) = some status) :
    ∃ t read, (recordPayment now userId payment).run s = (.ok (), t) ∧
      getPayments now t userId = .ok read := by
  obtain ⟨read, hread, -⟩ := getPayments_recorded hcurrent (entry_fits hid hstatus
    (current.find? fun item => item.paymentId = paymentId)) now
  exact ⟨_, read, recordPayment_run hcurrent hid hstatus, hread⟩

theorem activateSubscription_readable {a : Activation} (h : Readable cfg now s a.userId)
    (hid : cleanStr 255 (some (.str a.paymentId)) ≠ none) :
    ∃ sub t read, (activateSubscription cfg now a).run s = (.ok sub, t) ∧
      getPayments now t a.userId = .ok read := by
  obtain ⟨⟨existing, hsub⟩, current, hcurrent⟩ := h
  obtain ⟨paymentId, hid⟩ := Option.ne_none_iff_exists'.mp hid
  have hpayments := getPayments_addSubscription now s a.userId a.userId
    (a.payload now (cfg.plans.resolvePlan a.planId) existing)
  obtain ⟨sub, hnormal⟩ := normalizeSubscription_payload cfg now a (cfg.plans.resolvePlan a.planId) existing
  have hargs : ∃ t read, (recordPayment now a.userId (a.paymentArgs now (cfg.plans.resolvePlan a.planId))).run
      (s.addAccountData a.userId subscriptionType
        (a.payload now (cfg.plans.resolvePlan a.planId) existing)) = (.ok (), t) ∧
      getPayments now t a.userId = .ok read :=
    recordPayment_readable (hpayments.trans hcurrent) hid cleanStr_success
  obtain ⟨t, read, hrecord, hread⟩ := hargs
  refine ⟨sub, t, read, ?_, hread⟩
  rw [activateSubscription_run hsub, run_bind_of_ok hrecord, run_lift, hnormal]

/-- **An order is settled** exactly when its activation goes through. -/
theorem settle_ok_iff {status : String} (hstatus : cleanStr 32 (some (.str o.status)) = some status) :
    (∃ sub t, (settle cfg now o).run s = (.ok sub, t)) ↔
      Readable cfg now s o.userId ∧ cleanStr 255 (some (.str o.paymentId)) ≠ none := by
  constructor
  · rintro ⟨sub, t, h⟩
    obtain ⟨sub', t', hactivate, -⟩ := exists_of_run_bind_eq_ok h
    exact activateSubscription_ok_iff.mp ⟨sub', t', hactivate⟩
  rintro ⟨hreadable, hid⟩
  obtain ⟨sub, t, read, hactivate, hread⟩ :=
    activateSubscription_readable (a := o.activation) hreadable hid
  obtain ⟨paymentId, hid⟩ := Option.ne_none_iff_exists'.mp hid
  unfold settle
  rw [run_bind_of_ok hactivate]
  have hrecord : ∀ payment : PaymentArgs, payment.paymentId = o.paymentId →
      payment.status = o.status → ∃ t' read', (recordPayment now o.userId payment).run t =
        (.ok (), t') ∧ getPayments now t' o.userId = .ok read' := by
    intro payment hpaymentId hpaymentStatus
    exact recordPayment_readable hread (by rw [hpaymentId]; exact hid) (by rw [hpaymentStatus]; exact hstatus)
  obtain ⟨t', -, hrun, -⟩ := hrecord
    { paymentId := o.paymentId
      status := o.status
      provider := o.provider
      createdAt := now
      amount := some o.amount
      currency := some o.currency
      requestId := o.requestId
      label := some o.label
      planId := some o.recordedPlanId
      message := none
      assistantFields := none } rfl rfl
  refine ⟨sub, t', ?_⟩
  rw [run_bind_of_ok hrun]
  rfl

theorem handlePayanywayPayUrl_success_iff (h : payanywayOrder cfg s payload = .ok (.inr o)) :
    (∃ t, (handlePayanywayPayUrl cfg now payload).run s = (.ok "SUCCESS", t)) ↔
      ∃ sub t, (settle cfg now o).run s = (.ok sub, t) := by
  have hread : (Action.reads fun s => payanywayOrder cfg s payload).run s = (.ok (.inr o), s) := by
    rw [run_reads, h]
  unfold handlePayanywayPayUrl
  rw [run_bind_of_ok hread]
  constructor
  · rintro ⟨t, ht⟩
    obtain ⟨sub, t', hsettle, -⟩ := exists_of_run_bind_eq_ok ht
    exact ⟨sub, t', hsettle⟩
  · rintro ⟨sub, t, hsettle⟩
    exact ⟨t, by rw [run_bind_of_ok hsettle]; rfl⟩

/-- The fields that a callback need not bring back as the form had them: the signature is the
callback's own, and the operation and the links are not echoed. -/
def notEchoed : List String :=
  ["MNT_SIGNATURE", "MNT_OPERATION_ID", "MNT_SUCCESS_URL", "MNT_FAIL_URL", "MNT_RETURN_URL"]

/-- A correctly signed callback with the fields of a form for the payment. -/
structure SignedForm (cfg : Config) (p : Unpaid) (payload : Dict String String) : Prop where
  fields : ∃ amountStr testMode description planId, ∀ key ∉ notEchoed,
    payload.get? key = (payanywayAssistantFields cfg p.paymentId amountStr testMode description
      planId (PyStr.take 255 (encodeRobokassaUid p.userId))).get? key
  signed : ∃ expected, payanywayPaySignature cfg payload = .ok expected ∧
    PyStr.lower (payload.getD "MNT_SIGNATURE" "") = PyStr.lower expected

/-- The callback is answered with `SUCCESS` and activates the subscription of the user. -/
def Honoured (cfg : Config) (now : ℤ) (s : State) (payload : Dict String String) (userId : String) : Prop :=
  (∃ t, (handlePayanywayPayUrl cfg now payload).run s = (.ok "SUCCESS", t)) ∧
  ∃ g, granted cfg now s payload = some g ∧ g.userId = userId

/-- The account data of the user can be read, and where the form names the user, it does so in
full. -/
def Payable (cfg : Config) (now : ℤ) (s : State) (userId : String) : Prop :=
  Readable cfg now s userId ∧
  (cfg.payanywaySimplaSelf = false → decodeRobokassaUid (PyStr.take 255 (encodeRobokassaUid userId)) = .ok userId)

theorem decodeRobokassaUid_ne_empty (h : userId ≠ "") :
    decodeRobokassaUid (PyStr.take 255 (encodeRobokassaUid userId)) ≠ .ok "" := by
  have hne := Base64.decode_ne_empty (fun c => mem_take_encodeRobokassaUid) (two_le_length_take h)
  unfold decodeRobokassaUid
  cases hdecode : Base64.decode (PyStr.take 255 (encodeRobokassaUid userId)) with
  | none => simp
  | some v =>
    rintro hv
    obtain rfl := Except.ok.inj hv
    exact hne hdecode

section SignedForm

variable {cfg : Config} {p : Unpaid} {payload : Dict String String}

theorem SignedForm.transactionId (h : SignedForm cfg p payload) :
    payload.getD "MNT_TRANSACTION_ID" "" = p.paymentId := by
  obtain ⟨amountStr, testMode, description, planId, hfields⟩ := h.fields
  rw [Dict.getD, hfields "MNT_TRANSACTION_ID" (by decide)]
  unfold payanywayAssistantFields
  split <;> simp

/-- **Whom the form names.** -/
theorem SignedForm.named (h : SignedForm cfg p payload) (hp : p.userId ≠ "") : payanywayUserIdFromPayload payload =
      if cfg.payanywaySimplaSelf = true then .ok ""
      else decodeRobokassaUid (PyStr.take 255 (encodeRobokassaUid p.userId)) := by
  obtain ⟨amountStr, testMode, description, planId, hfields⟩ := h.fields
  have hsubscriber : payload.get? "MNT_SUBSCRIBER_ID" = none := by
    rw [hfields "MNT_SUBSCRIBER_ID" (by decide)]
    unfold payanywayAssistantFields
    split <;> simp
  have hcustom : payload.get? "MNT_CUSTOM3" = if cfg.payanywaySimplaSelf = true then none
      else some (PyStr.take 255 (encodeRobokassaUid p.userId)) := by
    rw [hfields "MNT_CUSTOM3" (by decide)]
    unfold payanywayAssistantFields
    split <;> simp
  unfold payanywayUserIdFromPayload Dict.getD
  rw [hsubscriber, hcustom]
  have hblank : PyStr.strip "" = "" := by decide
  by_cases hself : cfg.payanywaySimplaSelf = true
  · simp [hself, hblank]
  have hne := take_encodeRobokassaUid_ne_empty hp
  simp only [hself, if_false, Bool.false_eq_true, Option.getD_none, hblank, Option.getD_some,
    strip_encodeRobokassaUid, ne_eq, not_true_eq_false, hne, not_false_eq_true, if_true]

end SignedForm

/-- A merchant of PayAnyWay, in the default mode. -/
def exampleMerchant : Config :=
  { exampleConfig with
    payanywayMntId := "1"
    payanywayIntegrityCode := "code" }

/-- A request for a checkout of the default plan. -/
def exampleCheckout : Desk.Act :=
  .createPayanyway 1700000000000 exampleUuid none ⟨"@a:s", none, none, none⟩ (by decide)

def exampleDesk : Desk := Desk.step exampleMerchant ⟨exampleState, []⟩ exampleCheckout

def exampleUnpaid : Unpaid := ⟨"setka_plus_" ++ exampleUuid.hex, "@a:s"⟩

/-- The fields of its form, with the signature of a callback. -/
def exampleForm : Dict String String :=
  payanywayAssistantFields exampleMerchant exampleUnpaid.paymentId "299.00" "0" "" "setka_plus_month"
    (PyStr.take 255 (encodeRobokassaUid exampleUnpaid.userId))

theorem exampleUnpaid_mem : exampleUnpaid ∈ exampleDesk.unpaid := by decide +kernel

theorem exampleForm_signed : SignedForm exampleMerchant exampleUnpaid exampleForm := by
  refine ⟨⟨"299.00", "0", "", "setka_plus_month", fun _ _ => rfl⟩, "digest", ?_, ?_⟩
  · decide +kernel
  · decide +kernel

theorem exampleDesk_readable : Readable exampleMerchant 1700000060000 exampleDesk.state exampleUnpaid.userId := by
  have hsub : (getSubscription exampleMerchant 1700000060000 exampleDesk.state
      exampleUnpaid.userId).toOption.isSome = true := by decide +kernel
  have hpayments : (getPayments 1700000060000 exampleDesk.state
      exampleUnpaid.userId).toOption.isSome = true := by decide +kernel
  obtain ⟨sub, hsub⟩ := Option.isSome_iff_exists.mp hsub
  obtain ⟨payments, hpayments⟩ := Option.isSome_iff_exists.mp hpayments
  exact ⟨⟨sub, except_toOption_eq_some.mp hsub⟩, payments, except_toOption_eq_some.mp hpayments⟩

theorem exampleDesk_reachable {step : Desk → Desk → Prop}
    (hstep : step ⟨exampleState, []⟩ exampleDesk) : Reachable Desk.Initial step exampleDesk := by
  have hinit : Desk.Initial ⟨exampleState, []⟩ := rfl
  exact (Reachable.start hinit).next hstep

end Setka.Handlers.Plus
