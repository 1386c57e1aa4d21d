/-
# Setka.Handlers.PlusSteps — the operations on account data, access by access.

Every method of `SetkaPlusHandler` that changes account data awaits each read and each write of it, and
other requests run in between. Here the methods are programs of these accesses; run without
interruption, they are the methods as they were modelled before. The time is one for each call.
-/
import Setka.Handlers.PlusReturn
import Setka.Handlers.StickerPacks
import Setka.Lib.Interleave

namespace Setka.Handlers.Plus

open Setka.Api Setka.Lib Function

/-! ## §1 Accesses -/

/-- A program that accesses the account data of the users, by user and type. -/
abbrev Steps (α : Type) : Type :=
  Prog (String × String) (Option (List (String × Json))) Error α

/-- The account data of a state. -/
def State.store (s : State) : String × String → Option (List (String × Json)) :=
  fun k => s.accountData k.1 k.2

/-- A state with a single value. -/
def State.only (userId type : String) (raw : Option (List (String × Json))) : State where
  accountData u t := if u = userId ∧ t = type then raw else none
  payanywayPendingUsers := .empty

/-- `get_global_account_data_by_type_for_user`, and what is made of it. -/
def readData {α : Type} (userId type : String) (f : State → Except Error α) : Steps α :=
  .read (userId, type) fun raw => .ret (f (.only userId type raw))

/-- `add_account_data_for_user`. -/
def writeData (userId type : String) (content : List (String × Json)) : Steps Unit :=
  .update (userId, type) (fun _ => some content) (.ret (.ok ()))

/-- `remove_account_data_for_user`: one transaction. -/
def removeData (userId type : String) : Steps Unit :=
  .update (userId, type) (Option.map fun _ => []) (.ret (.ok ()))

/-! ## §2 The operations -/

/-- `set_subscription`. -/
def setSubscriptionSteps (cfg : Config) (now : ℤ) (userId : String) (updates : List (String × Json)) :
    Steps Subscription := do
  let existing ← readData userId subscriptionType fun s => getSubscription cfg now s userId
  let get := Json.member? updates
  let status ← match cleanStr 32 (get "status") with
    | none => pure []
    | some status =>
      if PyStr.lower status ∈ subscriptionStatus then
        pure [("status", Json.str (PyStr.lower status))]
      else
        .ret (.error (.synapseError 400 ("Unsupported status: " ++ status) "M_INVALID_PARAM"))
  let tier :=
    match cleanStr 64 (get "tier") with
    | none => []
    | some tier =>
      ("tier", Json.str tier) :: match cfg.plans.findPlanById (some tier) with
        | none => []
        | some plan =>
          [("plan_name", .str plan.name), ("duration_days", .int plan.durationDays),
            ("price_rub", .float plan.priceRub)]
  let startedAt ← .ret (cleanTimestampMs true (get "started_at"))
  let expiresAt ← .ret (cleanTimestampMs true (get "expires_at"))
  let amount ← .ret (cleanFloat (get "amount"))
  let payload := existing.toMembers ++ status ++ tier ++
    (startedAt.map fun v => ("started_at", Json.int v)).toList ++
    (expiresAt.map fun v => ("expires_at", Json.int v)).toList ++
    ((cleanStr 255 (get "last_payment_id")).map fun v => ("last_payment_id", Json.str v)).toList ++
    ((cleanStr 64 (get "payment_provider")).map fun v => ("payment_provider", Json.str v)).toList ++
    (amount.map fun v => ("amount", Json.float v.round2)).toList ++
    ((cleanStr 16 (get "currency")).map fun v => ("currency", Json.str v)).toList ++
    [("updated_at", .int now)]
  let payload ← .ret (normalizeSubscription cfg now (some payload))
  writeData userId subscriptionType payload.toMembers
  pure payload

/-- `record_payment`. The index of pending payments is not account data. -/
def recordPaymentSteps (now : ℤ) (userId : String) (payment : PaymentArgs) : Steps Unit := do
  let current ← readData userId paymentsType fun s => getPayments now s userId
  match cleanStr 255 (some (.str payment.paymentId)), cleanStr 32 (some (.str payment.status)) with
  | some paymentId, some status => do
      let existing := current.find? fun item => item.paymentId = paymentId
      let entry := payment.entry now paymentId status existing
      let kept := current.filter fun item => item.paymentId ≠ paymentId
      let payments := (entry :: kept).take 100
      writeData userId paymentsType [("payments", .arr (payments.map Payment.toJson))]
  | _, _ =>
    .ret (.error (.synapseError 400 "payment_id and status are required" "M_INVALID_PARAM"))

/-- `mark_payment_failed`. -/
def markPaymentFailedSteps (now : ℤ) (userId paymentId message : String) : Steps Unit := do
  let payments ← readData userId paymentsType fun s => getPayments now s userId
  match payments.find? fun item => item.paymentId = paymentId with
  | none => pure ()
  | some item =>
    recordPaymentSteps now userId { item.toArgs with
        paymentId
        status := "failed"
        message := some (PyStr.take 255 message) }

/-- `activate_subscription`. -/
def activateSubscriptionSteps (cfg : Config) (now : ℤ) (a : Activation) : Steps Subscription := do
  let plan := cfg.plans.resolvePlan a.planId
  let existing ← readData a.userId subscriptionType fun s => getSubscription cfg now s a.userId
  let payload := a.payload now plan existing
  writeData a.userId subscriptionType payload
  recordPaymentSteps now a.userId (a.paymentArgs now plan)
  .ret (normalizeSubscription cfg now (some payload))

/-- `_assert_plus_active`, and the check of `upsert_sticker_pack` for emoji packs. -/
def assertPlusActiveSteps (cfg : Config) (now : ℤ) (userId : String) : Steps Unit := do
  let subscription ← readData userId subscriptionType fun s => getSubscription cfg now s userId
  if subscription.isActive then pure ()
  else .ret (.error (.synapseError 403 "Setka Plus subscription is required." "M_FORBIDDEN"))

def assertEmojiAllowedSteps (cfg : Config) (now : ℤ) (userId : String) (rights : EmojiRights)
    (kind : PackKind) : Steps Unit :=
  if kind = .emoji ∧ rights.adminOverride = false then
    if rights.allowEmojiImport = false then
      .ret (.error (.synapseError 403 "Emoji pack management is not available." "M_FORBIDDEN"))
    else assertPlusActiveSteps cfg now userId
  else pure ()

/-- `upsert_sticker_pack`. -/
def upsertStickerPackSteps (cfg : Config) (uni : PyStr.Unicode) (now : ℤ) (userId : String)
    (a : UpsertArgs) : Steps StickerPack :=
  match cleanStr 128 (some (.str a.packId)) with
  | none => .ret (.error (.synapseError 400 "pack_id is required" "M_INVALID_PARAM"))
  | some packId => do
      let get := Json.member? a.content
      let packs ← readData userId stickerPacksType fun s => getStickerPacks uni now a.readIds s userId
      let existing := packs.find? fun pack => pack.id = packId
      match (cleanStr 120 (get "name")).or (existing.map StickerPack.name) with
      | none =>
        .ret (.error (.synapseError 400 "Sticker pack name is required" "M_MISSING_PARAM"))
      | some name => do
          let kind := (packKind? uni (get "kind")).getD ((existing.map StickerPack.kind).getD .sticker)
          assertEmojiAllowedSteps cfg now userId a.rights kind
          let stickers ← .ret (updatedStickers a.newIds kind existing (get "stickers"))
          let pack : StickerPack :=
            { id := packId, name, kind, stickers
              createdAt := (existing.map StickerPack.createdAt).getD now
              updatedAt := now }
          writeData userId stickerPacksType (packsContent (upsertedPacks uni packs pack))
          pure pack

/-- `delete_sticker_pack`. -/
def deleteStickerPackSteps (uni : PyStr.Unicode) (now : ℤ) (readIds : ℕ → ℕ → Uuid)
    (userId packId : String) (adminOverride : Bool) : Steps Unit := do
  let packs ← readData userId stickerPacksType fun s => getStickerPacks uni now readIds s userId
  let existing := packs.find? fun pack => pack.id = packId
  if adminOverride = false ∧ (existing.map StickerPack.kind) = some .emoji then
    .ret (.error (.synapseError 403 "Emoji pack management is not available." "M_FORBIDDEN"))
  else
    let next := packs.filter fun pack => pack.id ≠ packId
    if next.length = packs.length then pure ()
    else if next = [] then removeData userId stickerPacksType
    else writeData userId stickerPacksType (packsContent next)

/-! ## §3 The same methods -/

/-- Without interruption, the program answers and stores what the method does. -/
def Refines {α : Type} (m : Action State Error α) (p : Steps α) : Prop :=
  ∀ s, ((m.run s).1, (m.run s).2.store) = p.run s.store

section Rules

variable {α β : Type}

theorem refines_lift (r : Except Error α) : Refines (.lift r) (.ret r) := fun _ => rfl

theorem refines_pure (a : α) : Refines (pure a) (pure a) := fun _ => rfl

theorem refines_raise (e : Error) : Refines (.raise e : Action State Error α) (.ret (.error e)) :=
  fun _ => rfl

theorem Refines.bind {m : Action State Error α} {p : Steps α} {f : α → Action State Error β}
    {g : α → Steps β} (hm : Refines m p) (hf : ∀ a, Refines (f a) (g a)) :
    Refines (m >>= f) (p >>= g) := by
  intro s
  have hs := hm s
  rw [Prog.run_bind]
  rcases hrun : m.run s with ⟨error | a, t⟩
  · rw [hrun] at hs
    rw [Action.run_bind_of_error hrun, Action.run_bind_of_error (m := ⟨p.run⟩) hs.symm]
  rw [hrun] at hs
  rw [Action.run_bind_of_ok hrun, Action.run_bind_of_ok (m := ⟨p.run⟩) hs.symm]
  exact hf a t

/-- A read of one value. -/
theorem refines_reads {userId type : String} {f : State → Except Error α}
    (h : ∀ s t : State, t.accountData userId type = s.accountData userId type → f t = f s) :
    Refines (.reads f) (readData userId type f) := by
  intro s
  have honly : f (.only userId type (s.store (userId, type))) = f s := by
    apply h
    exact if_pos ⟨rfl, rfl⟩
  show (f s, s.store) = (f (.only userId type (s.store (userId, type))), s.store)
  rw [honly]

theorem store_addAccountData (s : State) (userId type : String) (content : List (String × Json)) :
    (s.addAccountData userId type content).store = update s.store (userId, type) (some content) := by
  funext ⟨u, t⟩
  rw [update_apply]
  show (if u = userId ∧ t = type then some content else s.accountData u t) = _
  simp only [Prod.mk.injEq]
  rfl

/-- A write of one value, whatever else the method keeps in memory. -/
theorem refines_modify {userId type : String} {content : List (String × Json)} {f : State → State}
    (h : ∀ s, (f s).store = (s.addAccountData userId type content).store) :
    Refines (.modify f) (writeData userId type content) := by
  intro s
  show (Except.ok (), (f s).store) = (Except.ok (), update s.store (userId, type) _)
  rw [h, store_addAccountData]

theorem refines_remove (userId type : String) :
    Refines (.modify fun s => s.removeAccountData userId type) (removeData userId type) := by
  intro s
  show (Except.ok (), (s.removeAccountData userId type).store) =
    (Except.ok (), update s.store (userId, type) ((s.store (userId, type)).map fun _ => []))
  unfold State.removeAccountData
  cases hraw : s.accountData userId type with
  | some raw =>
    rw [store_addAccountData, show s.store (userId, type) = some raw from hraw]
    rfl
  | none =>
    have hnone : s.store (userId, type) = none := hraw
    rw [hnone, show Option.map (fun _ : List (String × Json) => ([] : List (String × Json))) none =
      s.store (userId, type) from hnone.symm, update_eq_self]

end Rules

theorem refines_getSubscription (cfg : Config) (now : ℤ) (userId : String) :
    Refines (.reads fun s => getSubscription cfg now s userId)
      (readData userId subscriptionType fun s => getSubscription cfg now s userId) :=
  refines_reads fun _ _ h => getSubscription_congr h

theorem refines_getPayments (now : ℤ) (userId : String) : Refines (.reads fun s => getPayments now s userId)
      (readData userId paymentsType fun s => getPayments now s userId) :=
  refines_reads fun _ _ h => getPayments_congr h

theorem refines_getStickerPacks (uni : PyStr.Unicode) (now : ℤ) (readIds : ℕ → ℕ → Uuid) (userId : String) :
    Refines (.reads fun s => getStickerPacks uni now readIds s userId)
      (readData userId stickerPacksType fun s => getStickerPacks uni now readIds s userId) := by
  apply refines_reads
  intro s t h
  unfold getStickerPacks
  rw [h]

/-- The last part of `set_subscription`, whatever its payload. -/
theorem refines_storeSubscription (cfg : Config) (now : ℤ) (userId : String)
    (startedAt expiresAt : Except Error (Option ℤ)) (amount : Except Error (Option PyFloat))
    (payload : Option ℤ → Option ℤ → Option PyFloat → List (String × Json)) :
    Refines (do
        let startedAt ← .lift startedAt
        let expiresAt ← .lift expiresAt
        let amount ← .lift amount
        let payload ← .lift (normalizeSubscription cfg now (some (payload startedAt expiresAt amount)))
        .modify fun s => s.addAccountData userId subscriptionType payload.toMembers
        pure payload)
      (do
        let startedAt ← .ret startedAt
        let expiresAt ← .ret expiresAt
        let amount ← .ret amount
        let payload ← .ret (normalizeSubscription cfg now (some (payload startedAt expiresAt amount)))
        writeData userId subscriptionType payload.toMembers
        pure payload) := by
  apply (refines_lift _).bind
  intro startedAt
  apply (refines_lift _).bind
  intro expiresAt
  apply (refines_lift _).bind
  intro amount
  apply (refines_lift _).bind
  intro payload
  apply Refines.bind (refines_modify fun s => rfl)
  exact fun _ => refines_pure _

theorem refines_setSubscription (cfg : Config) (now : ℤ) (userId : String) (updates : List (String × Json)) :
    Refines (setSubscription cfg now userId updates) (setSubscriptionSteps cfg now userId updates) := by
  apply (refines_getSubscription cfg now userId).bind
  intro existing
  dsimp only
  cases cleanStr 32 (Json.member? updates "status") with
  | none =>
    exact (refines_pure _).bind fun _ => refines_storeSubscription cfg now userId _ _ _ _
  | some status =>
    dsimp only
    by_cases hstatus : PyStr.lower status ∈ subscriptionStatus
    · rw [if_pos hstatus, if_pos hstatus]
      exact (refines_pure _).bind fun _ => refines_storeSubscription cfg now userId _ _ _ _
    · rw [if_neg hstatus, if_neg hstatus]
      exact (refines_raise _).bind fun _ => refines_storeSubscription cfg now userId _ _ _ _

theorem refines_recordPayment (now : ℤ) (userId : String) (payment : PaymentArgs) :
    Refines (recordPayment now userId payment) (recordPaymentSteps now userId payment) := by
  apply (refines_getPayments now userId).bind
  intro current
  cases cleanStr 255 (some (.str payment.paymentId)) with
  | none => exact refines_raise _
  | some paymentId =>
    cases cleanStr 32 (some (.str payment.status)) with
    | none => exact refines_raise _
    | some status => exact refines_modify fun s => rfl

theorem refines_markPaymentFailed (now : ℤ) (userId paymentId message : String) :
    Refines (markPaymentFailed now userId paymentId message)
      (markPaymentFailedSteps now userId paymentId message) := by
  apply (refines_getPayments now userId).bind
  intro payments
  cases payments.find? fun item => item.paymentId = paymentId with
  | none => exact refines_pure ()
  | some item => exact refines_recordPayment now userId _

theorem refines_activateSubscription (cfg : Config) (now : ℤ) (a : Activation) :
    Refines (activateSubscription cfg now a) (activateSubscriptionSteps cfg now a) := by
  apply (refines_getSubscription cfg now a.userId).bind
  intro existing
  apply Refines.bind (refines_modify fun s => rfl)
  intro _
  apply (refines_recordPayment now a.userId _).bind
  exact fun _ => refines_lift _

theorem refines_assertEmojiAllowed (cfg : Config) (now : ℤ) (userId : String) (rights : EmojiRights)
    (kind : PackKind) :
    Refines (assertEmojiAllowed cfg now userId rights kind)
      (assertEmojiAllowedSteps cfg now userId rights kind) := by
  unfold assertEmojiAllowed assertEmojiAllowedSteps
  split
  · split
    · exact refines_raise _
    · apply (refines_getSubscription cfg now userId).bind
      intro subscription
      split
      · exact refines_pure ()
      · exact refines_raise _
  · exact refines_pure ()

theorem refines_upsertStickerPack (cfg : Config) (uni : PyStr.Unicode) (now : ℤ) (userId : String)
    (a : UpsertArgs) :
    Refines (upsertStickerPack cfg uni now userId a) (upsertStickerPackSteps cfg uni now userId a) := by
  unfold upsertStickerPack upsertStickerPackSteps
  cases cleanStr 128 (some (.str a.packId)) with
  | none => exact refines_raise _
  | some packId =>
    apply (refines_getStickerPacks uni now a.readIds userId).bind
    intro packs
    dsimp only
    cases (cleanStr 120 (Json.member? a.content "name")).or
        ((packs.find? fun pack => pack.id = packId).map StickerPack.name) with
    | none => exact refines_raise _
    | some name =>
      apply (refines_assertEmojiAllowed cfg now userId a.rights _).bind
      intro _
      apply (refines_lift _).bind
      intro stickers
      apply Refines.bind (refines_modify fun s => rfl)
      exact fun _ => refines_pure _

theorem refines_deleteStickerPack (uni : PyStr.Unicode) (now : ℤ) (readIds : ℕ → ℕ → Uuid)
    (userId packId : String) (adminOverride : Bool) :
    Refines (deleteStickerPack uni now readIds userId packId adminOverride)
      (deleteStickerPackSteps uni now readIds userId packId adminOverride) := by
  apply (refines_getStickerPacks uni now readIds userId).bind
  intro packs
  dsimp only
  split
  · exact refines_raise _
  split
  · exact refines_pure ()
  split
  · exact refines_remove userId stickerPacksType
  · exact refines_modify fun s => rfl

end Setka.Handlers.Plus
