/-
# Setka.Handlers.Vouchers — voucher codes for Setka Plus.

The two voucher tables with their primary keys, and the operations of `SetkaPlusHandler` on them. Each
function of a table stands for one database transaction, which either commits or leaves the tables as
they were. Every integer is taken to fit its column.
-/
import Setka.Handlers.Plus

namespace Setka.Handlers.Plus

open Setka.Api Setka.Lib

/-! ## §1 The tables -/

/-- A row of `setka_plus_vouchers`. -/
structure Voucher where
  code : String
  planId : Option String
  durationDays : Option ℤ
  expiresAt : ℤ
  maxRedemptions : ℤ
  redemptionCount : ℤ
  maxPerUser : ℤ
  note : Option String
  isActive : Bool
  createdAt : ℤ

/-- A row of `setka_plus_voucher_redemptions`. -/
structure Redemption where
  code : String
  userId : String
  redeemedAt : ℤ

/-- The primary key of a redemption. -/
def Redemption.key (r : Redemption) : String × String := (r.code, r.userId)

/-- The tables that `_ensure_voucher_tables` creates: `code` is the primary key of the vouchers,
`(code, user_id)` that of the redemptions. -/
structure VoucherTables where
  vouchers : List Voucher
  redemptions : List Redemption
  vouchers_key : (vouchers.map Voucher.code).Nodup
  redemptions_key : (redemptions.map Redemption.key).Nodup

namespace VoucherTables

def empty : VoucherTables := ⟨[], [], List.nodup_nil, List.nodup_nil⟩

/-- `SELECT … FROM setka_plus_vouchers WHERE code = ?`. -/
def voucher? (t : VoucherTables) (code : String) : Option Voucher :=
  t.vouchers.find? fun v => v.code = code

/-- `SELECT COUNT(*) FROM setka_plus_voucher_redemptions WHERE code = ? AND user_id = ?`. -/
def userCount (t : VoucherTables) (code userId : String) : ℕ :=
  t.redemptions.countP fun r => r.key = (code, userId)

/-- `INSERT INTO setka_plus_vouchers`. -/
def insertVoucher (t : VoucherTables) (v : Voucher) : Except Error VoucherTables :=
  if h : v.code ∈ t.vouchers.map Voucher.code then .error .integrityError
  else
    .ok { t with
        vouchers := t.vouchers ++ [v]
        vouchers_key := by
          rw [List.map_append]
          exact List.nodup_append'.mpr ⟨t.vouchers_key, by simp, by simpa using h⟩ }

/-- `INSERT INTO setka_plus_voucher_redemptions`. -/
def insertRedemption (t : VoucherTables) (r : Redemption) : Except Error VoucherTables :=
  if h : r.key ∈ t.redemptions.map Redemption.key then .error .integrityError
  else
    .ok { t with
        redemptions := t.redemptions ++ [r]
        redemptions_key := by
          rw [List.map_append]
          exact List.nodup_append'.mpr ⟨t.redemptions_key, by simp, by simpa using h⟩ }

/-- Changing the rows of one code in columns other than the key leaves the keys. -/
theorem codes_map_ite (vouchers : List Voucher) (code : String) {f : Voucher → Voucher}
    (hf : ∀ v, (f v).code = v.code) :
    (vouchers.map fun v => if v.code = code then f v else v).map Voucher.code = vouchers.map Voucher.code := by
  rw [List.map_map]
  apply List.map_congr_left
  intro v _
  show (if v.code = code then f v else v).code = v.code
  split
  · exact hf v
  · rfl

/-- `UPDATE setka_plus_vouchers SET … WHERE code = ?`, for columns other than the key. -/
def updateVoucher (t : VoucherTables) (code : String) (f : Voucher → Voucher)
    (hf : ∀ v, (f v).code = v.code) : VoucherTables :=
  { t with
    vouchers := t.vouchers.map fun v => if v.code = code then f v else v
    vouchers_key := by
      rw [codes_map_ite t.vouchers code hf]
      exact t.vouchers_key }

end VoucherTables

/-! ## §2 Reading a request -/

/-- `_clean_bool`. -/
def cleanBool (default : Bool) : Option Json → Bool
  | some (.bool b) => b
  | some (.str s) =>
    let lowered := PyStr.lower (PyStr.strip s)
    if lowered ∈ ["1", "true", "yes", "on"] then true
    else if lowered ∈ ["0", "false", "no", "off"] then false
    else default
  | some (.int n) => n ≠ 0
  | some (.float (.finite q)) => q ≠ 0
  | some (.float _) => true
  | _ => default

/-- `_normalize_voucher_code`. -/
def normalizeVoucherCode (uni : PyStr.Unicode) (code : String) : Option String :=
  let normalized := PyStr.without ' ' (uni.upper (PyStr.strip code))
  if normalized = "" ∨ 64 < normalized.toList.length then none
  else if normalized.toList.all fun ch => uni.isAlnum ch || ch = '-' then some normalized
  else none

/-- `a or 1` of an optional integer. -/
def orOne (n : Option ℤ) : ℤ :=
  match n with
  | none => 1
  | some n => if n = 0 then 1 else n

/-- No plan and no positive duration. -/
def NoTerm (planId : Option String) (durationDays : Option ℤ) : Prop :=
  planId = none ∧ durationDays.getD 0 ≤ 0

instance (planId : Option String) (durationDays : Option ℤ) : Decidable (NoTerm planId durationDays) :=
  inferInstanceAs (Decidable (_ ∧ _))

/-- The row that `create_voucher` inserts. `generated` is the code it makes up. -/
def createVoucherRow (cfg : Config) (uni : PyStr.Unicode) (now : ℤ) (generated : String)
    (body : List (String × Json)) : Except Error Voucher := do
  let get := Json.member? body
  let code :=
    match get "code" with
    | some (.str code) => (normalizeVoucherCode uni code).getD generated
    | _ => generated
  let planId := cleanStr 64 (get "plan_id")
  let durationDays ← cleanInt (get "duration_days")
  if NoTerm planId durationDays then
    .error (.synapseError 400 "plan_id or duration_days is required" "M_MISSING_PARAM")
  else if planId.isSome ∧ cfg.plans.findPlanById planId = none then
    .error (.synapseError 400 "Unknown plan_id" "M_INVALID_PARAM")
  else do
    match ← cleanTimestampMs false (get "expires_at") with
    | none => .error (.synapseError 400 "expires_at must be in the future" "M_INVALID_PARAM")
    | some expiresAt =>
      if expiresAt ≤ now then
        .error (.synapseError 400 "expires_at must be in the future" "M_INVALID_PARAM")
      else do
        let maxRedemptions := orOne (← cleanInt (get "max_redemptions"))
        let maxPerUser := orOne (← cleanInt (get "max_per_user"))
        if maxRedemptions ≤ 0 ∨ maxPerUser ≤ 0 then
          .error (.synapseError 400 "Invalid redemption limits" "M_INVALID_PARAM")
        else
          pure
            { code, planId, durationDays, expiresAt, maxRedemptions
              redemptionCount := 0
              maxPerUser
              note := cleanStr 512 (get "note")
              isActive := cleanBool true (get "is_active")
              createdAt := now }

/-- The columns that `update_voucher` writes. -/
structure VoucherColumns where
  planId : Option String
  durationDays : Option ℤ
  expiresAt : ℤ
  maxRedemptions : ℤ
  maxPerUser : ℤ
  note : Option String
  isActive : Bool

/-- The columns of a row. -/
def Voucher.columns (v : Voucher) : VoucherColumns :=
  ⟨v.planId, v.durationDays, v.expiresAt, v.maxRedemptions, v.maxPerUser, v.note, v.isActive⟩

/-- The row with other columns. -/
def Voucher.withColumns (v : Voucher) (c : VoucherColumns) : Voucher :=
  { v with
    planId := c.planId, durationDays := c.durationDays, expiresAt := c.expiresAt
    maxRedemptions := c.maxRedemptions, maxPerUser := c.maxPerUser, note := c.note
    isActive := c.isActive }

/-- A limit in the body of an update, in the place of the old one. -/
def updatedLimit (name : String) (body : List (String × Json)) (old : ℤ) : Except Error ℤ :=
  match Json.member? body name with
  | none => .ok old
  | some raw => do
      match ← cleanInt (some raw) with
      | some parsed =>
        if parsed ≤ 0 then .error (.synapseError 400 ("Invalid " ++ name) "M_INVALID_PARAM")
        else pure parsed
      | none => .error (.synapseError 400 ("Invalid " ++ name) "M_INVALID_PARAM")

/-- The columns after an update of those that the body names. -/
def updatedColumns (cfg : Config) (old : VoucherColumns) (body : List (String × Json)) :
    Except Error VoucherColumns := do
  let get := Json.member? body
  let planId := if (get "plan_id").isSome then cleanStr 64 (get "plan_id") else old.planId
  if (get "plan_id").isSome ∧ planId.isSome ∧ cfg.plans.findPlanById planId = none then
    .error (.synapseError 400 "Unknown plan_id" "M_INVALID_PARAM")
  else do
    let durationDays ← if (get "duration_days").isSome then cleanInt (get "duration_days") else .ok old.durationDays
    let expiresAt ← if (get "expires_at").isSome then do
        match ← cleanTimestampMs false (get "expires_at") with
        | some parsed => .ok parsed
        | none => .error (.synapseError 400 "Invalid expires_at" "M_INVALID_PARAM")
      else .ok old.expiresAt
    let maxRedemptions ← updatedLimit "max_redemptions" body old.maxRedemptions
    let maxPerUser ← updatedLimit "max_per_user" body old.maxPerUser
    if NoTerm planId durationDays then
      .error (.synapseError 400 "plan_id or duration_days is required" "M_MISSING_PARAM")
    else
      pure
        { planId, durationDays, expiresAt, maxRedemptions, maxPerUser
          note := if (get "note").isSome then cleanStr 512 (get "note") else old.note
          isActive :=
            if (get "is_active").isSome then cleanBool true (get "is_active") else old.isActive }

/-! ## §3 Transactions -/

/-- `get_voucher`. -/
def getVoucher (uni : PyStr.Unicode) (t : VoucherTables) (code : String) : Except Error Voucher :=
  match normalizeVoucherCode uni code with
  | none => .error (.synapseError 400 "Invalid voucher code" "M_INVALID_PARAM")
  | some normalized =>
    match t.voucher? normalized with
    | none => .error (.synapseError 404 "Voucher not found" "M_NOT_FOUND")
    | some voucher => .ok voucher

/-- The transaction of `create_voucher`. -/
def insertCreated (t : VoucherTables) (v : Voucher) : Except Error VoucherTables :=
  match t.insertVoucher v with
  | .error _ => .error (.synapseError 409 "Voucher code already exists" "M_NOT_FOUND")
  | .ok t => .ok t

/-- A write to a row that was read in an earlier transaction. -/
inductive VoucherWrite
  | columns (code : String) (c : VoucherColumns)
  | deactivate (code : String)

/-- The code of the row that was read. -/
def VoucherWrite.code : VoucherWrite → String
  | columns code _ => code
  | deactivate code => code

/-- The first transaction of `update_voucher`, and what it makes of the body. -/
def readUpdate (cfg : Config) (uni : PyStr.Unicode) (t : VoucherTables) (code : String)
    (body : List (String × Json)) : Except Error VoucherWrite := do
  let existing ← getVoucher uni t code
  let columns ← updatedColumns cfg existing.columns body
  pure (.columns existing.code columns)

/-- The first transaction of `delete_voucher`. -/
def readDelete (uni : PyStr.Unicode) (t : VoucherTables) (code : String) : Except Error VoucherWrite := do
  let existing ← getVoucher uni t code
  pure (.deactivate existing.code)

/-- The second transaction of both. -/
def VoucherTables.write (t : VoucherTables) : VoucherWrite → VoucherTables
  | .columns code c => t.updateVoucher code (fun v => v.withColumns c) fun _ => rfl
  | .deactivate code => t.updateVoucher code (fun v => { v with isActive := false }) fun _ => rfl

/-- `_reserve`, the transaction of `redeem_voucher`. -/
def reserve (now : ℤ) (userId normalized : String) (t : VoucherTables) : Except Error (Voucher × VoucherTables) :=
  match t.voucher? normalized with
  | none => .error (.synapseError 404 "Промокод не найден" "M_NOT_FOUND")
  | some voucher =>
    if voucher.isActive = false then
      .error (.synapseError 403 "Промокод недействителен" "M_FORBIDDEN")
    else if voucher.expiresAt ≤ now then
      .error (.synapseError 403 "Срок действия промокода истёк" "M_FORBIDDEN")
    else if voucher.maxRedemptions ≤ voucher.redemptionCount then
      .error (.synapseError 403 "Промокод уже использован максимальное число раз" "M_FORBIDDEN")
    else if voucher.maxPerUser ≤ t.userCount normalized userId then
      .error (.synapseError 403 "Вы уже активировали этот промокод" "M_FORBIDDEN")
    else do
      let t ← t.insertRedemption ⟨normalized, userId, now⟩
      pure (voucher, t.updateVoucher normalized
        (fun v => { v with redemptionCount := v.redemptionCount + 1 }) fun _ => rfl)

/-! ## §4 Operations -/

/-- The voucher tables beside the account data. -/
structure VoucherState where
  plus : State
  tables : VoucherTables

/-- An operation on the account data. -/
def onPlus {α : Type} (m : Action State Error α) : Action VoucherState Error α :=
  ⟨fun s => ((m.run s.plus).1, { s with plus := (m.run s.plus).2 })⟩

/-- One transaction that writes to the tables, or raises and writes nothing. -/
def onTables {α : Type} (f : VoucherTables → Except Error (α × VoucherTables)) : Action VoucherState Error α :=
  ⟨fun s =>
    match f s.tables with
    | .ok (a, t) => (.ok a, { s with tables := t })
    | .error e => (.error e, s)⟩

/-- `create_voucher`. -/
def createVoucher (cfg : Config) (uni : PyStr.Unicode) (now : ℤ) (generated : String)
    (body : List (String × Json)) : Action VoucherState Error Voucher := do
  let row ← .lift (createVoucherRow cfg uni now generated body)
  onTables fun t => (insertCreated t row).map fun t => ((), t)
  .reads fun s => getVoucher uni s.tables row.code

/-- `update_voucher`. -/
def updateVoucher (cfg : Config) (uni : PyStr.Unicode) (code : String)
    (body : List (String × Json)) : Action VoucherState Error Voucher := do
  let write ← .reads fun s => readUpdate cfg uni s.tables code body
  onTables fun t => .ok ((), t.write write)
  .reads fun s => getVoucher uni s.tables write.code

/-- `delete_voucher`. -/
def deleteVoucher (uni : PyStr.Unicode) (code : String) : Action VoucherState Error Unit := do
  let write ← .reads fun s => readDelete uni s.tables code
  onTables fun t => .ok ((), t.write write)

/-- The duration that a redeemed voucher is worth. -/
def Voucher.redeemedDays (cfg : Config) (v : Voucher) : ℤ :=
  let planDays :=
    match (cleanStr 64 (v.planId.map Json.str)).bind fun planId => cfg.plans.findPlanById planId with
    | some plan => plan.durationDays
    | none => cfg.plusDurationDays
  match v.durationDays with
  | some days => if days ≤ 0 then planDays else days
  | none => planDays

/-- The activation that a redeemed voucher leads to. -/
def Voucher.activation (cfg : Config) (v : Voucher) (userId normalized : String) : Activation where
  userId
  paymentId := "voucher:" ++ normalized
  paymentProvider := "voucher"
  amount := .finite 0
  planId := cleanStr 64 (v.planId.map Json.str)
  durationDays := some (v.redeemedDays cfg)
  currency := "RUB"

/-- `redeem_voucher`. -/
def redeemVoucher (cfg : Config) (uni : PyStr.Unicode) (now : ℤ) (userId code : String) :
    Action VoucherState Error (String × Subscription) :=
  match normalizeVoucherCode uni code with
  | none => .raise (.synapseError 400 "Недействительный промокод" "M_INVALID_PARAM")
  | some normalized => do
      let voucher ← onTables (reserve now userId normalized)
      let subscription ← onPlus (activateSubscription cfg now (voucher.activation cfg userId normalized))
      pure (normalized, subscription)

end Setka.Handlers.Plus
