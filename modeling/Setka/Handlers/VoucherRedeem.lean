/-
# Setka.Handlers.VoucherRedeem — when a voucher can be redeemed.

A voucher has two limits: how often it is redeemed in all, and how often by one user. The second is
checked by counting rows of a table whose primary key allows one row for a user, so no user redeems a
voucher twice whatever the limit says.
-/
import Setka.Handlers.PlusActivate
import Setka.Handlers.Vouchers

namespace Setka.Handlers.Plus

open Setka.Api Setka.Lib Setka.Lib.Action

/-! ## §1 Reserving -/

variable {t : VoucherTables} {code userId : String}

theorem VoucherTables.userCount_eq_zero_iff :
    t.userCount code userId = 0 ↔ (code, userId) ∉ t.redemptions.map Redemption.key := by
  unfold userCount
  simp

theorem VoucherTables.insertRedemption_ok_iff {r : Redemption} :
    (∃ t', t.insertRedemption r = .ok t') ↔ t.userCount r.code r.userId = 0 := by
  rw [userCount_eq_zero_iff]
  unfold insertRedemption
  split
  · rename_i h
    constructor
    · rintro ⟨t', ht⟩
      exact absurd ht (by simp)
    · intro hfresh
      exact absurd h hfresh
  · rename_i h
    exact ⟨fun _ => h, fun _ => ⟨_, rfl⟩⟩

/-- The limits of a voucher leave room for one more redemption by the user. -/
def Voucher.HasRoom (v : Voucher) (now : ℤ) (userCount : ℕ) : Prop :=
  v.isActive = true ∧ now < v.expiresAt ∧ v.redemptionCount < v.maxRedemptions ∧
    userCount < v.maxPerUser

instance (v : Voucher) (now : ℤ) (userCount : ℕ) : Decidable (v.HasRoom now userCount) :=
  inferInstanceAs (Decidable (_ ∧ _))

/-- **What the transaction checks**: the limits of the voucher, and the key of the table. -/
theorem reserve_ok_iff {now : ℤ} : (∃ r, reserve now userId code t = .ok r) ↔
      (∃ v, t.voucher? code = some v ∧ v.HasRoom now (t.userCount code userId)) ∧
        t.userCount code userId = 0 := by
  unfold reserve Voucher.HasRoom
  cases hv : t.voucher? code with
  | none => simp
  | some v =>
    have hkey := VoucherTables.insertRedemption_ok_iff (t := t) (r := ⟨code, userId, now⟩)
    simp only [Option.some.injEq, exists_eq_left']
    split
    · simp_all
    split
    · simp only [reduceCtorEq, exists_false, false_iff, not_and]
      omega
    split
    · simp only [reduceCtorEq, exists_false, false_iff, not_and]
      omega
    split
    · simp only [reduceCtorEq, exists_false, false_iff, not_and]
      omega
    · -- all limits leave room, so the key decides
      rename_i hactive hexpires hmax hper
      rw [← hkey]
      constructor
      · rintro ⟨r, hr⟩
        obtain ⟨t', ht', -⟩ := except_bind_eq_ok.mp hr
        exact ⟨⟨by simpa using hactive, by omega, by omega, by omega⟩, t', ht'⟩
      · rintro ⟨-, t', ht'⟩
        exact ⟨_, except_bind_eq_ok.mpr ⟨t', ht', rfl⟩⟩

/-! ## §2 Redeeming -/

/-- A call returns. -/
def Redeems (cfg : Config) (uni : PyStr.Unicode) (now : ℤ) (userId code : String) (s : VoucherState) : Prop :=
  ∃ r t, (redeemVoucher cfg uni now userId code).run s = (.ok r, t)

/-- The normalised code exists, is active and unexpired, and both limits leave room. -/
def Redeemable (uni : PyStr.Unicode) (now : ℤ) (userId code : String) (t : VoucherTables) : Prop :=
  ∃ normalized v, normalizeVoucherCode uni code = some normalized ∧
    t.voucher? normalized = some v ∧ v.HasRoom now (t.userCount normalized userId)

/-- The user has not redeemed the code before. -/
def FirstRedemption (uni : PyStr.Unicode) (userId code : String) (t : VoucherTables) : Prop :=
  ∀ normalized, normalizeVoucherCode uni code = some normalized → t.userCount normalized userId = 0

theorem cleanStr_voucherId (normalized : String) :
    cleanStr 255 (some (.str ("voucher:" ++ normalized))) ≠ none := by
  have hstrip : PyStr.strip ("voucher:" ++ normalized) ≠ "" := by
    intro h
    have hspace := PyStr.strip_eq_empty_iff.mp h 'v' (by
      rw [String.toList_append]
      exact List.mem_append_left _ (by decide))
    exact absurd hspace (by decide)
  unfold cleanStr
  dsimp only
  rw [if_neg hstrip]
  simp

variable {s : VoucherState}

theorem run_onTables_ok {α : Type} {f : VoucherTables → Except Error (α × VoucherTables)} {a : α}
    (h : f s.tables = .ok (a, t)) : (onTables f).run s = (.ok a, { s with tables := t }) := by
  unfold onTables
  dsimp only
  rw [h]

theorem run_onTables_error {α : Type} {f : VoucherTables → Except Error (α × VoucherTables)} {e : Error}
    (h : f s.tables = .error e) : (onTables f).run s = (.error e, s) := by
  unfold onTables
  dsimp only
  rw [h]

/-- **When a call returns**: the transaction commits and the activation goes through. -/
theorem redeems_iff {cfg : Config} {uni : PyStr.Unicode} {now : ℤ} : Redeems cfg uni now userId code s ↔
      Redeemable uni now userId code s.tables ∧ FirstRedemption uni userId code s.tables ∧
        Readable cfg now s.plus userId := by
  unfold Redeems Redeemable FirstRedemption redeemVoucher
  cases hcode : normalizeVoucherCode uni code with
  | none =>
    simp only [run_raise, Prod.mk.injEq, reduceCtorEq, false_and, exists_false]
  | some normalized =>
    simp only [Option.some.injEq, exists_and_left, exists_eq_left', forall_eq']
    rw [← and_assoc, ← reserve_ok_iff]
    constructor
    · rintro ⟨r, t, hrun⟩
      obtain ⟨voucher, s', hreserve, hrun⟩ := exists_of_run_bind_eq_ok hrun
      obtain ⟨sub, s'', hactivate, -⟩ := exists_of_run_bind_eq_ok hrun
      cases hr : reserve now userId normalized s.tables with
      | error e =>
        rw [run_onTables_error hr] at hreserve
        exact absurd (congrArg Prod.fst hreserve) (by simp)
      | ok r =>
        rw [run_onTables_ok hr] at hreserve
        obtain ⟨hvoucher, rfl⟩ := Prod.mk.inj hreserve
        have hsub : ((activateSubscription cfg now
            (voucher.activation cfg userId normalized)).run s.plus).1 = .ok sub :=
          congrArg Prod.fst hactivate
        exact ⟨⟨_, rfl⟩, (activateSubscription_ok_iff.mp ⟨sub, _, Prod.ext hsub rfl⟩).1⟩
    · rintro ⟨⟨⟨voucher, t⟩, hr⟩, hreadable⟩
      obtain ⟨sub, p, hactivate⟩ := activateSubscription_ok_iff.mpr (⟨hreadable, cleanStr_voucherId normalized⟩ :
          Readable cfg now s.plus (voucher.activation cfg userId normalized).userId ∧ _)
      rw [run_bind_of_ok (run_onTables_ok hr)]
      have hplus : (onPlus (activateSubscription cfg now
          (voucher.activation cfg userId normalized))).run { s with tables := t } =
          (.ok sub, ⟨p, t⟩) := by
        show (((activateSubscription cfg now (voucher.activation cfg userId normalized)).run s.plus).1, _) = _
        rw [hactivate]
      rw [run_bind_of_ok hplus]
      exact ⟨(normalized, sub), _, rfl⟩

/-! ## §3 Runs -/

/-- A call of one of the operations on vouchers. -/
inductive VoucherOp
  | create (now : ℤ) (generated : String) (body : List (String × Json))
  | update (code : String) (body : List (String × Json))
  | delete (code : String)
  | redeem (now : ℤ) (userId code : String)

/-- The state after a call. -/
def VoucherOp.apply (cfg : Config) (uni : PyStr.Unicode) (s : VoucherState) : VoucherOp → VoucherState
  | create now generated body => ((createVoucher cfg uni now generated body).run s).2
  | update code body => ((updateVoucher cfg uni code body).run s).2
  | delete code => ((deleteVoucher uni code).run s).2
  | redeem now userId code => ((redeemVoucher cfg uni now userId code).run s).2

def runOps (cfg : Config) (uni : PyStr.Unicode) (s : VoucherState) (ops : List VoucherOp) :
    VoucherState := ops.foldl (VoucherOp.apply cfg uni) s

/-- `P` of every redemption of a run: of the state it finds and its arguments. -/
def EachRedemption (cfg : Config) (uni : PyStr.Unicode) (s : VoucherState)
    (P : VoucherState → ℤ → String → String → Prop) : List VoucherOp → Prop :=
  AllSteps fun before op => ∀ now userId code, op = .redeem now userId code →
    P (runOps cfg uni s before) now userId code

/-- A call returns if and only if the voucher is redeemable. -/
def RedeemsAsLimited (cfg : Config) (uni : PyStr.Unicode) (s : VoucherState) : List VoucherOp → Prop :=
  EachRedemption cfg uni s fun s now userId code =>
    Redeems cfg uni now userId code s ↔ Redeemable uni now userId code s.tables

/-- Whoever redeems a redeemable voucher does so for the first time, with readable account data. -/
def RedeemedOnce (cfg : Config) (uni : PyStr.Unicode) (s : VoucherState) : List VoucherOp → Prop :=
  EachRedemption cfg uni s fun s now userId code =>
    Redeemable uni now userId code s.tables →
      FirstRedemption uni userId code s.tables ∧ Readable cfg now s.plus userId

/-- A voucher that everyone may redeem twice is created, and redeemed once. -/
def exampleOps : List VoucherOp :=
  [.create 1700000000000 "" [("code", .str "gift-2"), ("plan_id", .str "setka_plus_month"),
      ("expires_at", .int 1800000000000), ("max_redemptions", .int 10), ("max_per_user", .int 2)],
    .redeem 1700000001000 "@user:server" "GIFT-2"]

def exampleVoucherState : VoucherState := ⟨exampleState, VoucherTables.empty⟩

end Setka.Handlers.Plus
