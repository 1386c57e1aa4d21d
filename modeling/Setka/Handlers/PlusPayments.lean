/-
# Setka.Handlers.PlusPayments — reading recorded payments back.

`record_payment` writes the list that `get_payments` read, with its entry in front. The next read
cleans every entry again: it strips the ids and statuses that were cut, and changes neither otherwise.
-/
import Setka.Handlers.PlusActivate
import Setka.Handlers.PlusClean

namespace Setka.Handlers.Plus

open Setka.Api Setka.Lib Json

/-! ## §1 Lower case -/

theorem isSpace_of_printable {c : Char} (h : 33 ≤ c.toNat ∧ c.toNat ≤ 126) : PyStr.isSpace c = false := by
  unfold PyStr.isSpace
  simp only [Bool.or_eq_false_iff, Bool.and_eq_false_iff, decide_eq_false_iff_not, beq_eq_false_iff_ne]
  omega

/-- Case does not matter to white space. -/
theorem isSpace_toLower (c : Char) : PyStr.isSpace c.toLower = PyStr.isSpace c := by
  by_cases hupper : c.val ≥ 'A'.val ∧ c.val ≤ 'Z'.val
  · have hge : 65 ≤ c.toNat := hupper.1
    have hle : c.toNat ≤ 90 := hupper.2
    have hlower : c.toLower.toNat = c.toNat + 32 := by
      unfold Char.toLower
      rw [dif_pos hupper]
      show (c.val + 32).toNat = c.val.toNat + 32
      have hval : c.val.toNat = c.toNat := rfl
      show (c.toNat + 32) % 4294967296 = _
      omega
    rw [isSpace_of_printable (by omega), isSpace_of_printable (by omega)]
  · unfold Char.toLower
    rw [dif_neg hupper]

theorem strip_lower (s : String) : PyStr.strip (PyStr.lower s) = PyStr.lower (PyStr.strip s) := by
  have hspace : PyStr.isSpace ∘ Char.toLower = PyStr.isSpace := funext isSpace_toLower
  apply String.toList_injective
  rw [PyStr.strip, PyStr.lower, PyStr.lower, PyStr.strip]
  simp only [String.toList_ofList, List.dropWhile_map, hspace, ← List.map_reverse]

theorem Fits.lower {maxLen : ℕ} {x : String} (h : Fits maxLen x) : Fits maxLen (PyStr.lower x) where
  length := by
    rw [PyStr.lower, String.toList_ofList, List.length_map]
    exact h.length
  not_blank := by
    rw [strip_lower]
    intro hempty
    have hlist := congrArg String.toList hempty
    rw [PyStr.lower, String.toList_ofList] at hlist
    exact h.not_blank (String.toList_injective (List.map_eq_nil_iff.mp hlist))

/-! ## §2 Reading back -/

/-- A payment as `get_payments` returns it and `record_payment` writes it. -/
structure Payment.Fits (p : Payment) : Prop where
  paymentId : Plus.Fits 255 p.paymentId
  status : Plus.Fits 32 p.status

/-- The id and the status of a payment once it was read back. -/
def Payment.recleaned (p : Payment) : String × String :=
  (PyStr.strip p.paymentId, PyStr.lower (PyStr.strip p.status))

variable {now : ℤ}

theorem normalizePayment_fits {raw : Json} {p : Payment}
    (h : normalizePayment now raw = .ok (some p)) : p.Fits := by
  unfold normalizePayment at h
  split at h
  · dsimp only at h
    split at h
    · rename_i paymentId status hid hstatus
      obtain ⟨createdAt, -, h⟩ := except_bind_eq_ok.mp h
      obtain ⟨amount, -, h⟩ := except_bind_eq_ok.mp h
      obtain rfl := Option.some.inj (Except.ok.inj h)
      exact ⟨fits_of_cleanStr (by decide) hid, (fits_of_cleanStr (by decide) hstatus).lower⟩
    · cases h
  · cases h

variable {s : State} {userId : String} {payments : List Payment}

/-- What a read returns fits, and there are at most 100 of them. -/
theorem getPayments_fits (h : getPayments now s userId = .ok payments) :
    (∀ p ∈ payments, p.Fits) ∧ payments.length ≤ 100 := by
  unfold getPayments at h
  split at h
  · obtain ⟨normalized, hnormalized, h⟩ := except_bind_eq_ok.mp h
    obtain rfl := Except.ok.inj h
    refine ⟨fun p hp => ?_, List.length_take_le _ _⟩
    have hmem := (List.mem_insertionSort _).mp (List.mem_of_mem_take hp)
    obtain ⟨o, ho, hsome⟩ := List.mem_filterMap.mp hmem
    obtain rfl : o = some p := hsome
    obtain ⟨raw, -, hraw⟩ := exists_of_mapM_eq_ok hnormalized ho
    exact normalizePayment_fits hraw
  · obtain rfl := Except.ok.inj h
    exact ⟨fun p hp => absurd hp List.not_mem_nil, by decide⟩

/-- The members of a payment that every entry has. -/
theorem member?_toJson (p : Payment) : ∃ members, p.toJson = .obj members ∧
    Json.member? members "payment_id" = some (.str p.paymentId) ∧
    Json.member? members "status" = some (.str p.status) ∧
    Json.member? members "created_at" = some (.int p.createdAt) ∧
    Json.member? members "amount" = p.amount.map Json.float := by
  refine ⟨_, rfl, ?_⟩
  have hfields : ∀ (fields : Json) (key : String), key ≠ "assistant_fields" →
      Json.member? (if p.assistantFields.items = [] then [] else [("assistant_fields", fields)]) key = none := by
    intro fields key hkey
    split
    · rfl
    · rw [member?_cons, member?_nil, if_neg hkey]
      rfl
  simp only [member?_append, member?_optional, member?_cons, member?_nil,
    String.reduceEq, if_true, if_false, Option.none_or, Option.or_none,
    hfields _ _ (by decide : "payment_id" ≠ "assistant_fields"),
    hfields _ _ (by decide : "status" ≠ "assistant_fields"),
    hfields _ _ (by decide : "created_at" ≠ "assistant_fields"),
    hfields _ _ (by decide : "amount" ≠ "assistant_fields"), and_self]

/-- **A recorded payment is read back** with its id and its status cleaned again. -/
theorem normalizePayment_toJson {p : Payment} (h : p.Fits) (now : ℤ) :
    ∃ q, normalizePayment now p.toJson = .ok (some q) ∧
      (q.paymentId, q.status) = p.recleaned := by
  obtain ⟨members, hmembers, hid, hstatus, hcreated, hamount⟩ := member?_toJson p
  have hfloat : ∃ x, cleanFloat (p.amount.map Json.float) = .ok x := by
    cases p.amount with
    | none => exact ⟨_, rfl⟩
    | some x => exact ⟨_, rfl⟩
  obtain ⟨amount, hfloat⟩ := hfloat
  rw [hmembers]
  unfold normalizePayment
  dsimp only
  rw [hid, hstatus, hcreated, hamount, cleanStr_of_fits h.paymentId, cleanStr_of_fits h.status, hfloat]
  exact ⟨_, rfl, rfl⟩

theorem mapM_normalizePayment (h : ∀ p ∈ payments, p.Fits) (now : ℤ) : ∃ read : List Payment,
      (payments.map Payment.toJson).mapM (normalizePayment now) = .ok (read.map some) ∧
      read.map (fun q => (q.paymentId, q.status)) = payments.map Payment.recleaned := by
  induction payments with
  | nil => exact ⟨[], rfl, rfl⟩
  | cons p payments ih =>
    obtain ⟨read, hread, hkeys⟩ := ih fun q hq => h q (List.mem_cons_of_mem p hq)
    obtain ⟨q, hq, hkey⟩ := normalizePayment_toJson (h p List.mem_cons_self) now
    refine ⟨q :: read, ?_, ?_⟩
    · rw [List.map_cons, List.mapM_cons, hq, hread]
      rfl
    · rw [List.map_cons, List.map_cons, hkey, hkeys]

/-- The list of payments is what is stored for the user. -/
def StoredPayments (s : State) (userId : String) (payments : List Payment) : Prop :=
  s.accountData userId paymentsType = some [("payments", .arr (payments.map Payment.toJson))]

/-- **A recorded list is read back**, up to its order, at any time. -/
theorem getPayments_of_stored (hstored : StoredPayments s userId payments) (hfits : ∀ p ∈ payments, p.Fits)
    (hlength : payments.length ≤ 100) (now : ℤ) : ∃ read, getPayments now s userId = .ok read ∧
      (read.map fun q => (q.paymentId, q.status)).Perm (payments.map Payment.recleaned) := by
  obtain ⟨read, hread, hkeys⟩ := mapM_normalizePayment hfits now
  have hcount : read.length = payments.length := by
    have hlengths := congrArg List.length hkeys
    rwa [List.length_map, List.length_map] at hlengths
  refine ⟨((read.insertionSort fun a b => b.createdAt ≤ a.createdAt).take 100), ?_, ?_⟩
  · have hpayments : (s.accountData userId paymentsType).bind (fun raw =>
        Json.member? raw "payments") = some (.arr (payments.map Payment.toJson)) := by
      rw [hstored]
      rfl
    have hsome : (read.map some).filterMap id = read := by
      rw [List.filterMap_map]
      exact List.filterMap_some
    unfold getPayments
    rw [hpayments]
    dsimp only
    rw [hread]
    show Except.ok _ = _
    rw [hsome]
  · rw [List.take_of_length_le (by rw [List.length_insertionSort, hcount]; exact hlength), ← hkeys]
    exact (List.perm_insertionSort _ _).map _

/-! ## §3 Recording an entry -/

/-- The payments that `record_payment` keeps next to an entry. -/
def keptBeside (paymentId : String) (current : List Payment) : List Payment :=
  (current.filter fun item => item.paymentId ≠ paymentId).take 99

theorem storedPayments_recorded (s : State) (userId : String) (entry : Payment) (current : List Payment) :
    StoredPayments (s.recorded userId entry current) userId (entry :: keptBeside entry.paymentId current) := by
  show (if userId = userId ∧ paymentsType = paymentsType then _ else _) = _
  rw [if_pos ⟨rfl, rfl⟩, keptBeside, ← List.take_succ_cons]

theorem entry_fits {payment : PaymentArgs} {paymentId status : String}
    (hid : cleanStr 255 (some (.str payment.paymentId)) = some paymentId)
    (hstatus : cleanStr 32 (some (.str payment.status)) = some status) (existing : Option Payment) :
    (payment.entry now paymentId status existing).Fits where
  paymentId := fits_of_cleanStr (by decide) hid
  status := (fits_of_cleanStr (by decide) hstatus).lower

/-- **What the next read returns** after an entry was recorded: the entry, and what was kept. -/
theorem getPayments_recorded {entry : Payment} {current : List Payment}
    (hcurrent : getPayments now s userId = .ok current) (hentry : entry.Fits) (later : ℤ) :
    ∃ read, getPayments later (s.recorded userId entry current) userId = .ok read ∧
      (read.map fun q => (q.paymentId, q.status)).Perm
        (entry.recleaned :: (keptBeside entry.paymentId current).map Payment.recleaned) := by
  obtain ⟨hfits, -⟩ := getPayments_fits hcurrent
  refine getPayments_of_stored (storedPayments_recorded s userId entry current) ?_ ?_ later
  · intro p hp
    rcases List.mem_cons.mp hp with rfl | hp
    · exact hentry
    · exact hfits p (List.mem_of_mem_filter (List.mem_of_mem_take hp))
  · rw [List.length_cons]
    have hlength : (keptBeside entry.paymentId current).length ≤ 99 := List.length_take_le _ _
    omega

/-- Payments of other users are read as before. -/
theorem getPayments_recorded_other {u : String} (hu : u ≠ userId) (entry : Payment) (current : List Payment)
    (now : ℤ) : getPayments now (s.recorded userId entry current) u = getPayments now s u := by
  apply getPayments_congr
  show (if u = userId ∧ paymentsType = paymentsType then _ else _) = _
  rw [if_neg fun h => hu h.1]

end Setka.Handlers.Plus
