/-
# Setka.Handlers.VoucherLimits — the redemption counter over whole runs.

Transactions of any number of users and administrators, in any order. `update_voucher` reads a row in
one transaction and writes it in another, so writes that were decided on an older row are part of the
state. The counter is the number of rows of the code in every state; it stays within the limit as long
as no write puts the limit below it.
-/
import Setka.Handlers.VoucherRedeem

namespace Setka.Handlers.Plus

open Setka.Api Setka.Lib

/-! ## §1 Transactions in any order -/

/-- The tables, and the writes that are still to come. -/
structure VoucherWorld where
  tables : VoucherTables
  pending : List VoucherWrite

/-- A transaction of one of the operations. `commit` is the second one of `update_voucher` and
`delete_voucher`. -/
inductive VoucherTxn
  | create (now : ℤ) (generated : String) (body : List (String × Json))
  | readUpdate (code : String) (body : List (String × Json))
  | readDelete (code : String)
  | commit (i : ℕ)
  | redeem (now : ℤ) (userId code : String)

/-- A write was decided on, or the operation raised. -/
def VoucherWorld.decided (w : VoucherWorld) : Except Error VoucherWrite → VoucherWorld
  | .ok write => { w with pending := w.pending ++ [write] }
  | .error _ => w

/-- The tables after a transaction that commits or raises. -/
def VoucherTables.committed (t : VoucherTables) : Except Error VoucherTables → VoucherTables
  | .ok t' => t'
  | .error _ => t

/-- The tables after the transaction of a redemption. -/
def VoucherTables.redeemed (t : VoucherTables) (now : ℤ) (userId : String) : Option String → VoucherTables
  | some normalized => t.committed ((reserve now userId normalized t).map Prod.snd)
  | none => t

/-- One transaction. -/
def VoucherWorld.step (cfg : Config) (uni : PyStr.Unicode) (w : VoucherWorld) : VoucherTxn → VoucherWorld
  | .create now generated body =>
    { w with
      tables := w.tables.committed (createVoucherRow cfg uni now generated body >>= insertCreated w.tables) }
  | .readUpdate code body => w.decided (readUpdate cfg uni w.tables code body)
  | .readDelete code => w.decided (readDelete uni w.tables code)
  | .commit i =>
    match w.pending[i]? with
    | some write => ⟨w.tables.write write, w.pending.eraseIdx i⟩
    | none => w
  | .redeem now userId code =>
    { w with tables := w.tables.redeemed now userId (normalizeVoucherCode uni code) }

def runTxns (cfg : Config) (uni : PyStr.Unicode) (txns : List VoucherTxn) : VoucherWorld :=
  txns.foldl (VoucherWorld.step cfg uni) ⟨VoucherTables.empty, []⟩

theorem runTxns_concat (cfg : Config) (uni : PyStr.Unicode) (txns : List VoucherTxn) (txn : VoucherTxn) :
    runTxns cfg uni (txns ++ [txn]) = (runTxns cfg uni txns).step cfg uni txn := by
  simp [runTxns]

/-! ## §2 What a transaction does to a row

Every transaction keeps the tables, adds a voucher without redemptions, rewrites the columns of a row
or redeems it. -/

/-- The number of redemptions of a code. -/
def VoucherTables.rows (t : VoucherTables) (code : String) : ℕ :=
  t.redemptions.countP fun r => r.code = code

/-- The write that a transaction commits. -/
def VoucherWorld.commits (w : VoucherWorld) : VoucherTxn → Option VoucherWrite
  | .commit i => w.pending[i]?
  | _ => none

/-- The tables after a transaction, by what it did. -/
inductive VoucherChange (t : VoucherTables) : Option VoucherWrite → VoucherTables → Prop
  | same : VoucherChange t none t
  | added {v : Voucher} {t' : VoucherTables} : v.redemptionCount = 0 → 0 < v.maxRedemptions →
      v.code ∉ t.vouchers.map Voucher.code → t'.vouchers = t.vouchers ++ [v] →
      t'.redemptions = t.redemptions → VoucherChange t none t'
  | written (write : VoucherWrite) : VoucherChange t (some write) (t.write write)
  | redeemed {code userId : String} {now : ℤ} {v : Voucher} {t' : VoucherTables} :
      t.voucher? code = some v → v.redemptionCount < v.maxRedemptions →
      t'.vouchers = (t.vouchers.map fun v =>
        if v.code = code then { v with redemptionCount := v.redemptionCount + 1 } else v) →
      t'.redemptions = t.redemptions ++ [⟨code, userId, now⟩] → VoucherChange t none t'

variable {cfg : Config} {uni : PyStr.Unicode} {v : Voucher}

theorem createVoucherRow_fresh {now : ℤ} {generated : String} {body : List (String × Json)}
    (h : createVoucherRow cfg uni now generated body = .ok v) :
    v.redemptionCount = 0 ∧ 0 < v.maxRedemptions := by
  obtain ⟨days, -, h⟩ := except_bind_eq_ok.mp h
  split at h
  · cases h
  split at h
  · cases h
  obtain ⟨expires, -, h⟩ := except_bind_eq_ok.mp h
  cases expires with
  | none => cases h
  | some expires =>
    dsimp only at h
    split at h
    · cases h
    obtain ⟨maxRedemptions, -, h⟩ := except_bind_eq_ok.mp h
    obtain ⟨maxPerUser, -, h⟩ := except_bind_eq_ok.mp h
    split at h
    · cases h
    obtain rfl := Except.ok.inj h
    exact ⟨rfl, by dsimp only; omega⟩

variable {t t' : VoucherTables}

theorem insertCreated_change (hcount : v.redemptionCount = 0) (hmax : 0 < v.maxRedemptions)
    (h : insertCreated t v = .ok t') : VoucherChange t none t' := by
  unfold insertCreated VoucherTables.insertVoucher at h
  split at h
  · cases h
  rename_i t'' hinsert
  obtain rfl := Except.ok.inj h
  split at hinsert
  · cases hinsert
  rename_i hkey
  obtain rfl := Except.ok.inj hinsert
  exact .added hcount hmax hkey rfl rfl

variable {code : String}

theorem reserve_change {now : ℤ} {userId : String}
    (h : reserve now userId code t = .ok (v, t')) : VoucherChange t none t' := by
  obtain ⟨⟨v', hv', -, -, hmax, -⟩, -⟩ := reserve_ok_iff.mp ⟨_, h⟩
  unfold reserve at h
  rw [hv'] at h
  dsimp only at h
  split at h
  · cases h
  split at h
  · cases h
  split at h
  · cases h
  split at h
  · cases h
  · obtain ⟨t₁, hinsert, h⟩ := except_bind_eq_ok.mp h
    obtain ⟨rfl, rfl⟩ := Prod.mk.inj (Except.ok.inj h)
    unfold VoucherTables.insertRedemption at hinsert
    split at hinsert
    · cases hinsert
    · obtain rfl := Except.ok.inj hinsert
      exact .redeemed hv' hmax rfl rfl

/-- **Every transaction is one of these changes.** -/
theorem VoucherWorld.step_change (cfg : Config) (uni : PyStr.Unicode) (w : VoucherWorld) (txn : VoucherTxn) :
    VoucherChange w.tables (w.commits txn) (w.step cfg uni txn).tables := by
  cases txn with
  | create now generated body =>
    show VoucherChange w.tables none (w.tables.committed _)
    cases h : createVoucherRow cfg uni now generated body >>= insertCreated w.tables with
    | error e => exact .same
    | ok t =>
      obtain ⟨v, hv, ht⟩ := except_bind_eq_ok.mp h
      obtain ⟨hcount, hmax⟩ := createVoucherRow_fresh hv
      exact insertCreated_change hcount hmax ht
  | readUpdate code body =>
    show VoucherChange w.tables none (w.decided _).tables
    cases readUpdate cfg uni w.tables code body with
    | error e => exact .same
    | ok write => exact .same
  | readDelete code =>
    show VoucherChange w.tables none (w.decided _).tables
    cases readDelete uni w.tables code with
    | error e => exact .same
    | ok write => exact .same
  | commit i =>
    unfold VoucherWorld.step VoucherWorld.commits
    dsimp only
    cases w.pending[i]? with
    | none => exact .same
    | some write => exact .written write
  | redeem now userId code =>
    show VoucherChange w.tables none (w.tables.redeemed _ _ _)
    cases normalizeVoucherCode uni code with
    | none => exact .same
    | some normalized =>
      show VoucherChange w.tables none (w.tables.committed _)
      cases h : reserve now userId normalized w.tables with
      | error e => exact .same
      | ok r => exact reserve_change (v := r.1) h

/-! ## §3 The counter -/

/-- The counter of every voucher is the number of its redemptions, which all have a voucher. -/
structure Counted (t : VoucherTables) : Prop where
  count : ∀ v ∈ t.vouchers, v.redemptionCount = t.rows v.code
  known : ∀ r ∈ t.redemptions, r.code ∈ t.vouchers.map Voucher.code

theorem counted_empty : Counted VoucherTables.empty :=
  ⟨fun _ hv => absurd hv List.not_mem_nil, fun _ hr => absurd hr List.not_mem_nil⟩

/-- What a write leaves of a row: its code and its counter, and the limit if it is not a write of the
columns. -/
theorem VoucherTables.mem_write {write : VoucherWrite} {v' : Voucher} (h : v' ∈ (t.write write).vouchers) :
    ∃ v ∈ t.vouchers, v'.code = v.code ∧ v'.redemptionCount = v.redemptionCount ∧
      (v'.maxRedemptions = v.maxRedemptions ∨
        ∃ c, write = .columns v.code c ∧ v'.maxRedemptions = c.maxRedemptions) := by
  cases write with
  | columns code c =>
    obtain ⟨v, hv, rfl⟩ := List.mem_map.mp h
    refine ⟨v, hv, ?_⟩
    split
    · rename_i hcode
      exact ⟨rfl, rfl, Or.inr ⟨c, by rw [hcode], rfl⟩⟩
    · exact ⟨rfl, rfl, Or.inl rfl⟩
  | deactivate code =>
    obtain ⟨v, hv, rfl⟩ := List.mem_map.mp h
    refine ⟨v, hv, ?_⟩
    split
    · exact ⟨rfl, rfl, Or.inl rfl⟩
    · exact ⟨rfl, rfl, Or.inl rfl⟩

theorem VoucherTables.write_redemptions (t : VoucherTables) (write : VoucherWrite) :
    (t.write write).redemptions = t.redemptions := by
  cases write with
  | columns code c => rfl
  | deactivate code => rfl

theorem VoucherTables.write_codes (t : VoucherTables) (write : VoucherWrite) :
    (t.write write).vouchers.map Voucher.code = t.vouchers.map Voucher.code := by
  cases write with
  | columns code c => exact codes_map_ite t.vouchers code fun _ => rfl
  | deactivate code => exact codes_map_ite t.vouchers code fun _ => rfl

/-- A redemption adds one row of its code. -/
theorem VoucherTables.rows_append {r : Redemption} (h : t'.redemptions = t.redemptions ++ [r]) (code : String) :
    t'.rows code = t.rows code + if r.code = code then 1 else 0 := by
  unfold rows
  rw [h, List.countP_append]
  by_cases hcode : r.code = code
  · simp [hcode]
  · simp [hcode]

/-- Of a code without a voucher there are no redemptions. -/
theorem Counted.rows_eq_zero (h : Counted t) (hcode : code ∉ t.vouchers.map Voucher.code) : t.rows code = 0 := by
  unfold VoucherTables.rows
  rw [List.countP_eq_zero]
  intro r hr heq
  have hr' : r.code = code := by simpa using heq
  exact hcode (hr' ▸ h.known r hr)

/-- **One transaction keeps the counter right.** -/
theorem Counted.change {write : Option VoucherWrite} (h : Counted t)
    (hchange : VoucherChange t write t') : Counted t' := by
  cases hchange with
  | same => exact h
  | @added v _ hcount hmax hkey hvouchers hredemptions =>
    have hrows : ∀ code, t'.rows code = t.rows code := by
      intro code
      unfold VoucherTables.rows
      rw [hredemptions]
    constructor
    · intro v' hv'
      rw [hrows]
      rw [hvouchers, List.mem_append, List.mem_singleton] at hv'
      rcases hv' with hv' | rfl
      · exact h.count v' hv'
      · rw [hcount, h.rows_eq_zero hkey]
        rfl
    · intro r hr
      rw [hredemptions] at hr
      rw [hvouchers, List.map_append]
      exact List.mem_append_left _ (h.known r hr)
  | written write =>
    have hrows : ∀ code, (t.write write).rows code = t.rows code := by
      intro code
      unfold VoucherTables.rows
      rw [t.write_redemptions]
    constructor
    · intro v' hv'
      obtain ⟨v, hv, hcode, hcount, -⟩ := VoucherTables.mem_write hv'
      rw [hrows, hcode, hcount]
      exact h.count v hv
    · intro r hr
      rw [t.write_redemptions] at hr
      rw [t.write_codes]
      exact h.known r hr
  | @redeemed code userId now v _ hv hmax hvouchers hredemptions =>
    have hfound := List.find?_some hv
    have hcode : v.code = code := by simpa using hfound
    have hcodes : t'.vouchers.map Voucher.code = t.vouchers.map Voucher.code := by
      rw [hvouchers]
      exact VoucherTables.codes_map_ite t.vouchers code fun _ => rfl
    constructor
    · intro v' hv'
      rw [hvouchers] at hv'
      obtain ⟨v₀, hv₀, rfl⟩ := List.mem_map.mp hv'
      rw [VoucherTables.rows_append hredemptions]
      have hcount := h.count v₀ hv₀
      split
      · rename_i heq
        rw [if_pos heq.symm, hcount]
        rfl
      · rename_i hne
        rw [if_neg (Ne.symm hne), hcount]
        rfl
    · intro r hr
      rw [hredemptions, List.mem_append, List.mem_singleton] at hr
      rw [hcodes]
      rcases hr with hr | rfl
      · exact h.known r hr
      · exact List.mem_map.mpr ⟨v, List.mem_of_find?_eq_some hv, hcode⟩

theorem counted_runTxns (cfg : Config) (uni : PyStr.Unicode) (txns : List VoucherTxn) :
    Counted (runTxns cfg uni txns).tables := by
  induction txns using List.reverseRecOn with
  | nil => exact counted_empty
  | append_singleton txns txn ih =>
    rw [runTxns_concat]
    exact ih.change (VoucherWorld.step_change cfg uni _ txn)

/-! ## §4 The limit -/

/-- At some point of the run the voucher had a limit of at least `n`. -/
def HadLimit (cfg : Config) (uni : PyStr.Unicode) (txns : List VoucherTxn) (code : String) (n : ℤ) : Prop :=
  ∃ before, before <+: txns ∧
    ∃ v ∈ (runTxns cfg uni before).tables.vouchers, v.code = code ∧ n ≤ v.maxRedemptions

theorem HadLimit.concat {txns : List VoucherTxn} {n : ℤ} (h : HadLimit cfg uni txns code n) (txn : VoucherTxn) :
    HadLimit cfg uni (txns ++ [txn]) code n := by
  obtain ⟨before, hbefore, hv⟩ := h
  exact ⟨before, hbefore.trans (List.prefix_append _ _), hv⟩

/-- No write puts the limit of a voucher below its counter. -/
def KeepsLimits (cfg : Config) (uni : PyStr.Unicode) : List VoucherTxn → Prop :=
  AllSteps fun before txn => ∀ code c, (runTxns cfg uni before).commits txn = some (.columns code c) →
      ∀ v ∈ (runTxns cfg uni before).tables.vouchers, v.code = code → v.redemptionCount ≤ c.maxRedemptions

/-- The primary key: a code has one row. -/
theorem VoucherTables.eq_of_voucher? {v' : Voucher} (h : t.voucher? code = some v) (hv' : v' ∈ t.vouchers)
    (hcode : v'.code = code) : v' = v := by
  have hfound : v.code = code := by simpa using List.find?_some h
  exact List.inj_on_of_nodup_map t.vouchers_key hv' (List.mem_of_find?_eq_some h) (hcode.trans hfound.symm)

theorem hadLimit_runTxns (cfg : Config) (uni : PyStr.Unicode) (txns : List VoucherTxn) :
    ∀ v ∈ (runTxns cfg uni txns).tables.vouchers, HadLimit cfg uni txns v.code v.redemptionCount := by
  induction txns using List.reverseRecOn with
  | nil => exact fun _ hv => absurd hv List.not_mem_nil
  | append_singleton txns txn ih =>
    intro v hv
    have hlast := hv
    have hchange := VoucherWorld.step_change cfg uni (runTxns cfg uni txns) txn
    rw [runTxns_concat] at hv
    generalize (runTxns cfg uni txns).commits txn = write at hchange
    generalize htables : ((runTxns cfg uni txns).step cfg uni txn).tables = t' at hv hchange
    cases hchange with
    | same => exact (ih v hv).concat txn
    | added hcount hmax hkey hvouchers hredemptions =>
      rw [hvouchers, List.mem_append, List.mem_singleton] at hv
      rcases hv with hv | rfl
      · exact (ih v hv).concat txn
      · exact ⟨txns ++ [txn], List.prefix_rfl, v, hlast, rfl, by omega⟩
    | written write =>
      obtain ⟨v₀, hv₀, hcode, hcount, -⟩ := VoucherTables.mem_write hv
      rw [hcode, hcount]
      exact (ih v₀ hv₀).concat txn
    | redeemed hfound hmax hvouchers hredemptions =>
      rw [hvouchers] at hv
      obtain ⟨v₀, hv₀, rfl⟩ := List.mem_map.mp hv
      split
      · -- the redeemed row, whose limit was checked in this very transaction
        rename_i hcode
        obtain rfl := VoucherTables.eq_of_voucher? hfound hv₀ hcode
        refine ⟨txns, List.prefix_append _ _, v₀, hv₀, rfl, ?_⟩
        dsimp only
        omega
      · exact (ih v₀ hv₀).concat txn

theorem le_maxRedemptions_runTxns {txns : List VoucherTxn} (h : KeepsLimits cfg uni txns) :
    ∀ v ∈ (runTxns cfg uni txns).tables.vouchers, v.redemptionCount ≤ v.maxRedemptions := by
  induction txns using List.reverseRecOn with
  | nil => exact fun _ hv => absurd hv List.not_mem_nil
  | append_singleton txns txn ih =>
    obtain ⟨hbefore, hlast⟩ := allSteps_concat.mp h
    intro v hv
    have hchange := VoucherWorld.step_change cfg uni (runTxns cfg uni txns) txn
    rw [runTxns_concat] at hv
    generalize hwrite : (runTxns cfg uni txns).commits txn = write at hchange
    generalize ((runTxns cfg uni txns).step cfg uni txn).tables = t' at hv hchange
    cases hchange with
    | same => exact ih hbefore v hv
    | added hcount hmax hkey hvouchers hredemptions =>
      rw [hvouchers, List.mem_append, List.mem_singleton] at hv
      rcases hv with hv | rfl
      · exact ih hbefore v hv
      · omega
    | written write =>
      obtain ⟨v₀, hv₀, hcode, hcount, hmax⟩ := VoucherTables.mem_write hv
      rw [hcount]
      rcases hmax with hmax | ⟨c, rfl, hmax⟩
      · rw [hmax]
        exact ih hbefore v₀ hv₀
      · rw [hmax]
        exact hlast v₀.code c hwrite v₀ hv₀ rfl
    | redeemed hfound hmax hvouchers hredemptions =>
      rw [hvouchers] at hv
      obtain ⟨v₀, hv₀, rfl⟩ := List.mem_map.mp hv
      split
      · rename_i hcode
        obtain rfl := VoucherTables.eq_of_voucher? hfound hv₀ hcode
        dsimp only
        omega
      · exact ih hbefore v₀ hv₀

/-- **The counter of a voucher over whole runs**: it counts the rows of the code, it never exceeds the
largest limit that the voucher has had, and it stays within the current one unless an update put that
below it. -/
theorem redemptionCount_runTxns (cfg : Config) (uni : PyStr.Unicode) (txns : List VoucherTxn) :
    ∀ v ∈ (runTxns cfg uni txns).tables.vouchers, v.redemptionCount = (runTxns cfg uni txns).tables.rows v.code ∧
      HadLimit cfg uni txns v.code v.redemptionCount ∧
      (KeepsLimits cfg uni txns → v.redemptionCount ≤ v.maxRedemptions) :=
  fun v hv => ⟨(counted_runTxns cfg uni txns).count v hv, hadLimit_runTxns cfg uni txns v hv,
    fun h => le_maxRedemptions_runTxns h v hv⟩

/-- Two users redeem a voucher, and then an administrator puts its limit to one. -/
def exampleTxns : List VoucherTxn :=
  [.create 1700000000000 "" [("code", .str "gift-2"), ("plan_id", .str "setka_plus_month"),
      ("expires_at", .int 1800000000000), ("max_redemptions", .int 10)],
    .redeem 1700000001000 "@a:server" "GIFT-2", .redeem 1700000002000 "@b:server" "GIFT-2",
    .readUpdate "GIFT-2" [("max_redemptions", .int 1)], .commit 0]

theorem exampleTxns_voucher : ((runTxns exampleConfig asciiTables exampleTxns).tables.vouchers.map fun v =>
      (v.redemptionCount, v.maxRedemptions)) = [(2, 1)] := by decide +kernel

theorem redemptionCount_runTxns_example :
    ∃ v ∈ (runTxns exampleConfig asciiTables exampleTxns).tables.vouchers, v.redemptionCount = 2 ∧
      (runTxns exampleConfig asciiTables exampleTxns).tables.rows v.code = 2 := by
  have hmem : ((2, 1) : ℤ × ℤ) ∈ (runTxns exampleConfig asciiTables exampleTxns).tables.vouchers.map fun v =>
        (v.redemptionCount, v.maxRedemptions) := by
    rw [exampleTxns_voucher]
    exact List.mem_singleton.mpr rfl
  obtain ⟨v, hv, hvalues⟩ := List.mem_map.mp hmem
  have hcount : v.redemptionCount = 2 := congrArg Prod.fst hvalues
  have hrows := (redemptionCount_runTxns exampleConfig asciiTables exampleTxns v hv).1
  refine ⟨v, hv, hcount, ?_⟩
  omega

/-- The voucher then counts more redemptions than its limit. -/
theorem limit_put_below_counter : ¬ ∀ v ∈ (runTxns exampleConfig asciiTables exampleTxns).tables.vouchers,
      v.redemptionCount = (runTxns exampleConfig asciiTables exampleTxns).tables.rows v.code ∧
        v.redemptionCount ≤ v.maxRedemptions := by
  intro h
  have hmem : ((2, 1) : ℤ × ℤ) ∈ (runTxns exampleConfig asciiTables exampleTxns).tables.vouchers.map fun v =>
        (v.redemptionCount, v.maxRedemptions) := by
    rw [exampleTxns_voucher]
    exact List.mem_singleton.mpr rfl
  obtain ⟨v, hv, hvalues⟩ := List.mem_map.mp hmem
  obtain ⟨hcount, hmax⟩ := Prod.mk.inj hvalues
  have hle := (h v hv).2
  omega

end Setka.Handlers.Plus
