/-
# Setka.Handlers.PlusPlans — the plans of Setka Plus, from any JSON value.

`_normalize_plans` keeps the items of a list that describe a plan, the first for each id. It sees to it that one of
them is active and that one of the active ones is the default, then sorts them and cuts the list at 32.
-/
import Setka.Handlers.PlusClean
import Setka.Handlers.Vouchers
import Setka.Lib.StableSort

namespace Setka.Handlers.Plus

open Setka.Api Setka.Lib

/-! ## §1 Prices -/

/-- `x * q` for a positive `q`. -/
def timesPos (x : PyFloat) (q : ℚ) : PyFloat :=
  match x with
  | .finite p => .finite (p * q)
  | x => x

/-- A multiple of a rounded price, rounded: a price of its own, or nothing as the rounded one. -/
theorem rounded_timesPos {price : PyFloat} (h : price.isPos = true) {q : ℚ} (hq : 0 < q) :
    ∃ price' : PyFloat, price'.isPos = true ∧ (timesPos price.round2 q).round2 = price'.round2 := by
  obtain ⟨n, hn⟩ | hinf := PyFloat.round2_of_isPos h
  · obtain rfl | hpos := Nat.eq_zero_or_pos n
    · refine ⟨price, h, ?_⟩
      rw [hn]
      simp only [timesPos, Nat.cast_zero, zero_div, zero_mul]
      simpa using PyFloat.round2_cents 0
    · refine ⟨timesPos price.round2 q, ?_, rfl⟩
      rw [hn]
      have hprice : 0 < (n : ℚ) / 100 * q := by positivity
      simpa [timesPos, PyFloat.isPos] using hprice
  · exact ⟨.inf, rfl, by rw [hinf]; rfl⟩

/-! ## §2 The default plans -/

/-- `self._plus_price_rub`: `_env_float` only returns positive prices. -/
abbrev PlusPrice := { price : PyFloat // price.isPos = true }

/-- The fields of the first plan are clean. -/
theorem month_id_clean : ∃ raw, cleanStr 64 raw = some "setka_plus_month" :=
  ⟨some (.str "setka_plus_month"), by decide⟩

theorem month_name_clean : ∃ raw, cleanStr 120 raw = some "Setka Plus 30 days" :=
  ⟨some (.str "Setka Plus 30 days"), by decide⟩

/-- `_default_plans`. -/
def defaultPlans (price : PlusPrice) : List Plan :=
  [{  id := "setka_plus_month"
      name := "Setka Plus 30 days"
      priceRub := price.val.round2
      durationDays := 30
      features := ["Custom stickers and custom emoji packs", "Status emoji near nickname", "Priority media limits"]
      active := true
      isDefault := true
      sortOrder := 10
      id_clean := month_id_clean
      name_clean := month_name_clean
      durationDays_pos := thirty_days_pos
      priceRub_rounded := ⟨price.val, price.property, rfl⟩ },
    { id := "setka_plus_quarter"
      name := "Setka Plus 90 days"
      priceRub := (timesPos price.val.round2 (27 / 10)).round2
      durationDays := 90
      features := ["All monthly features", "Discounted quarterly billing", "Early access to Plus UI updates"]
      active := true
      isDefault := false
      sortOrder := 20
      id_clean := ⟨some (.str "setka_plus_quarter"), by decide⟩
      name_clean := ⟨some (.str "Setka Plus 90 days"), by decide⟩
      durationDays_pos := by decide
      priceRub_rounded := rounded_timesPos price.property (by norm_num) },
    { id := "setka_plus_year"
      name := "Setka Plus 365 days"
      priceRub := (timesPos price.val.round2 (19 / 2)).round2
      durationDays := 365
      features := ["All Plus features", "Best yearly price", "Priority support channel"]
      active := true
      isDefault := false
      sortOrder := 30
      id_clean := ⟨some (.str "setka_plus_year"), by decide⟩
      name_clean := ⟨some (.str "Setka Plus 365 days"), by decide⟩
      durationDays_pos := by decide
      priceRub_rounded := rounded_timesPos price.property (by norm_num) }]

theorem nodup_defaultPlans (price : PlusPrice) : ((defaultPlans price).map Plan.id).Nodup := by
  show ["setka_plus_month", "setka_plus_quarter", "setka_plus_year"].Nodup
  decide

/-- The members of a plan as a JSON object. -/
def Plan.toMembers (p : Plan) : List (String × Json) :=
  [("id", .str p.id), ("name", .str p.name), ("price_rub", .float p.priceRub), ("duration_days", .int p.durationDays),
    ("features", .arr (p.features.map Json.str)), ("active", .bool p.active), ("is_default", .bool p.isDefault),
    ("sort_order", .int p.sortOrder)]

def Plan.toJson (p : Plan) : Json := .obj p.toMembers

/-! ## §3 Items -/

/-- What `_normalize_plans` asks of an item before it looks at the plans that it has. -/
structure PlanHead where
  id : String
  name : String
  price : PyFloat
  durationDays : ℤ
  id_clean : ∃ raw, cleanStr 64 raw = some id
  name_clean : ∃ raw, cleanStr 120 raw = some name
  price_pos : price.isPos = true
  durationDays_pos : 0 < durationDays

/-- The first half of the loop's body: `none` for an item that is skipped. -/
def planHead (item : List (String × Json)) : Except Error (Option PlanHead) :=
  let get := Json.member? item
  match hprice : cleanFloat (get "price_rub") with
  | .error e => .error e
  | .ok priceRub =>
    match cleanInt (get "duration_days") with
    | .error e => .error e
    | .ok durationDays =>
      match hid : cleanStr 64 (get "id"), hname : cleanStr 120 (get "name"), priceRub, durationDays with
      | some id, some name, some price, some days =>
        if hdays : 0 < days then
          .ok (some
            { id
              name
              price
              durationDays := days
              id_clean := ⟨_, hid⟩
              name_clean := ⟨_, hname⟩
              price_pos := isPos_of_cleanFloat hprice
              durationDays_pos := hdays })
        else .ok none
      | _, _, _, _ => .ok none

/-- `features` of an item. -/
def cleanFeatures : Option Json → List String
  | some (.arr rawFeatures) => (rawFeatures.filterMap fun feature => cleanStr 160 (some feature)).take 16
  | _ => []

/-- The plan of the item at an index, with the order that the item asks for. -/
def PlanHead.plan (head : PlanHead) (index : ℕ) (item : List (String × Json)) (sortOrder : Option ℤ) : Plan where
  id := head.id
  name := head.name
  priceRub := head.price.round2
  durationDays := head.durationDays
  features := cleanFeatures (Json.member? item "features")
  active := cleanBool true (Json.member? item "active")
  isDefault := cleanBool false (Json.member? item "is_default")
  sortOrder := if sortOrder.getD 0 = 0 then (index + 1) * 10 else sortOrder.getD 0
  id_clean := head.id_clean
  name_clean := head.name_clean
  durationDays_pos := head.durationDays_pos
  priceRub_rounded := ⟨head.price, head.price_pos, rfl⟩

/-- The plans of the items so far, with distinct ids. -/
structure Kept where
  list : List Plan
  nodup : (list.map Plan.id).Nodup

namespace Kept

def nil : Kept := ⟨[], List.nodup_nil⟩

/-- `known_ids`. -/
def ids (kept : Kept) : List String := kept.list.map Plan.id

def add (kept : Kept) (plan : Plan) (h : plan.id ∉ kept.ids) : Kept where
  list := kept.list ++ [plan]
  nodup := by
    rw [List.map_append, List.nodup_append]
    refine ⟨kept.nodup, List.nodup_singleton _, ?_⟩
    rintro id hid id' hid' rfl
    rw [List.map_singleton, List.mem_singleton] at hid'
    exact h (hid' ▸ hid)

/-- The body of the loop over the items. -/
def step (kept : Kept) : Json × ℕ → Except Error Kept
  | (.obj item, index) => do
      match ← planHead item with
      | none => pure kept
      | some head =>
        if h : head.id ∈ kept.ids then pure kept
        else do
          let sortOrder ← cleanInt (Json.member? item "sort_order")
          pure (kept.add (head.plan index item sortOrder) h)
  | _ => pure kept

end Kept

/-- The loop over the items. -/
def keepPlans (source : List Json) : Except Error Kept := source.zipIdx.foldlM Kept.step Kept.nil

/-! ## §4 Normalisation -/

/-- The items of a value that is no list are those of the default plans. -/
def planSource (price : PlusPrice) : Option Json → List Json
  | some (.arr raw) => raw
  | _ => (defaultPlans price).map Plan.toJson

/-- The plans kept, or the default ones. -/
def Kept.orDefault (kept : Kept) (price : PlusPrice) : List Plan :=
  if kept.list = [] then defaultPlans price else kept.list

/-- If no plan is active, the first one is made so. -/
def activateFirst (plans : List Plan) : List Plan :=
  if plans.any Plan.active then plans else plans.modifyHead fun p => { p with active := true }

/-- If no active plan is a default, the first active one is made so. -/
def makeDefault (plans : List Plan) : List Plan :=
  if plans.any fun p => p.active && p.isDefault then plans
  else plans.modify (plans.findIdx Plan.active) fun p => { p with isDefault := true }

/-- The order of plans: by `sort_order`, and by name without regard to case. -/
def planLe (uni : PyStr.Unicode) (a b : Plan) : Prop :=
  a.sortOrder < b.sortOrder ∨ a.sortOrder = b.sortOrder ∧ uni.lower a.name ≤ uni.lower b.name

instance (uni : PyStr.Unicode) : DecidableRel (planLe uni) :=
  fun _ _ => inferInstanceAs (Decidable (_ ∨ _))

/-- The steps behind the loop. -/
def arrange (uni : PyStr.Unicode) (plans : List Plan) : List Plan :=
  ((makeDefault (activateFirst plans)).insertionSort (planLe uni)).take 32

theorem ids_activateFirst (plans : List Plan) : (activateFirst plans).map Plan.id = plans.map Plan.id := by
  unfold activateFirst
  split
  · rfl
  match plans with
  | [] => rfl
  | _ :: _ => rfl

theorem map_modify_of_eq {α β : Type} {g : α → β} {f : α → α} (h : ∀ a, g (f a) = g a) (l : List α) (n : ℕ) :
    (l.modify n f).map g = l.map g := by
  induction l generalizing n with
  | nil => rw [List.modify_nil]
  | cons a l ih =>
    match n with
    | 0 => rw [List.modify_zero_cons, List.map_cons, h, List.map_cons]
    | n + 1 => rw [List.modify_succ_cons, List.map_cons, ih, List.map_cons]

theorem ids_makeDefault (plans : List Plan) : (makeDefault plans).map Plan.id = plans.map Plan.id := by
  unfold makeDefault
  split
  · rfl
  · apply map_modify_of_eq
    exact fun _ => rfl

theorem nodup_arrange (uni : PyStr.Unicode) {plans : List Plan} (h : (plans.map Plan.id).Nodup) :
    ((arrange uni plans).map Plan.id).Nodup := by
  rw [← ids_activateFirst, ← ids_makeDefault] at h
  refine List.Nodup.sublist ((List.take_sublist 32 _).map Plan.id) ?_
  exact ((List.perm_insertionSort _ _).map Plan.id).nodup_iff.mpr h

theorem arrange_ne_nil (uni : PyStr.Unicode) {plans : List Plan} (h : plans ≠ []) : arrange uni plans ≠ [] := by
  have hlength : (makeDefault (activateFirst plans)).length = plans.length := by
    have hids := congrArg List.length ((ids_makeDefault (activateFirst plans)).trans (ids_activateFirst plans))
    simpa using hids
  have hpos := List.length_pos_iff.mpr h
  intro hnil
  have hempty := congrArg List.length hnil
  unfold arrange at hempty
  rw [List.length_take, List.length_insertionSort, hlength, List.length_nil] at hempty
  omega

theorem orDefault_ne_nil (kept : Kept) (price : PlusPrice) : kept.orDefault price ≠ [] := by
  unfold Kept.orDefault
  split
  · exact List.cons_ne_nil _ _
  · assumption

theorem nodup_orDefault (kept : Kept) (price : PlusPrice) : ((kept.orDefault price).map Plan.id).Nodup := by
  unfold Kept.orDefault
  split
  · exact nodup_defaultPlans price
  · exact kept.nodup

/-- `_normalize_plans`. -/
def normalizePlans (uni : PyStr.Unicode) (price : PlusPrice) (raw : Option Json) : Except Error Plans := do
  let kept ← keepPlans (planSource price raw)
  pure
    { list := arrange uni (kept.orDefault price)
      nonempty := arrange_ne_nil uni (orDefault_ne_nil kept price)
      nodup := nodup_arrange uni (nodup_orDefault kept price) }

end Setka.Handlers.Plus
