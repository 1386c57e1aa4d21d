/-
# Setka.Handlers.PlusPlansSound — when the normalised plans are fit for use.

The repair of a list of plans is done before it is sorted and cut, and prices are rounded after they are checked. So
the plan that the repair chose may be cut off, and a price may be nothing. Both can be said of the items: which of
them describe a plan, and how many of these come before another one.
-/
import Setka.Handlers.PlusCredit
import Setka.Handlers.PlusPlans

namespace Setka.Handlers.Plus

open Setka.Api Setka.Lib StableSort

/-! ## §1 The plans that items describe -/

/-- The plan that an item begins to describe. -/
def headOf : Json → Option PlanHead
  | .obj item => ((planHead item).toOption).bind id
  | _ => none

def headId (item : Json) : Option String := (headOf item).map PlanHead.id

/-- The plan that the item at an index describes. -/
def planOf (index : ℕ) : Json → Option Plan
  | .obj item => (headOf (.obj item)).bind fun head =>
    (cleanInt (Json.member? item "sort_order")).toOption.map (head.plan index item)
  | _ => none

/-- The plan of an item, if none of the items before it has the same id. -/
def entry (front : List Json) (item : Json) : Option Plan :=
  if headId item ∈ front.map headId then none else planOf front.length item

/-- The plans that the items of a list describe, the first for each id. -/
def described (source : List Json) : List Plan :=
  source.zipIdx.filterMap fun x => entry (source.take x.2) x.1

/-- No number of the item is out of range. The order is only read where there is a plan. -/
def ReadableItem (front : List Json) (item : Json) : Prop :=
  ∀ members, item = .obj members → ∃ head, planHead members = .ok head ∧
    ∀ h, head = some h → some h.id ∉ front.map headId →
      ∃ sortOrder, cleanInt (Json.member? members "sort_order") = .ok sortOrder

/-- No number that is read of the items is out of range. -/
def ReadableItems (source : List Json) : Prop :=
  ∀ front item behind, source = front ++ item :: behind → ReadableItem front item

theorem described_concat (source : List Json) (item : Json) :
    described (source ++ [item]) = described source ++ (entry source item).toList := by
  unfold described
  rw [List.zipIdx_append, List.filterMap_append]
  congr 1
  · refine List.filterMap_congr fun x hx => ?_
    have hlt := List.snd_lt_of_mem_zipIdx hx
    rw [List.take_append_of_le_length (by omega)]
  rw [List.zipIdx_singleton, List.filterMap_cons, List.filterMap_nil]
  rw [Nat.zero_add, List.take_left]
  cases entry source item with
  | none => rfl
  | some _ => rfl

variable {source : List Json} {item : Json}

theorem readable_concat : ReadableItems (source ++ [item]) ↔ ReadableItems source ∧ ReadableItem source item := by
  constructor
  · intro h
    refine ⟨?_, h source item [] rfl⟩
    rintro front item' behind rfl
    exact h front item' (behind ++ [item]) (by simp)
  rintro ⟨hsource, hitem⟩ front item' behind heq
  obtain rfl | ⟨behind', last, rfl⟩ := List.eq_nil_or_concat behind
  · obtain ⟨rfl, hlast⟩ := List.append_inj' heq rfl
    obtain rfl : item = item' := by simpa using hlast
    exact hitem
  have hconcat : source ++ [item] = (front ++ item' :: behind') ++ [last] := by
    rw [heq]
    simp
  exact hsource front item' behind' (List.append_inj' hconcat rfl).1

/-! ## §2 The loop -/

/-- The plans kept are those that the items so far describe, and the ids known are the items'. -/
structure KeptOf (source : List Json) (kept : Kept) : Prop where
  list : kept.list = described source
  ids : ∀ id, id ∈ kept.ids ↔ some id ∈ source.map headId

theorem headOf_obj {item : List (String × Json)} {head : Option PlanHead} (h : planHead item = .ok head) :
    headOf (.obj item) = head := by
  rw [headOf, h]
  rfl

theorem planOf_obj {item : List (String × Json)} {head : Option PlanHead} (h : planHead item = .ok head) (index : ℕ) :
    planOf index (.obj item) = head.bind fun head =>
      (cleanInt (Json.member? item "sort_order")).toOption.map (head.plan index item) := by
  show (headOf (.obj item)).bind _ = _
  rw [headOf_obj h]

variable {kept : Kept}

/-- An item without a plan of its own leaves the plans as they are. -/
theorem KeptOf.skip (h : KeptOf source kept) (hentry : entry source item = none)
    (hid : ∀ id, headId item = some id → some id ∈ source.map headId) : KeptOf (source ++ [item]) kept where
  list := by rw [described_concat, hentry, h.list, Option.toList_none, List.append_nil]
  ids := by
    intro id
    rw [h.ids, List.map_append, List.map_singleton, List.mem_append, List.mem_singleton]
    exact ⟨Or.inl, fun hmem => hmem.elim (fun h => h) fun heq => hid id heq.symm⟩

theorem KeptOf.add (h : KeptOf source kept) {plan : Plan} (hnew : plan.id ∉ kept.ids)
    (hentry : entry source item = some plan) (hid : headId item = some plan.id) :
    KeptOf (source ++ [item]) (kept.add plan hnew) where
  list := by
    rw [described_concat, hentry, ← h.list]
    rfl
  ids := by
    intro id
    show id ∈ (kept.list ++ [plan]).map Plan.id ↔ _
    rw [List.map_append, List.map_singleton, List.mem_append, List.mem_singleton, List.map_append,
      List.map_singleton, List.mem_append, List.mem_singleton, hid, Option.some.injEq, ← h.ids]
    rfl

/-- **One item**: it is read if no number of it is out of range, and else it ends the loop. -/
theorem KeptOf.step (h : KeptOf source kept) (item : Json) : (ReadableItem source item ∧
      ∃ kept', kept.step (item, source.length) = .ok kept' ∧ KeptOf (source ++ [item]) kept') ∨
    ¬ReadableItem source item ∧ ∃ e, kept.step (item, source.length) = .error e := by
  match item with
  | .obj members =>
    match hhead : planHead members with
    | .error e =>
      refine .inr ⟨fun hread => ?_, e, by rw [Kept.step, hhead]; rfl⟩
      obtain ⟨head, hok, -⟩ := hread members rfl
      exact absurd (hhead.symm.trans hok) nofun
    | .ok none =>
      refine .inl ⟨?_, kept, by rw [Kept.step, hhead]; rfl, h.skip ?_ ?_⟩
      · intro members' heq
        obtain rfl := Json.obj.inj heq
        exact ⟨none, hhead, nofun⟩
      · unfold entry
        rw [planOf_obj hhead]
        exact ite_self none
      · intro id hid
        rw [headId, headOf_obj hhead] at hid
        cases hid
    | .ok (some head) =>
      have hid : headId (.obj members) = some head.id := by rw [headId, headOf_obj hhead, Option.map_some]
      by_cases hknown : head.id ∈ kept.ids
      · have hmem := (h.ids head.id).mp hknown
        refine .inl ⟨?_, kept, ?_, h.skip ?_ ?_⟩
        · intro members' heq
          obtain rfl := Json.obj.inj heq
          refine ⟨some head, hhead, fun h' hh' hnot => ?_⟩
          obtain rfl := Option.some.inj hh'
          exact absurd hmem hnot
        · rw [Kept.step, hhead]
          exact dif_pos hknown
        · exact if_pos (hid ▸ hmem)
        · intro id hsome
          obtain rfl := Option.some.inj (hid.symm.trans hsome)
          exact hmem
      · have hnot : some head.id ∉ source.map headId := fun hmem => hknown ((h.ids head.id).mpr hmem)
        have hstep : kept.step (.obj members, source.length) =
            (cleanInt (Json.member? members "sort_order")).bind fun sortOrder =>
              .ok (kept.add (head.plan source.length members sortOrder) hknown) := by
          rw [Kept.step, hhead]
          exact dif_neg hknown
        match horder : cleanInt (Json.member? members "sort_order") with
        | .error e =>
          refine .inr ⟨fun hread => ?_, e, by rw [hstep, horder]; rfl⟩
          obtain ⟨head', hok, hread⟩ := hread members rfl
          obtain rfl := Except.ok.inj (hhead.symm.trans hok)
          obtain ⟨sortOrder, hok⟩ := hread head rfl hnot
          exact absurd (horder.symm.trans hok) nofun
        | .ok sortOrder =>
          refine .inl ⟨?_, _, by rw [hstep, horder]; rfl, h.add hknown ?_ hid⟩
          · intro members' heq
            obtain rfl := Json.obj.inj heq
            exact ⟨some head, hhead, fun _ _ _ => ⟨sortOrder, horder⟩⟩
          unfold entry
          rw [hid, if_neg hnot, planOf_obj hhead, Option.bind_some, horder]
          rfl
  | .null | .bool _ | .int _ | .float _ | .str _ | .arr _ =>
    exact .inl ⟨nofun, kept, rfl, h.skip (ite_self none) nofun⟩

theorem keepPlans_concat (source : List Json) (item : Json) :
    keepPlans (source ++ [item]) = (keepPlans source).bind fun kept => kept.step (item, source.length) := by
  unfold keepPlans
  rw [List.zipIdx_append, List.foldlM_append, List.zipIdx_singleton, Nat.zero_add]
  show (_ >>= _) = (_ >>= _)
  congr 1
  funext kept
  simp

/-- **The loop** keeps the plans that the items describe, unless a number is out of range. -/
theorem keepPlans_run (source : List Json) :
    (ReadableItems source ∧ ∃ kept, keepPlans source = .ok kept ∧ KeptOf source kept) ∨
    ¬ReadableItems source ∧ ∃ e, keepPlans source = .error e := by
  induction source using List.reverseRecOn with
  | nil =>
    refine .inl ⟨fun front item behind heq => absurd heq (by simp), Kept.nil, rfl, rfl, fun id => ?_⟩
    exact iff_of_false List.not_mem_nil List.not_mem_nil
  | append_singleton source item ih =>
    rw [keepPlans_concat, readable_concat]
    obtain ⟨hread, kept, hkept, hof⟩ | ⟨hnot, e, he⟩ := ih
    · rw [hkept]
      obtain ⟨hitem, hstep⟩ | ⟨hitem, hstep⟩ := hof.step item
      · exact .inl ⟨⟨hread, hitem⟩, hstep⟩
      · exact .inr ⟨fun h => hitem h.2, hstep⟩
    · rw [he]
      exact .inr ⟨fun h => hnot h.1, e, rfl⟩

/-! ## §3 Repair, order and cut -/

instance (uni : PyStr.Unicode) : Std.Total (planLe uni) where
  total a b := by
    unfold planLe
    obtain hlt | heq | hlt := lt_trichotomy a.sortOrder b.sortOrder
    · exact .inl (.inl hlt)
    · obtain hle | hle := le_total (uni.lower a.name) (uni.lower b.name)
      · exact .inl (.inr ⟨heq, hle⟩)
      · exact .inr (.inr ⟨heq.symm, hle⟩)
    · exact .inr (.inl hlt)

instance (uni : PyStr.Unicode) : IsTrans Plan (planLe uni) where
  trans a b c hab hbc := by
    unfold planLe at *
    obtain hab | ⟨hab, hname⟩ := hab
    · obtain hbc | ⟨hbc, -⟩ := hbc
      · exact .inl (by omega)
      · exact .inl (by omega)
    obtain hbc | ⟨hbc, hname'⟩ := hbc
    · exact .inl (by omega)
    · exact .inr ⟨by omega, hname.trans hname'⟩

/-- Fewer than 32 of the plans come before this one. -/
def Shown (uni : PyStr.Unicode) (plans : List Plan) (p : Plan) : Prop :=
  ∃ front behind, plans = front ++ p :: behind ∧ StableSort.rank (planLe uni) front p behind < 32

variable {plans : List Plan}

theorem shown_iff (uni : PyStr.Unicode) (hnodup : (plans.map Plan.id).Nodup) (p : Plan) :
    Shown uni plans p ↔ p ∈ (plans.insertionSort (planLe uni)).take 32 := by
  constructor
  · rintro ⟨front, behind, rfl, hrank⟩
    exact (mem_take_insertionSort hnodup.of_map 32).mpr hrank
  intro hmem
  obtain ⟨front, behind, rfl⟩ := List.append_of_mem ((List.mem_insertionSort _).mp (List.mem_of_mem_take hmem))
  exact ⟨front, behind, rfl, (mem_take_insertionSort hnodup.of_map 32).mp hmem⟩

/-- What the repair does not change of a plan. -/
def Plan.core (p : Plan) : Plan := { p with active := false, isDefault := false }

theorem map_core_activateFirst (plans : List Plan) : (activateFirst plans).map Plan.core = plans.map Plan.core := by
  unfold activateFirst
  split
  · rfl
  match plans with
  | [] => rfl
  | _ :: _ => rfl

theorem map_core_makeDefault (plans : List Plan) : (makeDefault plans).map Plan.core = plans.map Plan.core := by
  unfold makeDefault
  split
  · rfl
  · apply map_modify_of_eq
    exact fun _ => rfl

theorem map_core_insertionSort (uni : PyStr.Unicode) (plans : List Plan) :
    (plans.insertionSort (planLe uni)).map Plan.core = (plans.map Plan.core).insertionSort (planLe uni) := by
  apply List.map_insertionSort
  exact fun _ _ _ _ => Iff.rfl

/-- **But for the repair**, the arranged plans are the first in order. -/
theorem map_core_arrange (uni : PyStr.Unicode) (plans : List Plan) :
    (arrange uni plans).map Plan.core = ((plans.insertionSort (planLe uni)).take 32).map Plan.core := by
  unfold arrange
  rw [List.map_take, List.map_take, map_core_insertionSort, map_core_insertionSort, map_core_makeDefault,
    map_core_activateFirst]

/-- What the repair does not change holds of all arranged plans if it holds of those shown. -/
theorem forall_mem_arrange_iff (uni : PyStr.Unicode) (hnodup : (plans.map Plan.id).Nodup) {P : Plan → Prop}
    (hP : ∀ p, P p.core ↔ P p) : (∀ p ∈ arrange uni plans, P p) ↔ ∀ p, Shown uni plans p → P p := by
  have hcore : ∀ l : List Plan, (∀ p ∈ l, P p) ↔ ∀ q ∈ l.map Plan.core, P q := by
    intro l
    rw [List.forall_mem_map]
    exact forall₂_congr fun p _ => (hP p).symm
  rw [hcore, map_core_arrange, ← hcore]
  exact forall_congr' fun p => by rw [shown_iff uni hnodup]

/-- An active plan that is a default. -/
def Plan.starred (p : Plan) : Bool := p.active && p.isDefault

/-- The plans that are active defaults once the repair is done: those that are so already, or else the first active
plan, or else the first. -/
def StarredBy (plans : List Plan) (p : Plan) : Prop :=
  if plans.any Plan.starred then p.starred = true
  else if plans.any Plan.active then plans.find? Plan.active = some p
  else plans.head? = some p

/-- A plan with the two marks that the repair gives it. -/
def Plan.star (p : Plan) : Plan := { p with active := true, isDefault := true }

/-- A change to the first element with a property. -/
theorem modify_findIdx {α : Type} {P : α → Bool} {l : List α} (h : l.any P = true) :
    ∃ front a behind, l = front ++ a :: behind ∧ l.find? P = some a ∧
      ∀ f, l.modify (l.findIdx P) f = front ++ f a :: behind := by
  induction l with
  | nil => cases h
  | cons a l ih =>
    by_cases ha : P a = true
    · refine ⟨[], a, l, rfl, List.find?_cons_of_pos ha, fun f => ?_⟩
      rw [List.findIdx_cons, ha]
      exact List.modify_zero_cons _ _ _
    rw [Bool.not_eq_true] at ha
    rw [List.any_cons, ha, Bool.false_or] at h
    obtain ⟨front, b, behind, rfl, hfind, hmodify⟩ := ih h
    refine ⟨a :: front, b, behind, rfl, ?_, fun f => ?_⟩
    · rw [List.find?_cons_of_neg (by simp [ha]), hfind]
    · rw [List.findIdx_cons, ha, cond_false, List.modify_succ_cons, hmodify]
      rfl

theorem any_active_of_any_starred (h : plans.any Plan.starred = true) : plans.any Plan.active = true := by
  obtain ⟨p, hp, hstarred⟩ := List.any_eq_true.mp h
  exact List.any_eq_true.mpr ⟨p, hp, (Bool.and_eq_true_iff.mp hstarred).1⟩

theorem repair_of_starred (h : plans.any Plan.starred = true) : makeDefault (activateFirst plans) = plans := by
  unfold activateFirst
  rw [if_pos (any_active_of_any_starred h)]
  exact if_pos h

/-- **The repair** marks one plan, if none is an active default. -/
theorem repair_eq (hne : plans ≠ []) (hnone : plans.any Plan.starred = false) :
    ∃ front p behind, plans = front ++ p :: behind ∧ (∀ q, StarredBy plans q ↔ q = p) ∧
      makeDefault (activateFirst plans) = front ++ p.star :: behind := by
  unfold StarredBy activateFirst
  by_cases hactive : plans.any Plan.active = true
  · obtain ⟨front, p, behind, heq, hfind, hmodify⟩ := modify_findIdx hactive
    refine ⟨front, p, behind, heq, fun q => ?_, ?_⟩
    · rw [if_neg (by simp [hnone]), if_pos hactive, hfind, Option.some.injEq, eq_comm]
    have hp : p.active = true := List.find?_some hfind
    rw [if_pos hactive]
    refine (if_neg (by simpa [Plan.starred] using hnone)).trans ?_
    rw [hmodify]
    unfold Plan.star
    rw [← hp]
  · obtain ⟨p, behind, rfl⟩ := List.exists_cons_of_ne_nil hne
    refine ⟨[], p, behind, rfl, fun q => ?_, ?_⟩
    · rw [if_neg (by simp [hnone]), if_neg hactive, List.head?_cons, Option.some.injEq, eq_comm]
    rw [if_neg hactive, List.modifyHead_cons]
    unfold makeDefault
    split
    · -- only the first plan is active, so it is the default
      rename_i hstarred
      rw [List.any_cons, Bool.or_eq_true] at hstarred
      obtain hdefault | hrest := hstarred
      · have hdefault : p.isDefault = true := by simpa using hdefault
        unfold Plan.star
        rw [← hdefault]
        rfl
      · have hrest : behind.any Plan.active = true := any_active_of_any_starred hrest
        exact absurd (by rw [List.any_cons, hrest, Bool.or_true]) hactive
    · rw [List.findIdx_cons]
      exact List.modify_zero_cons _ _ _

theorem exists_starred_iff (uni : PyStr.Unicode) (hne : plans ≠ []) (hnodup : (plans.map Plan.id).Nodup) :
    (∃ p ∈ arrange uni plans, p.starred = true) ↔ ∃ p, Shown uni plans p ∧ StarredBy plans p := by
  unfold arrange
  cases hany : plans.any Plan.starred with
  | true =>
    rw [repair_of_starred hany]
    refine exists_congr fun p => ?_
    rw [shown_iff uni hnodup, StarredBy, if_pos hany]
  | false =>
    obtain ⟨front, p, behind, heq, hby, hrepair⟩ := repair_eq hne hany
    -- the plan with the marks is the only active default, and it is where it was
    have hids : (front ++ p.star :: behind).map Plan.id = plans.map Plan.id := by
      rw [heq, List.map_append, List.map_append]
      rfl
    have hnot : ∀ q ∈ plans, q.starred ≠ true := List.any_eq_false.mp hany
    have honly : ∀ q ∈ front ++ p.star :: behind, q.starred = true ↔ q = p.star := by
      intro q hq
      constructor
      · intro hstarred
        rw [List.mem_append, List.mem_cons] at hq
        obtain hq | rfl | hq := hq
        · exact absurd hstarred (hnot q (by rw [heq]; simp [hq]))
        · rfl
        · exact absurd hstarred (hnot q (by rw [heq]; simp [hq]))
      · rintro rfl
        rfl
    have hmarked := mem_take_insertionSort (r := planLe uni) (hids.symm ▸ hnodup).of_map 32
    have hshown : Shown uni plans p ↔ StableSort.rank (planLe uni) front p behind < 32 := by
      rw [shown_iff uni hnodup, heq]
      exact mem_take_insertionSort (heq ▸ hnodup).of_map 32
    rw [hrepair]
    constructor
    · rintro ⟨q, hq, hstarred⟩
      obtain rfl := (honly q ((List.mem_insertionSort _).mp (List.mem_of_mem_take hq))).mp hstarred
      exact ⟨p, hshown.mpr (hmarked.mp hq), (hby p).mpr rfl⟩
    rintro ⟨q, hq, hstarred⟩
    obtain rfl := (hby q).mp hstarred
    exact ⟨q.star, hmarked.mpr (hshown.mp hq), rfl⟩

/-! ## §4 Plans that are fit for use -/

/-- The plans that the repair starts from: those that the items describe, or the default ones. -/
def drawn (price : PlusPrice) (raw : Option Json) : List Plan :=
  let plans := described (planSource price raw)
  if plans = [] then defaultPlans price else plans

/-- **Plans that are fit for use**: `_resolve_plan` finds an active one for every id. -/
structure Sound (plans : Plans) : Prop where
  nonempty : plans.list ≠ []
  length_le : plans.list.length ≤ 32
  nodup : (plans.list.map Plan.id).Nodup
  durationDays_pos : ∀ p ∈ plans.list, 0 < p.durationDays
  priceRub_pos : ∀ p ∈ plans.list, p.priceRub.isPos = true
  active : ∃ p ∈ plans.list, p.active = true
  starred : ∃ p ∈ plans.list, p.active = true ∧ p.isDefault = true
  resolved : ∀ planId, (plans.resolvePlan planId).active = true

/-- With an active default, every resolved plan is active. -/
theorem active_resolvePlan {plans : Plans} (h : ∃ p ∈ plans.list, p.active = true) (planId : Option String) :
    (plans.resolvePlan planId).active = true := by
  have hfallback : plans.fallback.active = true := by
    unfold Plans.fallback
    split
    · rename_i p hfind
      have hboth := List.find?_some hfind
      exact (Bool.and_eq_true_iff.mp hboth).1
    split
    · rename_i p hfind
      exact List.find?_some hfind
    rename_i hnone
    obtain ⟨p, hp, hactive⟩ := h
    exact absurd hactive (List.find?_eq_none.mp hnone p hp)
  unfold Plans.resolvePlan
  split
  · split
    · assumption
    · exact hfallback
  · exact hfallback

/-- The result is made of the plans that the items describe, unless a number is out of range. -/
theorem normalizePlans_run (uni : PyStr.Unicode) (price : PlusPrice) (raw : Option Json) :
    (ReadableItems (planSource price raw) ∧
      ∃ plans, normalizePlans uni price raw = .ok plans ∧ plans.list = arrange uni (drawn price raw)) ∨
    ¬ReadableItems (planSource price raw) ∧ ∃ e, normalizePlans uni price raw = .error e := by
  unfold normalizePlans
  obtain ⟨hread, kept, hkept, hof⟩ | ⟨hnot, e, he⟩ := keepPlans_run (planSource price raw)
  · refine .inl ⟨hread, _, by rw [hkept]; rfl, ?_⟩
    show arrange uni (kept.orDefault price) = _
    congr 1
    unfold drawn Kept.orDefault
    rw [hof.list]
  · exact .inr ⟨hnot, e, by rw [he]; rfl⟩

theorem drawn_ne_nil (price : PlusPrice) (raw : Option Json) : drawn price raw ≠ [] := by
  unfold drawn
  dsimp only
  split
  · exact List.cons_ne_nil _ _
  · assumption

theorem nodup_drawn {price : PlusPrice} {raw : Option Json} (h : ReadableItems (planSource price raw)) :
    ((drawn price raw).map Plan.id).Nodup := by
  unfold drawn
  dsimp only
  split
  · exact nodup_defaultPlans price
  obtain ⟨-, kept, -, hof⟩ | ⟨hnot, -⟩ := keepPlans_run (planSource price raw)
  · rw [← hof.list]
    exact kept.nodup
  · exact absurd h hnot

/-! ## §5 Lists that are not -/

def examplePrice : PlusPrice := ⟨.finite 299, by decide⟩

/-- An item with a price in thousandths. -/
def exampleItem (id : String) (thousandths : ℕ) (active : Bool) (sortOrder : ℤ) : Json :=
  .obj [("id", .str id), ("name", .str id), ("price_rub", .float (.finite (thousandths / 1000))),
    ("duration_days", .int 30), ("active", .bool active), ("sort_order", .int sortOrder)]

/-- More plans than fit, of which the first is the last in order. -/
def exampleItems : List Json :=
  exampleItem "a" 1000 false 1000 ::
    (List.range 32).map fun i => exampleItem (String.ofList [Char.ofNat (98 + i)]) 1000 false 10

end Setka.Handlers.Plus
