/-
# Setka.Handlers.PlusPlansRestart — plans that survive a restart.

`set_plans` returns normalised plans and writes them to a file. A new process reads the file and normalises again what
it finds, which changes a plan whose strings were cut behind a space, drops one whose price was rounded to nothing, and
repairs a list whose active default was cut off.
-/
import Setka.Handlers.PlusPlansSound

namespace Setka.Handlers.Plus

open Setka.Api Setka.Lib PyStr

/-! ## §1 The file -/

/-- The plans in memory, and the value that `json.load` reads from the file, if it reads one. -/
structure PlansStore where
  cache : Option Plans
  file : Option Json

/-- What `_persist_plans_file` writes. -/
def plansFile (plans : Plans) : Json := .obj [("plans", .arr (plans.list.map Plan.toJson))]

/-- `set_plans`, where the file can be written. -/
def setPlans (uni : PyStr.Unicode) (price : PlusPrice) (raw : Option Json) : Except Error (Plans × PlansStore) := do
  let normalized ← normalizePlans uni price raw
  pure (normalized, ⟨some normalized, some (plansFile normalized)⟩)

/-- `_load_plans`, where the file can be written. -/
def loadPlans (uni : PyStr.Unicode) (price : PlusPrice) (s : PlansStore) : Except Error (Plans × PlansStore) :=
  match s.cache with
  | some plans => pure (plans, s)
  | none => do
      let rawPlans :=
        match s.file with
        | some (.obj parsed) => Json.member? parsed "plans"
        | parsed => parsed
      let plans ← normalizePlans uni price rawPlans
      pure (plans, ⟨some plans, some (plansFile plans)⟩)

/-- A new process has the file only. -/
def PlansStore.restart (s : PlansStore) : PlansStore := { s with cache := none }

/-- **Plans survive a restart**: what `set_plans` returns is what a new process loads. -/
def SurvivesRestart (uni : PyStr.Unicode) (price : PlusPrice) (raw : Option Json) : Prop :=
  ∀ plans s, setPlans uni price raw = .ok (plans, s) → ∃ s', loadPlans uni price s.restart = .ok (plans, s')

/-- A new process normalises the plans that were returned. -/
theorem survivesRestart_iff (uni : PyStr.Unicode) (price : PlusPrice) (raw : Option Json) :
    SurvivesRestart uni price raw ↔ ∀ plans, normalizePlans uni price raw = .ok plans →
      normalizePlans uni price (some (.arr (plans.list.map Plan.toJson))) = .ok plans := by
  have hload : ∀ plans plans' : Plans,
      (∃ s', loadPlans uni price (PlansStore.restart ⟨some plans, some (plansFile plans)⟩) = .ok (plans', s')) ↔
        normalizePlans uni price (some (.arr (plans.list.map Plan.toJson))) = .ok plans' := by
    intro plans plans'
    unfold loadPlans PlansStore.restart plansFile
    have hmember : Json.member? [("plans", .arr (plans.list.map Plan.toJson))] "plans" =
        some (.arr (plans.list.map Plan.toJson)) := rfl
    dsimp only
    rw [hmember]
    cases normalizePlans uni price (some (.arr (plans.list.map Plan.toJson))) with
    | error e =>
      refine iff_of_false ?_ nofun
      rintro ⟨s', h⟩
      cases h
    | ok found =>
      constructor
      · rintro ⟨s', h⟩
        exact congrArg Except.ok (congrArg Prod.fst (Except.ok.inj h))
      intro h
      obtain rfl := Except.ok.inj h
      exact ⟨_, rfl⟩
  unfold SurvivesRestart setPlans
  cases normalizePlans uni price raw with
  | error e => exact iff_of_true nofun nofun
  | ok plans =>
    constructor
    · intro h plans' hplans'
      obtain rfl := Except.ok.inj hplans'
      exact (hload plans plans).mp (h plans _ rfl)
    intro h plans' s hset
    obtain ⟨rfl, rfl⟩ := Prod.mk.inj (Except.ok.inj hset)
    exact (hload plans plans).mpr (h plans rfl)

/-! ## §2 Reading a plan back -/

/-- What normalisation guarantees of a plan, besides what its type says. -/
structure Plan.Clean (p : Plan) : Prop where
  sortOrder : p.sortOrder ≠ 0
  length_features : p.features.length ≤ 16
  features : ∀ feature ∈ p.features, Fits 160 feature

/-- A plan that the next normalisation leaves as it is: it costs something, and its strings do not end in spaces. -/
structure Plan.Tidy (p : Plan) : Prop where
  price : p.priceRub.isPos = true
  id : PyStr.strip p.id = p.id
  name : PyStr.strip p.name = p.name
  features : ∀ feature ∈ p.features, PyStr.strip feature = feature

/-- The plan that is read back. -/
def Plan.tidied (p : Plan) : Plan where
  id := PyStr.strip p.id
  name := PyStr.strip p.name
  priceRub := p.priceRub
  durationDays := p.durationDays
  features := p.features.map PyStr.strip
  active := p.active
  isDefault := p.isDefault
  sortOrder := p.sortOrder
  id_clean := ⟨_, cleanStr_of_fits p.fits_id⟩
  name_clean := ⟨_, cleanStr_of_fits p.fits_name⟩
  durationDays_pos := p.durationDays_pos
  priceRub_rounded := p.priceRub_rounded

variable {p : Plan}

theorem Plan.ext {q : Plan} (hid : p.id = q.id) (hname : p.name = q.name) (hprice : p.priceRub = q.priceRub)
    (hdays : p.durationDays = q.durationDays) (hfeatures : p.features = q.features)
    (hactive : p.active = q.active) (hdefault : p.isDefault = q.isDefault)
    (horder : p.sortOrder = q.sortOrder) : p = q := by
  obtain ⟨⟩ := p
  obtain ⟨⟩ := q
  simp only [Plan.mk.injEq]
  exact ⟨hid, hname, hprice, hdays, hfeatures, hactive, hdefault, horder⟩

theorem Plan.Tidy.tidied_eq (h : p.Tidy) : p.tidied = p := by
  refine Plan.ext h.id h.name rfl rfl ?_ rfl rfl rfl
  exact (List.map_congr_left h.features).trans (List.map_id _)

theorem Plan.tidy_tidied (hprice : p.priceRub.isPos = true) : p.tidied.Tidy where
  price := hprice
  id := strip_strip p.id
  name := strip_strip p.name
  features := by
    intro feature hfeature
    obtain ⟨raw, -, rfl⟩ := List.mem_map.mp hfeature
    exact strip_strip raw

theorem cleanFeatures_of_fits {features : List String} (hlength : features.length ≤ 16)
    (hfits : ∀ feature ∈ features, Fits 160 feature) :
    cleanFeatures (some (.arr (features.map Json.str))) = features.map PyStr.strip := by
  unfold cleanFeatures
  dsimp only
  rw [List.filterMap_map]
  have hcleaned : features.filterMap ((fun feature => cleanStr 160 (some feature)) ∘ Json.str) =
      features.map PyStr.strip := by
    rw [← List.filterMap_eq_map]
    refine List.filterMap_congr fun feature hfeature => ?_
    show cleanStr 160 (some (.str feature)) = some (PyStr.strip feature)
    exact cleanStr_of_fits (hfits feature hfeature)
  rw [hcleaned, List.take_of_length_le (by rw [List.length_map]; exact hlength)]

/-- An item without a price is skipped. -/
theorem planHead_of_no_price {item : List (String × Json)} {days : Option ℤ}
    (hprice : cleanFloat (Json.member? item "price_rub") = .ok none)
    (hdays : cleanInt (Json.member? item "duration_days") = .ok days) : planHead item = .ok none := by
  fun_cases planHead item with
  | case1 get e he => exact absurd (hprice.symm.trans he) nofun
  | case2 get priceRub hpriceRub e he => exact absurd (hdays.symm.trans he) nofun
  | case3 get id name price days hprice' => exact absurd (hprice.symm.trans hprice') nofun
  | case4 | case5 => rfl

/-- An item with everything that is asked for. -/
theorem planHead_of_some {item : List (String × Json)} {price : PyFloat} {days : ℤ} {id name : String}
    (hprice : cleanFloat (Json.member? item "price_rub") = .ok (some price))
    (hdays : cleanInt (Json.member? item "duration_days") = .ok (some days))
    (hid : cleanStr 64 (Json.member? item "id") = some id)
    (hname : cleanStr 120 (Json.member? item "name") = some name) (hpos : 0 < days) :
    ∃ head, planHead item = .ok (some head) ∧ head.id = id ∧ head.name = name ∧ head.price = price ∧
      head.durationDays = days := by
  fun_cases planHead item with
  | case1 get e he => exact absurd (hprice.symm.trans he) nofun
  | case2 get priceRub hpriceRub e he => exact absurd (hdays.symm.trans he) nofun
  | case3 get id' name' price' days' hprice' hid' hname' hpos' hprice'' hdays' =>
    refine ⟨_, rfl, ?_, ?_, ?_, ?_⟩
    · exact Option.some.inj (hid'.symm.trans hid)
    · exact Option.some.inj (hname'.symm.trans hname)
    · exact Option.some.inj (Except.ok.inj (hprice'.symm.trans hprice))
    · exact Option.some.inj (Except.ok.inj (hdays'.symm.trans hdays))
  | case4 get id' name' price' days' hprice' hid' hname' hnot hprice'' hdays' =>
    obtain rfl := Option.some.inj (Except.ok.inj (hdays'.symm.trans hdays))
    exact absurd hpos hnot
  | case5 get priceRub hpriceRub durationDays hdays' hpriceRub' hnone =>
    obtain rfl := Except.ok.inj (hprice.symm.trans hpriceRub)
    obtain rfl := Except.ok.inj (hdays.symm.trans hdays')
    exact (hnone id name price days hpriceRub hid hname rfl rfl HEq.rfl).elim

/-- **What is read back of a plan.** -/
theorem planOf_toJson (h : p.Clean) (index : ℕ) :
    planOf index p.toJson = if p.priceRub.isPos = true then some p.tidied else none := by
  have hdays : cleanInt (Json.member? p.toMembers "duration_days") = .ok (some p.durationDays) := rfl
  by_cases hpos : p.priceRub.isPos = true
  · have hprice : cleanFloat (Json.member? p.toMembers "price_rub") = .ok (some p.priceRub) := by
      show Except.ok (if p.priceRub.isPos then some p.priceRub else none) = _
      rw [if_pos hpos]
    obtain ⟨head, hhead, hid, hname, hprice', hdays'⟩ := planHead_of_some hprice hdays (cleanStr_of_fits p.fits_id)
      (cleanStr_of_fits p.fits_name) p.durationDays_pos
    show planOf index (.obj p.toMembers) = _
    rw [planOf_obj hhead, if_pos hpos]
    show some (head.plan index p.toMembers (some p.sortOrder)) = some p.tidied
    congr 1
    refine Plan.ext hid hname ?_ hdays' ?_ rfl rfl ?_
    · show head.price.round2 = p.priceRub
      rw [hprice', p.round2_priceRub]
    · exact cleanFeatures_of_fits h.length_features h.features
    · exact if_neg h.sortOrder
  · have hprice : cleanFloat (Json.member? p.toMembers "price_rub") = .ok none := by
      show Except.ok (if p.priceRub.isPos then some p.priceRub else none) = _
      rw [if_neg hpos]
    show planOf index (.obj p.toMembers) = _
    rw [planOf_obj (planHead_of_no_price hprice hdays), if_neg hpos]
    rfl

/-! ## §3 Reading a list back -/

theorem headId_toJson (h : p.Tidy) : headId p.toJson = some p.id := by
  have hdays : cleanInt (Json.member? p.toMembers "duration_days") = .ok (some p.durationDays) := rfl
  have hprice : cleanFloat (Json.member? p.toMembers "price_rub") = .ok (some p.priceRub) := by
    show Except.ok (if p.priceRub.isPos then some p.priceRub else none) = _
    rw [if_pos h.price]
  obtain ⟨head, hhead, hid, -⟩ := planHead_of_some hprice hdays (cleanStr_of_fits p.fits_id)
    (cleanStr_of_fits p.fits_name) p.durationDays_pos
  show (headOf (.obj p.toMembers)).map PlanHead.id = _
  rw [headOf_obj hhead, Option.map_some, hid, h.id]

/-- No number that was written is out of range. -/
theorem readableItem_toJson (front : List Json) (p : Plan) : ReadableItem front p.toJson := by
  intro members heq
  obtain rfl := Json.obj.inj heq
  have hdays : cleanInt (Json.member? p.toMembers "duration_days") = .ok (some p.durationDays) := rfl
  have hprice : cleanFloat (Json.member? p.toMembers "price_rub") =
      .ok (if p.priceRub.isPos then some p.priceRub else none) := rfl
  have hhead : ∃ head, planHead p.toMembers = .ok head := by
    by_cases hpos : p.priceRub.isPos = true
    · rw [if_pos hpos] at hprice
      obtain ⟨head, hhead, -⟩ := planHead_of_some hprice hdays (cleanStr_of_fits p.fits_id)
        (cleanStr_of_fits p.fits_name) p.durationDays_pos
      exact ⟨_, hhead⟩
    · rw [if_neg hpos] at hprice
      exact ⟨_, planHead_of_no_price hprice hdays⟩
  obtain ⟨head, hhead⟩ := hhead
  exact ⟨head, hhead, fun _ _ _ => ⟨some p.sortOrder, rfl⟩⟩

theorem readableItems_toJson (plans : List Plan) : ReadableItems (plans.map Plan.toJson) := by
  intro front item behind heq
  obtain ⟨p, -, rfl⟩ := List.mem_map.mp (show item ∈ plans.map Plan.toJson by rw [heq]; simp)
  exact readableItem_toJson front p

/-- What a list describes is described by one of its items. -/
theorem exists_planOf_of_mem {source : List Json} (h : p ∈ described source) :
    ∃ index item, item ∈ source ∧ planOf index item = some p := by
  obtain ⟨x, hx, hentry⟩ := List.mem_filterMap.mp h
  unfold entry at hentry
  split at hentry
  · cases hentry
  · exact ⟨_, x.1, List.fst_mem_of_mem_zipIdx hx, hentry⟩

theorem length_described_le (source : List Json) : (described source).length ≤ source.length := by
  refine (List.length_filterMap_le _ _).trans ?_
  rw [List.length_zipIdx]

variable {plans : List Plan}

/-- Plans that are read back are tidy. -/
theorem tidy_of_mem_described (hclean : ∀ p ∈ plans, p.Clean) :
    ∀ p ∈ described (plans.map Plan.toJson), p.Tidy := by
  intro p hp
  obtain ⟨index, item, hitem, hplan⟩ := exists_planOf_of_mem hp
  obtain ⟨q, hq, rfl⟩ := List.mem_map.mp hitem
  rw [planOf_toJson (hclean q hq)] at hplan
  split at hplan
  · rename_i hpos
    obtain rfl := Option.some.inj hplan
    exact Plan.tidy_tidied hpos
  · cases hplan

/-- **Tidy plans are read back** as they are. -/
theorem described_toJson (hclean : ∀ p ∈ plans, p.Clean) (htidy : ∀ p ∈ plans, p.Tidy)
    (hnodup : (plans.map Plan.id).Nodup) : described (plans.map Plan.toJson) = plans := by
  induction plans using List.reverseRecOn with
  | nil => rfl
  | append_singleton plans p ih =>
    rw [List.forall_mem_append, List.forall_mem_singleton] at hclean htidy
    rw [List.map_append, List.map_singleton, List.nodup_append] at hnodup
    have hids : (plans.map Plan.toJson).map headId = (plans.map Plan.id).map some := by
      rw [List.map_map, List.map_map]
      exact List.map_congr_left fun q hq => headId_toJson (htidy.1 q hq)
    have hnew : headId p.toJson ∉ (plans.map Plan.toJson).map headId := by
      rw [hids, headId_toJson htidy.2]
      intro hmem
      obtain ⟨id, hid, hsome⟩ := List.mem_map.mp hmem
      exact hnodup.2.2 id hid p.id List.mem_cons_self (Option.some.inj hsome)
    have hentry : entry (plans.map Plan.toJson) p.toJson = some p := by
      unfold entry
      rw [if_neg hnew, planOf_toJson hclean.2, if_pos htidy.2.price, htidy.2.tidied_eq]
    rw [List.map_append, List.map_singleton, described_concat, ih hclean.1 htidy.1 hnodup.1, hentry]
    rfl

/-! ## §4 Arranging again -/

/-- A list that is in order and has an active default is arranged already. -/
theorem arrange_eq_self {uni : PyStr.Unicode} (hsorted : plans.Pairwise (planLe uni))
    (hlength : plans.length ≤ 32) (hstarred : ∃ p ∈ plans, p.starred = true) : arrange uni plans = plans := by
  unfold arrange
  rw [repair_of_starred (List.any_eq_true.mpr hstarred), hsorted.insertionSort_eq, List.take_of_length_le hlength]

theorem sorted_arrange (uni : PyStr.Unicode) (plans : List Plan) : (arrange uni plans).Pairwise (planLe uni) :=
  (List.pairwise_insertionSort _ _).sublist (List.take_sublist 32 _)

theorem length_arrange_le (uni : PyStr.Unicode) (plans : List Plan) : (arrange uni plans).length ≤ 32 :=
  List.length_take_le 32 _

theorem length_repair (plans : List Plan) : (makeDefault (activateFirst plans)).length = plans.length := by
  have hids := congrArg List.length ((ids_makeDefault (activateFirst plans)).trans (ids_activateFirst plans))
  rwa [List.length_map, List.length_map] at hids

theorem exists_starred_repair (hne : plans ≠ []) : ∃ p ∈ makeDefault (activateFirst plans), p.starred = true := by
  cases hany : plans.any Plan.starred with
  | true =>
    rw [repair_of_starred hany]
    exact List.any_eq_true.mp hany
  | false =>
    obtain ⟨front, p, behind, -, -, hrepair⟩ := repair_eq hne hany
    rw [hrepair]
    exact ⟨p.star, by simp, rfl⟩

/-- Of a list that is not cut the repair is kept. -/
theorem exists_starred_arrange (uni : PyStr.Unicode) (hne : plans ≠ [])
    (hlength : plans.length ≤ 32) : ∃ p ∈ arrange uni plans, p.starred = true := by
  obtain ⟨p, hp, hstarred⟩ := exists_starred_repair hne
  refine ⟨p, ?_, hstarred⟩
  unfold arrange
  rw [List.take_of_length_le (by rw [List.length_insertionSort, length_repair]; exact hlength)]
  exact (List.mem_insertionSort _).mpr hp

/-! ## §5 Plans that survive a restart -/

theorem fits_of_mem_cleanFeatures {value : Option Json} {feature : String} (h : feature ∈ cleanFeatures value) :
    Fits 160 feature := by
  unfold cleanFeatures at h
  split at h
  · obtain ⟨raw, -, hraw⟩ := List.mem_filterMap.mp (List.mem_of_mem_take h)
    exact fits_of_cleanStr (by decide) hraw
  · cases h

theorem length_cleanFeatures_le (value : Option Json) : (cleanFeatures value).length ≤ 16 := by
  unfold cleanFeatures
  split
  · exact List.length_take_le 16 _
  · exact Nat.zero_le 16

theorem PlanHead.clean_plan (head : PlanHead) (index : ℕ) (item : List (String × Json)) (sortOrder : Option ℤ) :
    (head.plan index item sortOrder).Clean where
  sortOrder := by
    show (if sortOrder.getD 0 = 0 then ((index : ℤ) + 1) * 10 else sortOrder.getD 0) ≠ 0
    split
    · omega
    · assumption
  length_features := length_cleanFeatures_le _
  features := fun _ hfeature => fits_of_mem_cleanFeatures hfeature

theorem clean_of_planOf {index : ℕ} {item : Json} (h : planOf index item = some p) : p.Clean := by
  unfold planOf at h
  split at h
  · obtain ⟨head, -, hplan⟩ := Option.bind_eq_some_iff.mp h
    obtain ⟨sortOrder, -, rfl⟩ := Option.map_eq_some_iff.mp hplan
    exact head.clean_plan index _ sortOrder
  · cases h

theorem clean_defaultPlans (price : PlusPrice) : ∀ p ∈ defaultPlans price, p.Clean := by
  -- neither the orders nor the features depend on the price
  have horders : ((defaultPlans examplePrice).all fun p => p.sortOrder ≠ 0) = true := by decide
  have hfeatures : ((defaultPlans examplePrice).all fun p => p.features.length ≤ 16 ∧
      p.features.all fun feature => feature.toList.length ≤ 160 ∧ PyStr.strip feature ≠ "") = true := by decide
  have hclean : ∀ p ∈ defaultPlans price, ∃ q ∈ defaultPlans examplePrice,
      p.sortOrder = q.sortOrder ∧ p.features = q.features := by
    unfold defaultPlans
    rw [List.forall_mem_cons, List.forall_mem_cons, List.forall_mem_singleton]
    exact ⟨⟨_, List.mem_cons_self, rfl, rfl⟩, ⟨_, List.mem_cons_of_mem _ List.mem_cons_self, rfl, rfl⟩,
      ⟨_, List.mem_cons_of_mem _ (List.mem_cons_of_mem _ List.mem_cons_self), rfl, rfl⟩⟩
  intro p hp
  obtain ⟨q, hq, horder, hsame⟩ := hclean p hp
  obtain ⟨hlength, hall⟩ := of_decide_eq_true (List.all_eq_true.mp hfeatures q hq)
  refine ⟨?_, hsame ▸ hlength, fun feature hfeature => ?_⟩
  · rw [horder]
    exact of_decide_eq_true (List.all_eq_true.mp horders q hq)
  · obtain ⟨hle, hblank⟩ := of_decide_eq_true (List.all_eq_true.mp hall feature (hsame ▸ hfeature))
    exact ⟨hle, hblank⟩

variable {price : PlusPrice} {raw : Option Json}

theorem clean_of_mem_drawn (h : p ∈ drawn price raw) : p.Clean := by
  unfold drawn at h
  dsimp only at h
  split at h
  · exact clean_defaultPlans price p h
  · obtain ⟨index, item, -, hplan⟩ := exists_planOf_of_mem h
    exact clean_of_planOf hplan

theorem Shown.mem {uni : PyStr.Unicode} (h : Shown uni plans p) : p ∈ plans := by
  obtain ⟨front, behind, rfl, -⟩ := h
  simp

/-- The default plans are told apart by their order. -/
theorem eq_of_sortOrder_defaultPlans {q : Plan} (hp : p ∈ defaultPlans price) (hq : q ∈ defaultPlans price)
    (h : p.sortOrder = q.sortOrder) : p = q := by
  have hnodup : ((defaultPlans price).map Plan.sortOrder).Nodup := by
    show [(10 : ℤ), 20, 30].Nodup
    decide
  exact List.inj_on_of_nodup_map hnodup hp hq h

theorem sorted_defaultPlans (uni : PyStr.Unicode) (price : PlusPrice) :
    (defaultPlans price).Pairwise (planLe uni) := by
  have hsorted : ((defaultPlans price).map Plan.sortOrder).Pairwise (· < ·) := by
    show [(10 : ℤ), 20, 30].Pairwise (· < ·)
    decide
  exact (List.pairwise_map.mp hsorted).imp Or.inl

/-- The arranged plans are the default ones exactly if the repaired ones are, in some order. -/
theorem arrange_eq_defaultPlans_iff (uni : PyStr.Unicode) (price : PlusPrice) (plans : List Plan) :
    arrange uni plans = defaultPlans price ↔ (makeDefault (activateFirst plans)).Perm (defaultPlans price) := by
  have hcut : (makeDefault (activateFirst plans)).length ≤ 32 →
      arrange uni plans = (makeDefault (activateFirst plans)).insertionSort (planLe uni) := fun hlength =>
    List.take_of_length_le (by rw [List.length_insertionSort]; exact hlength)
  constructor
  · intro h
    have hlength := congrArg List.length h
    unfold arrange at hlength
    rw [List.length_take, List.length_insertionSort] at hlength
    have hthree : (defaultPlans price).length = 3 := rfl
    rw [← h, hcut (by omega)]
    exact (List.perm_insertionSort _ _).symm
  intro h
  have hthree : (defaultPlans price).length = 3 := rfl
  have hperm := (List.perm_insertionSort (planLe uni) _).trans h
  rw [hcut (by rw [h.length_eq, hthree]; decide)]
  refine hperm.eq_of_pairwise ?_ (List.pairwise_insertionSort _ _) (sorted_defaultPlans uni price)
  intro p q hp hq hpq hqp
  refine eq_of_sortOrder_defaultPlans (hperm.mem_iff.mp hp) hq ?_
  unfold planLe at hpq hqp
  omega

/-- All default plans are free of charge if the first one is. -/
theorem priceRub_defaultPlans (h : price.val.round2.isPos = false) :
    ∀ p ∈ defaultPlans price, p.priceRub.isPos = false := by
  have hzero : price.val.round2 = .finite 0 := by
    obtain ⟨n, hn⟩ | hinf := PyFloat.round2_of_isPos price.property
    · rw [hn] at h ⊢
      simpa [PyFloat.isPos] using h
    · rw [hinf] at h
      cases h
  have htimes : ∀ q, (timesPos price.val.round2 q).round2.isPos = false := by
    intro q
    rw [hzero]
    show (PyFloat.round2 (.finite (0 * q))).isPos = false
    rw [zero_mul]
    decide +kernel
  unfold defaultPlans
  rw [List.forall_mem_cons, List.forall_mem_cons, List.forall_mem_singleton]
  exact ⟨h, htimes _, htimes _⟩

/-- Free plans are not read back. -/
theorem described_of_free (hclean : ∀ p ∈ plans, p.Clean)
    (hfree : ∀ p ∈ plans, p.priceRub.isPos = false) : described (plans.map Plan.toJson) = [] := by
  refine List.eq_nil_iff_forall_not_mem.mpr fun p hp => ?_
  obtain ⟨index, item, hitem, hplan⟩ := exists_planOf_of_mem hp
  obtain ⟨q, hq, rfl⟩ := List.mem_map.mp hitem
  rw [planOf_toJson (hclean q hq), if_neg (by rw [hfree q hq]; simp)] at hplan
  cases hplan

/-- The default plans cost nothing, and the items describe no others. -/
def OnlyFreeDefaults (price : PlusPrice) (raw : Option Json) : Prop :=
  price.val.round2.isPos = false ∧ (makeDefault (activateFirst (drawn price raw))).Perm (defaultPlans price)

/-- What a list of plans that was written is normalised from. -/
theorem drawn_toJson (price : PlusPrice) (plans : List Plan) : drawn price (some (.arr (plans.map Plan.toJson))) =
      if described (plans.map Plan.toJson) = [] then defaultPlans price else described (plans.map Plan.toJson) := rfl

theorem arrange_defaultPlans (uni : PyStr.Unicode) (price : PlusPrice) :
    arrange uni (defaultPlans price) = defaultPlans price :=
  arrange_eq_self (sorted_defaultPlans uni price) (by show 3 ≤ 32; decide) ⟨_, List.mem_cons_self, rfl⟩

/-- The first default plan is read back if it costs something. -/
theorem described_defaultPlans_ne_nil (h : price.val.round2.isPos = true) :
    described ((defaultPlans price).map Plan.toJson) ≠ [] := by
  intro hnil
  have hentry : ∀ x ∈ ((defaultPlans price).map Plan.toJson).zipIdx,
      entry (((defaultPlans price).map Plan.toJson).take x.2) x.1 = none := List.filterMap_eq_nil_iff.mp hnil
  have hfirst := hentry _ List.mem_cons_self
  have hplan := planOf_toJson (clean_defaultPlans price _ List.mem_cons_self) 0
  rw [if_pos h] at hplan
  exact absurd (hfirst.symm.trans hplan) nofun

/-- **When the plans are normalised again to themselves.** -/
theorem arrange_drawn_iff (uni : PyStr.Unicode) (hread : ReadableItems (planSource price raw)) :
    arrange uni (drawn price (some (.arr ((arrange uni (drawn price raw)).map Plan.toJson)))) =
      arrange uni (drawn price raw) ↔
    ((∀ p, Shown uni (drawn price raw) p → p.Tidy) ∧
      ∃ p, Shown uni (drawn price raw) p ∧ StarredBy (drawn price raw) p) ∨ OnlyFreeDefaults price raw := by
  have htidy_core : ∀ p : Plan, p.core.Tidy ↔ p.Tidy := fun p =>
    ⟨fun h => ⟨h.price, h.id, h.name, h.features⟩, fun h => ⟨h.price, h.id, h.name, h.features⟩⟩
  have hnodup := nodup_drawn hread
  rw [← forall_mem_arrange_iff uni hnodup htidy_core, ← exists_starred_iff uni (drawn_ne_nil price raw) hnodup]
  have hclean : ∀ p ∈ arrange uni (drawn price raw), p.Clean := by
    refine (forall_mem_arrange_iff uni hnodup fun p => ?_).mpr fun p hp => clean_of_mem_drawn hp.mem
    exact ⟨fun h => ⟨h.sortOrder, h.length_features, h.features⟩,
      fun h => ⟨h.sortOrder, h.length_features, h.features⟩⟩
  rw [drawn_toJson]
  constructor
  · intro h
    split at h
    · -- nothing was read back, so these are the default plans, and free
      rename_i hnil
      refine .inr ⟨?_, (arrange_eq_defaultPlans_iff uni price _).mp h.symm⟩
      rw [← h] at hnil
      rw [← Bool.not_eq_true]
      exact fun hpos => described_defaultPlans_ne_nil hpos hnil
    rename_i hne
    have hnodup' := @nodup_drawn price (some (.arr ((arrange uni (drawn price raw)).map Plan.toJson)))
      (readableItems_toJson _)
    rw [drawn_toJson, if_neg hne] at hnodup'
    have hlength : (described ((arrange uni (drawn price raw)).map Plan.toJson)).length ≤ 32 := by
      refine (length_described_le _).trans ?_
      rw [List.length_map]
      exact length_arrange_le uni _
    rw [← h]
    refine .inl ⟨?_, exists_starred_arrange uni hne hlength⟩
    exact (forall_mem_arrange_iff uni hnodup' htidy_core).mpr fun p hp => tidy_of_mem_described hclean p hp.mem
  · rintro (⟨htidy, hstarred⟩ | ⟨hfree, hperm⟩)
    · rw [described_toJson hclean htidy (nodup_arrange uni hnodup), if_neg (arrange_ne_nil uni (drawn_ne_nil price raw))]
      exact arrange_eq_self (sorted_arrange uni _) (length_arrange_le uni _) hstarred
    · have hdefault := (arrange_eq_defaultPlans_iff uni price _).mpr hperm
      rw [hdefault, described_of_free (clean_defaultPlans price) (priceRub_defaultPlans hfree), if_pos rfl,
        arrange_defaultPlans]

/-! ## §6 Plans that do not -/

/-- An item with an id that is cut behind a space. -/
def longNamed : Json :=
  .obj [("id", .str (String.ofList (List.replicate 63 'x' ++ [' ', 'y']))), ("name", .str "Plan"),
    ("price_rub", .float (.finite 1)), ("duration_days", .int 30)]

/-- Whether the ids, the names and the marks of the plans are those of the plans that a new process loads. -/
def sameAfterRestart (raw : Option Json) : Option Bool :=
  (normalizePlans .ascii examplePrice raw).toOption.bind fun plans =>
    (normalizePlans .ascii examplePrice (some (.arr (plans.list.map Plan.toJson)))).toOption.map fun plans' =>
      plans'.list.map (fun p => (p.id, p.name, p.active)) = plans.list.map fun p => (p.id, p.name, p.active)

theorem sameAfterRestart_of_survives (h : SurvivesRestart .ascii examplePrice raw) :
    sameAfterRestart raw ≠ some false := by
  rw [survivesRestart_iff] at h
  unfold sameAfterRestart
  cases hplans : normalizePlans .ascii examplePrice raw with
  | error e => exact nofun
  | ok plans =>
    show (normalizePlans .ascii examplePrice _).toOption.map _ ≠ _
    rw [h plans hplans]
    simp [Except.toOption]

end Setka.Handlers.Plus
