/-
# Setka.Types.StreamToken — positions in streams with several writers.

A token stores one position for everybody, `stream`, and a position of its own for each writer that is
ahead of it. Read as a function from writers to positions it is a point of a product of orders, and
the operations on tokens are those of that product: comparison is its order, advancing its supremum,
bounding its infimum with a constant. The sparse representation never shows.
-/
import Mathlib.Data.String.Basic
import Setka.Api.Errors
import Setka.Lib.Dict
import Setka.Lib.IterOrder

namespace Setka.Types

open Setka.Api Setka.Lib Dict

/-! ## §1 Tokens -/

/-- `AbstractMultiWriterStreamToken`, with what `__attrs_post_init__` enforces. -/
structure AbstractMultiWriterStreamToken where
  stream : ℤ
  instanceMap : Dict String ℤ
  above : ∀ i v, instanceMap.get? i = some v → stream < v

namespace AbstractMultiWriterStreamToken

/-- The constructor: `__attrs_post_init__` goes through the instance map. -/
def create (stream : ℤ) (instanceMap : Dict String ℤ) : Except Error AbstractMultiWriterStreamToken :=
  if h : ∀ e ∈ instanceMap.items, stream < e.2 then
    .ok ⟨stream, instanceMap, fun i v hv => h (i, v) (Dict.get?_eq_some_iff.mp hv)⟩
  else .error .valueError

/-- `get_stream_pos_for_instance`. -/
def getStreamPosForInstance (self : AbstractMultiWriterStreamToken) (instanceName : String) : ℤ :=
  self.instanceMap.getD instanceName self.stream

/-- `get_max_stream_pos`. -/
def getMaxStreamPos (self : AbstractMultiWriterStreamToken) : ℤ :=
  (self.instanceMap.items.map Prod.snd).max?.getD self.stream

section Operations

variable (order : IterOrder String) (self other : AbstractMultiWriterStreamToken)

/-- The names in either instance map, as the loop over their union meets them. -/
def instances : List String :=
  order.list (self.instanceMap.keys.toFinset ∪ other.instanceMap.keys.toFinset)

/-- The instance map of `copy_and_advance`: the later position of each name, without the entries
that became redundant. -/
def advancedMap : Dict String ℤ :=
  (Dict.ofKeys (instances order self other) fun i =>
    max (self.instanceMap.getD i self.stream) (other.instanceMap.getD i other.stream)).filter
      fun _ s => s > max self.stream other.stream

/-- `copy_and_advance`. `evolve` is `attr.evolve` of the token. -/
def copyAndAdvance {τ : Type} (evolve : ℤ → Dict String ℤ → Except Error τ) : Except Error τ :=
  evolve (max self.stream other.stream) (advancedMap order self other)

/-- `is_before_or_eq`. -/
def isBeforeOrEq : Bool :=
  if self.stream > other.stream then false
  else
    (instances order self other).all fun i =>
      !decide (self.instanceMap.getD i self.stream > other.instanceMap.getD i other.stream)

/-- The instance map of `bound_stream_token`. -/
def boundMap (maxStream : ℤ) : Dict String ℤ :=
  (self.instanceMap.filter fun _ s => min s maxStream > min self.stream maxStream).mapValues fun s =>
    min s maxStream

/-- `bound_stream_token`. `new` is the constructor of the token's class. -/
def boundStreamToken {τ : Type} (new : ℤ → Dict String ℤ → Except Error τ) (maxStream : ℤ) : Except Error τ :=
  new (min self.stream maxStream) (boundMap self maxStream)

end Operations

end AbstractMultiWriterStreamToken

/-- `MultiWriterStreamToken` has the fields and the operations of the abstract class. -/
abbrev MultiWriterStreamToken := AbstractMultiWriterStreamToken

/-- The position a token gives for a row: `stream` where the name is missing or empty. -/
def MultiWriterStreamToken.posFor (t : AbstractMultiWriterStreamToken) : Option String → ℤ
  | some instanceName =>
    if instanceName ≠ "" then t.instanceMap.getD instanceName t.stream else t.stream
  | none => t.stream

/-- `is_stream_position_in_range`. -/
def MultiWriterStreamToken.isStreamPositionInRange
    (low high : Option AbstractMultiWriterStreamToken) (instanceName : Option String) (pos : ℤ) :
    Bool :=
  if low.any fun low => pos ≤ posFor low instanceName then false
  else if high.any fun high => posFor high instanceName < pos then false
  else true

/-- Whether `topological` counts as set: zero does not. -/
def truthy (topological : Option ℤ) : Bool := topological.any fun n => n ≠ 0

/-- `RoomStreamToken`, with what its `__attrs_post_init__` enforces on top. -/
structure RoomStreamToken extends AbstractMultiWriterStreamToken where
  topological : Option ℤ
  exclusive : instanceMap.items = [] ∨ truthy topological = false

namespace RoomStreamToken

/-- The constructor. -/
def create (topological : Option ℤ) (stream : ℤ) (instanceMap : Dict String ℤ) : Except Error RoomStreamToken :=
  if hexcl : instanceMap.items = [] ∨ truthy topological = false then
    if h : ∀ e ∈ instanceMap.items, stream < e.2 then
      .ok ⟨⟨stream, instanceMap, fun i v hv => h (i, v) (Dict.get?_eq_some_iff.mp hv)⟩, topological, hexcl⟩
    else .error .valueError
  else .error .valueError

/-- `RoomStreamToken.copy_and_advance`. -/
def copyAndAdvance (order : IterOrder String) (self other : RoomStreamToken) : Except Error RoomStreamToken :=
  if truthy self.topological || truthy other.topological then .error .exception
  else
    AbstractMultiWriterStreamToken.copyAndAdvance order self.toAbstractMultiWriterStreamToken
      other.toAbstractMultiWriterStreamToken (create self.topological)

/-- `RoomStreamToken.bound_stream_token`. -/
def boundStreamToken (self : RoomStreamToken) (maxStream : ℤ) : Except Error RoomStreamToken :=
  if self.topological.isSome then .error .assertionError
  else self.toAbstractMultiWriterStreamToken.boundStreamToken (create none) maxStream

end RoomStreamToken

/-! ## §2 The reading of a token -/

namespace AbstractMultiWriterStreamToken

/-- **What a token says**: its own position, and one for every writer. -/
def reading (t : AbstractMultiWriterStreamToken) : ℤ × (String → ℤ) :=
  (t.stream, t.getStreamPosForInstance)

/-- No writer is behind `stream`. -/
theorem stream_le (t : AbstractMultiWriterStreamToken) (i : String) : t.stream ≤ t.instanceMap.getD i t.stream := by
  unfold Dict.getD
  cases hi : t.instanceMap.get? i with
  | none => exact le_rfl
  | some v => exact le_of_lt (t.above i v hi)

/-- No writer is ahead of the maximum. -/
theorem le_getMaxStreamPos (t : AbstractMultiWriterStreamToken) (i : String) :
    t.instanceMap.getD i t.stream ≤ t.getMaxStreamPos := by
  unfold getMaxStreamPos
  cases hmax : (t.instanceMap.items.map Prod.snd).max? with
  | none =>
    rw [List.max?_eq_none_iff, List.map_eq_nil_iff] at hmax
    have hi : t.instanceMap.get? i = none := by
      rw [get?_eq_none_iff, Dict.keys, hmax]
      exact List.not_mem_nil
    rw [Dict.getD, hi]
  | some m =>
    obtain ⟨hmem, hle⟩ := List.max?_eq_some_iff.mp hmax
    rw [Option.getD_some, Dict.getD]
    cases hi : t.instanceMap.get? i with
    | none =>
      obtain ⟨e, he, rfl⟩ := List.mem_map.mp hmem
      exact le_of_lt (t.above e.1 e.2 (get?_eq_some_iff.mpr he))
    | some v => exact hle v (List.mem_map.mpr ⟨(i, v), get?_eq_some_iff.mp hi, rfl⟩)

variable {self : AbstractMultiWriterStreamToken} {i : String}

theorem mem_instances {order : IterOrder String} {other : AbstractMultiWriterStreamToken} :
    i ∈ instances order self other ↔ i ∈ self.instanceMap.keys ∨ i ∈ other.instanceMap.keys := by
  simp [instances]

/-- A name in neither map stands at `stream` in both tokens. -/
theorem getD_of_not_mem {order : IterOrder String} {other : AbstractMultiWriterStreamToken}
    (h : i ∉ instances order self other) : self.instanceMap.getD i self.stream = self.stream ∧
      other.instanceMap.getD i other.stream = other.stream := by
  rw [mem_instances, not_or, ← get?_eq_none_iff, ← get?_eq_none_iff] at h
  unfold Dict.getD
  rw [h.1, h.2]
  exact ⟨rfl, rfl⟩

/-- A filtered position, or the default it was filtered against. -/
theorem getD_filter_gt (d : Dict String ℤ) (m : ℤ) (i : String) :
    (d.filter fun _ s => s > m).getD i m = max (d.getD i m) m := by
  unfold Dict.getD
  cases hf : (d.filter fun _ s => s > m).get? i with
  | some v =>
    obtain ⟨hv, hm⟩ := get?_filter.mp hf
    have hlt : m < v := by simpa using hm
    rw [hv]
    exact (max_eq_left (le_of_lt hlt)).symm
  | none =>
    cases hd : d.get? i with
    | none => simp
    | some v =>
      have hle : ¬ m < v := by
        intro hlt
        rw [get?_filter.mpr ⟨hd, by simpa using hlt⟩] at hf
        cases hf
      simp only [Option.getD_none, Option.getD_some]
      omega

variable {τ : Type}

theorem advancedMap_above (order : IterOrder String) (self other : AbstractMultiWriterStreamToken)
    (i : String) (v : ℤ) (hv : (advancedMap order self other).get? i = some v) :
    max self.stream other.stream < v := by
  simpa using (get?_filter.mp hv).2

/-- The later of two positions, for every name. -/
theorem getD_advancedMap (order : IterOrder String) (self other : AbstractMultiWriterStreamToken) (i : String) :
    (advancedMap order self other).getD i (max self.stream other.stream) =
      max (self.instanceMap.getD i self.stream) (other.instanceMap.getD i other.stream) := by
  have hself := self.stream_le i
  have hother := other.stream_le i
  unfold advancedMap
  rw [getD_filter_gt]
  by_cases hi : i ∈ instances order self other
  · rw [getD_of_get? ((get?_ofKeys _ _ i).trans (if_pos hi))]
    omega
  obtain ⟨h1, h2⟩ := getD_of_not_mem hi
  have hnone := (get?_ofKeys (instances order self other) (fun i =>
    max (self.instanceMap.getD i self.stream) (other.instanceMap.getD i other.stream)) i).trans (if_neg hi)
  rw [h1, h2, Dict.getD, hnone, Option.getD_none, max_self]

/-- **Advancing takes the supremum**: what `copy_and_advance` hands to `evolve` satisfies the
invariant and reads as the pointwise maximum. -/
theorem copyAndAdvance_eq (order : IterOrder String) (self other : AbstractMultiWriterStreamToken)
    (evolve : ℤ → Dict String ℤ → Except Error τ) :
    ∃ t : AbstractMultiWriterStreamToken, t.reading = self.reading ⊔ other.reading ∧
      copyAndAdvance order self other evolve = evolve t.stream t.instanceMap :=
  ⟨⟨_, _, advancedMap_above order self other⟩, Prod.ext rfl (funext (getD_advancedMap order self other)), rfl⟩

theorem get?_boundMap {m : ℤ} {v : ℤ} : (boundMap self m).get? i = some v ↔
      ∃ s, self.instanceMap.get? i = some s ∧ min self.stream m < min s m ∧ min s m = v := by
  unfold boundMap
  rw [get?_mapValues, Option.map_eq_some_iff]
  simp only [get?_filter, gt_iff_lt, decide_eq_true_eq, and_assoc]

theorem boundMap_above (self : AbstractMultiWriterStreamToken) (m : ℤ) (i : String) (v : ℤ)
    (hv : (boundMap self m).get? i = some v) : min self.stream m < v := by
  obtain ⟨s, _, hlt, rfl⟩ := get?_boundMap.mp hv
  exact hlt

/-- The bounded position, for every name. -/
theorem getD_boundMap (self : AbstractMultiWriterStreamToken) (m : ℤ) (i : String) :
    (boundMap self m).getD i (min self.stream m) = min (self.instanceMap.getD i self.stream) m := by
  have hle := self.stream_le i
  unfold Dict.getD at hle ⊢
  cases hi : (boundMap self m).get? i with
  | some v =>
    obtain ⟨s, hs, _, rfl⟩ := get?_boundMap.mp hi
    rw [hs, Option.getD_some, Option.getD_some]
  | none =>
    -- an entry that was left out is not above the new `stream`
    cases hs : self.instanceMap.get? i with
    | none => rfl
    | some s =>
      have hnot : ¬ min self.stream m < min s m := by
        intro hlt
        rw [get?_boundMap.mpr ⟨s, hs, hlt, rfl⟩] at hi
        cases hi
      rw [hs] at hle
      simp only [Option.getD_none, Option.getD_some] at hle ⊢
      omega

/-- **Bounding takes the infimum with a constant.** -/
theorem boundStreamToken_eq (self : AbstractMultiWriterStreamToken)
    (new : ℤ → Dict String ℤ → Except Error τ) (m : ℤ) :
    ∃ t : AbstractMultiWriterStreamToken, t.reading = self.reading ⊓ (m, fun _ => m) ∧
      self.boundStreamToken new m = new t.stream t.instanceMap :=
  ⟨⟨_, _, boundMap_above self m⟩, Prod.ext rfl (funext (getD_boundMap self m)), rfl⟩

/-- **Comparison is the pointwise order.** -/
theorem isBeforeOrEq_iff (order : IterOrder String) (self other : AbstractMultiWriterStreamToken) :
    isBeforeOrEq order self other = true ↔ self.reading ≤ other.reading := by
  unfold isBeforeOrEq
  constructor
  · intro h
    split at h
    · cases h
    rename_i hstream
    refine ⟨not_lt.mp hstream, fun i => ?_⟩
    show self.instanceMap.getD i self.stream ≤ other.instanceMap.getD i other.stream
    by_cases hi : i ∈ instances order self other
    · simpa using List.all_eq_true.mp h i hi
    obtain ⟨h1, h2⟩ := getD_of_not_mem hi
    rw [h1, h2]
    exact not_lt.mp hstream
  · rintro ⟨hstream, hat⟩
    have hstream' : self.stream ≤ other.stream := hstream
    rw [if_neg (not_lt.mpr hstream'), List.all_eq_true]
    intro i _
    have hle : self.instanceMap.getD i self.stream ≤ other.instanceMap.getD i other.stream := hat i
    simpa using hle

end AbstractMultiWriterStreamToken

/-- The entries of the instance map are above `stream`. -/
theorem AbstractMultiWriterStreamToken.stream_lt_of_mem (t : AbstractMultiWriterStreamToken) :
    ∀ e ∈ t.instanceMap.items, t.stream < e.2 :=
  fun e he => t.above e.1 e.2 (get?_eq_some_iff.mpr he)

/-- The constructor accepts what satisfies the invariant. -/
theorem AbstractMultiWriterStreamToken.create_self (t : AbstractMultiWriterStreamToken) :
    AbstractMultiWriterStreamToken.create t.stream t.instanceMap = .ok t :=
  dif_pos t.stream_lt_of_mem

theorem RoomStreamToken.create_self (t : RoomStreamToken) :
    RoomStreamToken.create t.topological t.stream t.instanceMap = .ok t :=
  (dif_pos t.exclusive).trans (dif_pos t.toAbstractMultiWriterStreamToken.stream_lt_of_mem)

namespace RoomStreamToken

/-- A token of the live stream, without a topological part. -/
def live (t : AbstractMultiWriterStreamToken) : RoomStreamToken := ⟨t, none, Or.inr rfl⟩

theorem eq_live {t : RoomStreamToken} (h : t.topological = none) : t = live t.toAbstractMultiWriterStreamToken := by
  obtain ⟨base, topological, hexcl⟩ := t
  obtain rfl : topological = none := h
  rfl

/-- On live tokens the room stream's own methods are those of the abstract class. -/
theorem copyAndAdvance_live (order : IterOrder String) (t u : AbstractMultiWriterStreamToken) :
    (live t).copyAndAdvance order (live u) =
      AbstractMultiWriterStreamToken.copyAndAdvance order t u (create none) := rfl

theorem boundStreamToken_live (t : AbstractMultiWriterStreamToken) (m : ℤ) :
    (live t).boundStreamToken m = t.boundStreamToken (create none) m := rfl

end RoomStreamToken

/-- **In range is after the low token and not after the high one**, where a row without a writer
stands at `stream`. -/
theorem MultiWriterStreamToken.isStreamPositionInRange_iff
    (low high : Option AbstractMultiWriterStreamToken) (instanceName : Option String) (pos : ℤ) :
    isStreamPositionInRange low high instanceName pos = true ↔
      (∀ t ∈ low, posFor t instanceName < pos) ∧ ∀ t ∈ high, pos ≤ posFor t instanceName := by
  unfold isStreamPositionInRange
  cases low <;> cases high <;> simp

/-! ## §3 Token arithmetic is that of the product order -/

open AbstractMultiWriterStreamToken in
/-- **Stream tokens form a lattice.** On the tokens of the plain streams and on live room tokens
comparison is the pointwise order, advancing the least upper bound and bounding the pointwise minimum;
none of them trips over the constructor's check; and a row is in range exactly when its position is
after the low token's position for its writer and not after the high one's. -/
theorem streamToken_lattice (order : IterOrder String) : (∀ a b : AbstractMultiWriterStreamToken,
      isBeforeOrEq order a b = true ↔ a.reading ≤ b.reading) ∧
    (∀ a b : AbstractMultiWriterStreamToken,
      ∃ c, copyAndAdvance order a b create = .ok c ∧ IsLUB {a.reading, b.reading} c.reading) ∧
    (∀ (a : AbstractMultiWriterStreamToken) (m : ℤ),
      ∃ c, a.boundStreamToken create m = .ok c ∧ c.reading = a.reading ⊓ (m, fun _ => m)) ∧
    (∀ a b : RoomStreamToken, a.topological = none → b.topological = none →
      ∃ c, a.copyAndAdvance order b = .ok c ∧ c.topological = none ∧
        IsLUB {a.reading, b.reading} c.reading) ∧
    (∀ (a : RoomStreamToken) (m : ℤ), a.topological = none →
      ∃ c, a.boundStreamToken m = .ok c ∧ c.topological = none ∧
        c.reading = a.reading ⊓ (m, fun _ => m)) ∧
    (∀ (low high : Option AbstractMultiWriterStreamToken) (instanceName : String) (pos : ℤ), instanceName ≠ "" →
      (MultiWriterStreamToken.isStreamPositionInRange low high (some instanceName) pos = true ↔
        (∀ t ∈ low, t.reading.2 instanceName < pos) ∧
          ∀ t ∈ high, pos ≤ t.reading.2 instanceName)) ∧
    ∀ (low high : Option AbstractMultiWriterStreamToken) (pos : ℤ),
      (MultiWriterStreamToken.isStreamPositionInRange low high none pos = true ↔
        (∀ t ∈ low, t.reading.1 < pos) ∧ ∀ t ∈ high, pos ≤ t.reading.1) := by
  refine ⟨isBeforeOrEq_iff order, fun a b => ?_, fun a m => ?_, fun a b ha hb => ?_,
    fun a m ha => ?_, fun low high i pos hi => ?_, fun low high pos => ?_⟩
  · obtain ⟨c, hc, heq⟩ := copyAndAdvance_eq order a b create
    rw [create_self] at heq
    exact ⟨c, heq, hc ▸ isLUB_pair⟩
  · obtain ⟨c, hc, heq⟩ := boundStreamToken_eq a create m
    rw [create_self] at heq
    exact ⟨c, heq, hc⟩
  · rw [RoomStreamToken.eq_live ha, RoomStreamToken.eq_live hb, RoomStreamToken.copyAndAdvance_live]
    obtain ⟨c, hc, heq⟩ := copyAndAdvance_eq order a.toAbstractMultiWriterStreamToken
      b.toAbstractMultiWriterStreamToken (RoomStreamToken.create none)
    refine ⟨RoomStreamToken.live c, heq.trans (RoomStreamToken.create_self (.live c)), rfl, ?_⟩
    show IsLUB {a.reading, b.reading} c.reading
    exact hc ▸ isLUB_pair
  · rw [RoomStreamToken.eq_live ha, RoomStreamToken.boundStreamToken_live]
    obtain ⟨c, hc, heq⟩ := boundStreamToken_eq a.toAbstractMultiWriterStreamToken (RoomStreamToken.create none) m
    exact ⟨RoomStreamToken.live c, heq.trans (RoomStreamToken.create_self (.live c)), rfl, hc⟩
  · have hpos : ∀ t : AbstractMultiWriterStreamToken,
        MultiWriterStreamToken.posFor t (some i) = t.reading.2 i := fun t => if_pos hi
    simp only [MultiWriterStreamToken.isStreamPositionInRange_iff, hpos]
  · exact MultiWriterStreamToken.isStreamPositionInRange_iff low high none pos

/-- A token at 5 on which one writer is at 7. -/
def exampleToken (writer : String) : AbstractMultiWriterStreamToken :=
  ⟨5, Dict.empty.set writer 7, by
    intro i v hv
    rcases Dict.of_get?_set hv with ⟨-, rfl⟩ | ⟨-, hv⟩
    · decide
    · cases hv⟩

open AbstractMultiWriterStreamToken in
theorem streamToken_lattice_example :
    (∃ c, (RoomStreamToken.live (exampleToken "w1")).copyAndAdvance (IterOrder.sorted String)
        (.live (exampleToken "w2")) = .ok c ∧ c.topological = none ∧
        IsLUB {(exampleToken "w1").reading, (exampleToken "w2").reading} c.reading) ∧
      (∃ c, (RoomStreamToken.live (exampleToken "w1")).boundStreamToken 6 = .ok c ∧
        c.topological = none ∧ c.reading = (exampleToken "w1").reading ⊓ (6, fun _ => 6)) ∧
      (MultiWriterStreamToken.isStreamPositionInRange (some (exampleToken "w1")) none (some "w1") 6 = true ↔
        (∀ t ∈ some (exampleToken "w1"), t.reading.2 "w1" < 6) ∧
          ∀ t ∈ (none : Option AbstractMultiWriterStreamToken), 6 ≤ t.reading.2 "w1") := by
  obtain ⟨-, -, -, hadvance, hbound, hrange, -⟩ := streamToken_lattice (IterOrder.sorted String)
  exact ⟨hadvance _ _ rfl rfl, hbound _ _ rfl, hrange _ _ "w1" 6 (by decide)⟩

/-- The edges of the lattice: a row of a writer with the empty name is held against `stream`, not
against that writer's entry; and a token with a topological part is neither advanced nor bounded. -/
theorem streamToken_lattice_edges :
    (MultiWriterStreamToken.isStreamPositionInRange (some (exampleToken "")) none (some "") 6 = true ∧
      ¬ (exampleToken "").reading.2 "" < 6) ∧
    (RoomStreamToken.create (some 3) 5 Dict.empty).bind
      (fun t => t.copyAndAdvance (IterOrder.sorted String) t) = .error .exception ∧
    (RoomStreamToken.create (some 3) 5 Dict.empty).bind
      (fun t => t.boundStreamToken 4) = .error .assertionError := by
  refine ⟨⟨by decide +kernel, by decide +kernel⟩, rfl, rfl⟩

end Setka.Types
