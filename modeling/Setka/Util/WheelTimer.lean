/-
# Setka.Util.WheelTimer — objects that come back after their time.

A timer keeps buckets of objects, one for each stretch of time, without gaps. What it holds is seen here as a set of
objects with the keys of their buckets: an insertion adds one pair, and a fetch takes out those that are due.
-/
import Mathlib.Data.List.Range
import Setka.Lib.IterOrder

namespace Setka.Util

open Setka.Lib

namespace WheelTimer

/-! ## §1 Buckets -/

/-- `_Entry`. -/
structure Entry (α : Type) where
  endKey : ℤ
  elements : Finset α

variable {α : Type} [DecidableEq α]

def Entry.add (obj : α) (e : Entry α) : Entry α := { e with elements := insert obj e.elements }

/-- There are no gaps between the buckets. -/
def Contiguous (entries : List (Entry α)) : Prop := (entries.map Entry.endKey).IsChain fun a b => b = a + 1

/-- `_Entry(key) for key in range(first, last + 1)`. -/
def emptyEntries (first last : ℤ) : List (Entry α) :=
  (List.range (last + 1 - first).toNat).map fun i : ℕ => ⟨first + i, ∅⟩

/-- What `insert` does when the object belongs behind the last bucket, or there is none. -/
def extendEntries (entries : List (Entry α)) (lastKey thenKey : ℤ) (obj : α) : List (Entry α) :=
  let entries := entries ++ emptyEntries lastKey (max lastKey thenKey)
  entries.modify (entries.length - 1) (Entry.add obj)

/-- `insert`, on the buckets. The index is that of a bucket, since there are no gaps. -/
def insertEntries (entries : List (Entry α)) (nowKey thenKey : ℤ) (obj : α) : List (Entry α) :=
  match entries.head?, entries.getLast? with
  | some first, some last =>
    let minKey := first.endKey
    let maxKey := last.endKey
    if thenKey ≤ maxKey then entries.modify (max minKey thenKey - minKey).toNat (Entry.add obj)
    else extendEntries entries (maxKey + 1) thenKey obj
  | _, _ => extendEntries entries (nowKey + 1) thenKey obj

/-- The loop of `fetch`: the objects of the buckets that are due, and the other buckets. -/
def popDue (order : IterOrder α) (nowKey : ℤ) : List (Entry α) → List α × List (Entry α)
  | [] => ([], [])
  | e :: entries =>
    if e.endKey ≤ nowKey then
      (order.list e.elements ++ (popDue order nowKey entries).1, (popDue order nowKey entries).2)
    else ([], e :: entries)

/-! ## §2 What the buckets hold -/

/-- The objects, each with the key of a bucket that holds it. -/
def held : List (Entry α) → Finset (α × ℤ)
  | [] => ∅
  | e :: entries => e.elements.image (fun obj => (obj, e.endKey)) ∪ held entries

/-- How often an object is held under keys up to `key`. -/
def heldBy (held : Finset (α × ℤ)) (obj : α) (key : ℤ) : ℕ := (held.filter fun p => p.1 = obj ∧ p.2 ≤ key).card

theorem heldBy_insert (held : Finset (α × ℤ)) (added : α × ℤ) (obj : α) (key : ℤ) :
    heldBy (insert added held) obj key ≤ heldBy held obj key + if added.1 = obj ∧ added.2 ≤ key then 1 else 0 := by
  rw [heldBy, Finset.filter_insert]
  split
  · exact Finset.card_insert_le _ _
  · exact Nat.le_refl _

/-- What is taken out up to one key, and what is left up to a later one. -/
theorem heldBy_filter (held : Finset (α × ℤ)) (obj : α) {nowKey key : ℤ} (h : nowKey ≤ key) :
    heldBy held obj nowKey + heldBy (held.filter fun p => nowKey < p.2) obj key = heldBy held obj key := by
  rw [heldBy, heldBy, heldBy, ← Finset.card_union_of_disjoint]
  · congr 1
    ext p
    by_cases hkey : p.2 ≤ nowKey
    · have hle : p.2 ≤ key := le_trans hkey h
      simp [hkey, hle, not_lt.mpr hkey]
    · simp [hkey, not_le.mp hkey]
  · rw [Finset.disjoint_left]
    intro p hp hp'
    have hdue := (Finset.mem_filter.mp hp).2.2
    have hleft := (Finset.mem_filter.mp (Finset.mem_filter.mp hp').1).2
    omega

theorem held_append (entries more : List (Entry α)) : held (entries ++ more) = held entries ∪ held more := by
  induction entries with
  | nil => rw [List.nil_append, held, Finset.empty_union]
  | cons e entries ih => rw [List.cons_append, held, held, ih, Finset.union_assoc]

theorem held_emptyEntries (first last : ℤ) : held (emptyEntries first last : List (Entry α)) = ∅ := by
  have hempty : ∀ keys : List ℕ, held (keys.map fun i : ℕ => (⟨first + i, ∅⟩ : Entry α)) = ∅ := by
    intro keys
    induction keys with
    | nil => rfl
    | cons i keys ih => rw [List.map_cons, held, ih, Finset.image_empty, Finset.empty_union]
  exact hempty _

variable {entries : List (Entry α)}

theorem held_modify {i : ℕ} {e : Entry α} (h : entries[i]? = some e) (obj : α) :
    held (entries.modify i (Entry.add obj)) = insert (obj, e.endKey) (held entries) := by
  induction entries generalizing i with
  | nil => cases h
  | cons e' entries ih =>
    cases i with
    | zero =>
      rw [List.getElem?_cons_zero, Option.some.injEq] at h
      subst h
      rw [List.modify_zero_cons, held, held, Entry.add, Finset.image_insert, Finset.insert_union]
    | succ i =>
      rw [List.modify_succ_cons, held, held, ih h, Finset.union_insert]

theorem endKeys_modify (entries : List (Entry α)) (i : ℕ) (obj : α) :
    (entries.modify i (Entry.add obj)).map Entry.endKey = entries.map Entry.endKey := by
  apply List.ext_getElem?
  intro j
  rw [List.getElem?_map, List.getElem?_map, List.getElem?_modify]
  cases entries[j]? with
  | none => rfl
  | some e =>
    by_cases hij : i = j
    · simp [hij, Entry.add]
    · simp [hij]

variable {first : Entry α}

omit [DecidableEq α] in
/-- The key of a bucket, counted from the first. -/
theorem endKey_of_getElem? (h : Contiguous (first :: entries)) {i : ℕ} {e : Entry α}
    (he : (first :: entries)[i]? = some e) : e.endKey = first.endKey + i := by
  induction entries generalizing first i with
  | nil =>
    cases i with
    | zero =>
      obtain rfl : first = e := Option.some.inj he
      simp
    | succ i => cases he
  | cons second entries ih =>
    obtain ⟨hnext, hrest⟩ := List.isChain_cons_cons.mp h
    cases i with
    | zero =>
      obtain rfl : first = e := Option.some.inj he
      simp
    | succ i =>
      have hsecond := ih hrest he
      omega

/-! ## §3 Insertion -/

/-- The first bucket, if there is one, begins by this key. -/
def BeginBy (entries : List (Entry α)) (key : ℤ) : Prop := ∀ first ∈ entries.head?, first.endKey ≤ key

/-- **Behind the last bucket.** -/
theorem extendEntries_spec (h : Contiguous entries) (lastKey : ℤ)
    (hlast : ∀ last ∈ entries.getLast?, lastKey = last.endKey + 1) (thenKey : ℤ) (obj : α) :
    Contiguous (extendEntries entries lastKey thenKey obj) ∧
      held (extendEntries entries lastKey thenKey obj) = insert (obj, max lastKey thenKey) (held entries) ∧
      ∀ key, BeginBy entries key → (entries = [] → lastKey ≤ key) →
        BeginBy (extendEntries entries lastKey thenKey obj) key := by
  obtain ⟨n, hn⟩ : ∃ n : ℕ, max lastKey thenKey = lastKey + n :=
    ⟨(max lastKey thenKey - lastKey).toNat, by omega⟩
  have hrange : (max lastKey thenKey + 1 - lastKey).toNat = n + 1 := by omega
  have hempties : (emptyEntries lastKey (max lastKey thenKey) : List (Entry α)) =
      (List.range (n + 1)).map fun i : ℕ => ⟨lastKey + i, ∅⟩ := by
    rw [emptyEntries, hrange]
  refine ⟨?_, ?_, fun key hbegin hnil => ?_⟩
  · show ((extendEntries entries lastKey thenKey obj).map Entry.endKey).IsChain _
    rw [extendEntries, endKeys_modify, List.map_append, List.isChain_append, hempties, List.map_map]
    refine ⟨h, ?_, fun key hkey first hfirst => ?_⟩
    · rw [List.isChain_map, List.isChain_range]
      intro i _
      show lastKey + ((i + 1 : ℕ) : ℤ) = lastKey + i + 1
      omega
    · rw [List.getLast?_map, Option.mem_map] at hkey
      obtain ⟨last, hmem, rfl⟩ := hkey
      rw [List.range_succ_eq_map, List.map_cons, List.head?_cons, Option.mem_some_iff] at hfirst
      have hnext := hlast last hmem
      rw [← hfirst]
      show lastKey + ((0 : ℕ) : ℤ) = _
      omega
  · have hindex : (entries ++ emptyEntries lastKey (max lastKey thenKey))[
        (entries ++ emptyEntries lastKey (max lastKey thenKey)).length - 1]? = some ⟨lastKey + n, ∅⟩ := by
      rw [← List.getLast?_eq_getElem?, hempties, List.range_succ, List.map_append, ← List.append_assoc]
      exact List.getLast?_concat
    rw [extendEntries, held_modify hindex, held_append, held_emptyEntries, Finset.union_empty, hn]
  · intro first hfirst
    have hkeys : (extendEntries entries lastKey thenKey obj).map Entry.endKey =
        entries.map Entry.endKey ++ (emptyEntries lastKey (max lastKey thenKey) : List (Entry α)).map Entry.endKey := by
      rw [extendEntries, endKeys_modify, List.map_append]
    have hhead := congrArg List.head? hkeys
    rw [List.head?_map, hfirst] at hhead
    cases entries with
    | nil =>
      rw [hempties, List.range_succ_eq_map] at hhead
      have hkey : first.endKey = lastKey + (0 : ℕ) := Option.some.inj hhead
      have hle := hnil rfl
      omega
    | cons e entries =>
      have hkey : first.endKey = e.endKey := Option.some.inj hhead
      exact hkey ▸ hbegin e rfl

/-- **`insert`** adds the object under one key: not before that of its time, and not after it and after the bucket
that follows the present one. -/
theorem insertEntries_spec (h : Contiguous entries) (nowKey thenKey : ℤ) (obj : α) :
    Contiguous (insertEntries entries nowKey thenKey obj) ∧
      (BeginBy entries (nowKey + 1) → BeginBy (insertEntries entries nowKey thenKey obj) (nowKey + 1)) ∧
      ∃ key, thenKey ≤ key ∧ (BeginBy entries (nowKey + 1) → key ≤ max thenKey (nowKey + 1)) ∧
        held (insertEntries entries nowKey thenKey obj) = insert (obj, key) (held entries) := by
  cases entries with
  | nil =>
    obtain ⟨hcontiguous, hheld, hfirst⟩ :=
      extendEntries_spec h (nowKey + 1) (by rintro last ⟨⟩) thenKey obj
    exact ⟨hcontiguous, fun hbegin => hfirst _ hbegin fun _ => le_refl _, _, le_max_right _ _, by omega, hheld⟩
  | cons first entries =>
    obtain ⟨last, hlast⟩ : ∃ last, (first :: entries).getLast? = some last := ⟨_, List.getLast?_eq_some_getLast (by simp)⟩
    have hmin : BeginBy (first :: entries) (nowKey + 1) → first.endKey ≤ nowKey + 1 := fun hbegin => hbegin first rfl
    rw [insertEntries, List.head?_cons, hlast]
    dsimp only
    split
    · next hthen =>
        have hmax : last.endKey = first.endKey + ((first :: entries).length - 1 : ℕ) :=
          endKey_of_getElem? h (List.getLast?_eq_getElem? ▸ hlast)
        have hlt : (max first.endKey thenKey - first.endKey).toNat < (first :: entries).length := by
          have hpos : 0 < (first :: entries).length := Nat.zero_lt_succ _
          omega
        obtain ⟨e, he⟩ : ∃ e, (first :: entries)[(max first.endKey thenKey - first.endKey).toNat]? = some e :=
          ⟨_, List.getElem?_eq_getElem hlt⟩
        have hkey := endKey_of_getElem? h he
        refine ⟨?_, fun hbegin first' hfirst' => ?_, e.endKey, by omega, fun hbegin => ?_, held_modify he obj⟩
        · show (((first :: entries).modify _ _).map Entry.endKey).IsChain _
          rw [endKeys_modify]
          exact h
        · have hhead := congrArg List.head? (endKeys_modify (first :: entries)
            (max first.endKey thenKey - first.endKey).toNat obj)
          rw [List.head?_map, hfirst'] at hhead
          exact (Option.some.inj hhead).trans_le (hmin hbegin)
        · have hfirst := hmin hbegin
          omega
    · next hthen =>
        have hlastKey : ∀ last' ∈ (first :: entries).getLast?, last.endKey + 1 = last'.endKey + 1 := by
          rintro last' hlast'
          rw [hlast] at hlast'
          cases hlast'
          rfl
        obtain ⟨hcontiguous, hheld, hfirst⟩ := extendEntries_spec h (last.endKey + 1) hlastKey thenKey obj
        exact ⟨hcontiguous, fun hbegin => hfirst _ hbegin (by rintro ⟨⟩), _, le_max_right _ _, by omega, hheld⟩

/-! ## §4 What is due -/

/-- The keys of the buckets behind the first. -/
theorem lt_of_mem_held (h : Contiguous (first :: entries)) {p : α × ℤ}
    (hp : p ∈ held entries) : first.endKey < p.2 := by
  induction entries generalizing first with
  | nil => simp [held] at hp
  | cons second entries ih =>
    obtain ⟨hnext, hrest⟩ := List.isChain_cons_cons.mp h
    rw [held, Finset.mem_union, Finset.mem_image] at hp
    obtain ⟨obj, -, rfl⟩ | hp := hp
    · show first.endKey < second.endKey
      omega
    · have hlt := ih hrest hp
      omega

theorem heldBy_held_cons (h : Contiguous (first :: entries)) (obj : α) {key : ℤ} (hkey : first.endKey ≤ key) :
    heldBy (held (first :: entries)) obj key =
      (if obj ∈ first.elements then 1 else 0) + heldBy (held entries) obj key := by
  rw [heldBy, heldBy, held, Finset.filter_union, Finset.card_union_of_disjoint]
  · congr 1
    have hfirst : ((first.elements.image fun obj => (obj, first.endKey)).filter fun p => p.1 = obj ∧ p.2 ≤ key) =
        if obj ∈ first.elements then {(obj, first.endKey)} else ∅ := by
      ext p
      rw [Finset.mem_filter, Finset.mem_image]
      constructor
      · rintro ⟨⟨obj', hmem, rfl⟩, rfl, -⟩
        rw [if_pos hmem]
        exact Finset.mem_singleton_self _
      intro hp
      split at hp
      · next hmem =>
          rw [Finset.mem_singleton.mp hp]
          exact ⟨⟨obj, hmem, rfl⟩, rfl, hkey⟩
      · cases hp
    rw [hfirst]
    split
    · rfl
    · rfl
  · rw [Finset.disjoint_left]
    intro p hp hp'
    obtain ⟨obj', -, rfl⟩ := Finset.mem_image.mp (Finset.mem_filter.mp hp).1
    exact absurd (lt_of_mem_held h (Finset.mem_filter.mp hp').1) (lt_irrefl _)

/-- **`fetch`** takes out what is held under the keys that are due, each object once for each key. -/
theorem popDue_spec (order : IterOrder α) (h : Contiguous entries) (nowKey : ℤ) :
    Contiguous (popDue order nowKey entries).2 ∧
      (BeginBy entries (nowKey + 1) → BeginBy (popDue order nowKey entries).2 (nowKey + 1)) ∧
      held (popDue order nowKey entries).2 = (held entries).filter (fun p => nowKey < p.2) ∧
      ∀ obj, (popDue order nowKey entries).1.count obj = heldBy (held entries) obj nowKey := by
  induction entries with
  | nil => exact ⟨h, id, rfl, fun _ => rfl⟩
  | cons e entries ih =>
    have hlt : ∀ p ∈ held entries, e.endKey < p.2 := fun p => lt_of_mem_held h
    rw [popDue]
    split
    · next hdue =>
        have hbegin' : BeginBy entries (nowKey + 1) := by
          intro next hnext
          have hkey : next.endKey = e.endKey + 1 := by
            cases entries with
            | nil => cases hnext
            | cons second entries =>
              obtain rfl : second = next := Option.some.inj hnext
              exact (List.isChain_cons_cons.mp h).1
          omega
        obtain ⟨hcontiguous, hfirst, hheld, hcount⟩ := ih (List.IsChain.tail h)
        refine ⟨hcontiguous, fun _ => hfirst hbegin', ?_, fun obj => ?_⟩
        · rw [hheld, held, Finset.filter_union]
          have hnone : ((e.elements.image fun obj => (obj, e.endKey)).filter fun p => nowKey < p.2) = ∅ := by
            rw [Finset.filter_eq_empty_iff]
            intro p hp
            obtain ⟨obj, -, rfl⟩ := Finset.mem_image.mp hp
            exact not_lt.mpr hdue
          rw [hnone, Finset.empty_union]
        · rw [List.count_append, hcount, heldBy_held_cons h obj hdue, (order.nodup_list _).count]
          simp only [order.mem_list]
    · next hdue =>
        have hall : ∀ p ∈ held (e :: entries), nowKey < p.2 := by
          intro p hp
          rw [held, Finset.mem_union, Finset.mem_image] at hp
          obtain ⟨obj, -, rfl⟩ | hp := hp
          · exact not_le.mp hdue
          · have hafter := hlt p hp
            omega
        refine ⟨h, id, (Finset.filter_true_of_mem hall).symm, fun obj => ?_⟩
        rw [heldBy, Finset.filter_false_of_mem]
        · rfl
        · rintro p hp ⟨-, hle⟩
          exact absurd (hall p hp) (not_lt.mpr hle)

end WheelTimer

/-! ## §5 The timer -/

/-- `WheelTimer`. The size of a bucket, and all times, are in milliseconds. A quotient of two machine floats that is cut
to an integer is exact below 2⁵³. -/
structure WheelTimer (α : Type) [DecidableEq α] where
  bucketSize : ℕ
  entries : List (WheelTimer.Entry α)
  bucketSize_pos : 0 < bucketSize
  contiguous : WheelTimer.Contiguous entries

namespace WheelTimer

variable {α : Type} [DecidableEq α]

/-- `int(time / self.bucket_size)`. -/
def timeKey (w : WheelTimer α) (time : ℤ) : ℤ := time.tdiv w.bucketSize

/-- `WheelTimer(bucket_size)`. -/
def new (α : Type) [DecidableEq α] (bucketSize : ℕ) (h : 0 < bucketSize) : WheelTimer α where
  bucketSize
  entries := []
  bucketSize_pos := h
  contiguous := List.IsChain.nil

/-- `insert`. -/
def insert (w : WheelTimer α) (now : ℤ) (obj : α) (thenTime : ℤ) : WheelTimer α where
  bucketSize := w.bucketSize
  entries := insertEntries w.entries (w.timeKey now) (w.timeKey thenTime + 1) obj
  bucketSize_pos := w.bucketSize_pos
  contiguous := (insertEntries_spec w.contiguous _ _ obj).1

/-- `fetch`. -/
def fetch (order : IterOrder α) (w : WheelTimer α) (now : ℤ) : List α × WheelTimer α :=
  ((popDue order (w.timeKey now) w.entries).1,
    { bucketSize := w.bucketSize
      entries := (popDue order (w.timeKey now) w.entries).2
      bucketSize_pos := w.bucketSize_pos
      contiguous := (popDue_spec order w.contiguous _).1 })

variable {time : ℤ}

theorem timeKey_mono (w : WheelTimer α) {later : ℤ} (h : time ≤ later) : w.timeKey time ≤ w.timeKey later :=
  Int.tdiv_le_tdiv (by exact_mod_cast w.bucketSize_pos) h

/-- The bucket of a time is over when a later bucket has begun. -/
theorem lt_of_timeKey_lt (w : WheelTimer α) {later : ℤ} (h : w.timeKey time < w.timeKey later) : time < later := by
  by_contra hle
  exact absurd (w.timeKey_mono (not_lt.mp hle)) (not_le.mpr h)

/-- After one bucket's time, a later bucket has begun. -/
theorem timeKey_add_one_le (w : WheelTimer α) {now later : ℕ}
    (h : max time now + w.bucketSize ≤ later) : max (w.timeKey time + 1) (w.timeKey now + 1) ≤ w.timeKey later := by
  have hpos : (w.bucketSize : ℤ) ≠ 0 := by exact_mod_cast w.bucketSize_pos.ne'
  have hnext : ∀ t : ℤ, 0 ≤ t → w.timeKey t + 1 = w.timeKey (t + w.bucketSize) := by
    intro t ht
    rw [timeKey, timeKey, Int.tdiv_eq_ediv_of_nonneg ht, Int.tdiv_eq_ediv_of_nonneg (by omega),
      Int.add_ediv_of_dvd_right (Int.dvd_refl _), Int.ediv_self hpos]
  have hnow : w.timeKey now + 1 ≤ w.timeKey later :=
    (hnext now (by omega)).trans_le (w.timeKey_mono (by omega))
  refine max_le ?_ hnow
  by_cases htime : 0 ≤ time
  · exact (hnext time htime).trans_le (w.timeKey_mono (by omega))
  · have hneg := w.timeKey_mono (show time ≤ (now : ℤ) by omega)
    omega

end WheelTimer

end Setka.Util
