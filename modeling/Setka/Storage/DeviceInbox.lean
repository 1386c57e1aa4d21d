/-
# Setka.Storage.DeviceInbox — messages that wait for a device.

Messages to a device are rows of `device_inbox`, under a position of the stream that the call which adds them was
given. A device reads the rows between two positions, at most a hundred at a time, and what it has read is
deleted in batches.

A message is its JSON text. The outbox for other servers is left out: no device of this server reads it.
-/
import Setka.Lib.Dict
import Setka.Lib.OldestFirst

namespace Setka.Storage.DeviceInbox

open Setka.Lib Dict

/-! ## §1 The table -/

/-- A row of `device_inbox`. -/
structure InboxRow where
  userId : String
  deviceId : String
  streamId : ℤ
  messageJson : String
  deriving DecidableEq

/-- Messages by user and device. -/
abbrev Messages := Dict String (Dict String String)

/-- The messages of a user, for each device that is to have one: for all devices when the only one named is
`*`, else for those named that there are. -/
def messagesJsonForUser (devices : List String) (messagesByDevice : Dict String String) : Dict String String :=
  if messagesByDevice.keys = ["*"] then
    Dict.ofKeys devices fun _ => messagesByDevice.getD "*" ""
  else
    Dict.ofKeys (devices.filter fun device => messagesByDevice.keys.contains device) fun device =>
      messagesByDevice.getD device ""

/-- The rows that `_add_messages_to_local_device_inbox_txn` inserts. `devices` are the devices of a user that are
not hidden. -/
def localRows (devices : String → List String) (messages : Messages) (streamId : ℤ) : List InboxRow :=
  messages.items.flatMap fun byUser =>
    (messagesJsonForUser (devices byUser.1) byUser.2).items.map fun byDevice =>
      ⟨byUser.1, byDevice.1, streamId, byDevice.2⟩

/-- What a message from another server is known by: its origin and its id there. -/
abbrev Source := String × String

/-- The transactions of `add_messages_to_device_inbox` and `add_messages_from_remote_to_device_inbox`: the rows to
insert, and `device_federation_inbox`. What was inserted before is not inserted again. -/
def addMessagesTxn (devices : String → List String) (source : Option Source) (messages : Messages) (streamId : ℤ)
    (federationInbox : List Source) : List InboxRow × List Source :=
  match source with
  | none => (localRows devices messages streamId, federationInbox)
  | some source =>
    if source ∈ federationInbox then ([], federationInbox)
    else (localRows devices messages streamId, federationInbox ++ [source])

/-! ## §2 Reading and deleting -/

/-- `WHERE user_id = ? AND device_id = ? AND ? < stream_id AND stream_id <= ?`. -/
def isBetween (userId deviceId : String) (fromStreamId toStreamId : ℤ) (row : InboxRow) : Bool :=
  row.userId = userId && row.deviceId = deviceId && fromStreamId < row.streamId && row.streamId ≤ toStreamId

/-- The rows between two positions, `ORDER BY stream_id`. -/
def rowsBetween (userId deviceId : String) (fromStreamId toStreamId : ℤ) (inbox : List InboxRow) : List InboxRow :=
  (inbox.filter (isBetween userId deviceId fromStreamId toStreamId)).insertionSort
    fun a b => a.streamId ≤ b.streamId

/-- The transaction of `get_messages_for_device`: the messages, and the position up to which they were read. -/
def getDeviceMessagesTxn (userId deviceId : String) (fromStreamId toStreamId : ℤ) (limit : ℕ)
    (inbox : List InboxRow) : List InboxRow × ℤ :=
  let rows := (rowsBetween userId deviceId fromStreamId toStreamId inbox).take limit
  let lastProcessedStreamPos := (rows.getLast?.map InboxRow.streamId).getD toStreamId
  if rows.length = limit then (rows, lastProcessedStreamPos) else (rows, toStreamId)

/-- The first statement of `delete_messages_for_device_between`: `SELECT MAX(stream_id)`. -/
def selectMaxStreamId (userId deviceId : String) (fromStreamId toStreamId : ℤ) (limit : ℕ)
    (inbox : List InboxRow) : Option ℤ :=
  (((rowsBetween userId deviceId fromStreamId toStreamId inbox).take limit).map InboxRow.streamId).max?

/-- The second statement of `delete_messages_for_device_between`: the table, and the number of rows deleted. -/
def deleteRows (userId deviceId : String) (fromStreamId maxStreamId : ℤ) (inbox : List InboxRow) :
    List InboxRow × ℕ :=
  (inbox.filter fun row => !isBetween userId deviceId fromStreamId maxStreamId row,
    inbox.countP (isBetween userId deviceId fromStreamId maxStreamId))

/-- `get_cache_dict`: the latest position of each entity among the last `limit` rows, and a position before which
other rows may be. -/
def getCacheDict (order : TieBreak) (rows : List (String × ℤ)) (maxValue : ℤ) (limit : ℕ) : Dict String ℤ × ℤ :=
  let cache := ((order.sort (fun row => -row.2) rows).take limit).foldl
    (fun cache row => cache.setDefault row.1 row.2) Dict.empty
  match (cache.items.map Prod.snd).min? with
  | some least => (cache, least + 1)
  | none => (cache, maxValue)

/-! ## §3 What is inserted -/

/-- A row for a device. -/
def InboxRow.isFor (userId deviceId : String) (row : InboxRow) : Bool :=
  row.userId = userId && row.deviceId = deviceId

theorem streamId_of_mem_localRows {devices : String → List String} {messages : Messages} {streamId : ℤ}
    {row : InboxRow} (h : row ∈ localRows devices messages streamId) :
    row.streamId = streamId ∧ row.userId ∈ messages.keys := by
  obtain ⟨byUser, huser, hrow⟩ := List.mem_flatMap.mp h
  obtain ⟨byDevice, -, rfl⟩ := List.mem_map.mp hrow
  exact ⟨rfl, List.mem_map_of_mem huser⟩

/-- A call inserts at most one row for a device. -/
theorem nodup_localRows (devices : String → List String) (messages : Messages) (streamId : ℤ) :
    ((localRows devices messages streamId).map fun row => (row.userId, row.deviceId)).Nodup := by
  unfold localRows
  rw [List.map_flatMap, List.nodup_flatMap]
  refine ⟨fun byUser _ => ?_, ?_⟩
  · rw [List.map_map]
    have hdevices := (messagesJsonForUser (devices byUser.1) byUser.2).nodup
    have hpair := hdevices.map (f := fun device => (byUser.1, device)) fun a b h => (Prod.mk.inj h).2
    rw [List.map_map] at hpair
    exact hpair
  · refine (List.pairwise_map.mp messages.nodup).imp fun hne => ?_
    intro x hx hy
    obtain ⟨row, hrow, rfl⟩ := List.mem_map.mp hx
    obtain ⟨row', hrow', heq⟩ := List.mem_map.mp hy
    obtain ⟨byDevice, -, rfl⟩ := List.mem_map.mp hrow
    obtain ⟨byDevice', -, rfl⟩ := List.mem_map.mp hrow'
    exact hne (Prod.mk.inj heq).1.symm

/-- **A transaction** inserts rows at its position, at most one for a device, and none of a source that was
received before. -/
theorem addMessagesTxn_spec {devices : String → List String} {source : Option Source} {messages : Messages}
    {streamId : ℤ} {federationInbox federationInbox' : List Source} {rows : List InboxRow}
    (h : addMessagesTxn devices source messages streamId federationInbox = (rows, federationInbox')) :
    (∀ row ∈ rows, row.streamId = streamId ∧ row.userId ∈ messages.keys) ∧
      (rows.map fun row => (row.userId, row.deviceId)).Nodup ∧ federationInbox ⊆ federationInbox' ∧
      ∀ s ∈ source, s ∈ federationInbox' ∧ (s ∈ federationInbox → rows = []) := by
  unfold addMessagesTxn at h
  cases source with
  | none =>
    obtain ⟨rfl, rfl⟩ := Prod.mk.inj h
    exact ⟨fun row hrow => streamId_of_mem_localRows hrow, nodup_localRows _ _ _, List.Subset.refl _,
      fun s hs => absurd hs (Option.not_mem_none s)⟩
  | some source =>
    dsimp only at h
    split at h
    · rename_i hin
      obtain ⟨rfl, rfl⟩ := Prod.mk.inj h
      refine ⟨fun row hrow => absurd hrow List.not_mem_nil, List.nodup_nil, List.Subset.refl _, fun s hs => ?_⟩
      obtain rfl := Option.some.inj hs
      exact ⟨hin, fun _ => rfl⟩
    · rename_i hnot
      obtain ⟨rfl, rfl⟩ := Prod.mk.inj h
      refine ⟨fun row hrow => streamId_of_mem_localRows hrow, nodup_localRows _ _ _,
        List.subset_append_left _ _, fun s hs => ?_⟩
      obtain rfl := Option.some.inj hs
      exact ⟨List.mem_append_right _ (List.mem_singleton.mpr rfl), fun hin => absurd hin hnot⟩

theorem nodup_of_length_le_one {α : Type} {l : List α} (h : l.length ≤ 1) : l.Nodup := by
  match l, h with
  | [], _ => exact List.nodup_nil
  | [a], _ => exact List.nodup_singleton a

/-- Of the rows for a device there is at most one. -/
theorem length_filter_isFor_le {rows : List InboxRow} (h : (rows.map fun row => (row.userId, row.deviceId)).Nodup)
    (userId deviceId : String) : (rows.filter (InboxRow.isFor userId deviceId)).length ≤ 1 := by
  by_contra hlt
  obtain ⟨a, b, rest, heq⟩ : ∃ a b rest, rows.filter (InboxRow.isFor userId deviceId) = a :: b :: rest := by
    match hrows : rows.filter (InboxRow.isFor userId deviceId), hlt with
    | [], hlt => simp at hlt
    | [a], hlt => simp at hlt
    | a :: b :: rest, _ => exact ⟨a, b, rest, rfl⟩
  have hsub := h.sublist ((List.filter_sublist (p := InboxRow.isFor userId deviceId)).map _)
  rw [heq] at hsub
  have hfor : ∀ row ∈ a :: b :: rest, (row.userId, row.deviceId) = (userId, deviceId) := by
    intro row hrow
    rw [← heq] at hrow
    have hrow := (List.mem_filter.mp hrow).2
    rw [InboxRow.isFor, Bool.and_eq_true, decide_eq_true_eq, decide_eq_true_eq] at hrow
    rw [hrow.1, hrow.2]
  have hsame := (hfor b (List.mem_cons_of_mem _ List.mem_cons_self)).trans (hfor a List.mem_cons_self).symm
  exact (List.nodup_cons.mp hsub).1 (List.mem_map.mpr ⟨b, List.mem_cons_self, hsame⟩)

/-! ## §4 What is read -/

section Reading

variable {userId deviceId : String} {fromStreamId toStreamId : ℤ} {limit : ℕ} {inbox : List InboxRow}

theorem isBetween_iff {row : InboxRow} : isBetween userId deviceId fromStreamId toStreamId row = true ↔
    row.isFor userId deviceId = true ∧ fromStreamId < row.streamId ∧ row.streamId ≤ toStreamId := by
  rw [isBetween, InboxRow.isFor]
  simp only [Bool.and_eq_true, decide_eq_true_eq, and_assoc]

theorem mem_rowsBetween {row : InboxRow} : row ∈ rowsBetween userId deviceId fromStreamId toStreamId inbox ↔
    row ∈ inbox ∧ row.isFor userId deviceId = true ∧ fromStreamId < row.streamId ∧ row.streamId ≤ toStreamId := by
  rw [rowsBetween, List.mem_insertionSort, List.mem_filter, isBetween_iff]

/-- Where no two rows of the device have one position, they come in order. -/
theorem pairwise_rowsBetween (fromStreamId toStreamId : ℤ)
    (hdistinct : ((inbox.filter (InboxRow.isFor userId deviceId)).map InboxRow.streamId).Nodup) :
    (rowsBetween userId deviceId fromStreamId toStreamId inbox).Pairwise fun a b => a.streamId < b.streamId := by
  have hwindow : ((inbox.filter (isBetween userId deviceId fromStreamId toStreamId)).map InboxRow.streamId).Nodup :=
    hdistinct.sublist (List.Sublist.map _ (List.monotone_filter_right inbox fun row hrow =>
      (isBetween_iff.mp hrow).1))
  have hperm := List.perm_insertionSort (fun a b : InboxRow => a.streamId ≤ b.streamId)
    (inbox.filter (isBetween userId deviceId fromStreamId toStreamId))
  have hne := List.pairwise_map.mp (((hperm.map InboxRow.streamId).nodup_iff).mpr hwindow)
  exact (List.pairwise_insertionSort _ _).imp₂ (fun _ _ hle hne => lt_of_le_of_ne hle hne) hne

/-- **A page.** Where no two rows of the device have one position, the rows up to the position that is returned
are read, all of them, in order; and the position is short of the end only for a full page. -/
theorem getDeviceMessagesTxn_spec
    (hdistinct : ((inbox.filter (InboxRow.isFor userId deviceId)).map InboxRow.streamId).Nodup)
    (hle : fromStreamId ≤ toStreamId) (hlimit : 0 < limit) {rows : List InboxRow} {next : ℤ}
    (h : getDeviceMessagesTxn userId deviceId fromStreamId toStreamId limit inbox = (rows, next)) :
    fromStreamId ≤ next ∧ next ≤ toStreamId ∧ rows.Pairwise (fun a b => a.streamId < b.streamId) ∧
      (∀ row, row ∈ rows ↔ row ∈ inbox ∧ row.isFor userId deviceId = true ∧ fromStreamId < row.streamId ∧
        row.streamId ≤ next) ∧ (next = toStreamId ∨ rows.length = limit) := by
  have hsorted := pairwise_rowsBetween fromStreamId toStreamId hdistinct
  have hpage := hsorted.sublist (List.take_sublist limit _)
  simp only [getDeviceMessagesTxn] at h
  split at h
  · rename_i hfull
    obtain ⟨rfl, rfl⟩ := Prod.mk.inj h
    cases hlast : ((rowsBetween userId deviceId fromStreamId toStreamId inbox).take limit).getLast? with
    | none =>
      rw [List.getLast?_eq_none_iff.mp hlast] at hfull
      exact absurd hfull.symm hlimit.ne'
    | some last =>
      have hlastMem := mem_rowsBetween.mp (List.mem_of_mem_take (List.mem_of_getLast? hlast))
      refine ⟨hlastMem.2.2.1.le, hlastMem.2.2.2, hpage, fun row => ?_, .inr hfull⟩
      rw [mem_take_iff_le hsorted hlast, mem_rowsBetween]
      show _ ↔ _ ∧ _ ∧ _ ∧ row.streamId ≤ last.streamId
      constructor
      · rintro ⟨⟨hin, hfor, hfrom, -⟩, hrow⟩
        exact ⟨hin, hfor, hfrom, hrow⟩
      · rintro ⟨hin, hfor, hfrom, hrow⟩
        exact ⟨⟨hin, hfor, hfrom, hrow.trans hlastMem.2.2.2⟩, hrow⟩
  · rename_i hnot
    obtain ⟨rfl, rfl⟩ := Prod.mk.inj h
    refine ⟨hle, le_refl _, hpage, fun row => ?_, .inl rfl⟩
    rw [List.take_of_length_le, mem_rowsBetween]
    refine le_of_lt (lt_of_not_ge fun hge => hnot ?_)
    rw [List.length_take]
    omega

end Reading

/-! ## §5 What is deleted -/

/-- The statements of a deletion stay below the position that they are given. -/
theorem selectMaxStreamId_le {userId deviceId : String} {fromStreamId toStreamId maxStreamId : ℤ} {limit : ℕ}
    {inbox : List InboxRow}
    (h : selectMaxStreamId userId deviceId fromStreamId toStreamId limit inbox = some maxStreamId) :
    maxStreamId ≤ toStreamId := by
  obtain ⟨row, hrow, rfl⟩ := List.mem_map.mp (List.max?_mem h)
  exact (mem_rowsBetween.mp (List.mem_of_mem_take hrow)).2.2.2

theorem mem_deleteRows {userId deviceId : String} {fromStreamId maxStreamId : ℤ} {inbox : List InboxRow}
    {row : InboxRow} : row ∈ (deleteRows userId deviceId fromStreamId maxStreamId inbox).1 ↔ row ∈ inbox ∧
      ¬ (row.isFor userId deviceId = true ∧ fromStreamId < row.streamId ∧ row.streamId ≤ maxStreamId) := by
  rw [deleteRows, List.mem_filter, Bool.not_eq_true', ← isBetween_iff, Bool.not_eq_true]

/-! ## §6 What a cache is prefilled with -/

/-- The first row of an entity decides. -/
theorem get?_foldl_setDefault (rows : List (String × ℤ)) (d : Dict String ℤ) (entity : String) :
    (rows.foldl (fun cache row => cache.setDefault row.1 row.2) d).get? entity =
      (d.get? entity).or ((rows.find? fun row => row.1 = entity).map Prod.snd) := by
  induction rows generalizing d with
  | nil => simp
  | cons row rows ih =>
    rw [List.foldl_cons, ih, get?_setDefault, List.find?_cons]
    by_cases hentity : entity = row.1
    · subst hentity
      cases hget : d.get? row.1 <;> simp [Dict.getD, hget]
    · rw [if_neg hentity, decide_eq_false (Ne.symm hentity)]

/-- In a list that goes down, the first row of an entity is its latest. -/
theorem exists_find?_of_mem {rows : List (String × ℤ)} (hsorted : rows.Pairwise fun a b => b.2 ≤ a.2)
    {row : String × ℤ} (hrow : row ∈ rows) :
    ∃ first, (rows.find? fun x => x.1 = row.1) = some first ∧ row.2 ≤ first.2 := by
  obtain ⟨first, hfirst⟩ := Option.isSome_iff_exists.mp
    ((List.find?_isSome (p := fun x : String × ℤ => x.1 = row.1)).mpr ⟨row, hrow, decide_eq_true rfl⟩)
  refine ⟨first, hfirst, ?_⟩
  obtain ⟨hmatch, before, after, rfl, hbefore⟩ := List.find?_eq_some_iff_append.mp hfirst
  rcases List.mem_append.mp hrow with hin | hin
  · have hnot := hbefore row hin
    simp at hnot
  rcases List.mem_cons.mp hin with rfl | hin
  · exact le_refl _
  · exact List.rel_of_pairwise_cons (List.pairwise_append.mp hsorted).2.1 hin

/-- A row is not after what is prefilled for its entity, or is before the position from which all rows are
there. -/
theorem known_of_getCacheDict (order : TieBreak) (maxValue : ℤ) {limit : ℕ} (hlimit : 0 < limit)
    {rows : List (String × ℤ)} {row : String × ℤ} (hrow : row ∈ rows) :
    (∃ pos, (getCacheDict order rows maxValue limit).1.get? row.1 = some pos ∧ row.2 ≤ pos) ∨
      row.2 ≤ (getCacheDict order rows maxValue limit).2 := by
  have hsorted : (order.sort (fun row => -row.2) rows).Pairwise fun a b => b.2 ≤ a.2 :=
    (order.sorted _ _).imp fun h => by omega
  have hin : row ∈ order.sort (fun row => -row.2) rows := (order.perm _ _).mem_iff.mpr hrow
  have hget : ∀ entity, (((order.sort (fun row => -row.2) rows).take limit).foldl
      (fun cache row => cache.setDefault row.1 row.2) Dict.empty).get? entity =
        ((((order.sort (fun row => -row.2) rows).take limit).find? fun row => row.1 = entity).map Prod.snd) :=
    fun entity => by rw [get?_foldl_setDefault, get?_empty, Option.none_or]
  simp only [getCacheDict]
  have hsplit := hsorted
  rw [← List.take_append_drop limit (order.sort (fun row => -row.2) rows)] at hin hsplit
  rcases List.mem_append.mp hin with htop | hrest
  · obtain ⟨first, hfirst, hle⟩ := exists_find?_of_mem (hsorted.sublist (List.take_sublist limit _)) htop
    refine .inl ⟨first.2, ?_, hle⟩
    have hfound := hget row.1
    rw [hfirst] at hfound
    split <;> exact hfound
  -- the row is not among the last ones, so each of them is at its position or after it
  refine .inr ?_
  split
  · rename_i least hleast
    obtain ⟨item, hitem, rfl⟩ := List.mem_map.mp (List.min?_mem hleast)
    have hfound := get?_eq_some_iff.mpr hitem
    rw [hget, Option.map_eq_some_iff] at hfound
    obtain ⟨x, hx, heq⟩ := hfound
    have hle := (List.pairwise_append.mp hsplit).2.2 x (List.mem_of_find?_eq_some hx) row hrest
    show row.2 ≤ item.2 + 1
    omega
  rename_i hnone
  have hempty := List.min?_eq_none_iff.mp hnone
  cases htake : (order.sort (fun row => -row.2) rows).take limit with
  | nil =>
    rw [List.take_eq_nil_iff] at htake
    rcases htake with h0 | hnil
    · omega
    · rw [hnil, List.drop_nil] at hrest
      exact absurd hrest List.not_mem_nil
  | cons x rest =>
    have hx := hget x.1
    rw [htake, List.find?_cons_of_pos (by simp), Option.map_some, get?_eq_some_iff, ← htake] at hx
    rw [List.map_eq_nil_iff.mp hempty] at hx
    exact absurd hx List.not_mem_nil

end Setka.Storage.DeviceInbox
