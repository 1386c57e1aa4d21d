/-
# Setka.Handlers.RoomKeys — backups of room keys, and what uploads leave in them.

`upload_room_keys` merges the keys of a request into the current backup version: it reads the keys stored
for the submitted sessions, lets `_should_replace_room_key` compare each with the new one, writes the
replaced ones one by one and inserts the rest in one batch. Uploads of a user hold a lock and run one after
the other. Logging is left out.
-/
import Setka.Api.Errors
import Setka.Lib.Action
import Setka.Lib.Contest
import Setka.Lib.Dict
import Setka.Lib.Json
import Setka.Lib.PyInt
import Mathlib.Data.Prod.Lex

namespace Setka.Handlers.RoomKeys

open Setka.Lib Dict PyInt Setka.Lib.Action

/-! ## §1 The tables -/

/-- A row of `e2e_room_keys`. -/
structure RoomKey where
  firstMessageIndex : ℤ
  forwardedCount : ℤ
  isVerified : Bool
  sessionData : Json

/-- A key as a client uploads it, before `is_verified` has been looked at. -/
structure UploadedKey where
  firstMessageIndex : ℤ
  forwardedCount : ℤ
  isVerified : Json
  sessionData : Json

/-- The key, if `is_verified` is a boolean. -/
def UploadedKey.checked (key : UploadedKey) : Option RoomKey :=
  match key.isVerified with
  | .bool isVerified =>
    some ⟨key.firstMessageIndex, key.forwardedCount, isVerified, key.sessionData⟩
  | _ => none

/-- A row of `e2e_room_keys_versions`. -/
structure VersionRow where
  algorithm : String
  authData : Json
  deleted : Bool
  etag : Option ℤ

structure VersionInfo where
  authData : Json
  version : String
  algorithm : String
  etag : ℤ

/-- Keys by user and version, then by room and session; versions by user and number. -/
structure Store where
  roomKeys : Dict ((String × ℤ) × String × String) RoomKey
  versions : Dict (String × ℤ) VersionRow

inductive RoomKeysError
  | storeError (code : ℕ) (msg : String)
  | roomKeysVersionError (currentVersion : String)
  | error (e : Api.Error)
  deriving DecidableEq

/-- `NotFoundError(msg)`. -/
def notFoundError (msg : String) : RoomKeysError := .error (.synapseError 404 msg "M_NOT_FOUND")

/-! ## §2 The store -/

variable (u : PyInt.Digits)

/-- `int(version)`, where a string that is no number is a version that does not exist. -/
def versionInt (version : String) : Except RoomKeysError ℤ :=
  match PyInt.int u version with
  | some n => .ok n
  | none => .error (.storeError 404 "No backup with that version exists")

def currentVersion (userId : String) (s : Store) : Option ℤ :=
  ((s.versions.items.filter fun row => row.1.1 = userId ∧ row.2.deleted = false).map fun row => row.1.2).max?

def getCurrentVersion (userId : String) (s : Store) : Except RoomKeysError ℤ :=
  match currentVersion userId s with
  | some n => .ok n
  | none => .error (.storeError 404 "No current backup version")

def getE2eRoomKeysVersionInfo (userId : String) (version : Option String) (s : Store) :
    Except RoomKeysError VersionInfo := do
  let thisVersion ← match version with
    | none => getCurrentVersion userId s
    | some version => versionInt u version
  match s.versions.get? (userId, thisVersion) with
  | some row =>
    if row.deleted then .error (.storeError 404 "No row found (e2e_room_keys_versions)")
    else .ok ⟨row.authData, toString thisVersion, row.algorithm, row.etag.getD 0⟩
  | none => .error (.storeError 404 "No row found (e2e_room_keys_versions)")

/-- The sessions of a request, in the order of the two loops. -/
def sessions {ν : Type} (rooms : Dict String (Dict String ν)) : List ((String × String) × ν) :=
  rooms.items.flatMap fun room => room.2.items.map fun session => ((room.1, session.1), session.2)

/-- The stored keys of the sessions that a request names. -/
def getE2eRoomKeysMulti (userId version : String) (rooms : Dict String (Dict String UploadedKey))
    (s : Store) : Dict String (Dict String RoomKey) :=
  match PyInt.int u version with
  | none => ∅
  | some n =>
    Dict.nest ((s.roomKeys.column (userId, n)).filter fun path _ =>
      path ∈ (sessions rooms).map Prod.fst).items

def updateE2eRoomKey (userId version : String) (path : String × String) (key : RoomKey) :
    Action Store RoomKeysError Unit := do
  let n ← .lift (versionInt u version)
  .reads fun s => if ((userId, n), path) ∈ s.roomKeys.keys then .ok ()
    else .error (.storeError 404 "No row found (e2e_room_keys)")
  .modify fun s => { s with roomKeys := s.roomKeys.set ((userId, n), path) key }

/-- The keys are inserted in one statement, which the unique index on the table may refuse. -/
def addE2eRoomKeys (userId version : String) (keys : List ((String × String) × RoomKey)) :
    Action Store RoomKeysError Unit := do
  let n ← .lift (versionInt u version)
  .reads fun s =>
    if (keys.map Prod.fst).Nodup ∧ ∀ row ∈ keys, ((userId, n), row.1) ∉ s.roomKeys.keys then .ok ()
    else .error (.error .integrityError)
  .modify fun s =>
    { s with
      roomKeys := keys.foldl (fun d row => d.set ((userId, n), row.1) row.2) s.roomKeys }

def updateE2eRoomKeysVersion (userId version : String) (versionEtag : ℤ) : Action Store RoomKeysError Unit := do
  let n ← .lift (versionInt u version)
  .reads fun s => if (userId, n) ∈ s.versions.keys then .ok ()
    else .error (.storeError 404 "No row found (e2e_room_keys_versions)")
  .modify fun s =>
    match s.versions.get? (userId, n) with
    | some row =>
      { s with versions := s.versions.set (userId, n) { row with etag := some versionEtag } }
    | none => s

def countE2eRoomKeys (userId version : String) (s : Store) : ℕ :=
  match PyInt.int u version with
  | some n => (s.roomKeys.column (userId, n)).items.length
  | none => 0

/-! ## §3 The handler -/

def shouldReplaceRoomKey (currentRoomKey : Option RoomKey) (roomKey : RoomKey) : Bool :=
  match currentRoomKey with
  | some current =>
    if roomKey.isVerified && !current.isVerified then true
    else if roomKey.firstMessageIndex < current.firstMessageIndex then true
    else if roomKey.forwardedCount < current.forwardedCount then true
    else false
  | none => true

/-- `NotFoundError` in place of a `StoreError` with code 404. -/
def versionNotFound (version : String) : RoomKeysError → RoomKeysError
  | .storeError 404 _ => notFoundError ("Version '" ++ version ++ "' not found")
  | e => e

/-- One session of an upload: the key replaces the one that is stored, is dropped, or waits to be inserted.
Carried along are the keys to insert and whether anything has changed. -/
def uploadRoomKey (userId version : String) (existingKeys : Dict String (Dict String RoomKey))
    (acc : List ((String × String) × RoomKey) × Bool) (entry : (String × String) × UploadedKey) :
    Action Store RoomKeysError (List ((String × String) × RoomKey) × Bool) :=
  match entry.2.checked with
  | none =>
    .raise (.error (.synapseError 400 ("is_verified must be a boolean in keys for session " ++
      entry.1.2 ++ " inroom " ++ entry.1.1) "M_INVALID_PARAM"))
  | some roomKey =>
    match (existingKeys.getD entry.1.1 ∅).get? entry.1.2 with
    | some current =>
      if shouldReplaceRoomKey (some current) roomKey then do
        updateE2eRoomKey u userId version entry.1 roomKey
        pure (acc.1, true)
      else pure acc
    | none => pure (acc.1 ++ [(entry.1, roomKey)], true)

/-- The answer has the etag of the version and the number of its keys. -/
def uploadRoomKeys (userId version : String) (rooms : Dict String (Dict String UploadedKey)) :
    Action Store RoomKeysError (String × ℕ) := do
  let versionInfo ← .mapError (versionNotFound version) (.reads (getE2eRoomKeysVersionInfo u userId none))
  if versionInfo.version ≠ version then
    let versionInfo ← .mapError (versionNotFound version)
      (.reads (getE2eRoomKeysVersionInfo u userId (some version)))
    .raise (.roomKeysVersionError versionInfo.version)
  else
    let existingKeys ← .reads fun s => .ok (getE2eRoomKeysMulti u userId version rooms s)
    let (toInsert, changed) ← (sessions rooms).foldlM (uploadRoomKey u userId version existingKeys) ([], false)
    (if toInsert ≠ [] then addE2eRoomKeys u userId version toInsert else pure ())
    let versionEtag := if changed then versionInfo.etag + 1 else versionInfo.etag
    (if changed then updateE2eRoomKeysVersion u userId version versionEtag else pure ())
    let count ← .reads fun s => .ok (countE2eRoomKeys u userId version s)
    pure (toString versionEtag, count)

/-- A request to upload keys. -/
structure Upload where
  userId : String
  version : String
  rooms : Dict String (Dict String UploadedKey)

/-- The store after some uploads, whatever each of them answers. -/
def runUploads (s : Store) (uploads : List Upload) : Store :=
  uploads.foldl (fun s up => ((uploadRoomKeys u up.userId up.version up.rooms).run s).2) s

/-! ## §4 What is read of the store -/

variable {userId : String} {s : Store} {n : ℤ}

theorem currentVersion_eq_some_iff : currentVersion userId s = some n ↔
      (∃ row, s.versions.get? (userId, n) = some row ∧ row.deleted = false) ∧
        ∀ m row, s.versions.get? (userId, m) = some row → row.deleted = false → m ≤ n := by
  have hmem : ∀ m, m ∈ (s.versions.items.filter fun row =>
      row.1.1 = userId ∧ row.2.deleted = false).map (fun row => row.1.2) ↔
      ∃ row, s.versions.get? (userId, m) = some row ∧ row.deleted = false := by
    intro m
    rw [List.mem_map]
    constructor
    · rintro ⟨⟨⟨user, m⟩, row⟩, hrow, rfl⟩
      obtain ⟨hin, hcond⟩ := List.mem_filter.mp hrow
      obtain ⟨rfl, hdeleted⟩ := of_decide_eq_true hcond
      exact ⟨row, get?_eq_some_iff.mpr hin, hdeleted⟩
    · rintro ⟨row, hrow, hdeleted⟩
      exact ⟨((userId, m), row), List.mem_filter.mpr
        ⟨get?_eq_some_iff.mp hrow, decide_eq_true ⟨rfl, hdeleted⟩⟩, rfl⟩
  rw [currentVersion, List.max?_eq_some_iff]
  refine and_congr (hmem n) ⟨fun h m row hrow hdeleted => ?_, fun h m hm => ?_⟩
  · exact h m ((hmem m).mpr ⟨row, hrow, hdeleted⟩)
  · obtain ⟨row, hrow, hdeleted⟩ := (hmem m).mp hm
    exact h m row hrow hdeleted

variable {rooms : Dict String (Dict String UploadedKey)} {path : String × String}

/-- The keys of the named sessions are those of the table. -/
theorem get?_getE2eRoomKeysMulti (hn : PyInt.Printable n) (hpath : path ∈ (sessions rooms).map Prod.fst) :
    ((getE2eRoomKeysMulti u userId (toString n) rooms s).getD path.1 ∅).get? path.2 =
      s.roomKeys.get? ((userId, n), path) := by
  rw [getE2eRoomKeysMulti, int_toString u hn]
  show ((Dict.nest _).getD path.1 ∅).get? path.2 = _
  rw [get?_nest]
  ext key
  rw [get?_filter, get?_column, decide_eq_true hpath]
  exact and_iff_left rfl

theorem mem_sessions {ν : Type} {rooms : Dict String (Dict String ν)} {v : ν} :
    (path, v) ∈ sessions rooms ↔ ∃ room, rooms.get? path.1 = some room ∧ room.get? path.2 = some v := by
  obtain ⟨roomId, sessionId⟩ := path
  simp only [sessions, List.mem_flatMap, List.mem_map, get?_eq_some_iff]
  constructor
  · rintro ⟨⟨_, room⟩, hroom, ⟨_, _⟩, hsession, heq⟩
    cases heq
    exact ⟨room, hroom, hsession⟩
  · rintro ⟨room, hroom, hsession⟩
    exact ⟨(roomId, room), hroom, (sessionId, v), hsession, rfl⟩

theorem nodup_sessions {ν : Type} (rooms : Dict String (Dict String ν)) :
    ((sessions rooms).map Prod.fst).Nodup := by
  rw [sessions, List.map_flatMap, List.nodup_flatMap]
  constructor
  · rintro ⟨roomId, room⟩ _
    have hnodup := room.nodup.map (Prod.mk_right_injective roomId)
    rw [List.map_map] at hnodup ⊢
    exact hnodup
  · refine (List.pairwise_map.mp rooms.nodup).imp ?_
    rintro ⟨a, room⟩ ⟨b, room'⟩ hne path hpath hpath'
    obtain ⟨_, hin, rfl⟩ := List.mem_map.mp hpath
    obtain ⟨_, hin', heq⟩ := List.mem_map.mp hpath'
    obtain ⟨_, _, rfl⟩ := List.mem_map.mp hin
    obtain ⟨_, _, rfl⟩ := List.mem_map.mp hin'
    exact hne (congrArg Prod.fst heq).symm

/-! ## §5 One upload -/

/-- The key that an upload offers for a session. -/
def offered (rooms : Dict String (Dict String UploadedKey)) (path : String × String) : Option RoomKey :=
  ((rooms.get? path.1).bind fun room => room.get? path.2).bind UploadedKey.checked

/-- `_should_replace_room_key` on a key that is there. -/
def replaces (current new : RoomKey) : Bool := shouldReplaceRoomKey (some current) new

/-- A key that is to be inserted, as `uploadRoomKeys` collects it. -/
def fresh (userId : String) (n : ℤ) (s : Store) (entry : (String × String) × UploadedKey) :
    Option ((String × String) × RoomKey) :=
  if (s.roomKeys.get? ((userId, n), entry.1)).isNone then entry.2.checked.map (Prod.mk entry.1) else none

theorem run_updateE2eRoomKey (hn : PyInt.Printable n) {current : RoomKey}
    (hcurrent : s.roomKeys.get? ((userId, n), path) = some current) (key : RoomKey) :
    (updateE2eRoomKey u userId (toString n) path key).run s =
      (.ok (), { s with roomKeys := s.roomKeys.set ((userId, n), path) key }) := by
  have hmem : ((userId, n), path) ∈ s.roomKeys.keys := mem_keys_iff.mpr ⟨current, hcurrent⟩
  rw [updateE2eRoomKey, versionInt, int_toString u hn]
  simp [run_bind, hmem]

/-- What is stored for one session, once it was compared with a new key. -/
def merged (current : Option RoomKey) (key : RoomKey) : Option RoomKey :=
  current.map fun current => if replaces current key then key else current

variable {key : RoomKey}

theorem run_uploadRoomKey (hn : PyInt.Printable n) {existingKeys : Dict String (Dict String RoomKey)}
    {entry : (String × String) × UploadedKey} (hkey : entry.2.checked = some key)
    (hexisting : (existingKeys.getD entry.1.1 ∅).get? entry.1.2 =
      s.roomKeys.get? ((userId, n), entry.1)) (acc : List ((String × String) × RoomKey) × Bool) :
    ∃ changed s', (uploadRoomKey u userId (toString n) existingKeys acc entry).run s =
        (.ok (acc.1 ++ (fresh userId n s entry).toList, changed), s') ∧
      s'.versions = s.versions ∧
      ∀ path, s'.roomKeys.get? ((userId, n), path) =
        if path = entry.1 then merged (s.roomKeys.get? ((userId, n), path)) key
        else s.roomKeys.get? ((userId, n), path) := by
  simp only [uploadRoomKey, hkey, hexisting, fresh]
  cases hcurrent : s.roomKeys.get? ((userId, n), entry.1) with
  | none =>
    refine ⟨true, s, rfl, rfl, fun path => ?_⟩
    split
    · next h => rw [h, hcurrent]; rfl
    · rfl
  | some current =>
    by_cases hreplaces : shouldReplaceRoomKey (some current) key = true
    · refine ⟨true, { s with roomKeys := s.roomKeys.set ((userId, n), entry.1) key }, ?_, rfl, fun path => ?_⟩
      · simp only [hreplaces, if_true, run_bind_of_ok (run_updateE2eRoomKey u hn hcurrent key)]
        simp
      · by_cases hpath : path = entry.1
        · subst hpath
          simp [get?_set, hcurrent, merged, replaces, hreplaces]
        · simp [get?_set, hpath]
    · refine ⟨acc.2, s, ?_, rfl, fun path => ?_⟩
      · simp [hreplaces]
      · split
        · next h =>
            rw [h, hcurrent]
            simp [merged, replaces, hreplaces]
        · rfl

variable {entries : List ((String × String) × UploadedKey)}

/-- A pass over the sessions: the stored keys are compared with the new ones, the others are collected. -/
theorem run_foldlM_uploadRoomKey (hn : PyInt.Printable n) {existingKeys : Dict String (Dict String RoomKey)}
    (hnodup : (entries.map Prod.fst).Nodup) (hchecked : ∀ e ∈ entries, e.2.checked ≠ none)
    (hexisting : ∀ e ∈ entries, (existingKeys.getD e.1.1 ∅).get? e.1.2 =
      s.roomKeys.get? ((userId, n), e.1)) (acc : List ((String × String) × RoomKey) × Bool) :
    ∃ changed s', (entries.foldlM (uploadRoomKey u userId (toString n) existingKeys) acc).run s =
        (.ok (acc.1 ++ entries.filterMap (fresh userId n s), changed), s') ∧
      s'.versions = s.versions ∧
      (∀ e ∈ entries, ∀ key, e.2.checked = some key → s'.roomKeys.get? ((userId, n), e.1) =
        merged (s.roomKeys.get? ((userId, n), e.1)) key) ∧
      ∀ path, path ∉ entries.map Prod.fst →
        s'.roomKeys.get? ((userId, n), path) = s.roomKeys.get? ((userId, n), path) := by
  induction entries generalizing s acc with
  | nil => exact ⟨acc.2, s, by simp, rfl, by simp, fun _ _ => rfl⟩
  | cons e entries ih =>
    obtain ⟨hnot, hnodup'⟩ := List.nodup_cons.mp hnodup
    have hne : ∀ e' ∈ entries, e'.1 ≠ e.1 := fun e' he' heq =>
      hnot (List.mem_map.mpr ⟨e', he', heq⟩)
    obtain ⟨key, hkey⟩ := Option.ne_none_iff_exists'.mp (hchecked e List.mem_cons_self)
    obtain ⟨changed, s₁, hrun, hversions, hget⟩ :=
      run_uploadRoomKey u hn hkey (hexisting e List.mem_cons_self) acc
    have hsame : ∀ e' ∈ entries, s₁.roomKeys.get? ((userId, n), e'.1) =
        s.roomKeys.get? ((userId, n), e'.1) := fun e' he' => by
      rw [hget, if_neg (hne e' he')]
    obtain ⟨changed', s₂, hrun', hversions', hmerged, hrest⟩ := ih hnodup'
      (fun e' he' => hchecked e' (List.mem_cons_of_mem e he'))
      (fun e' he' => (hexisting e' (List.mem_cons_of_mem e he')).trans (hsame e' he').symm)
      (acc.1 ++ (fresh userId n s e).toList, changed)
    have hfresh : entries.filterMap (fresh userId n s₁) = entries.filterMap (fresh userId n s) :=
      List.filterMap_congr fun e' he' => by rw [fresh, fresh, hsame e' he']
    refine ⟨changed', s₂, ?_, hversions'.trans hversions, ?_, ?_⟩
    · rw [List.foldlM_cons, run_bind_of_ok hrun, hrun', hfresh, List.append_assoc]
      cases hf : fresh userId n s e <;> simp [hf]
    · intro e' he' key' hkey'
      rcases List.mem_cons.mp he' with rfl | hin
      · obtain rfl : key = key' := Option.some.inj (hkey.symm.trans hkey')
        rw [hrest e'.1 hnot, hget, if_pos rfl]
      · rw [hmerged e' hin key' hkey', hsame e' hin]
    · intro path hpath
      rw [List.map_cons, List.mem_cons, not_or] at hpath
      rw [hrest path hpath.2, hget, if_neg hpath.1]

theorem run_addE2eRoomKeys (hn : PyInt.Printable n) {keys : List ((String × String) × RoomKey)}
    (hnodup : (keys.map Prod.fst).Nodup) (hnew : ∀ row ∈ keys, s.roomKeys.get? ((userId, n), row.1) = none) :
    (addE2eRoomKeys u userId (toString n) keys).run s = (.ok (), { s with
        roomKeys := keys.foldl (fun d row => d.set ((userId, n), row.1) row.2) s.roomKeys }) := by
  have hcond : (keys.map Prod.fst).Nodup ∧ ∀ row ∈ keys, ((userId, n), row.1) ∉ s.roomKeys.keys :=
    ⟨hnodup, fun row hrow => get?_eq_none_iff.mp (hnew row hrow)⟩
  rw [addE2eRoomKeys, versionInt, int_toString u hn]
  simp only [run_bind, run_lift, run_reads, if_pos hcond, run_modify]

/-- The rows after a batch was inserted. -/
theorem get?_foldl_insert {c : String × ℤ} {keys : List ((String × String) × RoomKey)}
    (hnodup : (keys.map Prod.fst).Nodup) (d : Dict ((String × ℤ) × String × String) RoomKey)
    (path : String × String) :
    (∀ key, (path, key) ∈ keys → (keys.foldl (fun d row => d.set (c, row.1) row.2) d).get? (c, path) = some key) ∧
    (path ∉ keys.map Prod.fst →
      (keys.foldl (fun d row => d.set (c, row.1) row.2) d).get? (c, path) = d.get? (c, path)) := by
  induction keys generalizing d with
  | nil => exact ⟨nofun, fun _ => rfl⟩
  | cons row keys ih =>
    obtain ⟨hnot, hnodup'⟩ := List.nodup_cons.mp hnodup
    obtain ⟨hin, hout⟩ := ih hnodup' (d.set (c, row.1) row.2)
    constructor
    · intro key hkey
      rcases List.mem_cons.mp hkey with rfl | hkey
      · rw [List.foldl_cons, hout hnot, get?_set, if_pos rfl]
      · exact hin key hkey
    · intro hpath
      rw [List.map_cons, List.mem_cons, not_or] at hpath
      have hne : (c, path) ≠ (c, row.1) := fun heq => hpath.1 (Prod.mk.inj heq).2
      rw [List.foldl_cons, hout hpath.2, get?_set, if_neg hne]

theorem run_updateE2eRoomKeysVersion (hn : PyInt.Printable n) {row : VersionRow}
    (hrow : s.versions.get? (userId, n) = some row) (versionEtag : ℤ) :
    (updateE2eRoomKeysVersion u userId (toString n) versionEtag).run s = (.ok (), { s with
        versions := s.versions.set (userId, n) { row with etag := some versionEtag } }) := by
  have hmem : (userId, n) ∈ s.versions.keys := mem_keys_iff.mpr ⟨row, hrow⟩
  rw [updateE2eRoomKeysVersion, versionInt, int_toString u hn]
  simp [run_bind, hmem, hrow]

/-- Writing an etag leaves the current version as it is. -/
theorem currentVersion_set_etag {m : ℤ} {row : VersionRow} (hrow : s.versions.get? (userId, m) = some row)
    (etag : Option ℤ) :
    currentVersion userId { s with versions := s.versions.set (userId, m) { row with etag := etag } } =
        some n ↔ currentVersion userId s = some n := by
  -- a version is there and not deleted exactly when it was so before
  have hlive : ∀ k, (∃ row', (s.versions.set (userId, m) { row with etag := etag }).get? (userId, k) =
      some row' ∧ row'.deleted = false) ↔
      ∃ row', s.versions.get? (userId, k) = some row' ∧ row'.deleted = false := by
    intro k
    by_cases hk : k = m
    · subst hk
      simp [hrow]
    · simp [hk]
  rw [currentVersion_eq_some_iff, currentVersion_eq_some_iff, hlive]
  refine and_congr_right fun _ => ⟨fun h k r hr hd => ?_, fun h k r hr hd => ?_⟩
  · obtain ⟨r', hr', hd'⟩ := (hlive k).mpr ⟨r, hr, hd⟩
    exact h k r' hr' hd'
  · obtain ⟨r', hr', hd'⟩ := (hlive k).mp ⟨r, hr, hd⟩
    exact h k r' hr' hd'

theorem getE2eRoomKeysVersionInfo_of_current (hcurrent : currentVersion userId s = some n) :
    ∃ row, s.versions.get? (userId, n) = some row ∧ getE2eRoomKeysVersionInfo u userId none s =
      .ok ⟨row.authData, toString n, row.algorithm, row.etag.getD 0⟩ := by
  obtain ⟨⟨row, hrow, hdeleted⟩, -⟩ := currentVersion_eq_some_iff.mp hcurrent
  refine ⟨row, hrow, ?_⟩
  simp only [getE2eRoomKeysVersionInfo, getCurrentVersion, hcurrent, except_ok_bind, hrow, hdeleted]
  rfl

/-- The keys that were collected are those of the sessions without a stored key. -/
theorem mem_filterMap_fresh : (path, key) ∈ entries.filterMap (fresh userId n s) ↔
      ∃ uploaded, (path, uploaded) ∈ entries ∧ uploaded.checked = some key ∧
        s.roomKeys.get? ((userId, n), path) = none := by
  rw [List.mem_filterMap]
  constructor
  · rintro ⟨⟨path', uploaded⟩, hin, hfresh⟩
    simp only [fresh] at hfresh
    split at hfresh
    · next hnone =>
        obtain ⟨key', hkey, heq⟩ := Option.map_eq_some_iff.mp hfresh
        cases heq
        exact ⟨uploaded, hin, hkey, Option.isNone_iff_eq_none.mp hnone⟩
    · cases hfresh
  · rintro ⟨uploaded, hin, hkey, hnone⟩
    exact ⟨(path, uploaded), hin, by simp [fresh, hkey, hnone]⟩

theorem nodup_filterMap_fresh (hnodup : (entries.map Prod.fst).Nodup) :
    ((entries.filterMap (fresh userId n s)).map Prod.fst).Nodup := by
  have hfst : ∀ e row, fresh userId n s e = some row → row.1 = e.1 := by
    intro e row hfresh
    obtain ⟨uploaded, hin, -, -⟩ := mem_filterMap_fresh.mp
      (List.mem_filterMap.mpr ⟨e, List.mem_singleton_self e, hfresh⟩)
    rw [← List.mem_singleton.mp hin]
  rw [List.Nodup, List.pairwise_map, List.pairwise_filterMap]
  refine (List.pairwise_map.mp hnodup).imp fun {e e'} hne row hrow row' hrow' => ?_
  rw [hfst e row hrow, hfst e' row' hrow']
  exact hne

/-- What an upload offers for a session is the key that it has there. -/
theorem offered_eq_some_iff : offered rooms path = some key ↔
      ∃ uploaded, (path, uploaded) ∈ sessions rooms ∧ uploaded.checked = some key := by
  simp only [offered, Option.bind_eq_some_iff, mem_sessions]

/-- The collected keys are inserted, if there are any. -/
theorem run_insert (hn : PyInt.Printable n) {toInsert : List ((String × String) × RoomKey)}
    (hnodup : (toInsert.map Prod.fst).Nodup)
    (hnew : ∀ row ∈ toInsert, s.roomKeys.get? ((userId, n), row.1) = none) :
    (if toInsert ≠ [] then addE2eRoomKeys u userId (toString n) toInsert else pure ()).run s = (.ok (), { s with
        roomKeys := toInsert.foldl (fun d row => d.set ((userId, n), row.1) row.2) s.roomKeys }) := by
  by_cases hnil : toInsert = []
  · subst hnil
    rfl
  · rw [if_pos hnil, run_addE2eRoomKeys u hn hnodup hnew]

/-- The etag goes up, if anything has changed. -/
theorem run_etag (hn : PyInt.Printable n) (hcurrent : currentVersion userId s = some n) (changed : Bool)
    (versionEtag : ℤ) : ∃ s', (if changed then updateE2eRoomKeysVersion u userId (toString n) versionEtag
        else pure ()).run s = (.ok (), s') ∧
      s'.roomKeys = s.roomKeys ∧ currentVersion userId s' = some n := by
  cases changed with
  | false => exact ⟨s, rfl, rfl, hcurrent⟩
  | true =>
    obtain ⟨⟨row, hrow, -⟩, -⟩ := currentVersion_eq_some_iff.mp hcurrent
    refine ⟨{ s with versions := s.versions.set (userId, n) { row with etag := some versionEtag } },
      ?_, rfl, (currentVersion_set_etag hrow (some versionEtag)).mpr hcurrent⟩
    rw [if_pos rfl]
    exact run_updateE2eRoomKeysVersion u hn hrow versionEtag

/-- After the pass and the inserts, each session holds what the contest with the new key leaves. -/
theorem get?_merge {s' : Store} (hchecked : ∀ e ∈ sessions rooms, e.2.checked ≠ none)
    (hmerged : ∀ e ∈ sessions rooms, ∀ key, e.2.checked = some key →
      s'.roomKeys.get? ((userId, n), e.1) = merged (s.roomKeys.get? ((userId, n), e.1)) key)
    (hrest : ∀ path, path ∉ (sessions rooms).map Prod.fst →
      s'.roomKeys.get? ((userId, n), path) = s.roomKeys.get? ((userId, n), path)) (path : String × String) :
    (((sessions rooms).filterMap (fresh userId n s)).foldl
        (fun d row => d.set ((userId, n), row.1) row.2) s'.roomKeys).get? ((userId, n), path) =
      (offered rooms path).elim (s.roomKeys.get? ((userId, n), path))
        (contest replaces (s.roomKeys.get? ((userId, n), path))) := by
  obtain ⟨hin, hout⟩ := get?_foldl_insert (c := (userId, n))
    (nodup_filterMap_fresh (nodup_sessions rooms)) s'.roomKeys path
  cases hoffered : offered rooms path with
  | none =>
    have hnot : path ∉ (sessions rooms).map Prod.fst := by
      intro hpath
      obtain ⟨⟨_, uploaded⟩, he, rfl⟩ := List.mem_map.mp hpath
      obtain ⟨key, hkey⟩ := Option.ne_none_iff_exists'.mp (hchecked _ he)
      rw [offered_eq_some_iff.mpr ⟨uploaded, he, hkey⟩] at hoffered
      cases hoffered
    rw [hout fun hpath => ?_, hrest path hnot]
    · rfl
    obtain ⟨⟨_, key⟩, he, rfl⟩ := List.mem_map.mp hpath
    obtain ⟨uploaded, he, -, -⟩ := mem_filterMap_fresh.mp he
    exact hnot (List.mem_map.mpr ⟨_, he, rfl⟩)
  | some key =>
    obtain ⟨uploaded, he, hkey⟩ := offered_eq_some_iff.mp hoffered
    cases hstored : s.roomKeys.get? ((userId, n), path) with
    | none => exact hin key (mem_filterMap_fresh.mpr ⟨uploaded, he, hkey, hstored⟩)
    | some current =>
      rw [hout fun hpath => ?_, hmerged _ he key hkey, hstored]
      · simp only [merged, Option.map_some, Option.elim_some, contest]
        split <;> rfl
      obtain ⟨⟨_, key'⟩, he', rfl⟩ := List.mem_map.mp hpath
      obtain ⟨_, -, -, hnone⟩ := mem_filterMap_fresh.mp he'
      rw [hnone] at hstored
      cases hstored

/-- **An upload to the current version merges each of its keys into the backup.** -/
theorem run_uploadRoomKeys (hn : PyInt.Printable n) (hcurrent : currentVersion userId s = some n)
    (hchecked : ∀ e ∈ sessions rooms, e.2.checked ≠ none) :
    ∃ answer s', (uploadRoomKeys u userId (toString n) rooms).run s = (.ok answer, s') ∧
      currentVersion userId s' = some n ∧
      ∀ path, s'.roomKeys.get? ((userId, n), path) = (offered rooms path).elim (s.roomKeys.get? ((userId, n), path))
          (contest replaces (s.roomKeys.get? ((userId, n), path))) := by
  obtain ⟨row, hrow, hinfo⟩ := getE2eRoomKeysVersionInfo_of_current u hcurrent
  have hexisting : ∀ e ∈ sessions rooms,
      ((getE2eRoomKeysMulti u userId (toString n) rooms s).getD e.1.1 ∅).get? e.1.2 =
        s.roomKeys.get? ((userId, n), e.1) := fun e he =>
    get?_getE2eRoomKeysMulti u hn (List.mem_map.mpr ⟨e, he, rfl⟩)
  obtain ⟨changed, s₁, hloop, hversions, hmerged, hrest⟩ :=
    run_foldlM_uploadRoomKey u hn (nodup_sessions rooms) hchecked hexisting ([], false)
  rw [List.nil_append] at hloop
  have hnew : ∀ entry ∈ (sessions rooms).filterMap (fresh userId n s),
      s₁.roomKeys.get? ((userId, n), entry.1) = none := by
    intro entry hentry
    obtain ⟨uploaded, hin, hkey, hnone⟩ := mem_filterMap_fresh.mp hentry
    rw [hmerged _ hin entry.2 hkey, hnone]
    rfl
  have hinsert := run_insert u hn (nodup_filterMap_fresh (nodup_sessions rooms)) hnew
  have hcurrent₁ : currentVersion userId { s₁ with
      roomKeys := ((sessions rooms).filterMap (fresh userId n s)).foldl
        (fun d row => d.set ((userId, n), row.1) row.2) s₁.roomKeys } = some n := by
    rw [← hcurrent, currentVersion, currentVersion, hversions]
  obtain ⟨s₂, hetag, hkeys, hcurrent₂⟩ := run_etag u hn hcurrent₁ changed
    (if changed then row.etag.getD 0 + 1 else row.etag.getD 0)
  refine ⟨(toString (if changed then row.etag.getD 0 + 1 else row.etag.getD 0),
    countE2eRoomKeys u userId (toString n) s₂), s₂, ?_, hcurrent₂, fun path => ?_⟩
  · rw [uploadRoomKeys, run_bind]
    simp only [Action.mapError, run_reads, hinfo, Except.mapError]
    rw [if_neg (not_not.mpr rfl), run_bind, run_reads]
    simp only [run_bind_of_ok hloop, run_bind_of_ok hinsert, run_bind_of_ok hetag]
    rfl
  · rw [hkeys]
    exact get?_merge hchecked hmerged hrest path

/-! ## §6 Uploads to other backups -/

/-- The keys of the backup are untouched, and it stays the current one. -/
def Untouched (userId : String) (n : ℤ) (s s' : Store) : Prop :=
  (∀ path, s'.roomKeys.get? ((userId, n), path) = s.roomKeys.get? ((userId, n), path)) ∧
    (currentVersion userId s = some n → currentVersion userId s' = some n)

theorem untouched_refl (s : Store) : Untouched userId n s s :=
  ⟨fun _ => rfl, id⟩

theorem untouched_trans (s t v : Store) (h : Untouched userId n s t)
    (h' : Untouched userId n t v) : Untouched userId n s v :=
  ⟨fun path => (h'.1 path).trans (h.1 path), fun hcurrent => h'.2 (h.2 hcurrent)⟩

section OtherUser

variable {userId other : String} {n : ℤ} (hother : other ≠ userId)

include hother

theorem get?_set_other (d : Dict ((String × ℤ) × String × String) RoomKey) (m : ℤ)
    (path path' : String × String) (key : RoomKey) :
    (d.set ((other, m), path') key).get? ((userId, n), path) = d.get? ((userId, n), path) := by
  rw [get?_set, if_neg]
  rintro ⟨⟩
  exact hother rfl

theorem keeps_updateE2eRoomKey (version : String) (path : String × String) (key : RoomKey) :
    Action.Keeps (Untouched userId n) (updateE2eRoomKey u other version path key) := by
  refine (keeps_lift untouched_refl _).bind untouched_refl untouched_trans fun m => ?_
  refine (keeps_reads untouched_refl _).bind untouched_refl untouched_trans fun _ => ?_
  exact keeps_modify fun s => ⟨fun path' => get?_set_other hother .., id⟩

theorem keeps_addE2eRoomKeys (version : String) (keys : List ((String × String) × RoomKey)) :
    Action.Keeps (Untouched userId n) (addE2eRoomKeys u other version keys) := by
  refine (keeps_lift untouched_refl _).bind untouched_refl untouched_trans fun m => ?_
  refine (keeps_reads untouched_refl _).bind untouched_refl untouched_trans fun _ => ?_
  refine keeps_modify fun s => ⟨fun path => ?_, id⟩
  show (keys.foldl _ s.roomKeys).get? _ = _
  induction keys generalizing s with
  | nil => rfl
  | cons row keys ih =>
    exact (ih { s with roomKeys := s.roomKeys.set ((other, m), row.1) row.2 }).trans (get?_set_other hother ..)

theorem keeps_updateE2eRoomKeysVersion (version : String) (versionEtag : ℤ) :
    Action.Keeps (Untouched userId n) (updateE2eRoomKeysVersion u other version versionEtag) := by
  refine (keeps_lift untouched_refl _).bind untouched_refl untouched_trans fun m => ?_
  refine (keeps_reads untouched_refl _).bind untouched_refl untouched_trans fun _ => ?_
  refine keeps_modify fun s => ?_
  cases s.versions.get? (other, m) with
  | none => exact untouched_refl s
  | some row =>
    refine ⟨fun _ => rfl, fun hcurrent => ?_⟩
    have hget : ∀ k, (s.versions.set (other, m) { row with etag := some versionEtag }).get?
        (userId, k) = s.versions.get? (userId, k) := by
      intro k
      rw [get?_set, if_neg]
      rintro ⟨⟩
      exact hother rfl
    rw [currentVersion_eq_some_iff] at hcurrent ⊢
    simpa only [hget] using hcurrent

theorem keeps_uploadRoomKey (version : String) (existingKeys : Dict String (Dict String RoomKey))
    (acc : List ((String × String) × RoomKey) × Bool) (entry : (String × String) × UploadedKey) :
    Action.Keeps (Untouched userId n) (uploadRoomKey u other version existingKeys acc entry) := by
  rw [uploadRoomKey]
  split
  · exact keeps_raise untouched_refl _
  split
  · split
    · exact (keeps_updateE2eRoomKey u hother _ _ _).bind untouched_refl untouched_trans
        fun _ => keeps_pure untouched_refl _
    · exact keeps_pure untouched_refl _
  · exact keeps_pure untouched_refl _

/-- An upload of another user leaves the backup alone, whatever its answer. -/
theorem keeps_uploadRoomKeys_other (version : String) (rooms : Dict String (Dict String UploadedKey)) :
    Action.Keeps (Untouched userId n) (uploadRoomKeys u other version rooms) := by
  refine (keeps_mapError (keeps_reads untouched_refl _)).bind untouched_refl
    untouched_trans fun info => ?_
  split
  · refine (keeps_mapError (keeps_reads untouched_refl _)).bind untouched_refl
      untouched_trans fun _ => ?_
    exact keeps_raise untouched_refl _
  refine (keeps_reads untouched_refl _).bind untouched_refl untouched_trans fun _ => ?_
  refine (Action.Keeps.foldlM untouched_refl untouched_trans
    (fun acc entry => keeps_uploadRoomKey u hother _ _ acc entry) _ _).bind untouched_refl untouched_trans
    fun acc => ?_
  refine Action.Keeps.bind untouched_refl untouched_trans ?_ fun _ => ?_
  · split
    · exact keeps_addE2eRoomKeys u hother _ _
    · exact keeps_pure untouched_refl _
  refine Action.Keeps.bind untouched_refl untouched_trans ?_ fun _ => ?_
  · split
    · exact keeps_updateE2eRoomKeysVersion u hother _ _
    · exact keeps_pure untouched_refl _
  exact (keeps_reads untouched_refl _).bind untouched_refl untouched_trans
    fun _ => keeps_pure untouched_refl _

end OtherUser

/-- An upload to a version that is not the current one fails and changes nothing. -/
theorem run_uploadRoomKeys_stale {version : String} (hcurrent : currentVersion userId s = some n)
    (hversion : version ≠ toString n) (rooms : Dict String (Dict String UploadedKey)) :
    ((uploadRoomKeys u userId version rooms).run s).2 = s := by
  obtain ⟨row, hrow, hinfo⟩ := getE2eRoomKeysVersionInfo_of_current u hcurrent
  rw [uploadRoomKeys, run_bind]
  simp only [Action.mapError, run_reads, hinfo, Except.mapError]
  rw [if_pos hversion.symm, run_bind]
  simp only
  cases getE2eRoomKeysVersionInfo u userId (some version) s with
  | ok info => rfl
  | error e => rfl

/-! ## §7 A backup over a run of uploads -/

/-- `a` is to win over `b`: a verified key over an unverified one, then the lower `first_message_index`,
then the lower `forwarded_count`. -/
def Beats (a b : RoomKey) : Prop :=
  (a.isVerified = true ∧ b.isVerified = false) ∨ (a.isVerified = b.isVerified ∧
    (a.firstMessageIndex < b.firstMessageIndex ∨ (a.firstMessageIndex = b.firstMessageIndex ∧
      a.forwardedCount < b.forwardedCount)))

/-- The rank of a key, the best ones lowest. -/
def rank (key : RoomKey) : Bool ×ₗ ℤ ×ₗ ℤ :=
  toLex (!key.isVerified, toLex (key.firstMessageIndex, key.forwardedCount))

theorem beats_iff_rank_lt (a b : RoomKey) : Beats a b ↔ rank a < rank b := by
  rw [Beats, rank, rank, Prod.Lex.toLex_lt_toLex, Prod.Lex.toLex_lt_toLex]
  cases a.isVerified <;> cases b.isVerified <;> simp

theorem rank_eq_iff (a b : RoomKey) : rank a = rank b ↔ a.isVerified = b.isVerified ∧
    a.firstMessageIndex = b.firstMessageIndex ∧ a.forwardedCount = b.forwardedCount := by
  simp [rank]

theorem replaces_eq_false_iff (current new : RoomKey) : replaces current new = false ↔
    ¬ (new.isVerified = true ∧ current.isVerified = false) ∧
      current.firstMessageIndex ≤ new.firstMessageIndex ∧
        current.forwardedCount ≤ new.forwardedCount := by
  simp only [replaces, shouldReplaceRoomKey]
  split
  · next h => simp_all
  next h =>
    have hverified : ¬ (new.isVerified = true ∧ current.isVerified = false) := by simpa using h
    split
    · next hlt => simp [hlt]
    next hge =>
      have hindex : current.firstMessageIndex ≤ new.firstMessageIndex := by omega
      simp only [hverified, hindex, not_false_eq_true, true_and]
      split
      · next hlt => simp [hlt]
      · next hge => simpa using hge

/-- The comparison lets in every better key, and no key of the same rank. -/
theorem favours : Favours replaces rank where
  better current new h := by
    by_contra hkeep
    obtain ⟨hverified, hindex, hcount⟩ :=
      (replaces_eq_false_iff current new).mp (Bool.eq_false_iff.mpr hkeep)
    rcases (beats_iff_rank_lt new current).mpr h with h | ⟨-, h | ⟨-, h⟩⟩
    · exact hverified h
    · omega
    · omega
  equal current new h := by
    obtain ⟨hverified, hindex, hcount⟩ := (rank_eq_iff new current).mp h
    rw [replaces_eq_false_iff, hverified, hindex, hcount]
    exact ⟨fun h => by simp [h.1] at h, le_rfl, le_rfl⟩
  holder a b new h := by
    obtain ⟨hverified, hindex, hcount⟩ := (rank_eq_iff a b).mp h
    simp only [replaces, shouldReplaceRoomKey, hverified, hindex, hcount]

/-- The keys that were uploaded for a session of a backup, in their order. -/
def uploadedKeys (userId : String) (n : ℤ) (path : String × String) (uploads : List Upload) : List RoomKey :=
  (uploads.filter fun up => up.userId = userId ∧ up.version = toString n).filterMap fun up => offered up.rooms path

/-- Every `is_verified` of the uploads to the backup is a boolean. -/
def Checked (userId : String) (n : ℤ) (uploads : List Upload) : Prop :=
  ∀ up ∈ uploads, up.userId = userId → up.version = toString n → ∀ e ∈ sessions up.rooms, e.2.checked ≠ none

variable {uploads : List Upload}

/-- **The stored key of a session comes of a contest of the uploaded keys, in their order.** -/
theorem runUploads_spec (hn : PyInt.Printable n) (hcurrent : currentVersion userId s = some n)
    (hchecked : Checked userId n uploads) (path : String × String) :
    (runUploads u s uploads).roomKeys.get? ((userId, n), path) =
      (uploadedKeys userId n path uploads).foldl (contest replaces) (s.roomKeys.get? ((userId, n), path)) := by
  induction uploads generalizing s with
  | nil => rfl
  | cons up uploads ih =>
    have hrest : Checked userId n uploads := fun up' hup' => hchecked up' (List.mem_cons_of_mem up hup')
    rw [runUploads, List.foldl_cons]
    by_cases hmine : up.userId = userId ∧ up.version = toString n
    · obtain ⟨answer, s', hrun, hcurrent', hget⟩ := run_uploadRoomKeys u hn hcurrent
        (hchecked up List.mem_cons_self hmine.1 hmine.2)
      rw [hmine.1, hmine.2, hrun]
      refine (ih hcurrent' hrest).trans ?_
      rw [hget, uploadedKeys, uploadedKeys, List.filter_cons_of_pos (by simpa using hmine)]
      cases hoffered : offered up.rooms path with
      | none =>
        simp only [List.filterMap_cons, hoffered]
        rfl
      | some key =>
        simp only [List.filterMap_cons, hoffered]
        rfl
    · obtain ⟨hget, hcurrent'⟩ : Untouched userId n s
          ((uploadRoomKeys u up.userId up.version up.rooms).run s).2 := by
        by_cases huser : up.userId = userId
        · rw [huser, run_uploadRoomKeys_stale u hcurrent fun h => hmine ⟨huser, h⟩]
          exact untouched_refl s
        · exact keeps_uploadRoomKeys_other u huser up.version up.rooms s
      refine (ih (hcurrent' hcurrent) hrest).trans ?_
      rw [hget, uploadedKeys, uploadedKeys, List.filter_cons_of_neg (by simpa using hmine)]

/-! ## §8 What wins -/

/-- The keys that the backup was given for a session: the one it started with, then the uploaded ones. -/
def givenKeys (userId : String) (n : ℤ) (path : String × String) (s : Store) (uploads : List Upload) :
    List RoomKey :=
  (s.roomKeys.get? ((userId, n), path)).toList ++ uploadedKeys userId n path uploads

/-- After the uploads the session has a key that none of the given keys beats, if it was given any. -/
def StoresBest (userId : String) (n : ℤ) (path : String × String) (s : Store) (uploads : List Upload) : Prop :=
  givenKeys userId n path s uploads ≠ [] → ∃ key,
    (runUploads u s uploads).roomKeys.get? ((userId, n), path) = some key ∧
      ∀ other ∈ givenKeys userId n path s uploads, ¬ Beats other key

/-- After one of the best keys no key with a lower `first_message_index` or a lower `forwarded_count`
comes. -/
def BestLast (keys : List RoomKey) : Prop :=
  keys ≠ [] → ∃ before best after, keys = before ++ best :: after ∧
    (∀ other ∈ keys, ¬ Beats other best) ∧ ∀ later ∈ after,
      best.firstMessageIndex ≤ later.firstMessageIndex ∧ best.forwardedCount ≤ later.forwardedCount

theorem bestStays_iff_bestLast {keys : List RoomKey} (hne : keys ≠ []) :
    BestStays replaces rank keys ↔ BestLast keys := by
  have hbest : ∀ best, (∀ a ∈ keys, rank best ≤ rank a) ↔ ∀ other ∈ keys, ¬ Beats other best :=
    fun best => forall₂_congr fun a _ => by rw [beats_iff_rank_lt, not_lt]
  constructor
  · rintro ⟨before, best, after, hkeys, hle, hafter⟩ -
    refine ⟨before, best, after, hkeys, (hbest best).mp hle, fun later hlater => ?_⟩
    exact ((replaces_eq_false_iff best later).mp (hafter later hlater)).2
  intro h
  obtain ⟨before, best, after, hkeys, hunbeaten, hafter⟩ := h hne
  refine ⟨before, best, after, hkeys, (hbest best).mpr hunbeaten, fun later hlater => ?_⟩
  refine (replaces_eq_false_iff best later).mpr ⟨fun hverified => ?_, hafter later hlater⟩
  -- an unverified best key means that no key is verified
  exact hunbeaten later (by simp [hkeys, hlater]) (Or.inl hverified)

theorem get?_runUploads (hn : PyInt.Printable n) (hcurrent : currentVersion userId s = some n)
    (hchecked : Checked userId n uploads) (path : String × String) :
    (runUploads u s uploads).roomKeys.get? ((userId, n), path) =
      (givenKeys userId n path s uploads).foldl (contest replaces) none := by
  rw [runUploads_spec u hn hcurrent hchecked, givenKeys, List.foldl_append]
  cases s.roomKeys.get? ((userId, n), path) <;> rfl

/-- **A backup keeps the best key of a session exactly when nothing with a lower index or count comes
after it**; and any two orders of the same keys in which that is so leave keys of equal rank. -/
theorem uploads_store_best {userId : String} {n : ℤ} (hn : PyInt.Printable n) {s : Store}
    (hcurrent : currentVersion userId s = some n) {uploads : List Upload}
    (hchecked : Checked userId n uploads) (path : String × String) :
    (StoresBest u userId n path s uploads ↔ BestLast (givenKeys userId n path s uploads)) ∧
    ∀ uploads', Checked userId n uploads' →
      (givenKeys userId n path s uploads).Perm (givenKeys userId n path s uploads') →
      BestLast (givenKeys userId n path s uploads) → BestLast (givenKeys userId n path s uploads') →
      ∀ key key', (runUploads u s uploads).roomKeys.get? ((userId, n), path) = some key →
        (runUploads u s uploads').roomKeys.get? ((userId, n), path) = some key' →
        ¬ Beats key key' ∧ ¬ Beats key' key := by
  constructor
  · by_cases hne : givenKeys userId n path s uploads = []
    · exact ⟨fun _ h => absurd hne h, fun _ h => absurd hne h⟩
    · rw [← bestStays_iff_bestLast hne, ← favours.contest_best_iff, StoresBest,
        get?_runUploads u hn hcurrent hchecked]
      simp only [beats_iff_rank_lt, not_lt]
      exact ⟨fun h => h hne, fun h _ => h⟩
  intro uploads' hchecked' hperm hlast hlast' key key' hkey hkey'
  rw [get?_runUploads u hn hcurrent hchecked] at hkey
  rw [get?_runUploads u hn hcurrent hchecked'] at hkey'
  have hne : givenKeys userId n path s uploads ≠ [] := by
    intro hnil
    rw [hnil] at hkey
    cases hkey
  have hne' : givenKeys userId n path s uploads' ≠ [] := fun hnil => hne (hnil ▸ hperm).eq_nil
  have hrank := favours.rank_eq_of_bestStays (fun a => hperm.mem_iff)
    ((bestStays_iff_bestLast hne).mpr hlast) ((bestStays_iff_bestLast hne').mpr hlast') hkey hkey'
  rw [beats_iff_rank_lt, beats_iff_rank_lt, hrank]
  exact ⟨lt_irrefl _, lt_irrefl _⟩

/-! ## §9 A verified key that is lost -/

/-- A backup without keys. -/
def freshBackup : Store :=
  ⟨∅, Dict.empty.set ("@a:x", 1) ⟨"m.megolm_backup.v1", .obj [], false, none⟩⟩

/-- An upload of one key for one session. -/
def uploadOne (firstMessageIndex : ℤ) (isVerified : Bool) : Upload :=
  ⟨"@a:x", "1", Dict.empty.set "!r:x" (Dict.empty.set "s" ⟨firstMessageIndex, 0, .bool isVerified, .str ""⟩)⟩

theorem checked_uploadOne (h : ∀ up ∈ uploads, ∃ index verified, up = uploadOne index verified)
    (userId : String) (n : ℤ) : Checked userId n uploads := by
  intro up hup _ _ e he
  obtain ⟨index, verified, rfl⟩ := h up hup
  obtain rfl : e = (("!r:x", "s"), ⟨index, 0, .bool verified, .str ""⟩) := by
    simpa [sessions, uploadOne, Dict.set, Dict.setItems, Dict.empty] using he
  simp [UploadedKey.checked]

/-- With the verified key last, the backup keeps it. -/
theorem uploads_store_best_example :
    StoresBest .ascii "@a:x" 1 ("!r:x", "s") freshBackup [uploadOne 5 false, uploadOne 10 true] := by
  refine (uploads_store_best .ascii (by decide) (by decide +kernel) (checked_uploadOne ?_ _ _) _).1.mpr ?_
  · intro up hup
    obtain rfl | rfl : up = uploadOne 5 false ∨ up = uploadOne 10 true := by simpa using hup
    · exact ⟨5, false, rfl⟩
    · exact ⟨10, true, rfl⟩
  · intro _
    refine ⟨[⟨5, 0, false, .str ""⟩], ⟨10, 0, true, .str ""⟩, [], rfl, ?_, nofun⟩
    intro other hother
    obtain rfl | rfl : other = ⟨5, 0, false, .str ""⟩ ∨ other = ⟨10, 0, true, .str ""⟩ := by
      simpa using (show other ∈ [_, _] from hother)
    · simp [Beats]
    · simp [Beats]

/-- **An unverified key takes the place of a verified one**, when its `first_message_index` is lower. -/
theorem verified_key_lost :
    ¬ StoresBest .ascii "@a:x" 1 ("!r:x", "s") freshBackup [uploadOne 10 true, uploadOne 5 false] := by
  intro h
  have hgiven : givenKeys "@a:x" 1 ("!r:x", "s") freshBackup [uploadOne 10 true, uploadOne 5 false] =
      [⟨10, 0, true, .str ""⟩, ⟨5, 0, false, .str ""⟩] := rfl
  obtain ⟨key, hkey, hbest⟩ := h (by simp [hgiven])
  have hstored : ((runUploads .ascii freshBackup [uploadOne 10 true, uploadOne 5 false]).roomKeys.get?
      (("@a:x", 1), ("!r:x", "s"))).map RoomKey.isVerified = some false := by decide +kernel
  rw [hkey] at hstored
  exact hbest ⟨10, 0, true, .str ""⟩ (by simp [hgiven]) (Or.inl ⟨rfl, Option.some.inj hstored⟩)

end Setka.Handlers.RoomKeys
