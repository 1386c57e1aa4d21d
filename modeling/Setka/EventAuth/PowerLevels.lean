/-
# Setka.EventAuth.PowerLevels — who may change the power levels.

A new power levels event is compared with the one in force entry by entry: no entry that changes may be
above the level of its sender, before or after. Users without an entry have the default, which is an
entry of its own; the comparison does not look at the levels that result.
-/
import Setka.EventAuth
import Setka.Lib.Action
import Setka.Types

namespace Setka.EventAuth

open Setka.Api Setka.Events Setka.Lib Setka.Types

/-! ## §1 The rule -/

/-- `d.items()`. A key that occurs twice stands twice, with the value that counts. -/
def items (members : List (String × Json)) : List (String × Json) :=
  members.map fun member => (member.1, (Json.member? members member.1).getD member.2)

/-- A `SynapseError` of the status 400. -/
def badRequest (msg : String) : Error := .synapseError 400 msg "M_UNKNOWN"

/-- One turn of the loop that validates `users`. -/
def validateUser (out : Outside) (user : String × Json) : Except Error Unit :=
  match UserID.fromString user.1, toInt user.2 with
  | .error _, _ => .error (badRequest ("Not a valid user_id: " ++ user.1))
  | .ok _, .error _ => .error (badRequest ("Not a valid power level: " ++ out.shown user.2))
  | .ok _, .ok _ => .ok ()

/-- The strings in `set(v)`. -/
def setOf : Json → Except Error (List String)
  | .arr xs =>
    if xs.any fun y => y matches .arr _ | .obj _ then .error .typeError
    else .ok (xs.filterMap fun y => match y with | .str s => some s | _ => none)
  | .str s => .ok (s.toList.map String.singleton)
  | .obj members => .ok (members.map Prod.fst)
  | _ => .error .typeError

/-- Creators have no entry in `users`, where they have a level of their own. -/
def creatorsUnlisted (roomVersion : RoomVersion) (users : List (String × Json))
    (authEvents : StateMap EventBase) : Except Error Unit :=
  if roomVersion.msc4289CreatorPowerEnabled = false then .ok ()
  else match authEvents.get? createKey with
  | none =>
    .error (badRequest "Cannot check power levels without a create event in auth_events")
  | some create =>
    if (Json.member? users create.sender).isSome then
      .error (badRequest ("Creator user " ++ create.sender ++ " must not appear in content.users"))
    else
      match Json.truthy? (Json.member? create.content "additional_creators") with
      | none => .ok ()
      | some additionalCreators => do
          let creators ← setOf additionalCreators
          if creators.any fun creator => (Json.member? users creator).isSome then
            .error (badRequest "Additional creators users must not appear in content.users")
          else pure ()

/-- The keys whose values are integers, and those whose values are dictionaries of integers. -/
def levelKeys : List String :=
  ["users_default", "events_default", "state_default", "ban", "redact", "kick", "invite"]

def levelDirs : List String := ["events", "notifications", "users"]

def isInt : Json → Bool
  | .int _ => true
  | _ => false

/-- One turn of the loop that rejects levels that are no integers. -/
def integerLevel (out : Outside) (member : String × Json) : Except Error Unit :=
  if member.1 ∈ levelKeys ∧ isInt member.2 = false then
    .error (badRequest (out.repr member.2 ++ " must be an integer."))
  else if member.1 ∈ levelDirs ∧
      (match member.2 with
        | .obj levels => (items levels).all fun level => isInt level.2
        | _ => false) = false then
    .error (badRequest (out.repr member.2 ++ " must be a dict wherein all the values are integers."))
  else .ok ()

/-- Levels are integers, where the room version wants them so. -/
def levelsAreIntegers (out : Outside) (roomVersion : RoomVersion) (event : EventBase) : Except Error Unit :=
  if event.type = "m.room.power_levels" ∧ roomVersion.enforceIntPowerLevels = true then
    (items event.content).forM (integerLevel out)
  else .ok ()

/-- `list(v)` of a decoded value, as it is put into a set: a list and a dictionary have no hash. -/
def keysIn : Json → Except Error (List Json)
  | .obj members => .ok (members.map fun member => .str member.1)
  | .arr xs => if xs.any fun y => y matches .arr _ | .obj _ then .error .typeError else .ok xs
  | .str s => .ok (s.toList.map fun c => .str (String.singleton c))
  | _ => .error .typeError

/-- `xs[i]`. -/
def pyIndex (xs : List Json) (i : ℤ) : Except Error Json :=
  match xs[(if i < 0 then i + xs.length else i).toNat]? with
  | some v => if i + xs.length < 0 then .error .indexError else .ok v
  | none => .error .indexError

/-- A decoded value as the integer it equals. -/
def asIndex : Json → Option ℤ
  | .int n => some n
  | .bool b => some (if b then 1 else 0)
  | _ => none

/-- The level under a key, where it is there: `k in loc`, then `int(loc[k])`. A list has its elements in
it, but only numbers index it. -/
def levelIn : Json → Json → Except Error (Option ℤ)
  | .obj members, .str k =>
    match Json.member? members k with
    | some v => (toInt v).map some
    | none => .ok none
  | .obj _, _ => .ok none
  | .arr xs, k =>
    match asIndex k, k with
    | some i, _ =>
      if xs.any fun y => asIndex y = some i then do
        let v ← pyIndex xs i
        (toInt v).map some
      else .ok none
    | none, .str s => if xs.any fun y => isStr y s then .error .typeError else .ok none
    | none, _ => .error .typeError
  | .str t, .str s =>
    if t.toList.tails.any fun rest => s.toList.isPrefixOf rest then .error .typeError else .ok none
  | _, _ => .error .typeError

/-- `content.get(dir, {})`. -/
def dirOf (event : EventBase) (dir : String) : Json :=
  (Json.member? event.content dir).getD (.obj [])

/-- The keys of a dictionary of levels in the old and in the new event. A set would hold each once. -/
def levelsIn (old new : EventBase) (dir : String) : Except Error (List (Json × Option String)) := do
  let oldKeys ← keysIn (dirOf old dir)
  let newKeys ← keysIn (dirOf new dir)
  pure ((oldKeys ++ newKeys).map fun key => (key, some dir))

def notificationLevels (roomVersion : RoomVersion) (old new : EventBase) :
    Except Error (List (Json × Option String)) :=
  if roomVersion.limitNotificationsPowerLevels then levelsIn old new "notifications" else .ok []

/-- `levels_to_check`. -/
def levelsToCheck (roomVersion : RoomVersion) (old new : EventBase) :
    Except Error (List (Json × Option String)) := do
  let users ← levelsIn old new "users"
  let events ← levelsIn old new "events"
  let notifications ← notificationLevels roomVersion old new
  pure (levelKeys.map (fun key => (Json.str key, none)) ++ users ++ events ++ notifications)

/-- The old and the new level of one entry, for a sender of this level. -/
def levelAllowed (userId : String) (userLevel : ℤ) (level : Json × Option String)
    (oldLevel newLevel : Option ℤ) : Except Error Unit :=
  if oldLevel.isSome ∧ newLevel = oldLevel then .ok ()
  else if level.2 = some "users" ∧ isStr level.1 userId = false ∧ oldLevel = some userLevel then
    .error (authError "You don't have permission to remove ops level equal to your own")
  else if (oldLevel.any fun n => userLevel < n) || (newLevel.any fun n => userLevel < n) then
    .error (authError "You don't have permission to add ops level greater than your own")
  else .ok ()

/-- Where a level stands: in a dictionary of levels, or in the content itself. -/
def locOf (event : EventBase) : Option String → Json
  | some dir => dirOf event dir
  | none => .obj event.content

/-- One turn of the loop over `levels_to_check`. -/
def checkLevel (userLevel : ℤ) (old new : EventBase) (level : Json × Option String) : Except Error Unit := do
  let oldLevel ← levelIn (locOf old level.2) level.1
  let newLevel ← levelIn (locOf new level.2) level.1
  levelAllowed new.sender userLevel level oldLevel newLevel

/-- What `_check_power_levels` asks of the event whatever is in force. -/
def levelsWellFormed (out : Outside) (roomVersion : RoomVersion) (event : EventBase)
    (authEvents : StateMap EventBase) : Except Error Unit :=
  match dirOf event "users" with
  | .obj users => do
      (items users).forM (validateUser out)
      creatorsUnlisted roomVersion users authEvents
      levelsAreIntegers out roomVersion event
  | _ => .error .attributeError

/-- The comparison of `_check_power_levels` with the event in force. -/
def levelsComparable (roomVersion : RoomVersion) (event currentState : EventBase)
    (authEvents : StateMap EventBase) : Except Error Unit := do
  let userLevel ← getUserPowerLevel event.sender authEvents
  let levels ← levelsToCheck roomVersion currentState event
  levels.forM (checkLevel userLevel currentState event)

/-- `_check_power_levels`. -/
def checkPowerLevels (out : Outside) (roomVersion : RoomVersion) (event : EventBase)
    (authEvents : StateMap EventBase) : Except Error Unit := do
  levelsWellFormed out roomVersion event authEvents
  let stateKey ← stateKeyOf event
  match authEvents.get? (event.type, stateKey) with
  | none => pure ()
  | some currentState => levelsComparable roomVersion event currentState authEvents

/-! ## §2 What an accepted event has passed -/

variable {userId : String} {userLevel : ℤ}

theorem levelAllowed_spec {level : Json × Option String} {oldLevel newLevel : Option ℤ}
    (h : levelAllowed userId userLevel level oldLevel newLevel = .ok ()) : newLevel = oldLevel ∨
      (level.2 = some "users" → isStr level.1 userId = false → oldLevel ≠ some userLevel) ∧
        (∀ n, oldLevel = some n → n ≤ userLevel) ∧ ∀ n, newLevel = some n → n ≤ userLevel := by
  unfold levelAllowed at h
  split at h
  · rename_i hsame
    exact Or.inl hsame.2
  split at h
  · cases h
  rename_i hequal
  split at h
  · cases h
  rename_i hbig
  rw [Bool.or_eq_true, not_or] at hbig
  refine Or.inr ⟨fun hdir huser heq => hequal ⟨hdir, huser, heq⟩, ?_, ?_⟩
  · rintro n rfl
    simpa using hbig.1
  · rintro n rfl
    simpa using hbig.2

/-- The entries of `users`. -/
def usersOf (powerLevels : EventBase) : List (String × Json) :=
  match dirOf powerLevels "users" with
  | .obj users => users
  | _ => []

/-- The user has an entry of its own. -/
def Listed (powerLevels : EventBase) (userId : String) : Prop :=
  (Json.member? (usersOf powerLevels) userId).isSome = true

instance (powerLevels : EventBase) (userId : String) : Decidable (Listed powerLevels userId) :=
  inferInstanceAs (Decidable (_ = true))

/-- **What the comparison of the old with the new event gives.** -/
structure Compared (userId : String) (userLevel : ℤ) (old new : EventBase) : Prop where
  newUsers : dirOf new "users" = .obj (usersOf new)
  default : ∃ oldLevel newLevel, levelIn (.obj old.content) (.str "users_default") = .ok oldLevel ∧
    levelIn (.obj new.content) (.str "users_default") = .ok newLevel ∧
    (newLevel = oldLevel ∨ (∀ n, oldLevel = some n → n ≤ userLevel) ∧
      ∀ n, newLevel = some n → n ≤ userLevel)
  entry : ∀ other users, dirOf old "users" = .obj users →
    (Json.member? users other).isSome = true ∨ Listed new other →
    ∃ oldLevel newLevel, levelIn (dirOf old "users") (.str other) = .ok oldLevel ∧
      levelIn (dirOf new "users") (.str other) = .ok newLevel ∧
      (newLevel = oldLevel ∨ (other ≠ userId → oldLevel ≠ some userLevel) ∧
        (∀ n, oldLevel = some n → n ≤ userLevel) ∧ ∀ n, newLevel = some n → n ≤ userLevel)

theorem keysIn_obj (members : List (String × Json)) :
    keysIn (.obj members) = .ok (members.map fun member => .str member.1) := rfl

variable {old new : EventBase}

/-- The entries of the old and of the new `users` are among the levels that are compared. -/
theorem mem_levelsToCheck {roomVersion : RoomVersion} {levels : List (Json × Option String)}
    (h : levelsToCheck roomVersion old new = .ok levels) : (Json.str "users_default", none) ∈ levels ∧
    ∀ oldUsers newUsers, dirOf old "users" = .obj oldUsers → dirOf new "users" = .obj newUsers →
      ∀ userId ∈ oldUsers.map Prod.fst ++ newUsers.map Prod.fst, (Json.str userId, some "users") ∈ levels := by
  obtain ⟨users, husers, h⟩ := except_bind_eq_ok.mp h
  obtain ⟨events, -, h⟩ := except_bind_eq_ok.mp h
  obtain ⟨notifications, -, h⟩ := except_bind_eq_ok.mp h
  obtain rfl := Except.ok.inj h
  constructor
  · simp [levelKeys]
  intro oldUsers newUsers hold hnew userId hmem
  unfold levelsIn at husers
  rw [hold, hnew, keysIn_obj, keysIn_obj] at husers
  obtain rfl := Except.ok.inj husers
  rw [List.mem_append] at hmem
  simp only [List.mem_append, List.mem_map]
  refine Or.inl (Or.inl (Or.inr ⟨.str userId, ?_, rfl⟩))
  rcases hmem with hmem | hmem
  · obtain ⟨member, hmember, rfl⟩ := List.mem_map.mp hmem
    exact Or.inl ⟨member, hmember, rfl⟩
  · obtain ⟨member, hmember, rfl⟩ := List.mem_map.mp hmem
    exact Or.inr ⟨member, hmember, rfl⟩

/-- One turn of the loop, for a level that it has compared. -/
theorem checkLevel_spec {level : Json × Option String} (h : checkLevel userLevel old new level = .ok ()) :
    ∃ oldLevel newLevel, levelIn (locOf old level.2) level.1 = .ok oldLevel ∧
      levelIn (locOf new level.2) level.1 = .ok newLevel ∧
      levelAllowed new.sender userLevel level oldLevel newLevel = .ok () := by
  obtain ⟨oldLevel, hold, h⟩ := except_bind_eq_ok.mp h
  obtain ⟨newLevel, hnew, h⟩ := except_bind_eq_ok.mp h
  exact ⟨oldLevel, newLevel, hold, hnew, h⟩

theorem compared_of_checkPowerLevels {out : Outside} {roomVersion : RoomVersion} {event : EventBase}
    {authEvents : StateMap EventBase} (hkey : (event.type, event.stateKey) = ("m.room.power_levels", some ""))
    (hold : authEvents.get? powerLevelsKey = some old)
    (hlevel : getUserPowerLevel event.sender authEvents = .ok userLevel)
    (h : checkPowerLevels out roomVersion event authEvents = .ok ()) :
    Compared event.sender userLevel old event := by
  obtain ⟨_, hwell, h⟩ := except_bind_eq_ok.mp h
  obtain ⟨htype, hstateKey⟩ := Prod.mk.inj hkey
  obtain ⟨stateKey, hstate, h⟩ := except_bind_eq_ok.mp h
  have hempty : stateKey = "" := by
    unfold stateKeyOf at hstate
    rw [hstateKey] at hstate
    exact (Except.ok.inj hstate).symm
  rw [htype, hempty, show authEvents.get? ("m.room.power_levels", "") = some old from hold] at h
  obtain ⟨level, hlevel', h⟩ := except_bind_eq_ok.mp h
  obtain rfl := Except.ok.inj (hlevel'.symm.trans hlevel)
  obtain ⟨levels, hlevels, h⟩ := except_bind_eq_ok.mp h
  rw [forM_eq_ok] at h
  obtain ⟨hdefault, hentries⟩ := mem_levelsToCheck hlevels
  have hnew : dirOf event "users" = .obj (usersOf event) := by
    unfold levelsWellFormed at hwell
    split at hwell
    · rename_i users husers
      rw [usersOf, husers]
    · cases hwell
  refine ⟨hnew, ?_, ?_⟩
  · obtain ⟨oldLevel, newLevel, hol, hne, hallowed⟩ := checkLevel_spec (h _ hdefault)
    refine ⟨oldLevel, newLevel, hol, hne, (levelAllowed_spec hallowed).imp_right And.right⟩
  intro other oldUsers holdUsers hlisted
  have hmem : other ∈ oldUsers.map Prod.fst ++ (usersOf event).map Prod.fst := by
    rw [List.mem_append]
    exact hlisted.imp Json.mem_keys_of_member? Json.mem_keys_of_member?
  obtain ⟨oldLevel, newLevel, hol, hne, hallowed⟩ :=
    checkLevel_spec (h _ (hentries oldUsers _ holdUsers hnew other hmem))
  refine ⟨oldLevel, newLevel, hol, hne, (levelAllowed_spec hallowed).imp_right ?_⟩
  rintro ⟨hequal, hbig⟩
  refine ⟨fun hother => hequal rfl ?_, hbig⟩
  simpa [isStr] using hother

/-! ## §3 The levels that result -/

/-- The user is a creator whose level no event changes. -/
def creatorIn (create : EventBase) (userId : String) : Except Error Bool :=
  if create.roomVersion.msc4289CreatorPowerEnabled then isCreator create userId else .ok false

/-- A user's level where power levels are in force. -/
theorem getUserPowerLevel_eq {authEvents : StateMap EventBase} {create powerLevels : EventBase}
    (hcreate : authEvents.get? createKey = some create)
    (hpowerLevels : authEvents.get? powerLevelsKey = some powerLevels) (userId : String) :
    getUserPowerLevel userId authEvents = (creatorIn create userId).bind fun creator =>
        if creator then .ok creatorPowerLevel else namedPowerLevel userId powerLevels := by
  rw [getUserPowerLevel, hcreate, hpowerLevels, creatorIn]
  dsimp only
  split
  · rfl
  · rfl

variable {members : List (String × Json)} {k : String}

theorem levelIn_obj_eq_none (h : Json.member? members k = none) : levelIn (.obj members) (.str k) = .ok none := by
  rw [levelIn, h]

theorem levelIn_obj_of_some {v : Json} (h : Json.member? members k = some v) :
    levelIn (.obj members) (.str k) = (toInt v).map some := by
  rw [levelIn, h]

/-- A level that was compared is a number, or not there. -/
theorem levelIn_obj_eq_ok {level : Option ℤ} (h : levelIn (.obj members) (.str k) = .ok level) :
    (Json.member? members k = none ∧ level = none) ∨
      ∃ v n, Json.member? members k = some v ∧ v ≠ .null ∧ toInt v = .ok n ∧ level = some n := by
  cases hv : Json.member? members k with
  | none =>
    rw [levelIn_obj_eq_none hv] at h
    exact Or.inl ⟨rfl, (Except.ok.inj h).symm⟩
  | some v =>
    rw [levelIn_obj_of_some hv] at h
    rcases hn : toInt v with error | n
    · rw [hn] at h
      cases h
    rw [hn] at h
    refine Or.inr ⟨v, n, rfl, ?_, hn, (Except.ok.inj h).symm⟩
    rintro rfl
    cases hn

/-- **The level of a user who is no creator** is its entry, or else the default. -/
theorem namedPowerLevel_eq {powerLevels : EventBase} {users : List (String × Json)} {entry default : Option ℤ}
    (husers : dirOf powerLevels "users" = .obj users) (hentry : levelIn (.obj users) (.str userId) = .ok entry)
    (hdefault : levelIn (.obj powerLevels.content) (.str "users_default") = .ok default) :
    namedPowerLevel userId powerLevels = .ok (entry.getD (default.getD 0)) := by
  unfold dirOf at husers
  rw [namedPowerLevel, husers]
  dsimp only
  rcases levelIn_obj_eq_ok hentry with ⟨hmember, rfl⟩ | ⟨v, n, hmember, hnull, hn, rfl⟩
  · rw [hmember]
    rcases levelIn_obj_eq_ok hdefault with ⟨hmember, rfl⟩ | ⟨v, n, hmember, hnull, hn, rfl⟩
    · rw [hmember]
      rfl
    rw [hmember]
    cases v with
    | null => exact absurd rfl hnull
    | _ => exact hn
  · rw [hmember]
    cases v with
    | null => exact absurd rfl hnull
    | _ => exact hn

/-- The new event has the default of the old one, or none. -/
def DefaultKept (old new : EventBase) : Prop :=
  Json.member? new.content "users_default" = none ∨
    levelIn (.obj new.content) (.str "users_default") = levelIn (.obj old.content) (.str "users_default")

/-- **What one accepted event does to the level of a user who is no creator.** -/
theorem Compared.levels {sender : String} {oldLevel : ℤ} (h : Compared sender userLevel old new)
    (hold : namedPowerLevel userId old = .ok oldLevel) : ∃ newLevel, namedPowerLevel userId new = .ok newLevel ∧
      (newLevel ≤ max userLevel oldLevel ∨ ¬ Listed new userId ∧ DefaultKept old new) ∧
      (userId ≠ sender → Listed old userId → userLevel ≤ oldLevel → oldLevel ≤ newLevel) := by
  obtain ⟨users, husers⟩ : ∃ users, dirOf old "users" = .obj users := by
    unfold namedPowerLevel at hold
    split at hold
    · rename_i users husers
      exact ⟨users, husers⟩
    · cases hold
  obtain ⟨oldDefault, newDefault, hod, hnd, hdefault⟩ := h.default
  have hcompared : ∃ oldEntry newEntry, levelIn (.obj users) (.str userId) = .ok oldEntry ∧
      levelIn (.obj (usersOf new)) (.str userId) = .ok newEntry ∧
      (newEntry = oldEntry ∨ (userId ≠ sender → oldEntry ≠ some userLevel) ∧
        (∀ n, oldEntry = some n → n ≤ userLevel) ∧ ∀ n, newEntry = some n → n ≤ userLevel) := by
    by_cases hlisted : (Json.member? users userId).isSome = true ∨ Listed new userId
    · obtain ⟨oldEntry, newEntry, ho, hn, hentry⟩ := h.entry userId users husers hlisted
      rw [husers] at ho
      rw [h.newUsers] at hn
      exact ⟨oldEntry, newEntry, ho, hn, hentry⟩
    · rw [not_or, Listed, Option.not_isSome_iff_eq_none, Option.not_isSome_iff_eq_none] at hlisted
      exact ⟨none, none, levelIn_obj_eq_none hlisted.1, levelIn_obj_eq_none hlisted.2, Or.inl rfl⟩
  obtain ⟨oldEntry, newEntry, ho, hn, hentry⟩ := hcompared
  obtain rfl : oldEntry.getD (oldDefault.getD 0) = oldLevel :=
    Except.ok.inj ((namedPowerLevel_eq husers ho hod).symm.trans hold)
  refine ⟨_, namedPowerLevel_eq h.newUsers hn hnd, ?_, ?_⟩
  · cases hnewEntry : newEntry with
    | some n =>
      refine Or.inl ?_
      show n ≤ _
      rcases hentry with hsame | ⟨-, -, hbig⟩
      · rw [← hsame, hnewEntry]
        exact le_max_right _ _
      · exact le_trans (hbig n hnewEntry) (le_max_left _ _)
    | none =>
      -- the user has the default: the event kept it, or it is not above the sender
      have hunlisted : ¬ Listed new userId := by
        rintro hlisted
        obtain ⟨v, hv⟩ := Option.isSome_iff_exists.mp hlisted
        rcases levelIn_obj_eq_ok hn with ⟨hnone, -⟩ | ⟨-, n, -, -, -, hsome⟩
        · rw [hnone] at hv
          cases hv
        · rw [hnewEntry] at hsome
          cases hsome
      rcases hdefault with hsame | ⟨-, hbig⟩
      · exact Or.inr ⟨hunlisted, Or.inr (by rw [hod, hnd, hsame])⟩
      rcases levelIn_obj_eq_ok hnd with ⟨hnone, -⟩ | ⟨-, n, -, -, -, rfl⟩
      · exact Or.inr ⟨hunlisted, Or.inl hnone⟩
      · exact Or.inl (le_trans (hbig n rfl) (le_max_left _ _))
  · intro hother hlisted hlevel
    rw [Listed, usersOf, husers] at hlisted
    obtain ⟨v, hv⟩ := Option.isSome_iff_exists.mp hlisted
    rcases levelIn_obj_eq_ok ho with ⟨hnone, -⟩ | ⟨-, n, -, -, -, rfl⟩
    · rw [hnone] at hv
      cases hv
    rcases hentry with rfl | ⟨hequal, hbig, -⟩
    · exact le_refl _
    have hle := hbig n rfl
    have hne : n ≠ userLevel := fun heq => hequal hother (congrArg some heq)
    have hge : userLevel ≤ n := hlevel
    omega

/-- **No entry is raised above its sender.** After an accepted event the level of a user is at most that
of the sender or what it was, unless the user has no entry and gets a default that the event kept or
dropped. An entry at or above the sender's level, of another user, stays; and so do creators. -/
theorem levels_of_checkPowerLevels {out : Outside} {roomVersion : RoomVersion} {event : EventBase}
    {authEvents : StateMap EventBase} {old : EventBase} {userLevel : ℤ}
    (hkey : (event.type, event.stateKey) = ("m.room.power_levels", some ""))
    (hold : authEvents.get? powerLevelsKey = some old)
    (hsender : getUserPowerLevel event.sender authEvents = .ok userLevel)
    (h : checkPowerLevels out roomVersion event authEvents = .ok ()) {userId : String}
    {oldLevel : ℤ} (huser : getUserPowerLevel userId authEvents = .ok oldLevel) :
    ∃ newLevel, getUserPowerLevel userId (authEvents.set powerLevelsKey event) = .ok newLevel ∧
      (newLevel ≤ max userLevel oldLevel ∨ ¬ Listed event userId ∧ DefaultKept old event) ∧
      (userId ≠ event.sender → Listed old userId ∨ (∃ create, authEvents.get? createKey = some create ∧
          creatorIn create userId = .ok true) →
        userLevel ≤ oldLevel → oldLevel ≤ newLevel) := by
  have hcompared := compared_of_checkPowerLevels hkey hold hsender h
  obtain ⟨create, hcreate⟩ : ∃ create, authEvents.get? createKey = some create := by
    cases hcreate : authEvents.get? createKey with
    | none =>
      rw [getUserPowerLevel, hcreate] at huser
      cases huser
    | some create => exact ⟨create, rfl⟩
  have hcreate' : (authEvents.set powerLevelsKey event).get? createKey = some create := by
    rw [Dict.get?_set, if_neg (by decide), hcreate]
  have hnew : (authEvents.set powerLevelsKey event).get? powerLevelsKey = some event := by
    rw [Dict.get?_set, if_pos rfl]
  rw [getUserPowerLevel_eq hcreate hold] at huser
  rw [getUserPowerLevel_eq hcreate' hnew]
  obtain ⟨creator, hcreator, huser⟩ := except_bind_eq_ok.mp huser
  rw [hcreator]
  cases creator with
  | true =>
    -- a creator has the same level before and after
    obtain rfl := Except.ok.inj huser
    exact ⟨_, rfl, Or.inl (le_max_right _ _), fun _ _ _ => le_refl _⟩
  | false =>
    obtain ⟨newLevel, hnewLevel, hbound, hkept⟩ := hcompared.levels huser
    refine ⟨newLevel, hnewLevel, hbound, fun hother hlisted => hkept hother ?_⟩
    rcases hlisted with hlisted | ⟨create', hcreate'', htrue⟩
    · exact hlisted
    obtain rfl := Option.some.inj (hcreate''.symm.trans hcreate)
    rw [hcreator] at htrue
    cases htrue

/-- The room with power levels in force. -/
def exampleLevels (sender : String) (users : List (String × Json)) (usersDefault : ℤ) : EventBase :=
  exampleEvent "$levels" "m.room.power_levels" sender (some "")
    [("users", .obj users), ("users_default", .int usersDefault)] ["$create"]

def exampleGoverned (users : List (String × Json)) (usersDefault : ℤ) : StateMap EventBase :=
  exampleCreated.set powerLevelsKey (exampleLevels "@owner:s" users usersDefault)

/-- The owner makes a guest a moderator, and not more than an owner. -/
theorem levels_of_checkPowerLevels_example : ∃ newLevel, getUserPowerLevel "@guest:s"
        ((exampleGoverned [("@owner:s", .int 100)] 0).set powerLevelsKey
          (exampleLevels "@owner:s" [("@owner:s", .int 100), ("@guest:s", .int 50)] 0)) =
        .ok newLevel ∧ newLevel ≤ 100 := by
  have hsender : getUserPowerLevel "@owner:s" (exampleGoverned [("@owner:s", .int 100)] 0) =
      .ok 100 := by decide +kernel
  have hguest : getUserPowerLevel "@guest:s" (exampleGoverned [("@owner:s", .int 100)] 0) =
      .ok 0 := by decide +kernel
  have haccepted : checkPowerLevels exampleOutside RoomVersions.v11
      (exampleLevels "@owner:s" [("@owner:s", .int 100), ("@guest:s", .int 50)] 0)
      (exampleGoverned [("@owner:s", .int 100)] 0) = .ok () := by decide +kernel
  obtain ⟨newLevel, hnew, hbound, -⟩ :=
    levels_of_checkPowerLevels rfl rfl hsender haccepted hguest
  refine ⟨newLevel, hnew, hbound.resolve_right fun hdefault => hdefault.1 ?_⟩
  decide +kernel

/-- **Levels that come from the default.** A moderator who drops its own entry gets the higher default;
and a user at the level of the default lowers it for the others at that level. -/
theorem default_not_compared : (checkPowerLevels exampleOutside RoomVersions.v11 (exampleLevels "@guest:s" [] 100)
        (exampleGoverned [("@guest:s", .int 50)] 100) = .ok () ∧
      getUserPowerLevel "@guest:s" (exampleGoverned [("@guest:s", .int 50)] 100) = .ok 50 ∧
      getUserPowerLevel "@guest:s" ((exampleGoverned [("@guest:s", .int 50)] 100).set powerLevelsKey
        (exampleLevels "@guest:s" [] 100)) = .ok 100) ∧
    checkPowerLevels exampleOutside RoomVersions.v11 (exampleLevels "@guest:s" [] 0)
        (exampleGoverned [] 50) = .ok () ∧
      getUserPowerLevel "@guest:s" (exampleGoverned [] 50) = .ok 50 ∧
      getUserPowerLevel "@other:s" (exampleGoverned [] 50) = .ok 50 ∧
      getUserPowerLevel "@other:s" ((exampleGoverned [] 50).set powerLevelsKey
        (exampleLevels "@guest:s" [] 0)) = .ok 0 := by
  decide +kernel

end Setka.EventAuth
