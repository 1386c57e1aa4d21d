/-
# Setka.Handlers.BotCreation — bots that are half created.

`create_bot` registers a user, and then inserts the bot in a transaction of its own. What fails behind the first
transaction leaves the user, whose name is then taken. A step below fails as a whole: what was written in it is rolled
back. Left out are the rows of a new user that nothing here reads: when it expires, its statistics, its place in the
user directory and the rooms it joins.
-/
import Setka.Api.Errors
import Setka.Lib.Action
import Setka.Lib.Dict
import Setka.Lib.PyStr
import Setka.Types.Localpart

namespace Setka.Handlers.BotCreation

open Setka.Api Setka.Lib Setka.Types Setka.Lib.Action

/-! ## §1 The tables -/

/-- A row of `users`, by its name. -/
structure UserRow where
  passwordHash : Option String
  creationTs : ℤ
  isGuest : Bool
  admin : Bool
  userType : String
  shadowBanned : Bool
  approved : Bool

/-- A row of `setka_bots`, by its `bot_id`. -/
structure BotRow where
  ownerUserId : String
  botUserId : String
  username : String
  displayName : String
  tokenHash : String
  webhookUrl : Option String
  isActive : Bool
  createdAt : ℤ
  updatedAt : ℤ

/-- The tables and what the handler remembers. Display names are kept by localpart. -/
structure BotStore where
  users : Dict String UserRow
  profiles : Dict String String
  bots : Dict String BotRow
  updateOffsets : Dict String ℤ
  tablesReady : Bool
  botUserIds : List String

inductive RegistrationBehaviour
  | allow | shadowBan | deny
  deriving DecidableEq

/-- The server. `isExclusiveUser` asks the application services, and `checkRegistrationForSpam` the modules. -/
structure Config where
  hostname : String
  serverNoticesMxid : Option String
  allowUnderscorePrefixedLocalpart : Bool
  userConsentAtRegistration : Bool
  isExclusiveUser : String → Bool
  checkRegistrationForSpam : String → RegistrationBehaviour
  unicode : PyStr.Unicode
  hashToken : String → String

/-- What the call draws: the time of the registration, in seconds, the token, the `uuid4` and the time of the bot. -/
structure Draw where
  time : ℤ
  token : String
  botId : String
  now : ℤ

/-- What may fail on its own. -/
inductive Step
  | createTables | readBots | exists? | checkSpam | readUsers
  | registerUser | onUserRegistration | getProfileinfo | profileChange | autoJoin | insert | refresh
  deriving DecidableEq

/-! ## §2 Creating a bot -/

variable (cfg : Config) (fails : Step → Bool)

def require (p : Prop) [Decidable p] (e : Error) : Except Error Unit := if p then .ok () else .error e

/-- The step does not fail. -/
def goes (step : Step) : Except Error Unit := require (fails step = false) .exception

/-- `_refresh_bot_user_cache`. -/
def refreshBotUserCache (step : Step) : Action BotStore Error Unit := do
  .lift (goes fails step)
  .modify fun s => { s with botUserIds := (s.bots.values.filter fun bot => bot.isActive).map BotRow.botUserId }

/-- `_ensure_tables`. -/
def ensureTables : Action BotStore Error Unit := do
  let ready ← .reads fun s => .ok s.tablesReady
  if ready then pure ()
  else do
    .lift (goes fails .createTables)
    refreshBotUserCache fails .readBots
    .modify fun s => { s with tablesReady := true }

/-- `BOT_USERNAME_RE.match`. A `$` also matches in front of a newline at the end. -/
def matchesBotUsername (username : String) : Bool :=
  let alnum := fun c => c ∈ Localpart.asciiLowercase ++ Localpart.digits
  let s := if username.toList.getLast? = some '\n' then username.toList.dropLast else username.toList
  3 ≤ s.length && s.length ≤ 32 && s.all (fun c => alnum c || c == '_') && s.head?.any alnum && s.getLast?.any alnum

/-- `username.strip().lower()`. -/
def cleanUsername (username : String) : String := cfg.unicode.lower (PyStr.strip username)

/-- `_bot_localpart`. -/
def botLocalpart (username : String) : String :=
  let base := cfg.unicode.lower username
  (if "_bot".toList.isSuffixOf base.toList then PyStr.take (base.toList.length - 4) base else base) ++ "_bot"

def userIdOf (localpart : String) : String := "@" ++ localpart ++ ":" ++ cfg.hostname

def botUserIdOf (username : String) : String := userIdOf cfg (botLocalpart cfg username)

/-- `display_name.strip() or username`. -/
def shownName (username displayName : String) : String :=
  if PyStr.strip displayName = "" then username else PyStr.strip displayName

/-- The checks of `create_bot`. -/
def checkBotUsername (username : String) (s : BotStore) : Except Error Unit := do
  require (matchesBotUsername username = true)
    (.synapseError 400 "username must be 3-32 chars: a-z, 0-9, underscore" "M_INVALID_PARAM")
  goes fails .exists?
  require ((∀ bot ∈ s.bots.values, bot.username ≠ username) ∧ botUserIdOf cfg username ∉ s.users.keys)
    (.synapseError 409 "Bot username already taken" "M_USER_IN_USE")

/-- `check_username`, for a user that is not a guest. Of the digits of any script those of ASCII are left. -/
def checkUsername (localpart : String) (s : BotStore) : Except Error Unit := do
  require (Localpart.containsInvalidMxidCharacters localpart = false)
    (.synapseError 400 "User ID can only contain characters a-z, 0-9, or '=_-./+'" "M_INVALID_USERNAME")
  require (localpart ≠ "") (.synapseError 400 "User ID cannot be empty" "M_INVALID_USERNAME")
  require (localpart.toList.head? = some '_' → cfg.allowUnderscorePrefixedLocalpart = true)
    (.synapseError 400 "User ID may not begin with _" "M_INVALID_USERNAME")
  require (cfg.serverNoticesMxid ≠ some (userIdOf cfg localpart))
    (.synapseError 400 "This user ID is reserved." "M_EXCLUSIVE")
  require (cfg.isExclusiveUser (userIdOf cfg localpart) = false)
    (.synapseError 400 "This user ID is reserved by an application service." "M_EXCLUSIVE")
  require ((userIdOf cfg localpart).toList.length ≤ 255)
    (.synapseError 400 "User ID may not be longer than 255 characters" "M_INVALID_USERNAME")
  goes fails .readUsers
  require (∀ name ∈ s.users.keys, PyStr.lower name ≠ PyStr.lower (userIdOf cfg localpart))
    (.synapseError 400 "User ID already taken." "M_USER_IN_USE")
  require ((localpart.toList.all fun c => c ∈ Localpart.digits) = false)
    (.synapseError 400 "Numeric user IDs are reserved for guest users." "M_INVALID_USERNAME")

/-- What `register_user` checks before it writes; whether the user is shadow-banned. -/
def checkRegistration (localpart : String) (s : BotStore) : Except Error Bool := do
  goes fails .checkSpam
  require (cfg.checkRegistrationForSpam localpart ≠ .deny) (.synapseError 429 "Rate limited" "M_UNKNOWN")
  checkUsername cfg fails localpart s
  pure (cfg.checkRegistrationForSpam localpart = .shadowBan)

/-- What lets the transaction of `register_user` in the store through. -/
def checkStored (userId localpart displayName : String) (s : BotStore) : Except Error Unit := do
  goes fails .registerUser
  require (userId ∉ s.users.keys) (.synapseError 400 "User ID already taken." "M_USER_IN_USE")
  require (displayName ≠ "" → localpart ∉ s.profiles.keys) .integrityError

/-- The rows it inserts. The localpart of the user id is the one that it was made of. -/
def storeUser (userId localpart displayName : String) (row : UserRow) (s : BotStore) : BotStore :=
  { s with
    users := s.users.set userId row
    profiles := if displayName ≠ "" then s.profiles.set localpart displayName else s.profiles }

/-- What `register_user` does behind the transaction. -/
def afterRegistration : Action BotStore Error Unit := do
  .lift (goes fails .onUserRegistration)
  .lift (goes fails .getProfileinfo)
  .lift (goes fails .profileChange)
  if cfg.userConsentAtRegistration then pure () else .lift (goes fails .autoJoin)

/-- `register_user`, as `create_bot` calls it. -/
def registerUser (time : ℤ) (localpart displayName : String) : Action BotStore Error Unit := do
  let shadowBanned ← .reads (checkRegistration cfg fails localpart)
  .reads (checkStored fails (userIdOf cfg localpart) localpart displayName)
  .modify (storeUser (userIdOf cfg localpart) localpart displayName
    ⟨none, time, false, false, "bot", shadowBanned, true⟩)
  afterRegistration cfg fails

/-- The transaction that inserts the bot. -/
def insertBot (botId : String) (row : BotRow) : Action BotStore Error Unit := do
  .lift (goes fails .insert)
  .reads fun s => require ((botId ∉ s.bots.keys ∧ botId ∉ s.updateOffsets.keys) ∧
    ∀ bot ∈ s.bots.values, bot.botUserId ≠ row.botUserId ∧ bot.username ≠ row.username) .integrityError
  .modify fun s => { s with bots := s.bots.set botId row, updateOffsets := s.updateOffsets.set botId 1 }

/-- The answer of `create_bot`. -/
structure Created where
  botId : String
  botUserId : String
  username : String
  displayName : String
  token : String

/-- The bot, once its user is registered. -/
def addBot (draw : Draw) (ownerUserId username displayName : String) : Action BotStore Error Created := do
  insertBot fails draw.botId ⟨ownerUserId, botUserIdOf cfg username, username, displayName, cfg.hashToken draw.token,
    none, true, draw.now, draw.now⟩
  refreshBotUserCache fails .refresh
  pure ⟨draw.botId, botUserIdOf cfg username, username, displayName, draw.token⟩

def createBot (draw : Draw) (ownerUserId username displayName : String) : Action BotStore Error Created := do
  ensureTables fails
  let username := cleanUsername cfg username
  .reads (checkBotUsername cfg fails username)
  registerUser cfg fails draw.time (botLocalpart cfg username) (shownName username displayName)
  addBot cfg fails draw ownerUserId username (shownName username displayName)

/-! ## §3 All or nothing -/

/-- The tables are as they were. -/
structure Unchanged (s t : BotStore) : Prop where
  users : t.users = s.users
  profiles : t.profiles = s.profiles
  bots : t.bots = s.bots
  updateOffsets : t.updateOffsets = s.updateOffsets

/-- **All or nothing**: a call that raises leaves no account and no bot, and the next one goes through, if nothing fails. -/
def AllOrNothing (draw draw' : Draw) (ownerUserId username displayName : String) (s : BotStore) : Prop :=
  ∀ e t, (createBot cfg fails draw ownerUserId username displayName).run s = (.error e, t) → Unchanged s t ∧
      ∃ created, ((createBot cfg (fun _ => false) draw' ownerUserId username displayName).run t).1 = .ok created

/-- The `uuid4` is a new one. -/
def Unused (botId : String) (s : BotStore) : Prop := botId ∉ s.bots.keys ∧ botId ∉ s.updateOffsets.keys

/-- What `create_bot` and `register_user` ask of a request, by its cleaned username. -/
structure Acceptable (username : String) (s : BotStore) : Prop where
  wellFormed : matchesBotUsername username = true
  noBot : ∀ bot ∈ s.bots.values, bot.botUserId ≠ botUserIdOf cfg username ∧ bot.username ≠ username
  noUser : botUserIdOf cfg username ∉ s.users.keys
  noProfile : botLocalpart cfg username ∉ s.profiles.keys
  noSpam : cfg.checkRegistrationForSpam (botLocalpart cfg username) ≠ .deny
  localpart : checkUsername cfg (fun _ => false) (botLocalpart cfg username) s = .ok ()

/-- The steps up to the transaction that commits the user. -/
def earlySteps (s : BotStore) : List Step :=
  (if s.tablesReady then [] else [.createTables, .readBots]) ++ [.exists?, .checkSpam, .readUsers, .registerUser]

/-- The steps behind it. -/
def lateSteps : List Step :=
  [.onUserRegistration, .getProfileinfo, .profileChange] ++ (if cfg.userConsentAtRegistration then [] else [.autoJoin]) ++
    [.insert, .refresh]

/-- **The condition.** The request is one that is accepted, and if a step behind the registration fails, so did one
before. -/
def Harmless (username : String) (s : BotStore) : Prop :=
  Acceptable cfg (cleanUsername cfg username) s ∧
    ((∀ step ∈ earlySteps s, fails step = false) → ∀ step ∈ lateSteps cfg, fails step = false)

/-! ## §4 One call -/

variable {cfg fails} {e : Error} {s t : BotStore} {draw : Draw} {ownerUserId username displayName : String}

theorem Unchanged.refl (s : BotStore) : Unchanged s s := ⟨rfl, rfl, rfl, rfl⟩

theorem Unchanged.trans {u : BotStore} (h : Unchanged s t) (h' : Unchanged t u) : Unchanged s u :=
  ⟨h'.users.trans h.users, h'.profiles.trans h.profiles, h'.bots.trans h.bots, h'.updateOffsets.trans h.updateOffsets⟩

theorem Unchanged.acceptable (h : Unchanged s t) : Acceptable cfg username t ↔ Acceptable cfg username s := by
  obtain ⟨users, profiles, bots, updateOffsets, ready, botUserIds⟩ := t
  obtain ⟨rfl, rfl, rfl, rfl⟩ := h
  exact ⟨fun h => { h with }, fun h => { h with }⟩

section Require

variable {p : Prop} [Decidable p] {α : Type}

theorem require_eq_ok : require p e = .ok () ↔ p := by
  unfold require
  split <;> simp_all

theorem check_bind_eq_ok {x : Except Error Unit} {f : Unit → Except Error α} {a : α} :
    (x >>= f) = .ok a ↔ x = .ok () ∧ f () = .ok a :=
  except_bind_eq_ok.trans ⟨fun ⟨_, hx, hf⟩ => ⟨hx, hf⟩, fun ⟨hx, hf⟩ => ⟨(), hx, hf⟩⟩

theorem run_require_bind {f : Unit → Action BotStore Error α} :
    (Action.lift (require p e) >>= f).run s = if p then (f ()).run s else (.error e, s) := by
  unfold require
  split <;> rfl

theorem run_reads_bind {β : Type} {c : BotStore → Except Error β} {f : β → Action BotStore Error α} :
    (Action.reads c >>= f).run s = match c s with
      | .error e => (.error e, s)
      | .ok a => (f a).run s := by
  rw [run_bind, run_reads]
  cases c s <;> rfl

theorem run_reads_require_bind {p : BotStore → Prop} [∀ s, Decidable (p s)] {f : Unit → Action BotStore Error α} :
    ((Action.reads fun s => require (p s) e) >>= f).run s = if p s then (f ()).run s else (.error e, s) :=
  run_require_bind

theorem run_unless_bind {b : Bool} {f : Unit → Action BotStore Error α} :
    ((if b then pure () else Action.lift (require p e)) >>= f).run s =
      if b = true ∨ p then (f ()).run s else (.error e, s) := by
  cases b
  · rw [if_neg Bool.false_ne_true, run_require_bind]
    simp
  · rfl

theorem run_modify_bind {g : BotStore → BotStore} {f : Unit → Action BotStore Error α} :
    (Action.modify g >>= f).run s = (f ()).run (g s) := rfl

theorem returns_ite {r : Except Error α × BotStore} :
    (∃ a, (if p then r else (.error e, s)).1 = .ok a) ↔ p ∧ ∃ a, r.1 = .ok a := by
  split <;> simp_all

end Require

theorem checkUsername_eq_ok {localpart : String} : checkUsername cfg fails localpart s = .ok () ↔
    fails .readUsers = false ∧ checkUsername cfg (fun _ => false) localpart s = .ok () := by
  simp only [checkUsername, goes, check_bind_eq_ok, require_eq_ok]
  tauto

/-- What a call with this cleaned username comes to, given what may fail. -/
structure Spec (cfg : Config) (fails : Step → Bool) (username : String) (s : BotStore)
    (r : Except Error Created × BotStore) : Prop where
  returns : (∃ created, r.1 = .ok created) ↔ Acceptable cfg username s ∧
    (∀ step ∈ earlySteps s, fails step = false) ∧ ∀ step ∈ lateSteps cfg, fails step = false
  early : Acceptable cfg username s → (¬∀ step ∈ earlySteps s, fails step = false) → Unchanged s r.2
  late : Acceptable cfg username s → (∀ step ∈ earlySteps s, fails step = false) → botUserIdOf cfg username ∈ r.2.users.keys

theorem checkRegistration_eq_ok {localpart : String} {b : Bool} : checkRegistration cfg fails localpart s = .ok b ↔
    fails .checkSpam = false ∧ cfg.checkRegistrationForSpam localpart ≠ .deny ∧
      (fails .readUsers = false ∧ checkUsername cfg (fun _ => false) localpart s = .ok ()) ∧
        decide (cfg.checkRegistrationForSpam localpart = .shadowBan) = b := by
  simp only [checkRegistration, goes, check_bind_eq_ok, require_eq_ok]
  rw [checkUsername_eq_ok]
  simp only [pure, Except.pure, Except.ok.injEq]

/-- What has to hold for the user to be committed. -/
def admitted (cfg : Config) (fails : Step → Bool) (username shown : String) (s : BotStore) : Except Error Bool := do
  checkBotUsername cfg fails username s
  let shadowBanned ← checkRegistration cfg fails (botLocalpart cfg username) s
  checkStored fails (botUserIdOf cfg username) (botLocalpart cfg username) shown s
  pure shadowBanned

/-- The user is committed where the request is accepted and no early step fails; only the ids of other bots may then be
in the way. -/
theorem committed_iff {shown : String} (hready : s.tablesReady = true)
    (hshown : matchesBotUsername username = true → shown ≠ "") :
    ((∃ shadowBanned, admitted cfg fails username shown s = .ok shadowBanned) ∧
      ∀ bot ∈ s.bots.values, bot.botUserId ≠ botUserIdOf cfg username ∧ bot.username ≠ username) ↔
      Acceptable cfg username s ∧ ∀ step ∈ earlySteps s, fails step = false := by
  simp only [admitted, checkBotUsername, checkStored, goes, check_bind_eq_ok, require_eq_ok, earlySteps, hready, if_true]
  constructor
  · rintro ⟨⟨shadowBanned, ⟨hmatches, hexists, hfree, hnoUser⟩, h⟩, hbots⟩
    obtain ⟨_, hchecked, h⟩ := except_bind_eq_ok.mp h
    obtain ⟨hspam, hdeny, ⟨hread, hlocalpart⟩, -⟩ := checkRegistration_eq_ok.mp hchecked
    simp only [check_bind_eq_ok, require_eq_ok] at h
    obtain ⟨⟨hregister, -, hprofile⟩, -⟩ := h
    exact ⟨⟨hmatches, hbots, hnoUser, hprofile (hshown hmatches), hdeny, hlocalpart⟩, by simp [*]⟩
  rintro ⟨h, hsteps⟩
  simp only [List.nil_append, List.forall_mem_cons] at hsteps
  obtain ⟨hexists, hspam, hread, hregister, -⟩ := hsteps
  have hchecked := checkRegistration_eq_ok.mpr ⟨hspam, h.noSpam, ⟨hread, h.localpart⟩, rfl⟩
  refine ⟨⟨decide (cfg.checkRegistrationForSpam (botLocalpart cfg username) = .shadowBan), ⟨h.wellFormed, hexists,
    fun bot hbot => (h.noBot bot hbot).2, h.noUser⟩, except_bind_eq_ok.mpr ⟨_, hchecked, ?_⟩⟩, h.noBot⟩
  simp only [check_bind_eq_ok, require_eq_ok]
  exact ⟨⟨hregister, h.noUser, fun _ => h.noProfile⟩, rfl⟩

theorem returns_finish : (∃ created, ((afterRegistration cfg fails >>= fun _ =>
    addBot cfg fails draw ownerUserId username displayName).run s).1 = .ok created) ↔
      (∀ step ∈ lateSteps cfg, fails step = false) ∧ Unused draw.botId s ∧
        ∀ bot ∈ s.bots.values, bot.botUserId ≠ botUserIdOf cfg username ∧ bot.username ≠ username := by
  simp only [afterRegistration, addBot, insertBot, refreshBotUserCache, goes, bind_assoc, run_require_bind,
    run_reads_require_bind, run_unless_bind, run_modify_bind, returns_ite, lateSteps, Unused]
  constructor
  · rintro ⟨h1, h2, h3, h4, h5, ⟨hid, hbots⟩, h6, -⟩
    refine ⟨?_, hid, hbots⟩
    cases hconsent : cfg.userConsentAtRegistration <;> simp_all
  · rintro ⟨hsteps, hid, hbots⟩
    cases hconsent : cfg.userConsentAtRegistration <;> simp_all

theorem users_finish : ((afterRegistration cfg fails >>= fun _ =>
    addBot cfg fails draw ownerUserId username displayName).run s).2.users = s.users := by
  simp only [afterRegistration, addBot, insertBot, refreshBotUserCache, goes, bind_assoc, run_require_bind,
    run_reads_require_bind, run_unless_bind, run_modify_bind, run_pure, apply_ite Prod.snd,
    apply_ite BotStore.users, ite_self]

/-- A call with its tables ready. -/
theorem run_createBot (hready : s.tablesReady = true) :
    (createBot cfg fails draw ownerUserId username displayName).run s = let username := cleanUsername cfg username
      let shown := shownName username displayName
      match admitted cfg fails username shown s with
      | .error e => (.error e, s)
      | .ok shadowBanned => (afterRegistration cfg fails >>= fun _ => addBot cfg fails draw ownerUserId username shown).run
        (storeUser (botUserIdOf cfg username) (botLocalpart cfg username) shown
          ⟨none, draw.time, false, false, "bot", shadowBanned, true⟩ s) := by
  simp only [createBot, ensureTables, registerUser, admitted, bind_assoc, ← botUserIdOf.eq_1]
  generalize cleanUsername cfg username = username
  generalize shownName username displayName = shown
  rw [run_reads_bind]
  dsimp only
  rw [if_pos hready, pure_bind, run_reads_bind]
  cases checkBotUsername cfg fails username s with
  | error e => rfl
  | ok _ =>
    rw [run_reads_bind]
    cases checkRegistration cfg fails (botLocalpart cfg username) s with
    | error e => rfl
    | ok shadowBanned =>
      dsimp only
      rw [run_reads_bind]
      cases checkStored fails (botUserIdOf cfg username) (botLocalpart cfg username) shown s <;> rfl

/-- A call whose tables are ready meets its specification. -/
theorem spec_of_ready (hready : s.tablesReady = true) (hid : Unused draw.botId s) :
    Spec cfg fails (cleanUsername cfg username) s
      ((createBot cfg fails draw ownerUserId username displayName).run s) := by
  rw [run_createBot hready]
  dsimp only
  generalize cleanUsername cfg username = username
  have hshown : matchesBotUsername username = true → shownName username displayName ≠ "" := by
    intro hmatches
    unfold shownName
    split
    · rintro rfl
      exact absurd hmatches (by decide)
    · assumption
  have hcommitted := @committed_iff cfg fails s username _ hready hshown
  cases hrun : admitted cfg fails username (shownName username displayName) s with
  | error e =>
    have hnot : ¬(Acceptable cfg username s ∧ ∀ step ∈ earlySteps s, fails step = false) := fun h => by
      simpa [hrun] using hcommitted.mpr h
    exact ⟨by simp [← and_assoc, hnot], fun _ _ => .refl s, fun h hsteps => absurd ⟨h, hsteps⟩ hnot⟩
  | ok shadowBanned =>
    simp only [hrun, Except.ok.injEq, exists_eq', true_and] at hcommitted
    refine ⟨?_, fun h hsteps => absurd (hcommitted.mp h.noBot).2 hsteps, fun _ _ => ?_⟩
    · rw [returns_finish]
      exact ⟨fun h => ⟨(hcommitted.mp h.2.2).1, (hcommitted.mp h.2.2).2, h.1⟩,
        fun h => ⟨h.2.2, hid, hcommitted.mpr ⟨h.1, h.2.1⟩⟩⟩
    · rw [users_finish]
      exact Dict.mem_keys_set.mpr (Or.inl rfl)

/-- The tables are created first, unless a step fails. -/
theorem ready_cases (s : BotStore) :
    (∃ t, t.tablesReady = true ∧ Unchanged s t ∧ (createBot cfg fails draw ownerUserId username displayName).run s =
      (createBot cfg fails draw ownerUserId username displayName).run t ∧
        ((∀ step ∈ earlySteps s, fails step = false) ↔ ∀ step ∈ earlySteps t, fails step = false)) ∨
    (∃ e, (createBot cfg fails draw ownerUserId username displayName).run s = (.error e, s)) ∧
      ¬∀ step ∈ earlySteps s, fails step = false := by
  by_cases hready : s.tablesReady = true
  · exact Or.inl ⟨s, hready, .refl s, rfl, Iff.rfl⟩
  have hsteps : (∀ step ∈ earlySteps s, fails step = false) ↔ fails .createTables = false ∧ fails .readBots = false ∧
      ∀ step ∈ [Step.exists?, .checkSpam, .readUsers, .registerUser], fails step = false := by
    rw [earlySteps, if_neg hready]
    simp
  rw [hsteps]
  simp only [createBot, ensureTables, bind_assoc]
  rw [run_reads_bind]
  dsimp only
  rw [if_neg hready]
  simp only [refreshBotUserCache, goes, bind_assoc, run_require_bind, run_modify_bind]
  by_cases hcreate : fails .createTables = false
  · by_cases hread : fails .readBots = false
    · rw [if_pos hcreate, if_pos hread]
      refine Or.inl ⟨{ s with
        botUserIds := (s.bots.values.filter fun bot => bot.isActive).map BotRow.botUserId
        tablesReady := true }, rfl, ⟨rfl, rfl, rfl, rfl⟩, rfl, ?_⟩
      exact ⟨fun h => h.2.2, fun h => ⟨hcreate, hread, h⟩⟩
    · rw [if_pos hcreate, if_neg hread]
      exact Or.inr ⟨⟨_, rfl⟩, fun h => hread h.2.1⟩
  · rw [if_neg hcreate]
    exact Or.inr ⟨⟨_, rfl⟩, fun h => hcreate h.1⟩

theorem spec (hid : Unused draw.botId s) : Spec cfg fails (cleanUsername cfg username) s
    ((createBot cfg fails draw ownerUserId username displayName).run s) := by
  rcases @ready_cases cfg fails draw ownerUserId username displayName s with ⟨t, hready, hsame, hrun, hsteps⟩ |
    ⟨⟨e, hrun⟩, hsteps⟩
  · have hidT : Unused draw.botId t := by
      rw [Unused, hsame.bots, hsame.updateOffsets]
      exact hid
    obtain ⟨hreturns, hearly, hlate⟩ := @spec_of_ready cfg fails t draw ownerUserId username displayName hready hidT
    rw [hrun]
    rw [← hsteps, hsame.acceptable] at hreturns hearly hlate
    exact ⟨hreturns, fun h hnot => hsame.trans (hearly h hnot), hlate⟩
  · rw [hrun]
    exact ⟨by simp [hsteps], fun _ _ => .refl s, fun _ h => absurd h hsteps⟩

/-! ## §5 All or nothing -/

/-- **A call is all or nothing** where the request is accepted and no step behind the registration is the first to
fail. -/
theorem createBot_allOrNothing_iff {draw' : Draw} (hid : Unused draw.botId s) (hid' : Unused draw'.botId s) :
    AllOrNothing cfg fails draw draw' ownerUserId username displayName s ↔ Harmless cfg fails username s := by
  have hspec := @spec cfg fails s draw ownerUserId username displayName hid
  have hretry : ∀ t, Unchanged s t → ((∃ created,
      ((createBot cfg (fun _ => false) draw' ownerUserId username displayName).run t).1 = .ok created) ↔
        Acceptable cfg (cleanUsername cfg username) s) := by
    intro t hsame
    have hidT : Unused draw'.botId t := by
      rw [Unused, hsame.bots, hsame.updateOffsets]
      exact hid'
    rw [(@spec cfg (fun _ => false) t draw' ownerUserId username displayName hidT).returns, hsame.acceptable]
    exact ⟨fun h => h.1, fun h => ⟨h, fun _ _ => rfl, fun _ _ => rfl⟩⟩
  rcases hrun : (createBot cfg fails draw ownerUserId username displayName).run s with ⟨e | created, t⟩
  · rw [hrun] at hspec
    have hall : AllOrNothing cfg fails draw draw' ownerUserId username displayName s ↔
        Unchanged s t ∧ Acceptable cfg (cleanUsername cfg username) s := by
      constructor
      · intro h
        obtain ⟨hsame, hok⟩ := h e t hrun
        exact ⟨hsame, (hretry t hsame).mp hok⟩
      rintro ⟨hsame, hacceptable⟩ e' t' hrun'
      obtain ⟨-, rfl⟩ := Prod.mk.inj (hrun.symm.trans hrun')
      exact ⟨hsame, (hretry t hsame).mpr hacceptable⟩
    rw [hall]
    constructor
    · rintro ⟨hsame, hacceptable⟩
      -- the account is there once the early steps are through
      exact ⟨hacceptable, fun hearly => absurd (hsame.users ▸ hspec.late hacceptable hearly) hacceptable.noUser⟩
    rintro ⟨hacceptable, hlate⟩
    refine ⟨hspec.early hacceptable fun hearly => ?_, hacceptable⟩
    obtain ⟨created, hok⟩ := hspec.returns.mpr ⟨hacceptable, hearly, hlate hearly⟩
    cases hok
  · rw [hrun] at hspec
    obtain ⟨hacceptable, -, hlate⟩ := hspec.returns.mp ⟨created, rfl⟩
    refine iff_of_true (fun e t' hrun' => ?_) ⟨hacceptable, fun _ => hlate⟩
    cases hrun.symm.trans hrun'

/-- A server without modules and application services. -/
def exampleConfig : Config :=
  ⟨"a.example", none, false, false, fun _ => false, fun _ => .allow, .ascii, id⟩

def emptyStore : BotStore := ⟨∅, ∅, ∅, ∅, true, []⟩

theorem createBot_allOrNothing_iff_register : AllOrNothing exampleConfig (· = .registerUser) ⟨1, "t", "b1", 1000⟩
    ⟨2, "u", "b2", 2000⟩ "@o:a.example" "helper" "" emptyStore := by
  refine (createBot_allOrNothing_iff ⟨by decide, by decide⟩ ⟨by decide, by decide⟩).mpr ⟨⟨?_, ?_, ?_, ?_, ?_, ?_⟩, ?_⟩
  all_goals decide

/-- The insertion fails, and the name is taken from then on. -/
theorem user_left_behind : ¬AllOrNothing exampleConfig (· = .insert) ⟨1, "t", "b1", 1000⟩ ⟨2, "u", "b2", 2000⟩
    "@o:a.example" "helper" "" emptyStore := by
  intro h
  obtain ⟨created, hcreated⟩ := (h _ _ rfl).2
  cases hcreated

end Setka.Handlers.BotCreation
