/-
# Setka.Handlers.Bots — what a bot is told, and about which rooms.

Bots are told of messages by `_on_new_event`, and of pressed buttons by `submit_callback_query`. Both first
read what they check, then look the bot up, then enqueue an update, with an await between: a step below is
what runs between two awaits, and members come and go in other steps. Left out are the webhooks, the
background joins of invited bots, which enqueue nothing, and the numbers of the updates.
-/
import Setka.Handlers.Feed
import Setka.Lib.Transition

namespace Setka.Handlers.Bots

open Setka.Api Setka.Events Setka.Lib Setka.Handlers.Feed Dict

/-! ## §1 The handler -/

/-- A row of `setka_bots`, by its `bot_id`. -/
structure SetkaBot where
  botUserId : String
  isActive : Bool

/-- An event in the database. A soft-failed event is kept and shown to nobody. -/
structure RoomEvent where
  object : EventObject
  softFailed : Bool

/-- What is put into the queue of a bot. -/
inductive BotUpdate
  | callbackQuery (id userId chatId messageId data : String)
  | message (messageId chatId : String) (date : ℤ) (userId : String) (text : Option String) (msgtype : String)

def BotUpdate.chatId : BotUpdate → String
  | .callbackQuery _ _ chatId _ _ => chatId
  | .message _ chatId _ _ _ _ => chatId

def BotUpdate.messageId : BotUpdate → String
  | .callbackQuery _ _ _ messageId _ => messageId
  | .message messageId _ _ _ _ _ => messageId

/-- A call that has read the members of the room: the bots that are still to be looked up, and the one
that was found and is to get the update next. -/
structure BotJob where
  update : BotUpdate
  fromQuery : Bool
  bots : List String
  found : Option String

/-- The tables and caches that the handler reads, the calls that run, the updates enqueued and the client
requests answered, with an error or without. -/
structure BotWorld where
  tablesReady : Bool
  botUserIds : List String
  bots : Dict String SetkaBot
  events : Dict String RoomEvent
  users : Dict String (List String)
  jobs : Dict ℕ BotJob
  nextJob : ℕ
  updates : List (String × BotUpdate)
  answers : List (ℕ × Option Error)

namespace BotWorld

/-- `_refresh_bot_user_cache`. -/
def refreshBotUserCache (w : BotWorld) : BotWorld :=
  { w with
    botUserIds := (w.bots.values.filter fun bot => bot.isActive).map SetkaBot.botUserId }

/-- `_ensure_tables`. -/
def ensureTables (w : BotWorld) : BotWorld :=
  if w.tablesReady then w else { w.refreshBotUserCache with tablesReady := true }

/-- `store.get_event`: no rejected ones. -/
def getEvent (w : BotWorld) (eventId : String) : Except Error RoomEvent :=
  match w.events.get? eventId with
  | none => .error (.synapseError 404 ("Could not find event " ++ eventId) "M_NOT_FOUND")
  | some e =>
    if e.object.event.rejected then
      .error (.synapseError 404 ("Could not find event " ++ eventId) "M_NOT_FOUND")
    else .ok e

/-- `store.get_users_in_room`. -/
def getUsersInRoom (w : BotWorld) (roomId : String) : List String := w.users.getD roomId []

/-- `_bot_id_for_user`. -/
def botIdForUser (w : BotWorld) (botUserId : String) : Option String :=
  (w.bots.items.find? fun row => row.2.botUserId = botUserId && row.2.isActive).map Prod.fst

/-- A call goes on with a job of its own. -/
def addJob (w : BotWorld) (job : BotJob) : BotWorld :=
  { w with
    jobs := w.jobs.set w.nextJob job
    nextJob := w.nextJob + 1 }

/-- `submit_callback_query`, as far as the check of the user. `id` is the `uuid4`. -/
def submitCallbackQuery (w : BotWorld) (userId botUserId eventId callbackData id : String) :
    Except Error BotWorld :=
  let w := w.ensureTables
  match w.getEvent eventId with
  | .error e => .error e
  | .ok event =>
    if userId ∈ w.getUsersInRoom event.object.event.roomId then
      .ok (w.addJob ⟨.callbackQuery id userId event.object.event.roomId eventId callbackData, true,
        [botUserId], none⟩)
    else .error (.synapseError 403 "Not in room" "M_FORBIDDEN")

/-- `update_message`. -/
def updateMessage (str : Str) (event : EventBase) (content : List (String × Json)) : BotUpdate :=
  let msgtype := strOr str "m.text" (Json.member? content "msgtype")
  let body := strOr str "" (Json.member? content "body")
  .message event.eventId event.roomId event.originServerTs event.sender
    (if msgtype = "m.text" then some body else none) msgtype

/-- What `_on_new_event` is about to tell the bots in the room, if anything. -/
def messageJob (str : Str) (w : BotWorld) (e : RoomEvent) : Option BotJob :=
  let event := e.object.event
  if event.type ≠ "m.room.message" then none
  else if event.sender ∈ w.botUserIds then none
  -- `event.content or {}`: an empty mapping is replaced by a `dict`
  else if e.object.frozen && !event.content.isEmpty then none
  else
    let botIdsInRoom := (w.getUsersInRoom event.roomId).filter fun u => u ∈ w.botUserIds
    if botIdsInRoom.isEmpty then none
    else some ⟨updateMessage str event event.content, false, botIdsInRoom, none⟩

/-- The cache as `_on_new_event` has it when it reads the event. -/
def readyForEvent (w : BotWorld) : BotWorld :=
  let w := w.ensureTables
  if w.botUserIds.isEmpty then w.refreshBotUserCache else w

/-- `_on_new_event`, as far as the members of the room. An event that is not found is an error of the
caller. -/
def onNewEvent (str : Str) (w : BotWorld) (eventId : String) : BotWorld :=
  match w.getEvent eventId with
  | .error _ => w
  | .ok e =>
    match messageJob str w.readyForEvent e with
    | none => w.readyForEvent
    | some job => w.readyForEvent.addJob job

/-- A call looks the next bot up. A query for a bot that is not found raises, a message skips it. -/
def lookUp (w : BotWorld) (j : ℕ) : Option BotWorld :=
  match w.jobs.get? j with
  | some ⟨update, fromQuery, botUserId :: rest, none⟩ =>
    match w.botIdForUser botUserId with
    | some botId => some { w with jobs := w.jobs.set j ⟨update, fromQuery, rest, some botId⟩ }
    | none =>
      if fromQuery then
        some { w with
          jobs := w.jobs.erase j
          answers := w.answers ++ [(j, some (.synapseError 404 "Bot not found" "M_NOT_FOUND"))] }
      else some { w with jobs := w.jobs.set j ⟨update, fromQuery, rest, none⟩ }
  | _ => none

/-- A call enqueues the update for the bot that it found. -/
def enqueueUpdate (w : BotWorld) (j : ℕ) : Option BotWorld :=
  match w.jobs.get? j with
  | some ⟨update, fromQuery, rest, some botId⟩ =>
    some { w with
      jobs := w.jobs.set j ⟨update, fromQuery, rest, none⟩
      updates := w.updates ++ [(botId, update)]
      answers := if fromQuery then w.answers ++ [(j, none)] else w.answers }
  | _ => none

/-- `create_bot`, as far as the table: keys and users are unique. -/
def createBot (w : BotWorld) (botId botUserId : String) : Option BotWorld :=
  if botId ∈ w.bots.keys ∨ (w.bots.values.any fun bot => bot.botUserId = botUserId) then none
  else some (refreshBotUserCache { w with bots := w.bots.set botId ⟨botUserId, true⟩ })

/-- `delete_bot`. -/
def deleteBot (w : BotWorld) (botId : String) : Option BotWorld :=
  match w.bots.get? botId with
  | none => none
  | some bot =>
    some (refreshBotUserCache { w with bots := w.bots.set botId { bot with isActive := false } })

/-- What a client, a room or a running call does. -/
inductive Action
  | callbackQuery (userId botUserId eventId callbackData id : String)
  | persist (e : RoomEvent)
  | newEvent (eventId : String)
  | members (roomId : String) (users : List String)
  | lookUp (j : ℕ)
  | enqueue (j : ℕ)
  | createBot (botId botUserId : String)
  | deleteBot (botId : String)

/-- One step. -/
def step (str : Str) (w : BotWorld) : Action → Option BotWorld
  | .callbackQuery userId botUserId eventId callbackData id =>
    match w.submitCallbackQuery userId botUserId eventId callbackData id with
    | .ok w' => some w'
    | .error e =>
      some { w.ensureTables with
        nextJob := w.nextJob + 1
        answers := w.answers ++ [(w.nextJob, some e)] }
  | .persist e =>
    if e.object.event.eventId ∈ w.events.keys then none
    else some { w with events := w.events.set e.object.event.eventId e }
  | .newEvent eventId => some (w.onNewEvent str eventId)
  | .members roomId users => some { w with users := w.users.set roomId users }
  | .lookUp j => w.lookUp j
  | .enqueue j => w.enqueueUpdate j
  | .createBot botId botUserId => w.createBot botId botUserId
  | .deleteBot botId => w.deleteBot botId

/-- A run from tables without a running call. -/
def run (str : Str) (w : BotWorld) (actions : List Action) : Option BotWorld :=
  actions.foldlM (step str) w

/-! ## §2 What a bot may hear -/

/-- The bot is in the room. -/
def BotJoined (w : BotWorld) (botId roomId : String) : Prop :=
  ∃ bot, w.bots.get? botId = some bot ∧ bot.botUserId ∈ w.getUsersInRoom roomId

/-- A message of the room, accepted and shown there. -/
def RoomMessage (w : BotWorld) (roomId eventId : String) : Prop :=
  ∃ e, w.events.get? eventId = some e ∧ e.object.event.roomId = roomId ∧
    e.object.event.type = "m.room.message" ∧ e.object.event.rejected = false ∧ e.softFailed = false

/-- What an update may be about at the moment it is enqueued. -/
def MayHear (w : BotWorld) (botId : String) (update : BotUpdate) : Prop :=
  w.BotJoined botId update.chatId ∧ w.RoomMessage update.chatId update.messageId

/-- The updates that a step enqueues. -/
def newUpdates (w w' : BotWorld) : List (String × BotUpdate) := w'.updates.drop w.updates.length

/-- The users whose membership a call relies on: those that it read in the room, and the bot found. -/
def reliesOn (w : BotWorld) (job : BotJob) : List String :=
  (if job.fromQuery then [] else job.bots) ++ ((job.found.bind w.bots.get?).map SetkaBot.botUserId).toList

/-- **The condition.** When a query has found its bot, the bot is in the room of the event, and the event
is a message of the room; a message that bots are told of is not soft-failed; and nobody whom a call is
about to tell leaves the room before. -/
def Allowed (str : Str) (w : BotWorld) : Action → Prop
  | .lookUp j => ∀ job botUserId rest, w.jobs.get? j = some job → job.fromQuery = true →
      job.bots = botUserId :: rest → (w.botIdForUser botUserId).isSome = true →
        botUserId ∈ w.getUsersInRoom job.update.chatId ∧
          w.RoomMessage job.update.chatId job.update.messageId
  | .newEvent eventId => ∀ e job, w.getEvent eventId = .ok e →
      messageJob str w.readyForEvent e = some job → e.softFailed = false
  | .members roomId users => ∀ j job, w.jobs.get? j = some job → job.update.chatId = roomId →
      ∀ u ∈ w.reliesOn job, u ∈ w.getUsersInRoom roomId → u ∈ users
  | _ => True

/-! ## §3 The invariant -/

/-- What a running call relies on is so: the bot that it found is in the room, and so are those that it
read there; and what it tells is a message of the room, once it has found a bot to tell. -/
structure JobOk (w : BotWorld) (job : BotJob) : Prop where
  found : ∀ botId, job.found = some botId → w.BotJoined botId job.update.chatId
  read : job.fromQuery = false → ∀ u ∈ job.bots, u ∈ w.getUsersInRoom job.update.chatId
  message : job.fromQuery = false ∨ job.found.isSome = true → w.RoomMessage job.update.chatId job.update.messageId

structure Inv (w : BotWorld) : Prop where
  jobs : ∀ j job, w.jobs.get? j = some job → w.JobOk job
  keyed : ∀ eventId e, w.events.get? eventId = some e → e.object.event.eventId = eventId

/-- Bots and events stay: what was known of the room is known in a later world. -/
structure Later (w w' : BotWorld) : Prop where
  bots : ∀ botId bot, w.bots.get? botId = some bot →
    ∃ bot', w'.bots.get? botId = some bot' ∧ bot'.botUserId = bot.botUserId
  events : ∀ eventId e, w.events.get? eventId = some e → w'.events.get? eventId = some e

variable {w w' : BotWorld} {eventId : String}

theorem Later.roomMessage (h : Later w w') {roomId : String}
    (hm : w.RoomMessage roomId eventId) : w'.RoomMessage roomId eventId := by
  obtain ⟨e, he, hrest⟩ := hm
  exact ⟨e, h.events eventId e he, hrest⟩

variable {botId : String}

theorem Later.botJoined (h : Later w w') {roomId : String} (hb : w.BotJoined botId roomId)
    (husers : ∀ bot, w.bots.get? botId = some bot → bot.botUserId ∈ w.getUsersInRoom roomId →
      bot.botUserId ∈ w'.getUsersInRoom roomId) : w'.BotJoined botId roomId := by
  obtain ⟨bot, hbot, hjoined⟩ := hb
  obtain ⟨bot', hbot', hsame⟩ := h.bots botId bot hbot
  exact ⟨bot', hbot', hsame ▸ husers bot hbot hjoined⟩

variable {job : BotJob}

/-- A call stays as it was when those that it relies on stay in the room. -/
theorem JobOk.later (hok : w.JobOk job) (h : Later w w')
    (husers : ∀ u ∈ w.reliesOn job, u ∈ w.getUsersInRoom job.update.chatId →
      u ∈ w'.getUsersInRoom job.update.chatId) : w'.JobOk job := by
  refine ⟨?_, ?_, ?_⟩
  · intro botId hfound
    refine h.botJoined (hok.found botId hfound) ?_
    intro bot hbot hjoined
    refine husers bot.botUserId ?_ hjoined
    simp [reliesOn, hfound, hbot]
  · intro hquery u hu
    refine husers u ?_ (hok.read hquery u hu)
    simp [reliesOn, hquery, hu]
  · intro hmessage
    exact h.roomMessage (hok.message hmessage)

/-- A step that adds no call and changes no room. -/
theorem Inv.later (hi : w.Inv) (h : Later w w') (husers : w'.users = w.users)
    (hjobs : ∀ j job, w'.jobs.get? j = some job → w.jobs.get? j = some job)
    (hkeyed : ∀ eventId e, w'.events.get? eventId = some e → e.object.event.eventId = eventId) : w'.Inv := by
  refine ⟨?_, hkeyed⟩
  intro j job hj
  refine (hi.jobs j job (hjobs j job hj)).later h ?_
  intro u _ hu
  rw [getUsersInRoom, husers]
  exact hu

/-- One call is changed, or begins. -/
theorem Inv.setJob (hi : w.Inv) (hok : w.JobOk job) (j n : ℕ) (updates : List (String × BotUpdate))
    (answers : List (ℕ × Option Error)) : Inv { w with
      jobs := w.jobs.set j job
      nextJob := n
      updates := updates
      answers := answers } := by
  refine ⟨?_, hi.keyed⟩
  intro x job' hx
  have hok' : w.JobOk job' := by
    have hset : (w.jobs.set j job).get? x = some job' := hx
    rcases of_get?_set hset with ⟨-, rfl⟩ | ⟨-, hset⟩
    · exact hok
    · exact hi.jobs x job' hset
  exact ⟨hok'.found, hok'.read, hok'.message⟩

/-! ### The caches -/

theorem Inv.ensureTables (hi : w.Inv) : w.ensureTables.Inv := by
  unfold BotWorld.ensureTables
  split
  · exact hi
  · exact hi.later ⟨fun _ bot h => ⟨bot, h, rfl⟩, fun _ _ h => h⟩ rfl (fun _ _ h => h) hi.keyed

theorem Inv.readyForEvent (hi : w.Inv) : w.readyForEvent.Inv := by
  have hready := hi.ensureTables
  simp only [BotWorld.readyForEvent]
  split
  · exact hready.later ⟨fun _ bot h => ⟨bot, h, rfl⟩, fun _ _ h => h⟩ rfl (fun _ _ h => h) hready.keyed
  · exact hready

theorem ensureTables_eq (w : BotWorld) : w.ensureTables.events = w.events ∧ w.ensureTables.users = w.users ∧
      w.ensureTables.updates = w.updates := by
  unfold BotWorld.ensureTables
  split
  · exact ⟨rfl, rfl, rfl⟩
  · exact ⟨rfl, rfl, rfl⟩

theorem readyForEvent_eq (w : BotWorld) : w.readyForEvent.events = w.events ∧ w.readyForEvent.users = w.users ∧
      w.readyForEvent.updates = w.updates := by
  obtain ⟨hevents, husers, hupdates⟩ := ensureTables_eq w
  simp only [BotWorld.readyForEvent]
  split
  · exact ⟨hevents, husers, hupdates⟩
  · exact ⟨hevents, husers, hupdates⟩

/-! ## §4 Steps -/

theorem getEvent_eq_ok {e : RoomEvent} (h : w.getEvent eventId = .ok e) :
    w.events.get? eventId = some e ∧ e.object.event.rejected = false := by
  unfold getEvent at h
  split at h
  · cases h
  next e' he =>
    split at h
    · cases h
    next hrejected =>
      cases h
      exact ⟨he, by simpa using hrejected⟩

/-- The bot that is looked up is the one with this user. -/
theorem botIdForUser_eq_some {botUserId : String} (h : w.botIdForUser botUserId = some botId) :
    ∃ bot, w.bots.get? botId = some bot ∧ bot.botUserId = botUserId := by
  obtain ⟨⟨id, bot⟩, hrow, rfl⟩ := Option.map_eq_some_iff.mp h
  have hsome := List.find?_some hrow
  simp only [Bool.and_eq_true, decide_eq_true_eq] at hsome
  exact ⟨bot, get?_eq_some_iff.mpr (List.mem_of_find?_eq_some hrow), hsome.1⟩

variable {str : Str}

/-- What bots are told of is a message of their room. -/
theorem jobOk_messageJob {e : RoomEvent} (he : w.events.get? eventId = some e)
    (hid : e.object.event.eventId = eventId) (hrejected : e.object.event.rejected = false)
    (hsoft : e.softFailed = false) (hjob : messageJob str w e = some job) : w.JobOk job := by
  simp only [messageJob] at hjob
  split at hjob
  · cases hjob
  next htype =>
    split at hjob
    · cases hjob
    split at hjob
    · cases hjob
    split at hjob
    · cases hjob
    cases hjob
    refine ⟨?_, ?_, ?_⟩
    · intro botId hfound
      cases hfound
    · intro _ u hu
      exact (List.mem_filter.mp hu).1
    · intro _
      refine ⟨e, ?_, rfl, by simpa using htype, hrejected, hsoft⟩
      show w.events.get? e.object.event.eventId = some e
      rw [hid, he]

theorem Inv.onNewEvent (hi : w.Inv)
    (hallowed : w.Allowed str (.newEvent eventId)) : (w.onNewEvent str eventId).Inv := by
  unfold BotWorld.onNewEvent
  cases he : w.getEvent eventId with
  | error e => exact hi
  | ok e =>
    dsimp only
    obtain ⟨hget, hrejected⟩ := getEvent_eq_ok he
    obtain ⟨hevents, -, -⟩ := readyForEvent_eq w
    cases hjob : messageJob str w.readyForEvent e with
    | none => exact hi.readyForEvent
    | some job =>
      refine hi.readyForEvent.setJob ?_ _ _ _ _
      exact jobOk_messageJob (by rw [hevents, hget]) (hi.keyed eventId e hget) hrejected
        (hallowed e job he hjob) hjob

/-- A query that is let in relies on nothing yet. -/
theorem Inv.submitCallbackQuery (hi : w.Inv) {userId botUserId callbackData id : String}
    (h : w.submitCallbackQuery userId botUserId eventId callbackData id = .ok w') :
    w'.Inv ∧ w'.updates = w.updates := by
  simp only [BotWorld.submitCallbackQuery] at h
  split at h
  · cases h
  split at h
  · cases h
    refine ⟨hi.ensureTables.setJob ?_ _ _ _ _, (ensureTables_eq w).2.2⟩
    refine ⟨?_, ?_, ?_⟩
    · intro botId hfound
      cases hfound
    · intro hquery
      cases hquery
    · rintro (hquery | hfound)
      · cases hquery
      · cases hfound
  · cases h

/-- **The bot that a call finds is one that it may tell.** -/
theorem Inv.lookUp (hi : w.Inv) {j : ℕ} (hallowed : w.Allowed str (.lookUp j)) (h : w.lookUp j = some w') :
    w'.Inv ∧ w'.updates = w.updates := by
  unfold BotWorld.lookUp at h
  split at h
  · next update fromQuery botUserId rest hj =>
      have hok := hi.jobs j _ hj
      split at h
      · next botId hbot =>
          cases h
          obtain ⟨bot, hget, rfl⟩ := botIdForUser_eq_some hbot
          refine ⟨hi.setJob ⟨?_, ?_, ?_⟩ j w.nextJob w.updates w.answers, rfl⟩
          · intro id hfound
            cases hfound
            refine ⟨bot, hget, ?_⟩
            cases fromQuery with
            | true => exact (hallowed _ _ _ hj rfl rfl (by rw [hbot]; rfl)).1
            | false => exact hok.read rfl bot.botUserId List.mem_cons_self
          · intro hquery u hu
            exact hok.read hquery u (List.mem_cons_of_mem _ hu)
          · intro _
            cases fromQuery with
            | true => exact (hallowed _ _ _ hj rfl rfl (by rw [hbot]; rfl)).2
            | false => exact hok.message (Or.inl rfl)
      · split at h
        · cases h
          refine ⟨hi.later ⟨fun _ bot h => ⟨bot, h, rfl⟩, fun _ _ h => h⟩ rfl ?_ hi.keyed, rfl⟩
          intro x job hx
          have hx' : (w.jobs.erase j).get? x = some job := hx
          obtain ⟨-, hx'⟩ := of_get?_erase hx'
          exact hx'
        · next hquery =>
            cases h
            refine ⟨hi.setJob ⟨?_, ?_, ?_⟩ j w.nextJob w.updates w.answers, rfl⟩
            · intro id hfound
              cases hfound
            · intro _ u hu
              exact hok.read (by simpa using hquery) u (List.mem_cons_of_mem _ hu)
            · intro hmessage
              exact hok.message hmessage
  · cases h

/-- **What a call enqueues the bot may hear.** -/
theorem Inv.enqueueUpdate (hi : w.Inv) {j : ℕ} (h : w.enqueueUpdate j = some w') :
    w'.Inv ∧ ∃ item, w'.updates = w.updates ++ [item] ∧ w.MayHear item.1 item.2 := by
  unfold BotWorld.enqueueUpdate at h
  split at h
  · next update fromQuery rest botId hj =>
      have hok := hi.jobs j _ hj
      cases h
      have hok' : w.JobOk ⟨update, fromQuery, rest, none⟩ := by
        refine ⟨?_, hok.read, ?_⟩
        · intro id hfound
          cases hfound
        rintro (hquery | hfound)
        · exact hok.message (Or.inl hquery)
        · cases hfound
      exact ⟨hi.setJob hok' j w.nextJob _ _, (botId, update), rfl, hok.found botId rfl, hok.message (Or.inr rfl)⟩
  · cases h

theorem Inv.setBots (hi : w.Inv) {bot : SetkaBot}
    (hbot : ∀ old, w.bots.get? botId = some old → bot.botUserId = old.botUserId) :
    (refreshBotUserCache { w with bots := w.bots.set botId bot }).Inv := by
  refine hi.later ⟨?_, fun _ _ h => h⟩ rfl (fun _ _ h => h) hi.keyed
  intro id old hold
  show ∃ bot', (w.bots.set botId bot).get? id = some bot' ∧ _
  rw [get?_set]
  split
  · next heq => exact ⟨bot, rfl, hbot old (heq ▸ hold)⟩
  · exact ⟨old, hold, rfl⟩

theorem newUpdates_same (h : w'.updates = w.updates) : w.newUpdates w' = [] := by
  rw [newUpdates, h, List.drop_length]

/-- **A step that is allowed keeps the invariant, and what it enqueues the bot may hear.** -/
theorem Inv.step (hi : w.Inv) {a : Action} (hallowed : w.Allowed str a) (h : w.step str a = some w') :
    w'.Inv ∧ ∀ item ∈ w.newUpdates w', w.MayHear item.1 item.2 := by
  have hquiet : ∀ {v : BotWorld}, v.updates = w.updates → ∀ item ∈ w.newUpdates v, w.MayHear item.1 item.2 := by
    intro v hv item hitem
    rw [newUpdates_same hv] at hitem
    cases hitem
  cases a with
  | callbackQuery userId botUserId eventId callbackData id =>
    simp only [BotWorld.step] at h
    split at h
    · next w'' hw'' =>
        cases h
        obtain ⟨hinv, hupdates⟩ := hi.submitCallbackQuery hw''
        exact ⟨hinv, hquiet hupdates⟩
    · cases h
      refine ⟨?_, hquiet (ensureTables_eq w).2.2⟩
      exact hi.ensureTables.later ⟨fun _ bot h => ⟨bot, h, rfl⟩, fun _ _ h => h⟩ rfl
        (fun _ _ h => h) hi.ensureTables.keyed
  | persist e =>
    simp only [BotWorld.step] at h
    split at h
    · cases h
    next hnew =>
      cases h
      refine ⟨hi.later ⟨fun _ bot h => ⟨bot, h, rfl⟩, ?_⟩ rfl (fun _ _ h => h) ?_, hquiet rfl⟩
      · intro eventId old hold
        rw [get?_set, if_neg, hold]
        rintro rfl
        exact hnew (mem_keys_iff.mpr ⟨old, hold⟩)
      · intro eventId e' he'
        rcases of_get?_set he' with ⟨heq, rfl⟩ | ⟨-, he'⟩
        · exact heq.symm
        · exact hi.keyed eventId e' he'
  | newEvent eventId =>
    cases h
    refine ⟨hi.onNewEvent hallowed, hquiet ?_⟩
    unfold BotWorld.onNewEvent
    split
    · rfl
    split
    · exact (readyForEvent_eq w).2.2
    · exact (readyForEvent_eq w).2.2
  | members roomId users =>
    cases h
    refine ⟨⟨?_, hi.keyed⟩, hquiet rfl⟩
    intro j job hj
    refine (hi.jobs j job hj).later ⟨fun _ bot h => ⟨bot, h, rfl⟩, fun _ _ h => h⟩ ?_
    intro u hrelies hu
    by_cases hroom : job.update.chatId = roomId
    · have hstays := hallowed j job hj hroom u hrelies (hroom ▸ hu)
      simpa [getUsersInRoom, Dict.getD, hroom] using hstays
    · simpa [getUsersInRoom, Dict.getD, hroom] using hu
  | lookUp j =>
    obtain ⟨hinv, hupdates⟩ := hi.lookUp hallowed h
    exact ⟨hinv, hquiet hupdates⟩
  | enqueue j =>
    obtain ⟨hinv, item, hupdates, hmay⟩ := hi.enqueueUpdate h
    refine ⟨hinv, ?_⟩
    intro item' hitem
    rw [newUpdates, hupdates, List.drop_left, List.mem_singleton] at hitem
    rw [hitem]
    exact hmay
  | createBot botId botUserId =>
    simp only [BotWorld.step, BotWorld.createBot] at h
    split at h
    · cases h
    next hnew =>
      cases h
      refine ⟨hi.setBots ?_, hquiet rfl⟩
      intro old hold
      exact absurd (Or.inl (mem_keys_iff.mpr ⟨old, hold⟩)) hnew
  | deleteBot botId =>
    simp only [BotWorld.step, BotWorld.deleteBot] at h
    split at h
    · cases h
    next bot hbot =>
      cases h
      refine ⟨hi.setBots ?_, hquiet rfl⟩
      intro old hold
      rw [hbot] at hold
      cases hold
      rfl

/-! ## §5 Runs -/

/-- A world in which no call runs yet, and events are found under their ids. -/
structure Start (w : BotWorld) : Prop where
  jobs : w.jobs = .empty
  keyed : ∀ eventId e, w.events.get? eventId = some e → e.object.event.eventId = eventId

theorem Start.inv (h : w.Start) : w.Inv := by
  refine ⟨?_, h.keyed⟩
  intro j job hj
  rw [h.jobs] at hj
  cases hj

theorem run_concat {actions : List Action} {a : Action} : run str w (actions ++ [a]) = some w' ↔
      ∃ v, run str w actions = some v ∧ v.step str a = some w' :=
  foldlM_concat_eq_some_iff

/-- Every step of a run is allowed. -/
def AllAllowed (str : Str) (w : BotWorld) (actions : List Action) : Prop :=
  AllSteps (fun before a => ∀ v, run str w before = some v → v.Allowed str a) actions

/-- Every update that a run enqueues is one that the bot may hear at that moment. -/
def AllMayHear (str : Str) (w : BotWorld) (actions : List Action) : Prop :=
  AllSteps (fun before a => ∀ v v', run str w before = some v → v.step str a = some v' →
    ∀ item ∈ v.newUpdates v', v.MayHear item.1 item.2) actions

theorem run_inv (hstart : w.Start) {actions : List Action} (hallowed : AllAllowed str w actions)
    (h : run str w actions = some w') : w'.Inv := by
  induction actions using List.reverseRecOn generalizing w' with
  | nil =>
    cases h
    exact hstart.inv
  | append_singleton actions a ih =>
    obtain ⟨v, hv, hstep⟩ := run_concat.mp h
    obtain ⟨hactions, ha⟩ := allSteps_concat.mp hallowed
    exact ((ih hactions hv).step (ha v hv) hstep).1

/-- **Bots hear only of messages in rooms that they are in**, in every run of which each step is
allowed. -/
theorem allMayHear_of_allAllowed {str : Str} {w : BotWorld} (hstart : w.Start)
    {actions : List Action} (hallowed : AllAllowed str w actions) : AllMayHear str w actions := by
  induction actions using List.reverseRecOn with
  | nil => exact allSteps_nil _
  | append_singleton actions a ih =>
    obtain ⟨hactions, ha⟩ := allSteps_concat.mp hallowed
    refine allSteps_concat.mpr ⟨ih hactions, ?_⟩
    intro v v' hv hstep
    exact ((run_inv hstart hactions hv).step (ha v hv) hstep).2

/-! ### A room with two members and a bot that is elsewhere -/

/-- A message of `@alice:s` in her room. -/
def exampleMessage : RoomEvent where
  object := ⟨⟨"$m", "!room:s", RoomVersions.v10, "m.room.message", none, "@alice:s", 1,
    [("msgtype", .str "m.text"), ("body", .str "hello")], [], false, [], none⟩, false⟩
  softFailed := false

/-- A world with one bot, and `members` in the room of the message. -/
def exampleWorld (members : List String) : BotWorld where
  tablesReady := true
  botUserIds := ["@echo_bot:s"]
  bots := Dict.empty.set "b1" ⟨"@echo_bot:s", true⟩
  events := .empty
  users := Dict.empty.set "!room:s" members
  jobs := .empty
  nextJob := 0
  updates := []
  answers := []

theorem start_exampleWorld (members : List String) : (exampleWorld members).Start := by
  refine ⟨rfl, ?_⟩
  intro eventId e he
  cases he

/-- Alice writes, and the bot in the room is told. -/
theorem allMayHear_of_allAllowed_example : AllMayHear (fun _ => "") (exampleWorld ["@alice:s", "@echo_bot:s"])
      [.persist exampleMessage, .newEvent "$m", .lookUp 0, .enqueue 0] := by
  refine allMayHear_of_allAllowed (start_exampleWorld _) ?_
  refine allSteps_cons.mpr ⟨fun _ _ => trivial, allSteps_cons.mpr ⟨?_, allSteps_cons.mpr ⟨?_,
    allSteps_cons.mpr ⟨fun _ _ => trivial, allSteps_nil _⟩⟩⟩⟩
  · intro v hv e job he _
    have hevents : (run (fun _ => "") (exampleWorld ["@alice:s", "@echo_bot:s"])
        [.persist exampleMessage]).map (fun v => v.events.items) = some [("$m", exampleMessage)] := rfl
    rw [hv, Option.map_some, Option.some.injEq] at hevents
    have hmem := Dict.get?_eq_some_iff.mp (getEvent_eq_ok he).1
    rw [hevents, List.mem_singleton] at hmem
    cases hmem
    rfl
  intro v hv job botUserId rest hj hquery
  have hjobs : (run (fun _ => "") (exampleWorld ["@alice:s", "@echo_bot:s"])
      [.persist exampleMessage, .newEvent "$m"]).map
        (fun v => v.jobs.values.map BotJob.fromQuery) = some [false] := by
    decide +kernel
  rw [hv, Option.map_some, Option.some.injEq] at hjobs
  have hmem : job.fromQuery ∈ v.jobs.values.map BotJob.fromQuery :=
    List.mem_map_of_mem (Dict.mem_values_iff.mpr ⟨0, hj⟩)
  rw [hjobs, List.mem_singleton, hquery] at hmem
  cases hmem

/-- Alice sends a query about a message in a room where the bot is not, and the bot is told of it. -/
theorem bot_told_elsewhere : ¬ AllMayHear (fun _ => "") (exampleWorld ["@alice:s"])
      [.persist exampleMessage, .callbackQuery "@alice:s" "@echo_bot:s" "$m" "go" "q1", .lookUp 0, .enqueue 0] := by
  intro h
  have hrun : (run (fun _ => "") (exampleWorld ["@alice:s"])
      [.persist exampleMessage, .callbackQuery "@alice:s" "@echo_bot:s" "$m" "go" "q1",
        .lookUp 0]).map (fun v => ((v.step (fun _ => "") (.enqueue 0)).map fun v' =>
          (v.newUpdates v').map fun item => (item.1, item.2.chatId),
        (v.bots.get? "b1").map SetkaBot.botUserId, v.getUsersInRoom "!room:s")) =
      some (some [("b1", "!room:s")], some "@echo_bot:s", ["@alice:s"]) := by
    decide +kernel
  obtain ⟨v, hv, heq⟩ := Option.map_eq_some_iff.mp hrun
  obtain ⟨hupdates, hrest⟩ := Prod.mk.inj heq
  obtain ⟨hbot, husers⟩ := Prod.mk.inj hrest
  obtain ⟨v', hv', hnew⟩ := Option.map_eq_some_iff.mp hupdates
  obtain ⟨item, hitem, hpair⟩ := List.mem_map.mp
    (show ("b1", "!room:s") ∈ (v.newUpdates v').map fun item => (item.1, item.2.chatId) by
      rw [hnew]
      exact List.mem_singleton_self _)
  obtain ⟨⟨bot, hget, hjoined⟩, -⟩ :=
    h [.persist exampleMessage, .callbackQuery "@alice:s" "@echo_bot:s" "$m" "go" "q1", .lookUp 0]
      (.enqueue 0) [] rfl v v' hv hv' item hitem
  obtain ⟨hid, hchat⟩ := Prod.mk.inj hpair
  rw [hid] at hget
  rw [hget, Option.map_some, Option.some.injEq] at hbot
  rw [hchat, husers, hbot] at hjoined
  exact absurd hjoined (by decide)

end BotWorld

end Setka.Handlers.Bots
