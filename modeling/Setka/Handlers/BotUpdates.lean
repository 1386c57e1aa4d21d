/-
# Setka.Handlers.BotUpdates — the updates of the bots: how they are numbered, stored and polled.

A call of `_enqueue_update` reads the counter of its bot, inserts a row under that number and counts on, in
one transaction. Transactions run side by side under snapshot isolation: what one of them reads is the
state of the tables when it began, a row that another has inserted and not committed makes it wait, and a
row that is committed makes its insert fail. A step below is what one transaction, or one poll, does at a
time.
-/
import Setka.Lib.SortedDict
import Setka.Lib.Transition

namespace Setka.Handlers

open Setka.Lib Dict
open List (length_append reverseRecOn range' filter_append map_append)

/-! ## §1 Tables, transactions and polls -/

/-- `MAX_UPDATES_PER_POLL`. -/
def maxUpdatesPerPoll : ℤ := 100

variable {α : Type}

/-- A transaction of `_enqueue_update` that has read its `update_id`. `began` is how many transactions had
been committed then. -/
structure EnqueueTxn (α : Type) where
  bot : String
  update : α
  began : ℕ
  updateId : ℕ
  inserted : Bool

/-- A call of `_enqueue_update` that has ended: the number that it returned, or nothing where it raised. -/
structure EnqueueCall (α : Type) where
  bot : String
  update : α
  result : Option ℕ

/-- A reader of `get_updates`: the offset that it passes next, and what it has received. -/
structure UpdatesReader (α : Type) where
  offset : ℕ
  received : List (ℕ × α)

/-- The tables `setka_bot_update_offsets`, `setka_bot_updates` and the webhooks of `setka_bots`, the
transactions that run, a reader for each bot; and, in order, the calls that have ended, the bots of the
committed transactions and the webhook requests made. -/
structure BotUpdates (α : Type) where
  nextUpdateId : Dict String ℕ
  updates : Dict (String × ℕ) α
  webhookUrl : Dict String String
  transactions : Dict ℕ (EnqueueTxn α)
  nextTransaction : ℕ
  readers : Dict String (UpdatesReader α)
  calls : List (EnqueueCall α)
  commits : List String
  webhooks : List (String × ℕ × α)

namespace BotUpdates

/-- What `create_bot` leaves for some bots: the counter of each is 1. -/
def start (bots : List String) (webhookUrl : Dict String String) : BotUpdates α where
  nextUpdateId := .ofKeys bots fun _ => 1
  updates := .empty
  webhookUrl := webhookUrl
  transactions := .empty
  nextTransaction := 0
  readers := .empty
  calls := []
  commits := []
  webhooks := []

/-- The rows of a bot, in the order of their numbers. -/
def rows (s : BotUpdates α) (bot : String) : List (ℕ × α) := (s.updates.column bot).sortedItems

/-- `limit = min(max(limit, 1), MAX_UPDATES_PER_POLL)`. -/
def clampLimit (limit : ℤ) : ℕ := (min (max limit 1) maxUpdatesPerPoll).toNat

/-- `get_updates`, for the bot whose token it was given. -/
def getUpdates (s : BotUpdates α) (bot : String) (offset : ℤ) (limit : ℤ) : List (ℕ × α) :=
  ((s.rows bot).filter fun row => offset < row.1).take (clampLimit limit)

/-- The reader of a bot. It starts at offset 0. -/
def reader (s : BotUpdates α) (bot : String) : UpdatesReader α := s.readers.getD bot ⟨0, []⟩

/-- A poll: the highest number received is the next offset. -/
def poll (s : BotUpdates α) (bot : String) (limit : ℤ) : BotUpdates α :=
  let reader := s.reader bot
  let result := s.getUpdates bot reader.offset limit
  { s with
    readers := s.readers.set bot ⟨(result.map Prod.fst).foldl max reader.offset, reader.received ++ result⟩ }

/-- A transaction begins: `SELECT next_update_id`. Without a row the call returns 0. -/
def beginTxn (s : BotUpdates α) (bot : String) (update : α) : BotUpdates α :=
  match s.nextUpdateId.get? bot with
  | none => { s with calls := s.calls ++ [⟨bot, update, some 0⟩] }
  | some updateId =>
    { s with
      transactions := s.transactions.set s.nextTransaction ⟨bot, update, s.commits.length, updateId, false⟩
      nextTransaction := s.nextTransaction + 1 }

/-- Another transaction has inserted a row under the same key and not committed it. -/
def rowLocked (s : BotUpdates α) (bot : String) (updateId : ℕ) : Bool :=
  s.transactions.values.any fun t => t.inserted && t.bot = bot && t.updateId = updateId

/-- `INSERT INTO setka_bot_updates`. A committed row under the key is an `IntegrityError`, which ends the
call; a row that is not committed yet makes the insert wait. -/
def insert (s : BotUpdates α) (txn : ℕ) : Option (BotUpdates α) :=
  match s.transactions.get? txn with
  | none => none
  | some t =>
    if t.inserted then none
    else if (s.updates.get? (t.bot, t.updateId)).isSome then
      some { s with
        transactions := s.transactions.erase txn
        calls := s.calls ++ [⟨t.bot, t.update, none⟩] }
    else if s.rowLocked t.bot t.updateId then none
    else some { s with transactions := s.transactions.set txn { t with inserted := true } }

/-- `UPDATE setka_bot_update_offsets`, `SELECT webhook_url` and the commit, and then the webhook. -/
def commit (s : BotUpdates α) (txn : ℕ) : Option (BotUpdates α) :=
  match s.transactions.get? txn with
  | none => none
  | some t =>
    if t.inserted then
      some { s with
        nextUpdateId := s.nextUpdateId.set t.bot (t.updateId + 1)
        updates := s.updates.set (t.bot, t.updateId) t.update
        transactions := s.transactions.erase txn
        calls := s.calls ++ [⟨t.bot, t.update, some t.updateId⟩]
        commits := s.commits ++ [t.bot]
        webhooks :=
          match s.webhookUrl.get? t.bot with
          | none => s.webhooks
          | some url => s.webhooks ++ [(url, t.updateId, t.update)] }
    else none

inductive Action (α : Type)
  | begin (bot : String) (update : α)
  | insert (txn : ℕ)
  | commit (txn : ℕ)
  | poll (bot : String) (limit : ℤ)

/-- One step. There is none where a transaction would have to wait, or is not at that place. -/
def step (s : BotUpdates α) : Action α → Option (BotUpdates α)
  | .begin bot update => some (s.beginTxn bot update)
  | .insert txn => s.insert txn
  | .commit txn => s.commit txn
  | .poll bot limit => some (s.poll bot limit)

/-- A run from the tables that `create_bot` leaves. -/
def run (bots : List String) (webhookUrl : Dict String String) (actions : List (Action α)) :
    Option (BotUpdates α) :=
  actions.foldlM step (start bots webhookUrl)

/-! ## §2 What is asked of a bot's updates -/

/-- The calls for a bot that have ended. -/
def callsOf (s : BotUpdates α) (bot : String) : List (EnqueueCall α) :=
  s.calls.filter fun c => c.bot = bot

/-- What is asked of the updates of a bot: the calls that have ended, in order, are the rows, each under
the number that the call returned; the numbers are 1, 2, … without a gap; the reader has received the first
rows, each once and in order, and a poll gives it the next ones, as many as the limit allows. -/
structure Exact (s : BotUpdates α) (bot : String) : Prop where
  stored : (s.callsOf bot).map (fun c => (c.result, c.update)) = (s.rows bot).map fun row => (some row.1, row.2)
  consecutive : (s.rows bot).map Prod.fst = List.range' 1 (s.rows bot).length
  received : (s.reader bot).received = (s.rows bot).take (s.reader bot).offset ∧
    (s.reader bot).offset ≤ (s.rows bot).length
  next : ∀ limit, s.getUpdates bot (s.reader bot).offset limit =
    ((s.rows bot).drop (s.reader bot).offset).take (clampLimit limit)

/-- Since a transaction read its number no other one of its bot has committed. -/
def Alone (s : BotUpdates α) (t : EnqueueTxn α) : Prop := t.bot ∉ s.commits.drop t.began

/-- **The condition.** Every transaction of the bot is alone when it inserts its row. -/
def AllAlone (bots : List String) (webhookUrl : Dict String String) (bot : String)
    (actions : List (Action α)) : Prop :=
  AllSteps (fun before a => ∀ txn s t, a = .insert txn → run bots webhookUrl before = some s →
    s.transactions.get? txn = some t → t.bot = bot → s.Alone t) actions

/-! ## §3 The ledger of a bot -/

/-- The rows that hold some updates, numbered from 1. -/
def numbered (stored : List α) : List (ℕ × α) := stored.mapIdx fun i update => (i + 1, update)

theorem length_numbered (stored : List α) : (numbered stored).length = stored.length :=
  List.length_mapIdx

theorem getElem?_numbered (stored : List α) (i : ℕ) :
    (numbered stored)[i]? = stored[i]?.map fun update => (i + 1, update) :=
  List.getElem?_mapIdx

theorem numbered_concat (stored : List α) (update : α) :
    numbered (stored ++ [update]) = numbered stored ++ [(stored.length + 1, update)] :=
  List.mapIdx_concat

variable {stored : List α}

theorem mem_numbered {row : ℕ × α} : row ∈ numbered stored ↔ row.1 ≠ 0 ∧ stored[row.1 - 1]? = some row.2 := by
  obtain ⟨id, update⟩ := row
  rw [List.mem_iff_getElem?]
  constructor
  · rintro ⟨i, hi⟩
    rw [getElem?_numbered] at hi
    obtain ⟨other, hother, heq⟩ := Option.map_eq_some_iff.mp hi
    cases heq
    exact ⟨Nat.succ_ne_zero i, hother⟩
  · rintro ⟨hne, hget⟩
    refine ⟨id - 1, ?_⟩
    have hid : id - 1 + 1 = id := Nat.succ_pred_eq_of_ne_zero hne
    rw [getElem?_numbered, hget, Option.map_some, hid]

theorem pairwise_numbered (stored : List α) : (numbered stored).Pairwise fun a b => a.1 < b.1 := by
  induction stored using reverseRecOn with
  | nil => exact List.Pairwise.nil
  | append_singleton stored update ih =>
    rw [numbered_concat, List.pairwise_append]
    refine ⟨ih, List.pairwise_singleton _ _, ?_⟩
    intro a ha b hb
    rw [List.mem_singleton] at hb
    obtain ⟨hne, hget⟩ := mem_numbered.mp ha
    have hlt := (List.getElem?_eq_some_iff.mp hget).1
    rw [hb]
    show a.1 < stored.length + 1
    omega

theorem map_fst_numbered (stored : List α) : (numbered stored).map Prod.fst = range' 1 stored.length := by
  induction stored using reverseRecOn with
  | nil => rfl
  | append_singleton stored update ih =>
    rw [numbered_concat, map_append, ih, length_append, List.length_singleton, List.range'_concat]
    simp [Nat.add_comm]

/-- What holds of one bot at all times. `stored` has the updates of its committed transactions, in
order: they are its rows, and a transaction that is alone is about to write the next one. -/
structure Ledger (s : BotUpdates α) (bot : String) (stored : List α) : Prop where
  next : s.nextUpdateId.get? bot = some (stored.length + 1)
  table : ∀ id, s.updates.get? (bot, id) = if id = 0 then none else stored[id - 1]?
  txn : ∀ txn t, s.transactions.get? txn = some t → t.bot = bot →
    t.updateId ≠ 0 ∧ t.updateId ≤ stored.length + 1 ∧ t.began ≤ s.commits.length ∧
      (s.Alone t ↔ t.updateId = stored.length + 1)
  inserted : ∀ txn t, s.transactions.get? txn = some t → t.bot = bot → t.inserted = true →
    t.updateId = stored.length + 1
  single : ∀ txn t txn' t', s.transactions.get? txn = some t → s.transactions.get? txn' = some t' →
    t.bot = bot → t'.bot = bot → t.inserted = true → t'.inserted = true → txn = txn'
  calls : ((s.callsOf bot).filter fun c => c.result.isSome).map (fun c => (c.result, c.update)) =
    (numbered stored).map fun row => (some row.1, row.2)
  reader : (s.reader bot).received = (numbered stored).take (s.reader bot).offset ∧
    (s.reader bot).offset ≤ stored.length

variable {s : BotUpdates α} {bot : String}

theorem Ledger.rows (h : s.Ledger bot stored) : s.rows bot = numbered stored := by
  refine sortedItems_eq (pairwise_numbered stored) ?_
  intro row
  rw [mem_numbered, get?_column, h.table]
  by_cases hid : row.1 = 0
  · simp [hid]
  · simp [hid]

/-- Rows above an offset are those behind as many first ones. -/
theorem filter_numbered (stored : List α) (offset : ℕ) :
    (numbered stored).filter (fun row => (offset : ℤ) < row.1) = (numbered stored).drop offset := by
  induction stored using reverseRecOn with
  | nil => simp [numbered]
  | append_singleton stored update ih =>
    rw [numbered_concat, filter_append, ih]
    by_cases hlt : offset ≤ stored.length
    · rw [List.drop_append_of_le_length (by rw [length_numbered]; exact hlt),
        List.filter_cons_of_pos (by simp; omega), List.filter_nil]
    have hlen : (numbered stored).length ≤ offset := by
      rw [length_numbered]
      omega
    rw [List.drop_eq_nil_of_le hlen, List.filter_cons_of_neg (by simp; omega), List.filter_nil,
      List.drop_eq_nil_of_le (by simp [length_numbered]; omega), List.append_nil]

theorem Ledger.getUpdates (h : s.Ledger bot stored) (offset : ℕ) (limit : ℤ) :
    s.getUpdates bot offset limit = ((numbered stored).drop offset).take (clampLimit limit) := by
  rw [BotUpdates.getUpdates, h.rows, filter_numbered]

variable {bots : List String}

theorem start_ledger (hbot : bot ∈ bots) (webhookUrl : Dict String String) :
    (start bots webhookUrl : BotUpdates α).Ledger bot [] := by
  refine ⟨?_, ?_, ?_, ?_, ?_, rfl, rfl, le_refl 0⟩
  · simp only [start, get?_ofKeys, if_pos hbot, List.length_nil]
  · intro id
    simp [start]
  · intro txn t ht
    cases ht
  · intro txn t ht
    cases ht
  · intro txn t txn' t' ht
    cases ht

/-! ## §4 Steps -/

theorem foldl_max_range' (offset n : ℕ) : (range' (offset + 1) n).foldl max offset = offset + n := by
  induction n with
  | zero => rfl
  | succ n ih =>
    rw [List.range'_concat, List.foldl_append, ih, List.foldl_cons, List.foldl_nil]
    omega

/-- **A poll keeps the ledger**: the reader takes the next rows. -/
theorem Ledger.poll (h : s.Ledger bot stored) (b : String) (limit : ℤ) : (s.poll b limit).Ledger bot stored := by
  refine ⟨h.next, h.table, h.txn, h.inserted, h.single, h.calls, ?_⟩
  by_cases hb : bot = b
  · subst hb
    obtain ⟨hreceived, hle⟩ := h.reader
    let count := min (clampLimit limit) (stored.length - (s.reader bot).offset)
    have hresult : s.getUpdates bot (s.reader bot).offset limit =
        ((numbered stored).drop (s.reader bot).offset).take count := by
      rw [h.getUpdates, List.take_eq_take_min, List.length_drop, length_numbered]
    -- the numbers of the rows that the poll returns follow the offset
    have hids : (s.getUpdates bot (s.reader bot).offset limit).map Prod.fst =
        range' ((s.reader bot).offset + 1) count := by
      rw [hresult, List.map_take, List.map_drop, map_fst_numbered, List.drop_range',
        List.take_range'_of_length_ge (Nat.min_le_right _ _), Nat.mul_one, Nat.add_comm]
    have hreader : (s.poll bot limit).reader bot = ⟨(s.reader bot).offset + count,
          (s.reader bot).received ++ s.getUpdates bot (s.reader bot).offset limit⟩ := by
      rw [BotUpdates.reader, BotUpdates.poll, getD_of_get? (by rw [get?_set, if_pos rfl]),
        hids, foldl_max_range']
    rw [hreader]
    constructor
    · show (s.reader bot).received ++ s.getUpdates bot (s.reader bot).offset limit = _
      rw [hreceived, hresult, List.take_add]
    · show (s.reader bot).offset + count ≤ stored.length
      omega
  · have hreader : (s.poll b limit).reader bot = s.reader bot := by
      simp [BotUpdates.reader, BotUpdates.poll, Dict.getD, hb]
    rw [hreader]
    exact h.reader

theorem callsOf_concat (s : BotUpdates α) (c : EnqueueCall α) (bot : String) :
    callsOf { s with calls := s.calls ++ [c] } bot = s.callsOf bot ++ if c.bot = bot then [c] else [] := by
  simp only [callsOf, filter_append]
  by_cases hb : c.bot = bot
  · simp [hb]
  · simp [hb]

/-- The transaction that begins next is not running yet. -/
def Fresh (s : BotUpdates α) : Prop :=
  ∀ txn t, s.transactions.get? txn = some t → txn < s.nextTransaction

/-- **A transaction that begins keeps the ledger**: it reads the number of the next row. -/
theorem Ledger.beginTxn (h : s.Ledger bot stored) (b : String) (update : α) :
    (s.beginTxn b update).Ledger bot stored := by
  cases hb : s.nextUpdateId.get? b with
  | none =>
    have hne : b ≠ bot := by
      rintro rfl
      rw [h.next] at hb
      cases hb
    simp only [BotUpdates.beginTxn, hb]
    refine ⟨h.next, h.table, h.txn, h.inserted, h.single, ?_, h.reader⟩
    rw [callsOf_concat, if_neg hne, List.append_nil]
    exact h.calls
  | some updateId =>
    simp only [BotUpdates.beginTxn, hb]
    refine ⟨h.next, h.table, ?_, ?_, ?_, h.calls, h.reader⟩
    · intro txn t ht hbot
      rcases of_get?_set ht with ⟨-, rfl⟩ | ⟨-, ht⟩
      · obtain rfl : b = bot := hbot
        rw [h.next] at hb
        cases hb
        refine ⟨Nat.succ_ne_zero _, le_refl _, le_refl _, ?_⟩
        simp [Alone]
      · exact h.txn txn t ht hbot
    · intro txn t ht hbot hins
      rcases of_get?_set ht with ⟨-, rfl⟩ | ⟨-, ht⟩
      · cases hins
      · exact h.inserted txn t ht hbot hins
    · intro txn t txn' t' ht ht' hbot hbot' hins hins'
      rw [get?_set] at ht ht'
      split at ht
      · cases ht
        cases hins
      split at ht'
      · cases ht'
        cases hins'
      · exact h.single txn t txn' t' ht ht' hbot hbot' hins hins'

variable {txn : ℕ} {t : EnqueueTxn α}

/-- The key that a transaction of the bot is to write is free just when it is alone. -/
theorem Ledger.isSome_iff (h : s.Ledger bot stored) (ht : s.transactions.get? txn = some t)
    (hbot : t.bot = bot) : (s.updates.get? (t.bot, t.updateId)).isSome = true ↔ ¬ s.Alone t := by
  obtain ⟨hne, hle, -, halone⟩ := h.txn txn t ht hbot
  rw [halone, hbot, h.table, if_neg hne, Option.isSome_iff_exists]
  constructor
  · rintro ⟨update, hupdate⟩
    have hlt := (List.getElem?_eq_some_iff.mp hupdate).1
    omega
  intro hneq
  have hlt : t.updateId - 1 < stored.length := by omega
  exact ⟨_, List.getElem?_eq_getElem hlt⟩

/-- A transaction that raises leaves the tables as they are. -/
theorem Ledger.fail (h : s.Ledger bot stored) (txn : ℕ) (b : String) (update : α) : Ledger { s with
      transactions := s.transactions.erase txn
      calls := s.calls ++ [⟨b, update, none⟩] } bot stored := by
  refine ⟨h.next, h.table, ?_, ?_, ?_, ?_, h.reader⟩
  · intro x t ht hbot
    exact h.txn x t (of_get?_erase ht).2 hbot
  · intro x t ht hbot hins
    exact h.inserted x t (of_get?_erase ht).2 hbot hins
  · intro x t x' t' ht ht' hbot hbot' hins hins'
    exact h.single x t x' t' (of_get?_erase ht).2 (of_get?_erase ht').2 hbot hbot' hins hins'
  · have hcalls := h.calls
    simp only [callsOf, filter_append] at hcalls ⊢
    by_cases hb : b = bot
    · simpa [hb] using hcalls
    · simpa [hb] using hcalls

/-- A row under a key that nobody else has inserted. -/
theorem Ledger.lock (h : s.Ledger bot stored) (ht : s.transactions.get? txn = some t)
    (hfree : ¬ (s.updates.get? (t.bot, t.updateId)).isSome = true)
    (hlocked : ¬ s.rowLocked t.bot t.updateId = true) :
    Ledger { s with transactions := s.transactions.set txn { t with inserted := true } } bot stored := by
  -- nobody else of the bot has inserted a row: it would be under the same key
  have hnobody : t.bot = bot → ∀ x t', s.transactions.get? x = some t' → t'.bot = bot →
      t'.inserted = true → False := by
    intro hbot x t' ht' hbot' hins
    have halone : s.Alone t := by
      by_contra hnot
      exact hfree ((h.isSome_iff ht hbot).mpr hnot)
    have hid := (h.txn txn t ht hbot).2.2.2.mp halone
    have hid' := h.inserted x t' ht' hbot' hins
    refine hlocked (List.any_eq_true.mpr ⟨t', mem_values_iff.mpr ⟨x, ht'⟩, ?_⟩)
    simp [hins, hbot, hbot', hid, hid']
  refine ⟨h.next, h.table, ?_, ?_, ?_, h.calls, h.reader⟩
  · intro x t' ht' hbot
    rcases of_get?_set ht' with ⟨-, rfl⟩ | ⟨-, ht'⟩
    · exact h.txn txn t ht hbot
    · exact h.txn x t' ht' hbot
  · intro x t' ht' hbot hins
    rcases of_get?_set ht' with ⟨-, rfl⟩ | ⟨-, ht'⟩
    · refine (h.txn txn t ht hbot).2.2.2.mp ?_
      by_contra hnot
      exact hfree ((h.isSome_iff ht hbot).mpr hnot)
    · exact h.inserted x t' ht' hbot hins
  · intro x t₁ x' t₂ ht₁ ht₂ hbot hbot' hins hins'
    rw [get?_set] at ht₁ ht₂
    split at ht₁
    · next heq =>
        cases ht₁
        split at ht₂
        · next heq' => rw [heq, heq']
        · exact absurd (hnobody hbot x' t₂ ht₂ hbot' hins') id
    · split at ht₂
      · cases ht₂
        exact absurd (hnobody hbot' x t₁ ht₁ hbot hins) id
      · exact h.single x t₁ x' t₂ ht₁ ht₂ hbot hbot' hins hins'

variable {s' : BotUpdates α}

/-- **An insert keeps the ledger.** For a transaction of the bot it goes through when the transaction is
alone; else the call ends with an error. -/
theorem Ledger.insert (h : s.Ledger bot stored) (hs' : s.insert txn = some s') :
    s'.Ledger bot stored ∧ ∃ t, s.transactions.get? txn = some t ∧
      ((t.bot = bot → s.Alone t) ∧ s'.callsOf bot = s.callsOf bot ∨
        t.bot = bot ∧ ¬ s.Alone t ∧ s'.callsOf bot = s.callsOf bot ++ [⟨bot, t.update, none⟩]) := by
  cases ht : s.transactions.get? txn with
  | none => simp [BotUpdates.insert, ht] at hs'
  | some t =>
    simp only [BotUpdates.insert, ht] at hs'
    split at hs'
    · cases hs'
    split at hs'
    · next htaken =>
        cases hs'
        refine ⟨h.fail txn t.bot t.update, t, rfl, ?_⟩
        by_cases hbot : t.bot = bot
        · right
          refine ⟨hbot, (h.isSome_iff ht hbot).mp htaken, ?_⟩
          simp [callsOf, hbot]
        left
        refine ⟨fun hb => absurd hb hbot, ?_⟩
        simp [callsOf, hbot]
    · next hfree =>
        split at hs'
        · cases hs'
        next hlocked =>
          cases hs'
          refine ⟨h.lock ht hfree hlocked, t, rfl, Or.inl ⟨?_, rfl⟩⟩
          intro hbot
          by_contra hnot
          exact hfree ((h.isSome_iff ht hbot).mpr hnot)

/-- **A commit of the bot writes the next row**, and every other transaction of the bot is alone no
more. -/
theorem Ledger.commit (h : s.Ledger bot stored) (ht : s.transactions.get? txn = some t) (hbot : t.bot = bot)
    (hs' : s.commit txn = some s') : s'.Ledger bot (stored ++ [t.update]) ∧
      s'.callsOf bot = s.callsOf bot ++ [⟨bot, t.update, some (stored.length + 1)⟩] := by
  simp only [BotUpdates.commit, ht] at hs'
  split at hs'
  · next hins =>
      have hid := h.inserted txn t ht hbot hins
      cases hs'
      have hcalls : ∀ w, callsOf { s with
          nextUpdateId := s.nextUpdateId.set t.bot (t.updateId + 1)
          updates := s.updates.set (t.bot, t.updateId) t.update
          transactions := s.transactions.erase txn
          calls := s.calls ++ [⟨t.bot, t.update, some t.updateId⟩]
          commits := s.commits ++ [t.bot]
          webhooks := w } bot =
          s.callsOf bot ++ [⟨bot, t.update, some (stored.length + 1)⟩] := by
        intro w
        simp [callsOf, hbot, hid]
      refine ⟨⟨?_, ?_, ?_, ?_, ?_, ?_, ?_⟩, hcalls _⟩
      · simp [hbot, hid]
      · intro id
        simp only [get?_set, Prod.mk.injEq, hbot, true_and, hid, h.table]
        by_cases hlast : id = stored.length + 1
        · simp [hlast]
        rw [if_neg hlast]
        by_cases hzero : id = 0
        · rw [if_pos hzero, if_pos hzero]
        rcases Nat.lt_or_ge (id - 1) stored.length with hlt | hge
        · rw [List.getElem?_append_left hlt]
        rw [List.getElem?_eq_none hge, List.getElem?_eq_none]
        rw [length_append, List.length_singleton]
        omega
      · intro x t' ht' hbot'
        obtain ⟨hne, ht'⟩ := of_get?_erase ht'
        obtain ⟨hpos, hle, hbegan, -⟩ := h.txn x t' ht' hbot'
        refine ⟨hpos, ?_, ?_, ?_⟩
        · rw [length_append, List.length_singleton]
          omega
        · rw [length_append]
          omega
        · -- the commit came after the transaction began
          simp only [Alone, List.drop_append_of_le_length hbegan, length_append, List.length_singleton]
          constructor
          · intro halone
            exact absurd (List.mem_append_right _ (List.mem_singleton.mpr (hbot'.trans hbot.symm))) halone
          · intro hlast
            omega
      · intro x t' ht' hbot' hins'
        obtain ⟨hne, ht'⟩ := of_get?_erase ht'
        exact absurd (h.single x t' txn t ht' ht hbot' hbot hins' hins) hne
      · intro x t₁ x' t₂ ht₁ ht₂ hbot₁ hbot₂ hins₁ hins₂
        exact h.single x t₁ x' t₂ (of_get?_erase ht₁).2 (of_get?_erase ht₂).2 hbot₁ hbot₂ hins₁ hins₂
      · rw [hcalls, filter_append, map_append, h.calls, numbered_concat, map_append]
        rfl
      · obtain ⟨hreceived, hle⟩ := h.reader
        have hlen : (s.reader bot).offset ≤ (numbered stored).length := by
          rw [length_numbered]
          exact hle
        constructor
        · rw [numbered_concat]
          exact hreceived.trans (List.take_append_of_le_length hlen).symm
        · rw [length_append]
          exact Nat.le_add_right_of_le hle
  · cases hs'

/-- A commit of another bot keeps the ledger. -/
theorem Ledger.commit_other (h : s.Ledger bot stored) (ht : s.transactions.get? txn = some t)
    (hbot : t.bot ≠ bot) (hs' : s.commit txn = some s') :
    s'.Ledger bot stored ∧ s'.callsOf bot = s.callsOf bot := by
  simp only [BotUpdates.commit, ht] at hs'
  split at hs'
  · cases hs'
    have hcalls : ∀ w, callsOf { s with
        nextUpdateId := s.nextUpdateId.set t.bot (t.updateId + 1)
        updates := s.updates.set (t.bot, t.updateId) t.update
        transactions := s.transactions.erase txn
        calls := s.calls ++ [⟨t.bot, t.update, some t.updateId⟩]
        commits := s.commits ++ [t.bot]
        webhooks := w } bot = s.callsOf bot := by
      intro w
      simp [callsOf, hbot]
    refine ⟨⟨?_, ?_, ?_, ?_, ?_, ?_, h.reader⟩, hcalls _⟩
    · simp [h.next, hbot.symm]
    · intro id
      simp [h.table, hbot.symm]
    · intro x t' ht' hbot'
      obtain ⟨-, ht'⟩ := of_get?_erase ht'
      obtain ⟨hpos, hle, hbegan, halone⟩ := h.txn x t' ht' hbot'
      refine ⟨hpos, hle, ?_, ?_⟩
      · rw [length_append]
        omega
      have hne : t'.bot ≠ t.bot := fun heq => hbot (heq.symm.trans hbot')
      simp only [Alone, List.drop_append_of_le_length hbegan] at halone ⊢
      rw [List.mem_append, List.mem_singleton, not_or, and_iff_left hne]
      exact halone
    · intro x t' ht' hbot' hins'
      exact h.inserted x t' (of_get?_erase ht').2 hbot' hins'
    · intro x t₁ x' t₂ ht₁ ht₂ hbot₁ hbot₂ hins₁ hins₂
      exact h.single x t₁ x' t₂ (of_get?_erase ht₁).2 (of_get?_erase ht₂).2 hbot₁ hbot₂ hins₁ hins₂
    · rw [hcalls]
      exact h.calls
  · cases hs'

/-! ## §5 Runs -/

/-- All calls for the bot that have ended returned a number. -/
def NoneFailed (s : BotUpdates α) (bot : String) : Prop :=
  ∀ c ∈ s.callsOf bot, c.result.isSome = true

theorem noneFailed_of_concat {c : EnqueueCall α} (h : s'.callsOf bot = s.callsOf bot ++ [c]) :
    s'.NoneFailed bot ↔ s.NoneFailed bot ∧ c.result.isSome = true := by
  simp only [NoneFailed, h, List.mem_append, List.mem_singleton]
  constructor
  · intro hall
    exact ⟨fun d hd => hall d (Or.inl hd), hall c (Or.inr rfl)⟩
  rintro ⟨hall, hc⟩ d (hd | rfl)
  · exact hall d hd
  · exact hc

/-- **A step keeps the ledger**, and a call fails in it just when a transaction that is not alone inserts
its row. -/
theorem Ledger.step (h : s.Ledger bot stored) {a : Action α} (hs' : s.step a = some s') :
    (∃ stored', s'.Ledger bot stored') ∧
      (s'.NoneFailed bot ↔ s.NoneFailed bot ∧ ∀ txn t, a = .insert txn →
        s.transactions.get? txn = some t → t.bot = bot → s.Alone t) := by
  have hquiet : s'.callsOf bot = s.callsOf bot → (∀ txn, a ≠ .insert txn) →
      (s'.NoneFailed bot ↔ s.NoneFailed bot ∧ ∀ txn t, a = .insert txn →
        s.transactions.get? txn = some t → t.bot = bot → s.Alone t) := by
    intro hcalls hne
    rw [NoneFailed, NoneFailed, hcalls]
    constructor
    · intro hall
      exact ⟨hall, fun txn t ha => absurd ha (hne txn)⟩
    · exact And.left
  cases a with
  | begin b update =>
    cases hs'
    refine ⟨⟨stored, h.beginTxn b update⟩, hquiet ?_ (by simp)⟩
    cases hb : s.nextUpdateId.get? b with
    | none =>
      have hne : b ≠ bot := by
        rintro rfl
        rw [h.next] at hb
        cases hb
      simp [BotUpdates.beginTxn, hb, callsOf, hne]
    | some updateId => simp [BotUpdates.beginTxn, hb, callsOf]
  | insert txn =>
    obtain ⟨hledger, t, ht, hcases⟩ := h.insert hs'
    refine ⟨⟨stored, hledger⟩, ?_⟩
    rcases hcases with ⟨halone, hcalls⟩ | ⟨hbot, hnot, hcalls⟩
    · rw [NoneFailed, NoneFailed, hcalls]
      constructor
      · intro hall
        refine ⟨hall, ?_⟩
        intro x t' hx ht' hbot
        cases hx
        rw [ht] at ht'
        cases ht'
        exact halone hbot
      · exact And.left
    · rw [noneFailed_of_concat hcalls]
      constructor
      · rintro ⟨-, hfalse⟩
        cases hfalse
      · rintro ⟨-, hall⟩
        exact absurd (hall txn t rfl ht hbot) hnot
  | commit txn =>
    have hs'' : s.commit txn = some s' := hs'
    cases ht : s.transactions.get? txn with
    | none => simp [BotUpdates.commit, ht] at hs''
    | some t =>
      by_cases hbot : t.bot = bot
      · obtain ⟨hledger, hcalls⟩ := h.commit ht hbot hs''
        refine ⟨⟨_, hledger⟩, ?_⟩
        rw [noneFailed_of_concat hcalls]
        simp
      · obtain ⟨hledger, hcalls⟩ := h.commit_other ht hbot hs''
        exact ⟨⟨stored, hledger⟩, hquiet hcalls (by simp)⟩
  | poll b limit =>
    cases hs'
    exact ⟨⟨stored, h.poll b limit⟩, hquiet rfl (by simp)⟩

theorem run_concat {webhookUrl : Dict String String} {actions : List (Action α)} {a : Action α} :
    run bots webhookUrl (actions ++ [a]) = some s' ↔
      ∃ s, run bots webhookUrl actions = some s ∧ s.step a = some s' :=
  foldlM_concat_eq_some_iff

/-- **Every run keeps the ledger**, and a call has failed in it just when some transaction of the bot was
not alone when it inserted its row. -/
theorem run_ledger (hbot : bot ∈ bots) {webhookUrl : Dict String String} {actions : List (Action α)}
    (hs : run bots webhookUrl actions = some s) : (∃ stored, s.Ledger bot stored) ∧
      (s.NoneFailed bot ↔ AllAlone bots webhookUrl bot actions) := by
  induction actions using reverseRecOn generalizing s with
  | nil =>
    cases hs
    refine ⟨⟨[], start_ledger hbot webhookUrl⟩, ?_⟩
    constructor
    · intro _
      exact allSteps_nil _
    · intro _ c hc
      cases hc
  | append_singleton actions a ih =>
    obtain ⟨s₀, hs₀, hstep⟩ := run_concat.mp hs
    obtain ⟨⟨stored, hledger⟩, hiff⟩ := ih hs₀
    obtain ⟨hledger', hiff'⟩ := hledger.step hstep
    refine ⟨hledger', ?_⟩
    rw [hiff', hiff, AllAlone, AllAlone, allSteps_concat]
    refine and_congr_right fun _ => ?_
    constructor
    · intro hall txn s₁ t ha hs₁ ht
      rw [hs₀] at hs₁
      cases hs₁
      exact hall txn t ha ht
    · intro hall txn t ha ht
      exact hall txn s₀ t ha hs₀ ht

/-- Where all is exact no call has failed. -/
theorem Exact.noneFailed (h : s.Exact bot) : s.NoneFailed bot := by
  intro c hc
  have hmem : (c.result, c.update) ∈ (s.rows bot).map fun row => (some row.1, row.2) := by
    rw [← h.stored]
    exact List.mem_map_of_mem hc
  obtain ⟨row, -, hrow⟩ := List.mem_map.mp hmem
  rw [← (Prod.mk.inj hrow).1]
  rfl

/-- **What is stored is never lost to the reader**, whatever overlaps: the numbers have no gap, the reader
has the first rows, and each poll gives it the next ones. -/
theorem Ledger.received (h : s.Ledger bot stored) : (s.rows bot).map Prod.fst = range' 1 (s.rows bot).length ∧
      ((s.reader bot).received = (s.rows bot).take (s.reader bot).offset ∧
        (s.reader bot).offset ≤ (s.rows bot).length) ∧
      ∀ limit, s.getUpdates bot (s.reader bot).offset limit =
        ((s.rows bot).drop (s.reader bot).offset).take (clampLimit limit) := by
  refine ⟨?_, ?_, ?_⟩
  · rw [h.rows, map_fst_numbered, length_numbered]
  · rw [h.rows, length_numbered]
    exact h.reader
  · intro limit
    rw [h.rows, h.getUpdates]

/-- Of a bot none of whose calls has failed all is exact. -/
theorem Ledger.exact_iff (h : s.Ledger bot stored) : s.Exact bot ↔ s.NoneFailed bot := by
  constructor
  · exact Exact.noneFailed
  intro hall
  have hfilter : (s.callsOf bot).filter (fun c => c.result.isSome) = s.callsOf bot :=
    List.filter_eq_self.mpr hall
  obtain ⟨hconsecutive, hreceived, hnext⟩ := h.received
  refine ⟨?_, hconsecutive, hreceived, hnext⟩
  rw [h.rows, ← h.calls, hfilter]

/-- **The updates of a bot are exact just when its transactions do not overlap**: in the state that a run
ends in, all calls are stored, numbered without a gap and received once each and in order if and only if
no transaction of the bot committed between the begin and the insert of another. -/
theorem botUpdates_exact_iff {bots : List String} {bot : String} (hbot : bot ∈ bots)
    {webhookUrl : Dict String String} {actions : List (Action α)} {s : BotUpdates α}
    (hs : run bots webhookUrl actions = some s) :
    s.Exact bot ↔ AllAlone bots webhookUrl bot actions := by
  obtain ⟨⟨stored, hledger⟩, hiff⟩ := run_ledger hbot hs
  rw [hledger.exact_iff, hiff]

/-- Two calls one after the other, and a poll between them. -/
theorem botUpdates_exact_iff_example : ∃ s : BotUpdates String,
      run ["echo"] .empty [.begin "echo" "hello", .insert 0, .commit 0, .poll "echo" 10,
        .begin "echo" "again", .insert 1, .commit 1] = some s ∧
      (s.Exact "echo" ↔ AllAlone ["echo"] .empty "echo" [.begin "echo" "hello", .insert 0, .commit 0,
        .poll "echo" 10, .begin "echo" "again", .insert 1, .commit 1]) := by
  obtain ⟨s, hs⟩ : ∃ s : BotUpdates String,
      run ["echo"] .empty [.begin "echo" "hello", .insert 0, .commit 0, .poll "echo" 10,
        .begin "echo" "again", .insert 1, .commit 1] = some s :=
    Option.isSome_iff_exists.mp (by decide +kernel)
  exact ⟨s, hs, botUpdates_exact_iff (by decide) hs⟩

/-- Two calls read the same number: the second one raises and its update is nowhere. -/
theorem update_lost : ∃ s : BotUpdates String,
      run ["echo"] .empty [.begin "echo" "hello", .begin "echo" "again", .insert 0, .commit 0,
        .insert 1] = some s ∧ ¬ s.Exact "echo" := by
  have hfailed : (run ["echo"] .empty [.begin "echo" "hello", .begin "echo" "again", .insert 0,
      .commit 0, .insert 1]).map (fun s : BotUpdates String =>
        (s.callsOf "echo").all fun c => c.result.isSome) = some false := by
    decide +kernel
  obtain ⟨s, hs, hnot⟩ := Option.map_eq_some_iff.mp hfailed
  refine ⟨s, hs, ?_⟩
  intro hexact
  rw [List.all_eq_true.mpr hexact.noneFailed] at hnot
  cases hnot

end BotUpdates

end Setka.Handlers
