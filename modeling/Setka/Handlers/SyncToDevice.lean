/-
# Setka.Handlers.SyncToDevice — messages to a device, read by sync and deleted when they were received.

A device continues from the position that a response gave it. With its next request it says that it has received
what came before, which is then deleted. Calls that add messages get their positions from the id generator, and
may finish in any order; a request reads up to the position that all calls have finished up to.

Requests and calls are taken apart where they wait. The rest of a sync, and other devices, which have rows and
deletions of their own, are left out.
-/
import Setka.Storage.DeviceInbox
import Setka.Storage.MultiWriterStream
import Setka.Util.StreamChangeCache

namespace Setka.Handlers.SyncToDevice

open Setka.Lib Setka.Storage.DeviceInbox Setka.Storage Setka.Util StreamChangeCache IdGenerators
open List (mem_of_getElem? not_mem_nil map_append getElem?_map)

/-! ## §1 Recording changes -/

/-- `entity_has_changed` for some users, one after another. It does not raise: the cache has room for something,
and its maps mirror each other. -/
def noteAll (order : IterOrder String) (changes : List (String × ℤ)) (c : StreamChangeCache) : StreamChangeCache :=
  changes.foldl (fun c x => ((StreamChangeCache.entityHasChanged order x.1 x.2).run c).2) c

/-- The cache at start-up, prefilled with the last changes. -/
def prefilled (order : IterOrder String) (maxSize : ℤ) (found : Dict String ℤ × ℤ) : StreamChangeCache :=
  noteAll order found.1.items (.new found.2 maxSize)

/-! ## §2 Calls and requests -/

/-- Where a call that adds messages stands, between its position and the end of it. -/
inductive SendPhase
  | inserting
  | noting
  | finishing
  deriving DecidableEq

/-- A call of `add_messages_to_device_inbox`, or with a source of `add_messages_from_remote_to_device_inbox`. -/
structure Sending where
  source : Option Source
  messages : Messages
  streamId : ℤ
  phase : SendPhase

/-- Where a sync request stands: waiting for the stream to catch up, deleting, on its way to the token, between
the token and the messages, or answered, with the token that it had. -/
inductive Phase
  | waiting
  | deleting (fromStreamId : ℤ)
  | deletingUpTo (fromStreamId maxStreamId : ℤ)
  | syncing
  | reading (now : ℤ)
  | querying (now : ℤ)
  | answered (now : Option ℤ) (messages : List InboxRow) (next : ℤ)

structure Request where
  since : Option ℤ
  phase : Phase

/-- `since_stream_id`. -/
def Request.sinceStreamId (r : Request) : ℤ := r.since.getD 0

/-- The process and its database, and the device: where it continues from, where it has continued from, and what
it was given on its way. `stored` has every row that was ever inserted, with the source of the message;
`cleaned` the sources whose row in `device_federation_inbox` was deleted as too old. -/
structure World where
  gen : IdGenerators.World
  inbox : List InboxRow
  federationInbox : List Source
  streamCache : StreamChangeCache
  lastDeleted : Option ℤ
  sendings : List Sending
  requests : List Request
  since : Option ℤ
  history : List (Option ℤ)
  chain : List InboxRow
  stored : List (Option Source × InboxRow)
  cleaned : List Source

namespace World

/-- `get_to_device_stream_token`. -/
def token (w : World) : ℤ := w.gen.self.gen.getPersistedUptoPosition

/-- The position up to which the device has received its messages. -/
def position (w : World) : ℤ := w.since.getD 0

def setSending (i : ℕ) (s : Sending) (w : World) : World := { w with sendings := w.sendings.set i s }

def setRequest (i : ℕ) (r : Request) (w : World) : World := { w with requests := w.requests.set i r }

/-- The transaction of a call. -/
def insertRows (devices : String → List String) (i : ℕ) (s : Sending) (w : World) : World :=
  let (rows, federationInbox) := addMessagesTxn devices s.source s.messages s.streamId w.federationInbox
  { w.setSending i { s with phase := .noting } with
    inbox := w.inbox ++ rows
    federationInbox
    stored := w.stored ++ rows.map fun row => (s.source, row) }

/-- All users of a call are recorded as changed. -/
def note (order : IterOrder String) (i : ℕ) (s : Sending) (w : World) : World :=
  { w.setSending i { s with phase := .finishing } with
    streamCache := noteAll order (s.messages.keys.map fun user => (user, s.streamId)) w.streamCache }

/-- The position of a call is marked as finished. -/
def finish (i : ℕ) (s : Sending) (g : IdGenerators.MultiWriterIdGenerator) (w : World) : World :=
  { w with
    gen := { w.gen with self := { w.gen.self with
      gen := g
      finished := w.gen.self.finished ∪ [s.streamId].toFinset } }
    sendings := w.sendings.eraseIdx i }

section OneDevice

variable (userId deviceId : String)

/-- `delete_messages_for_device`, until it waits: nothing is to be deleted when the user has not changed since
the last deletion. -/
def startDeletion (i : ℕ) (r : Request) (w : World) : World :=
  if w.lastDeleted.any fun last => last ≠ 0 && !w.streamCache.hasEntityChanged userId last then
    w.setRequest i { r with phase := .syncing }
  else w.setRequest i { r with phase := .deleting 0 }

/-- The end of `delete_messages_for_device`: the position is remembered, unless a later one is. -/
def endDeletion (i : ℕ) (r : Request) (w : World) : World :=
  { w.setRequest i { r with phase := .syncing } with
    lastDeleted := some (max (w.lastDeleted.getD 0) r.sinceStreamId) }

/-- The first statement of a deletion, which deletes a thousand rows at a time. -/
def selectMax (i : ℕ) (r : Request) (fromStreamId : ℤ) (w : World) : World :=
  match selectMaxStreamId userId deviceId fromStreamId r.sinceStreamId 1000 w.inbox with
  | none => w.endDeletion i r
  | some maxStreamId => w.setRequest i { r with phase := .deletingUpTo fromStreamId maxStreamId }

/-- The second statement. -/
def delete (i : ℕ) (r : Request) (fromStreamId maxStreamId : ℤ) (w : World) : World :=
  let (inbox, numDeleted) := deleteRows userId deviceId fromStreamId maxStreamId w.inbox
  if numDeleted < 1000 then { w with inbox }.endDeletion i r
  else { w with inbox }.setRequest i { r with phase := .deleting maxStreamId }

/-- `_generate_sync_entry_for_to_device`, until it waits. -/
def checkCache (i : ℕ) (r : Request) (now : ℤ) (w : World) : World :=
  if r.sinceStreamId = now ∨ w.streamCache.hasEntityChanged userId r.sinceStreamId = false then
    w.setRequest i { r with phase := .answered (some now) [] now }
  else w.setRequest i { r with phase := .querying now }

/-- The transaction of `get_messages_for_device`. -/
def query (i : ℕ) (r : Request) (now : ℤ) (w : World) : World :=
  let (messages, next) := getDeviceMessagesTxn userId deviceId r.sinceStreamId now 100 w.inbox
  w.setRequest i { r with phase := .answered (some now) messages next }

/-- The device goes on from a response. -/
def continueFrom (messages : List InboxRow) (next : ℤ) (w : World) : World :=
  { w with since := some next, history := some next :: w.history, chain := w.chain ++ messages }

/-- **One step**: of the id generator, of a call, of a clean-up, of a request, or of the device. -/
inductive Step (order : IterOrder String) : World → World → Prop
  | generator {w : World} {gen : IdGenerators.World} : IdGenerators.World.Step w.gen gen →
      gen.self.finished = w.gen.self.finished → Step order w { w with gen }
  | send {w : World} (source : Option Source) (messages : Messages) {streamId : ℤ} :
      streamId ∈ w.gen.self.pending → streamId ∉ w.sendings.map Sending.streamId →
      Step order w { w with sendings := w.sendings ++ [⟨source, messages, streamId, .inserting⟩] }
  | insertRows {w : World} {i : ℕ} {s : Sending} (devices : String → List String) :
      w.sendings[i]? = some s → s.phase = .inserting → (∀ source ∈ s.source, source ∉ w.cleaned) →
      Step order w (w.insertRows devices i s)
  | insertFails {w : World} {i : ℕ} {s : Sending} : w.sendings[i]? = some s → s.phase = .inserting →
      Step order w (w.setSending i { s with phase := .finishing })
  | note {w : World} {i : ℕ} {s : Sending} : w.sendings[i]? = some s → s.phase = .noting →
      Step order w (w.note order i s)
  | finish {w : World} {i : ℕ} {s : Sending} {g : IdGenerators.MultiWriterIdGenerator} :
      w.sendings[i]? = some s → s.phase = .finishing →
      w.gen.self.gen.markIdsAsFinished [s.streamId] = some g → Step order w (w.finish i s g)
  | cleanUp {w : World} (source : Source) : Step order w { w with
        federationInbox := w.federationInbox.filter fun s => s ≠ source
        cleaned := source :: w.cleaned }
  | expire {w : World} : Step order w { w with lastDeleted := none }
  | request {w : World} {since : Option ℤ} : since ∈ w.history → Step order w { w with requests := w.requests ++
        [⟨since, if since = none then .syncing else .waiting⟩] }
  | timedOut {w : World} {i : ℕ} {r : Request} : w.requests[i]? = some r → r.phase = .waiting →
      Step order w (w.setRequest i { r with phase := .answered none [] r.sinceStreamId })
  | caughtUp {w : World} {i : ℕ} {r : Request} : w.requests[i]? = some r → r.phase = .waiting →
      r.sinceStreamId ≤ w.token → Step order w (w.startDeletion userId i r)
  | selectMax {w : World} {i : ℕ} {r : Request} {fromStreamId : ℤ} : w.requests[i]? = some r →
      r.phase = .deleting fromStreamId → Step order w (w.selectMax userId deviceId i r fromStreamId)
  | delete {w : World} {i : ℕ} {r : Request} {fromStreamId maxStreamId : ℤ} : w.requests[i]? = some r →
      r.phase = .deletingUpTo fromStreamId maxStreamId →
      Step order w (w.delete userId deviceId i r fromStreamId maxStreamId)
  | readToken {w : World} {i : ℕ} {r : Request} : w.requests[i]? = some r → r.phase = .syncing →
      Step order w (w.setRequest i { r with phase := .reading w.token })
  | checkCache {w : World} {i : ℕ} {r : Request} {now : ℤ} : w.requests[i]? = some r →
      r.phase = .reading now → Step order w (w.checkCache userId i r now)
  | query {w : World} {i : ℕ} {r : Request} {now : ℤ} : w.requests[i]? = some r →
      r.phase = .querying now → Step order w (w.query userId deviceId i r now)
  | again {w : World} {i : ℕ} {r : Request} {now next : ℤ} : w.requests[i]? = some r →
      r.phase = .answered (some now) [] next → Step order w (w.setRequest i { r with phase := .syncing })
  | continueFrom {w : World} {i : ℕ} {r : Request} {now : Option ℤ} {messages : List InboxRow} {next : ℤ} :
      w.requests[i]? = some r → r.phase = .answered now messages next → r.since = w.since →
      Step order w (w.continueFrom messages next)

/-- The process has just started, with the rows that are in the table; the device has not synced yet. -/
structure Start (order : IterOrder String) (w : World) : Prop where
  gen : w.gen.Initial ∧ w.gen.self.gen.positive = true
  rows : ∀ row ∈ w.inbox, 0 < row.streamId ∧ row.streamId ≤ w.gen.last
  distinct : ((w.inbox.filter (InboxRow.isFor userId deviceId)).map InboxRow.streamId).Nodup
  streamCache : ∃ (tieBreak : TieBreak) (maxSize : ℤ), w.streamCache = prefilled order maxSize
    (getCacheDict tieBreak (w.inbox.map fun row => (row.userId, row.streamId)) w.token 1000)
  idle : w.sendings = [] ∧ w.requests = [] ∧ w.federationInbox = [] ∧ w.cleaned = []
  device : w.since = none ∧ w.history = [none] ∧ w.chain = []
  stored : w.stored = w.inbox.map fun row => (none, row)

/-- The row was inserted for the device. -/
def Mine (stored : List (Option Source × InboxRow)) (row : InboxRow) : Prop :=
  (∃ source, (source, row) ∈ stored) ∧ row.isFor userId deviceId = true

/-- **What is asked of every state.** The device was given its messages up to its position, each once and in
order; those it was not given are in the table; a message from another server was stored once; and a response
leaves out nothing that there was, unless its page is full. -/
structure Safe (w : World) : Prop where
  ordered : w.chain.Pairwise fun a b => a.streamId < b.streamId
  exact : ∀ row, row ∈ w.chain ↔ Mine userId deviceId w.stored row ∧ row.streamId ≤ w.position
  kept : ∀ row, Mine userId deviceId w.stored row → row ∉ w.chain → row ∈ w.inbox
  distinct : ((w.stored.map Prod.snd).filter (InboxRow.isFor userId deviceId)).Nodup
  once : ((w.stored.filter fun x => x.2.isFor userId deviceId).filterMap Prod.fst).Nodup
  complete : ∀ r ∈ w.requests, ∀ now messages next, r.since = w.since →
    r.phase = .answered (some now) messages next → messages.length = 100 ∨
      ∀ row, Mine userId deviceId w.stored row → row ∉ w.chain → row.streamId ≤ now → row ∈ messages

end OneDevice

end World

/-! ## §3 What the cache knows -/

section Cache

variable {order : IterOrder String} {c : StreamChangeCache}

/-- Recording changes makes them known, and forgets nothing. -/
theorem noteAll_spec (order : IterOrder String) (h : c.Mirrored) (changes : List (String × ℤ)) :
    c.Advances (noteAll order changes c) ∧ ∀ x ∈ changes, (noteAll order changes c).Known x.1 x.2 := by
  induction changes generalizing c with
  | nil => exact ⟨.refl h, fun x hx => absurd hx not_mem_nil⟩
  | cons x changes ih =>
    obtain ⟨hfirst, hknown⟩ := entityHasChanged_advances order h x.1 x.2
    obtain ⟨hrest, hothers⟩ := ih hfirst.mirrored
    refine ⟨hfirst.trans hrest, fun y hy => ?_⟩
    rcases List.mem_cons.mp hy with rfl | hy
    · exact hrest.known _ _ hknown
    · exact hothers y hy

/-- A cache that is prefilled with the last rows knows of all rows. -/
theorem prefilled_spec (order : IterOrder String) (tieBreak : TieBreak) (maxSize maxValue : ℤ) {limit : ℕ}
    (hlimit : 0 < limit) (rows : List (String × ℤ)) :
    (prefilled order maxSize (getCacheDict tieBreak rows maxValue limit)).Mirrored ∧
      ∀ row ∈ rows, (prefilled order maxSize (getCacheDict tieBreak rows maxValue limit)).Known row.1 row.2 := by
  have hnew := (sound_new (getCacheDict tieBreak rows maxValue limit).2 maxSize).mirrored
  obtain ⟨hadvances, hknown⟩ := noteAll_spec order hnew (getCacheDict tieBreak rows maxValue limit).1.items
  refine ⟨hadvances.mirrored, fun row hrow => ?_⟩
  rcases known_of_getCacheDict tieBreak maxValue hlimit hrow with ⟨pos, hpos, hle⟩ | hle
  · have hitem := hknown (row.1, pos) (Dict.get?_eq_some_iff.mp hpos)
    rcases hitem with hearliest | ⟨latest, hlatest, hlater⟩
    · exact .inl (hle.trans hearliest)
    · exact .inr ⟨latest, hlatest, hle.trans hlater⟩
  · exact .inl (hle.trans hadvances.earliest)

end Cache

/-! ## §4 What holds of every state -/

namespace World

section Invariant

variable (userId deviceId : String)

/-- **The writing side.** A position up to the token is finished: no rows come to it any more, and the users of
its rows are recorded as changed. -/
structure Writing (gen : IdGenerators.World) (sendings : List Sending) (stored : List (Option Source × InboxRow))
    (streamCache : StreamChangeCache) : Prop where
  reachable : Reachable IdGenerators.World.Initial IdGenerators.World.Step gen
  upwards : gen.self.gen.positive = true
  sending : ∀ s ∈ sendings, s.streamId ∈ gen.self.pending
  nodup : (sendings.map Sending.streamId).Nodup
  unsent : ∀ s ∈ sendings, s.phase = .inserting → ∀ x ∈ stored, x.2.streamId ≠ s.streamId
  used : ∀ x ∈ stored, 0 < x.2.streamId ∧ x.2.streamId ≤ gen.last ∧
    (x.2.streamId ∈ gen.self.pending → x.2.streamId ∈ sendings.map Sending.streamId)
  mirrored : streamCache.Mirrored
  noted : ∀ x ∈ stored, streamCache.Known x.2.userId x.2.streamId ∨
    ∃ s ∈ sendings, s.streamId = x.2.streamId ∧ s.phase = .noting ∧ x.2.userId ∈ s.messages.keys

/-- **The table.** What was inserted is there, in its order, except for what was deleted, and of the device only
what it has received is deleted. -/
structure Table (stored : List (Option Source × InboxRow)) (inbox : List InboxRow) (position : ℤ) : Prop where
  distinct : (((stored.map Prod.snd).filter (InboxRow.isFor userId deviceId)).map InboxRow.streamId).Nodup
  sublist : inbox.Sublist (stored.map Prod.snd)
  kept : ∀ row, Mine userId deviceId stored row → position < row.streamId → row ∈ inbox

/-- A page from the position of the device: all its messages up to the next position, in order. -/
structure Page (stored : List (Option Source × InboxRow)) (position token : ℤ) (now : Option ℤ)
    (messages : List InboxRow) (next : ℤ) : Prop where
  from_le : position ≤ next
  le_token : next ≤ token
  ordered : messages.Pairwise fun a b => a.streamId < b.streamId
  exact : ∀ row, row ∈ messages ↔ Mine userId deviceId stored row ∧ position < row.streamId ∧ row.streamId ≤ next
  full : ∀ t ∈ now, next = t ∨ messages.length = 100

/-- What a request may rely on. A request from a position that the device has left reads nothing of use. -/
def PhaseInv (stored : List (Option Source × InboxRow)) (position token sinceStreamId : ℤ) : Phase → Prop
  | .deletingUpTo _ maxStreamId => maxStreamId ≤ sinceStreamId
  | .reading now | .querying now => sinceStreamId ≤ now ∧ now ≤ token
  | .answered now messages next =>
    sinceStreamId = position → Page userId deviceId stored position token now messages next
  | _ => True

structure Inv (w : World) : Prop where
  writing : Writing w.gen w.sendings w.stored w.streamCache
  table : Table userId deviceId w.stored w.inbox w.position
  position : 0 ≤ w.position ∧ w.position ≤ w.token
  history : w.since ∈ w.history ∧ ∀ since ∈ w.history, since.getD 0 ≤ w.position
  requests : ∀ r ∈ w.requests, r.sinceStreamId ≤ w.position ∧
    PhaseInv userId deviceId w.stored w.position w.token r.sinceStreamId r.phase
  ordered : w.chain.Pairwise fun a b => a.streamId < b.streamId
  exact : ∀ row, row ∈ w.chain ↔ Mine userId deviceId w.stored row ∧ row.streamId ≤ w.position
  received : ∀ x ∈ w.stored, ∀ source ∈ x.1, source ∈ w.federationInbox ∨ source ∈ w.cleaned
  once : ((w.stored.filter fun x => x.2.isFor userId deviceId).filterMap Prod.fst).Nodup

variable {userId deviceId} {w w' : World}

theorem Inv.safe (h : Inv userId deviceId w) : Safe userId deviceId w where
  ordered := h.ordered
  exact := h.exact
  kept := by
    intro row hmine hnot
    refine h.table.kept row hmine (lt_of_not_ge fun hle => hnot ?_)
    exact (h.exact row).mpr ⟨hmine, hle⟩
  distinct := List.Nodup.of_map _ h.table.distinct
  once := h.once
  complete := by
    intro r hr now messages next hsince hphase
    obtain ⟨-, hpage⟩ := h.requests r hr
    rw [hphase] at hpage
    have hpage := hpage (by rw [Request.sinceStreamId, hsince]; rfl)
    rcases hpage.full now rfl with rfl | hlength
    · refine .inr fun row hmine hnot hle => (hpage.exact row).mpr ⟨hmine, ?_, hle⟩
      exact lt_of_not_ge fun hge => hnot ((h.exact row).mpr ⟨hmine, hge⟩)
    · exact .inl hlength

/-! ### The writing side -/

section Writing

variable {gen gen' : IdGenerators.World} {sendings : List Sending} {stored : List (Option Source × InboxRow)}
  {streamCache : StreamChangeCache}

/-- A position that is not finished is beyond the token. -/
theorem Writing.token_lt (h : Writing gen sendings stored streamCache) {streamId : ℤ}
    (hpending : streamId ∈ gen.self.pending) : gen.self.gen.getPersistedUptoPosition < streamId := by
  obtain ⟨hallocated, hnot⟩ := Finset.mem_sdiff.mp hpending
  have hbeyond := (pending_beyond_positions h.reachable hallocated hnot).1
  rw [IdGenerators.MultiWriterIdGenerator.returnFactor, if_pos h.upwards, one_mul] at hbeyond
  exact hbeyond

/-- The cache knows of every row up to the token. -/
theorem Writing.known (h : Writing gen sendings stored streamCache) {x : Option Source × InboxRow}
    (hx : x ∈ stored) (hle : x.2.streamId ≤ gen.self.gen.getPersistedUptoPosition) :
    streamCache.Known x.2.userId x.2.streamId := by
  rcases h.noted x hx with hknown | ⟨s, hs, hid, -, -⟩
  · exact hknown
  · have hlt := h.token_lt (h.sending s hs)
    omega

theorem Writing.token_mono (h : Writing gen sendings stored streamCache) (hstep : IdGenerators.World.Step gen gen') :
    gen.self.gen.getPersistedUptoPosition ≤ gen'.self.gen.getPersistedUptoPosition := by
  have hup := h.upwards
  have hup' : gen'.self.gen.positive = true := hstep.sameConfig.2.2.trans hup
  unfold IdGenerators.MultiWriterIdGenerator.getPersistedUptoPosition
    IdGenerators.MultiWriterIdGenerator.returnFactor
  rw [if_pos hup, if_pos hup', one_mul, one_mul]
  exact hstep.upto_le

theorem Writing.generator (h : Writing gen sendings stored streamCache) (hstep : IdGenerators.World.Step gen gen')
    (hfinished : gen'.self.finished = gen.self.finished) : Writing gen' sendings stored streamCache := by
  refine ⟨h.reachable.next hstep, hstep.sameConfig.2.2.trans h.upwards,
    fun s hs => (hstep.pending hfinished).1 (h.sending s hs), h.nodup, h.unsent, fun x hx => ?_, h.mirrored,
    h.noted⟩
  obtain ⟨hpos, hlast, hsending⟩ := h.used x hx
  refine ⟨hpos, hlast.trans hstep.last_le, fun hpending => ?_⟩
  rcases (hstep.pending hfinished).2 hpending with hold | hnew
  · exact hsending hold
  · omega

variable {s : Sending}

/-- A call has been given a position that no other call has. -/
theorem Writing.send (h : Writing gen sendings stored streamCache) (hpending : s.streamId ∈ gen.self.pending)
    (hnew : s.streamId ∉ sendings.map Sending.streamId) : Writing gen (sendings ++ [s]) stored streamCache := by
  refine ⟨h.reachable, h.upwards, fun t ht => ?_, ?_, fun t ht hphase => ?_, fun x hx => ?_, h.mirrored, fun x hx => ?_⟩
  · rcases List.mem_append.mp ht with ht | ht
    · exact h.sending t ht
    · rw [List.mem_singleton.mp ht]
      exact hpending
  · rw [map_append, List.map_singleton, ← List.concat_eq_append]
    exact h.nodup.concat hnew
  · rcases List.mem_append.mp ht with ht | ht
    · exact h.unsent t ht hphase
    · rw [List.mem_singleton.mp ht]
      intro x hx heq
      exact hnew (heq ▸ (h.used x hx).2.2 (heq.symm ▸ hpending))
  · obtain ⟨hpos, hlast, hsending⟩ := h.used x hx
    refine ⟨hpos, hlast, fun hp => ?_⟩
    rw [map_append]
    exact List.mem_append_left _ (hsending hp)
  · rcases h.noted x hx with hknown | ⟨t, ht, hrest⟩
    · exact .inl hknown
    · exact .inr ⟨t, List.mem_append_left _ ht, hrest⟩

variable {i : ℕ}

/-- No two calls have one position. -/
theorem Writing.eq_of_streamId (h : Writing gen sendings stored streamCache) {j : ℕ} {t : Sending}
    (hs : sendings[i]? = some s) (ht : sendings[j]? = some t) (heq : t.streamId = s.streamId) : j = i := by
  have hi : (sendings.map Sending.streamId)[i]? = some s.streamId := by rw [getElem?_map, hs]; rfl
  have hj : (sendings.map Sending.streamId)[j]? = some s.streamId := by
    rw [getElem?_map, ht, Option.map_some, heq]
  have hlt := (List.getElem?_eq_some_iff.mp hj).1
  exact (List.getElem?_inj hlt h.nodup).mp (hj.trans hi.symm)

/-- A call that goes on keeps its position. -/
theorem map_streamId_set (hs : sendings[i]? = some s) (phase : SendPhase) :
    (sendings.set i { s with phase }).map Sending.streamId = sendings.map Sending.streamId := by
  refine List.ext_getElem? fun j => ?_
  rw [getElem?_map, getElem?_map, List.getElem?_set]
  split
  · rename_i hij
    subst hij
    have hlt := (List.getElem?_eq_some_iff.mp hs).1
    rw [if_pos hlt, hs]
    rfl
  · rfl

/-- Where one call goes on, the others are as they were. -/
theorem mem_set_iff {s' t : Sending} (hs : sendings[i]? = some s) :
    t ∈ sendings.set i s' ↔ t = s' ∨ ∃ j, j ≠ i ∧ sendings[j]? = some t := by
  have hlt := (List.getElem?_eq_some_iff.mp hs).1
  rw [List.mem_iff_getElem?]
  constructor
  · rintro ⟨j, hj⟩
    by_cases hij : j = i
    · subst hij
      rw [List.getElem?_set_self hlt] at hj
      exact .inl (Option.some.inj hj).symm
    · rw [List.getElem?_set_ne (Ne.symm hij)] at hj
      exact .inr ⟨j, hij, hj⟩
  · rintro (rfl | ⟨j, hne, hj⟩)
    · exact ⟨i, List.getElem?_set_self hlt⟩
    · exact ⟨j, by rw [List.getElem?_set_ne (Ne.symm hne)]; exact hj⟩

/-- A call goes on to another phase; what it leaves has been seen to. -/
theorem Writing.setPhase (h : Writing gen sendings stored streamCache) (hs : sendings[i]? = some s)
    {phase : SendPhase} (hphase : phase ≠ .inserting) (rows : List (Option Source × InboxRow))
    {streamCache' : StreamChangeCache}
    (hrows : ∀ x ∈ rows, x.2.streamId = s.streamId ∧ 0 < x.2.streamId ∧ phase = .noting ∧
      x.2.userId ∈ s.messages.keys) (hmirrored : streamCache'.Mirrored)
    (hadvances : streamCache.Advances streamCache')
    (hnoted : s.phase = .noting → ∀ user ∈ s.messages.keys, streamCache'.Known user s.streamId) :
    Writing gen (sendings.set i { s with phase }) (stored ++ rows) streamCache' := by
  have hmem := mem_of_getElem? hs
  refine ⟨h.reachable, h.upwards, fun t ht => ?_, ?_, fun t ht htphase x hx => ?_, fun x hx => ?_, hmirrored,
    fun x hx => ?_⟩
  · rcases (mem_set_iff hs).mp ht with rfl | ⟨j, -, hj⟩
    · exact h.sending s hmem
    · exact h.sending t (mem_of_getElem? hj)
  · rw [map_streamId_set hs]
    exact h.nodup
  · rcases (mem_set_iff hs).mp ht with rfl | ⟨j, hne, hj⟩
    · exact absurd htphase hphase
    · rcases List.mem_append.mp hx with hx | hx
      · exact h.unsent t (mem_of_getElem? hj) htphase x hx
      · rw [(hrows x hx).1]
        exact fun heq => hne (h.eq_of_streamId hs hj heq.symm)
  · rw [map_streamId_set hs]
    rcases List.mem_append.mp hx with hx | hx
    · exact h.used x hx
    have hpending := h.sending s hmem
    have hallocated := (IdGenerators.World.inv_reachable h.reachable).allocated s.streamId
      (Finset.mem_sdiff.mp hpending).1
    rw [(hrows x hx).1]
    exact ⟨(hrows x hx).1 ▸ (hrows x hx).2.1, hallocated.2, fun _ => List.mem_map_of_mem hmem⟩
  · rcases List.mem_append.mp hx with hx | hx
    · rcases h.noted x hx with hknown | ⟨t, ht, hid, htphase, huser⟩
      · exact .inl (hadvances.known _ _ hknown)
      · obtain ⟨j, hj⟩ := List.mem_iff_getElem?.mp ht
        by_cases hij : j = i
        · subst hij
          obtain rfl : s = t := Option.some.inj (hs.symm.trans hj)
          exact .inl (hid ▸ hnoted htphase _ huser)
        · exact .inr ⟨t, (mem_set_iff hs).mpr (.inr ⟨j, hij, hj⟩), hid, htphase, huser⟩
    · obtain ⟨hid, -, hnoting, huser⟩ := hrows x hx
      exact .inr ⟨_, (mem_set_iff hs).mpr (.inl rfl), hid.symm, hnoting, huser⟩

/-- A call ends, and its position is finished. -/
theorem Writing.finish (h : Writing gen sendings stored streamCache) (hs : sendings[i]? = some s)
    (hphase : s.phase = .finishing) {g : IdGenerators.MultiWriterIdGenerator}
    (hg : gen.self.gen.markIdsAsFinished [s.streamId] = some g) :
    IdGenerators.World.Step gen { gen with self := { gen.self with
      gen := g, finished := gen.self.finished ∪ [s.streamId].toFinset } } ∧
    Writing { gen with self := { gen.self with
      gen := g, finished := gen.self.finished ∪ [s.streamId].toFinset } } (sendings.eraseIdx i) stored
        streamCache := by
  have hmem := mem_of_getElem? hs
  have hids : ∀ u ∈ [s.streamId], u ∈ gen.self.allocated := by
    intro u hu
    rw [List.mem_singleton.mp hu]
    exact (Finset.mem_sdiff.mp (h.sending s hmem)).1
  have hstep : IdGenerators.World.Step gen { gen with self := { gen.self with
      gen := g, finished := gen.self.finished ∪ [s.streamId].toFinset } } :=
    .own (.markIdsAsFinished hids hg)
  have hpending : ∀ u, u ∈ gen.self.allocated \ (gen.self.finished ∪ [s.streamId].toFinset) ↔
      u ∈ gen.self.pending ∧ u ≠ s.streamId := by
    intro u
    simp only [IdGenerators.Instance.pending, Finset.mem_sdiff, Finset.mem_union, not_or, List.toFinset_cons,
      List.toFinset_nil, insert_empty_eq, Finset.mem_singleton, and_assoc, ne_eq]
  have herase : ∀ t, t ∈ sendings.eraseIdx i ↔ ∃ j, j ≠ i ∧ sendings[j]? = some t := fun t =>
    List.mem_eraseIdx_iff_getElem?
  refine ⟨hstep, h.reachable.next hstep, hstep.sameConfig.2.2.trans h.upwards, fun t ht => ?_, ?_,
    fun t ht htphase => ?_, fun x hx => ?_, h.mirrored, fun x hx => ?_⟩
  · obtain ⟨j, hne, hj⟩ := (herase t).mp ht
    exact (hpending _).mpr ⟨h.sending t (mem_of_getElem? hj), fun heq => hne (h.eq_of_streamId hs hj heq)⟩
  · exact h.nodup.sublist ((List.eraseIdx_sublist _ _).map _)
  · exact h.unsent t ((List.eraseIdx_sublist _ _).subset ht) htphase
  · obtain ⟨hpos, hlast, hsending⟩ := h.used x hx
    refine ⟨hpos, hlast, fun hp => ?_⟩
    obtain ⟨hold, hne⟩ := (hpending _).mp hp
    obtain ⟨t, ht, heq⟩ := List.mem_map.mp (hsending hold)
    obtain ⟨j, hj⟩ := List.mem_iff_getElem?.mp ht
    refine List.mem_map.mpr ⟨t, (herase t).mpr ⟨j, fun hji => hne ?_, hj⟩, heq⟩
    subst hji
    rw [← heq, Option.some.inj (hs.symm.trans hj)]
  · rcases h.noted x hx with hknown | ⟨t, ht, hid, htphase, huser⟩
    · exact .inl hknown
    · obtain ⟨j, hj⟩ := List.mem_iff_getElem?.mp ht
      refine .inr ⟨t, (herase t).mpr ⟨j, fun hji => ?_, hj⟩, hid, htphase, huser⟩
      subst hji
      rw [← Option.some.inj (hs.symm.trans hj), hphase] at htphase
      cases htphase

end Writing

/-! ### The reading side -/

section Reading

variable {stored stored' : List (Option Source × InboxRow)} {position token token' sinceStreamId : ℤ}

/-- What comes to positions beyond the token makes no difference to a request. -/
theorem PhaseInv.mono (htoken : token ≤ token') (hmine : ∀ row : InboxRow, row.streamId ≤ token →
      (Mine userId deviceId stored' row ↔ Mine userId deviceId stored row)) {phase : Phase}
    (h : PhaseInv userId deviceId stored position token sinceStreamId phase) :
    PhaseInv userId deviceId stored' position token' sinceStreamId phase := by
  cases phase with
  | reading now => exact ⟨h.1, h.2.trans htoken⟩
  | querying now => exact ⟨h.1, h.2.trans htoken⟩
  | answered now messages next =>
    intro hsince
    obtain ⟨hfrom, hle, hordered, hexact, hfull⟩ := h hsince
    refine ⟨hfrom, hle.trans htoken, hordered, fun row => ?_, hfull⟩
    rw [hexact]
    constructor
    · rintro ⟨hmine', hlt, hnext⟩
      exact ⟨(hmine row (hnext.trans hle)).mpr hmine', hlt, hnext⟩
    · rintro ⟨hmine', hlt, hnext⟩
      exact ⟨(hmine row (hnext.trans hle)).mp hmine', hlt, hnext⟩
  | deletingUpTo _ _ => exact h
  | _ => trivial

/-- A step of the writing side that inserts nothing. -/
theorem Inv.write (h : Inv userId deviceId w) {gen : IdGenerators.World} {sendings : List Sending}
    {streamCache : StreamChangeCache} (hwriting : Writing gen sendings w.stored streamCache)
    (htoken : w.token ≤ gen.self.gen.getPersistedUptoPosition) :
    Inv userId deviceId { w with gen, sendings, streamCache } :=
  ⟨hwriting, h.table, ⟨h.position.1, h.position.2.trans htoken⟩, h.history,
    fun r hr => ⟨(h.requests r hr).1, (h.requests r hr).2.mono htoken fun _ _ => Iff.rfl⟩, h.ordered, h.exact,
    h.received, h.once⟩

variable {i : ℕ} {r : Request}

/-- A request goes on. -/
theorem Inv.setRequest (h : Inv userId deviceId w) (hr : w.requests[i]? = some r) (phase : Phase)
    (hphase : PhaseInv userId deviceId w.stored w.position w.token r.sinceStreamId phase)
    (lastDeleted : Option ℤ) : Inv userId deviceId { w.setRequest i { r with phase } with lastDeleted } := by
  refine ⟨h.writing, h.table, h.position, h.history, fun r' hr' => ?_, h.ordered, h.exact, h.received, h.once⟩
  rcases List.mem_or_eq_of_mem_set hr' with hold | rfl
  · exact h.requests r' hold
  · exact ⟨(h.requests r (mem_of_getElem? hr)).1, hphase⟩

theorem Inv.startDeletion (h : Inv userId deviceId w) (hr : w.requests[i]? = some r) :
    Inv userId deviceId (w.startDeletion userId i r) := by
  unfold World.startDeletion
  split
  · exact h.setRequest hr .syncing trivial w.lastDeleted
  · exact h.setRequest hr (.deleting 0) trivial w.lastDeleted

theorem Inv.selectMax (h : Inv userId deviceId w) (hr : w.requests[i]? = some r)
    (fromStreamId : ℤ) : Inv userId deviceId (w.selectMax userId deviceId i r fromStreamId) := by
  unfold World.selectMax
  split
  · exact h.setRequest hr .syncing trivial _
  · rename_i maxStreamId hmax
    exact h.setRequest hr (.deletingUpTo fromStreamId maxStreamId) (selectMaxStreamId_le hmax) w.lastDeleted

/-- What is deleted is not after the position that the device has left behind. -/
theorem Inv.delete (h : Inv userId deviceId w) {fromStreamId maxStreamId : ℤ} (hr : w.requests[i]? = some r)
    (hphase : r.phase = .deletingUpTo fromStreamId maxStreamId) :
    Inv userId deviceId (w.delete userId deviceId i r fromStreamId maxStreamId) := by
  obtain ⟨hsince, hmax⟩ := h.requests r (mem_of_getElem? hr)
  rw [hphase] at hmax
  have hmax : maxStreamId ≤ r.sinceStreamId := hmax
  have hdeleted : Inv userId deviceId
      { w with inbox := (deleteRows userId deviceId fromStreamId maxStreamId w.inbox).1 } := by
    refine ⟨h.writing, ⟨h.table.distinct, (List.filter_sublist).trans h.table.sublist, fun row hmine hlt => ?_⟩,
      h.position, h.history, h.requests, h.ordered, h.exact, h.received, h.once⟩
    refine mem_deleteRows.mpr ⟨h.table.kept row hmine hlt, fun ⟨_, _, hle⟩ => ?_⟩
    have hlt : w.position < row.streamId := hlt
    omega
  unfold World.delete
  dsimp only
  split
  · exact hdeleted.setRequest hr .syncing trivial _
  · exact hdeleted.setRequest hr (.deleting maxStreamId) trivial w.lastDeleted

/-- **The cache may be asked first**: if it does not know of a change, there are no messages. -/
theorem Inv.checkCache (h : Inv userId deviceId w) {now : ℤ} (hr : w.requests[i]? = some r)
    (hphase : r.phase = .reading now) : Inv userId deviceId (w.checkCache userId i r now) := by
  obtain ⟨hsince, hnow⟩ := h.requests r (mem_of_getElem? hr)
  rw [hphase] at hnow
  obtain ⟨hle, htoken⟩ : r.sinceStreamId ≤ now ∧ now ≤ w.token := hnow
  unfold World.checkCache
  split
  · rename_i hunchanged
    refine h.setRequest hr (.answered (some now) [] now) (fun hat => ?_) w.lastDeleted
    refine ⟨hat ▸ hle, htoken, .nil, fun row => ?_, fun t ht => .inl (Option.some.inj ht)⟩
    refine ⟨fun hin => absurd hin not_mem_nil, fun ⟨⟨⟨source, hx⟩, hfor⟩, hlt, hend⟩ => ?_⟩
    exfalso
    rcases hunchanged with heq | hunchanged
    · omega
    have hknown := h.writing.known hx (le_trans hend htoken)
    have hsees := hasEntityChanged_iff.mpr (hknown.sees (hat ▸ hlt))
    rw [InboxRow.isFor, Bool.and_eq_true, decide_eq_true_eq] at hfor
    rw [hfor.1, hunchanged] at hsees
    cases hsees
  · exact h.setRequest hr (.querying now) ⟨hle, htoken⟩ w.lastDeleted

theorem Inv.query (h : Inv userId deviceId w) {now : ℤ} (hr : w.requests[i]? = some r)
    (hphase : r.phase = .querying now) : Inv userId deviceId (w.query userId deviceId i r now) := by
  obtain ⟨hsince, hnow⟩ := h.requests r (mem_of_getElem? hr)
  rw [hphase] at hnow
  obtain ⟨hle, htoken⟩ : r.sinceStreamId ≤ now ∧ now ≤ w.token := hnow
  have hdistinct : ((w.inbox.filter (InboxRow.isFor userId deviceId)).map InboxRow.streamId).Nodup :=
    h.table.distinct.sublist ((h.table.sublist.filter _).map _)
  unfold World.query
  cases hpage : getDeviceMessagesTxn userId deviceId r.sinceStreamId now 100 w.inbox with
  | mk messages next =>
    obtain ⟨hfrom, hend, hordered, hexact, hfull⟩ :=
      getDeviceMessagesTxn_spec hdistinct hle (by omega) hpage
    refine h.setRequest hr (.answered (some now) messages next) (fun hat => ?_) w.lastDeleted
    refine ⟨hat ▸ hfrom, hend.trans htoken, hordered, fun row => ?_, fun t ht => ?_⟩
    · rw [hexact, hat]
      constructor
      · rintro ⟨hin, hfor, hlt, hnext⟩
        obtain ⟨x, hx, rfl⟩ := List.mem_map.mp (h.table.sublist.subset hin)
        exact ⟨⟨⟨x.1, hx⟩, hfor⟩, hlt, hnext⟩
      · rintro ⟨hmine, hlt, hnext⟩
        exact ⟨h.table.kept row hmine hlt, hmine.2, hlt, hnext⟩
    · obtain rfl : now = t := Option.some.inj ht
      exact hfull

/-- The device goes on: what it is given follows what it has. -/
theorem Inv.continueFrom (h : Inv userId deviceId w) {now : Option ℤ} {messages : List InboxRow} {next : ℤ}
    (hr : w.requests[i]? = some r) (hphase : r.phase = .answered now messages next)
    (hsince : r.since = w.since) : Inv userId deviceId (w.continueFrom messages next) := by
  have hpage := (h.requests r (mem_of_getElem? hr)).2
  rw [hphase] at hpage
  obtain ⟨hfrom, hle, hordered, hexact, -⟩ := hpage (by rw [Request.sinceStreamId, hsince]; rfl)
  have hposition : (w.continueFrom messages next).position = next := rfl
  refine ⟨h.writing, ⟨h.table.distinct, h.table.sublist, fun row hmine hlt => ?_⟩, ⟨h.position.1.trans hfrom, hle⟩,
    ⟨List.mem_cons_self, fun since hs => ?_⟩, fun r' hr' => ?_, ?_, fun row => ?_, h.received, h.once⟩
  · exact h.table.kept row hmine (lt_of_le_of_lt hfrom hlt)
  · rcases List.mem_cons.mp hs with rfl | hs
    · exact le_refl next
    · exact (h.history.2 since hs).trans hfrom
  · obtain ⟨hold, hinv⟩ := h.requests r' hr'
    refine ⟨hold.trans hfrom, ?_⟩
    -- either the device stays where it was, or the request is from a position that it has left
    by_cases hstay : next = w.position
    · rw [hstay]
      exact hinv
    generalize r'.phase = phase at hinv ⊢
    cases phase with
    | answered now' messages' next' =>
      intro heq
      omega
    | _ => exact hinv
  · refine List.pairwise_append.mpr ⟨h.ordered, hordered, fun a ha b hb => ?_⟩
    exact lt_of_le_of_lt ((h.exact a).mp ha).2 ((hexact b).mp hb).2.1
  · show row ∈ w.chain ++ messages ↔ _ ∧ row.streamId ≤ next
    rw [List.mem_append, h.exact, hexact]
    constructor
    · rintro (⟨hmine, hold⟩ | ⟨hmine, -, hnew⟩)
      · exact ⟨hmine, hold.trans hfrom⟩
      · exact ⟨hmine, hnew⟩
    rintro ⟨hmine, hnext⟩
    rcases le_or_gt row.streamId w.position with hold | hnew
    · exact .inl ⟨hmine, hold⟩
    · exact .inr ⟨hmine, hnew, hnext⟩

/-- A transaction inserts rows at a position beyond the token: no request has come to it yet. -/
theorem Inv.insertRows (h : Inv userId deviceId w) {s : Sending} (devices : String → List String)
    (hs : w.sendings[i]? = some s) (hphase : s.phase = .inserting)
    (hclean : ∀ source ∈ s.source, source ∉ w.cleaned) : Inv userId deviceId (w.insertRows devices i s) := by
  have hmem := mem_of_getElem? hs
  have hbeyond : w.token < s.streamId := h.writing.token_lt (h.writing.sending s hmem)
  unfold World.insertRows
  cases htxn : addMessagesTxn devices s.source s.messages s.streamId w.federationInbox with
  | mk rows federationInbox =>
    obtain ⟨hrows, hdevices, hreceived, hfederation⟩ := addMessagesTxn_spec htxn
    have hone := length_filter_isFor_le hdevices userId deviceId
    have hadded : ∀ x ∈ rows.map fun row => (s.source, row), x.1 = s.source ∧ x.2 ∈ rows := by
      intro x hx
      obtain ⟨row, hrow, rfl⟩ := List.mem_map.mp hx
      exact ⟨rfl, hrow⟩
    have hmine : ∀ row : InboxRow, row.streamId ≤ w.token →
        (Mine userId deviceId (w.stored ++ rows.map fun row => (s.source, row)) row ↔
          Mine userId deviceId w.stored row) := by
      intro row hle
      refine and_congr_left fun _ => exists_congr fun source => ?_
      rw [List.mem_append]
      refine or_iff_left fun hin => ?_
      have hid := (hrows row (hadded _ hin).2).1
      omega
    have hsnd : (w.stored ++ rows.map fun row => (s.source, row)).map Prod.snd = w.stored.map Prod.snd ++ rows := by
      rw [map_append, List.map_map]
      exact congrArg _ (List.map_id _)
    have hwriting := h.writing.setPhase hs (show SendPhase.noting ≠ .inserting by decide)
      (rows.map fun row => (s.source, row)) (fun x hx => by
        obtain ⟨-, hin⟩ := hadded x hx
        obtain ⟨hid, huser⟩ := hrows _ hin
        have hpos := h.position
        exact ⟨hid, by omega, rfl, huser⟩) h.writing.mirrored (.refl h.writing.mirrored)
      (fun hnoting => by rw [hphase] at hnoting; cases hnoting)
    refine ⟨hwriting, ⟨?_, ?_, fun row hrow hlt => ?_⟩, h.position, h.history, fun r hr => ?_, h.ordered,
      fun row => ?_, fun x hx source hsource => ?_, ?_⟩
    · show (((w.stored ++ rows.map fun row => (s.source, row)).map Prod.snd).filter _ |>.map _).Nodup
      rw [hsnd, List.filter_append, map_append, List.nodup_append]
      refine ⟨h.table.distinct, nodup_of_length_le_one (by rw [List.length_map]; exact hone), fun a ha b hb heq => ?_⟩
      obtain ⟨row, hrow, rfl⟩ := List.mem_map.mp ha
      obtain ⟨x, hx, rfl⟩ := List.mem_map.mp (List.mem_filter.mp hrow).1
      obtain ⟨row', hrow', rfl⟩ := List.mem_map.mp hb
      rw [(hrows row' (List.mem_filter.mp hrow').1).1] at heq
      exact h.writing.unsent s hmem hphase x hx heq
    · show (w.inbox ++ rows).Sublist _
      rw [hsnd]
      exact h.table.sublist.append_right rows
    · obtain ⟨⟨source, hin⟩, hfor⟩ := hrow
      rcases List.mem_append.mp hin with hin | hin
      · exact List.mem_append_left _ (h.table.kept row ⟨⟨source, hin⟩, hfor⟩ hlt)
      · exact List.mem_append_right _ (hadded _ hin).2
    · exact ⟨(h.requests r hr).1, (h.requests r hr).2.mono (le_refl _) hmine⟩
    · show row ∈ w.chain ↔ _ ∧ row.streamId ≤ w.position
      rw [h.exact]
      refine and_congr_left fun hle => (hmine row (hle.trans h.position.2)).symm
    · rcases List.mem_append.mp hx with hx | hx
      · exact (h.received x hx source hsource).imp_left fun hin => hreceived hin
      · rw [(hadded x hx).1] at hsource
        exact .inl (hfederation source hsource).1
    · show ((w.stored ++ rows.map fun row => (s.source, row)).filter _ |>.filterMap _).Nodup
      rw [List.filter_append, List.filterMap_append, List.nodup_append]
      refine ⟨h.once, nodup_of_length_le_one ?_, fun a ha b hb heq => ?_⟩
      · refine (List.length_filterMap_le _ _).trans ?_
        rw [List.filter_map, List.length_map]
        exact hone
      subst heq
      obtain ⟨x, hx, hxa⟩ := List.mem_filterMap.mp ha
      obtain ⟨y, hy, hya⟩ := List.mem_filterMap.mp hb
      obtain ⟨hysource, hyrows⟩ := hadded y (List.mem_filter.mp hy).1
      have hsource : a ∈ s.source := hysource ▸ hya
      rcases h.received x (List.mem_filter.mp hx).1 a hxa with hin | hin
      · rw [(hfederation a hsource).2 hin] at hyrows
        exact not_mem_nil hyrows
      · exact hclean a hsource hin

end Reading

/-! ### Runs -/

variable {order : IterOrder String}

theorem Start.inv (h : Start userId deviceId order w) : Inv userId deviceId w := by
  obtain ⟨tieBreak, maxSize, hcache⟩ := h.streamCache
  obtain ⟨hsendings, hrequests, hfederation, hcleaned⟩ := h.idle
  obtain ⟨hsince, hhistory, hchain⟩ := h.device
  have hposition : w.position = 0 := by rw [World.position, hsince]; rfl
  have hinbox : w.stored.map Prod.snd = w.inbox := by
    rw [h.stored, List.map_map]
    exact List.map_id _
  have hrow : ∀ x ∈ w.stored, x.1 = none ∧ x.2 ∈ w.inbox := by
    intro x hx
    rw [h.stored] at hx
    obtain ⟨row, hin, rfl⟩ := List.mem_map.mp hx
    exact ⟨rfl, hin⟩
  have hnone : ∀ u, u ∉ w.gen.self.pending := by
    obtain ⟨_, _, _, _, _, hself, _⟩ := h.gen.1
    rw [hself]
    exact fun u hu => not_mem_nil hu
  obtain ⟨hmirrored, hknown⟩ := prefilled_spec order tieBreak maxSize w.token (by omega : 0 < 1000)
    (w.inbox.map fun row => (row.userId, row.streamId))
  rw [← hcache] at hmirrored hknown
  refine ⟨⟨.start h.gen.1, h.gen.2, ?_, ?_, ?_, fun x hx => ?_, hmirrored, fun x hx => .inl ?_⟩,
    ⟨hinbox.symm ▸ h.distinct, hinbox ▸ .refl _, fun row hmine _ => ?_⟩, ⟨hposition.ge, ?_⟩, ⟨?_, fun since hs => ?_⟩,
    ?_, ?_, fun row => ?_, fun x hx source hsource => ?_, ?_⟩
  · simp [hsendings]
  · simp [hsendings]
  · simp [hsendings]
  · obtain ⟨hpos, hlast⟩ := h.rows x.2 (hrow x hx).2
    exact ⟨hpos, hlast, fun hpending => absurd hpending (hnone _)⟩
  · exact hknown _ (List.mem_map.mpr ⟨x.2, (hrow x hx).2, rfl⟩)
  · obtain ⟨⟨source, hx⟩, -⟩ := hmine
    exact (hrow _ hx).2
  · rw [hposition, World.token, IdGenerators.MultiWriterIdGenerator.getPersistedUptoPosition,
      IdGenerators.MultiWriterIdGenerator.returnFactor, if_pos h.gen.2, one_mul]
    exact le_trans (by decide) h.gen.1.one_le_upto
  · simp [hsince, hhistory]
  · rw [hhistory, List.mem_singleton] at hs
    rw [hs, hposition]
    exact le_refl _
  · simp [hrequests]
  · simp [hchain]
  · rw [hchain, hposition]
    refine ⟨fun hin => absurd hin not_mem_nil, fun hthere => ?_⟩
    obtain ⟨⟨⟨source, hx⟩, -⟩, hle⟩ := hthere
    have hpos := (h.rows row (hrow _ hx).2).1
    omega
  · rw [(hrow x hx).1] at hsource
    cases hsource
  · refine (List.filterMap_eq_nil_iff.mpr fun x hx => ?_) ▸ List.nodup_nil
    exact (hrow x (List.mem_filter.mp hx).1).1

theorem inv_step (h : Inv userId deviceId w) (hstep : Step userId deviceId order w w') :
    Inv userId deviceId w' := by
  cases hstep with
  | generator hgen hfinished =>
    exact h.write (h.writing.generator hgen hfinished) (h.writing.token_mono hgen)
  | send source messages hpending hnew =>
    exact h.write (h.writing.send hpending hnew) (le_refl _)
  | insertRows devices hs hphase hclean => exact h.insertRows devices hs hphase hclean
  | insertFails hs hphase =>
    have hwriting := h.writing.setPhase hs (show SendPhase.finishing ≠ .inserting by decide) []
      (fun x hx => absurd hx not_mem_nil) h.writing.mirrored (.refl h.writing.mirrored)
      (fun hnoting => by rw [hphase] at hnoting; cases hnoting)
    rw [List.append_nil] at hwriting
    exact h.write hwriting (le_refl _)
  | @note i s hs hphase =>
    obtain ⟨hadvances, hknown⟩ := noteAll_spec order h.writing.mirrored
      (s.messages.keys.map fun user => (user, s.streamId))
    have hwriting := h.writing.setPhase hs (show SendPhase.finishing ≠ .inserting by decide) []
      (fun x hx => absurd hx not_mem_nil) hadvances.mirrored hadvances
      (fun _ user huser => hknown _ (List.mem_map.mpr ⟨user, huser, rfl⟩))
    rw [List.append_nil] at hwriting
    exact h.write hwriting (le_refl _)
  | finish hs hphase hg =>
    obtain ⟨hgen, hwriting⟩ := h.writing.finish hs hphase hg
    exact h.write hwriting (h.writing.token_mono hgen)
  | cleanUp source =>
    refine ⟨h.writing, h.table, h.position, h.history, h.requests, h.ordered, h.exact, fun x hx s hs => ?_, h.once⟩
    rcases h.received x hx s hs with hin | hin
    · by_cases heq : s = source
      · exact .inr (heq ▸ List.mem_cons_self)
      · exact .inl (List.mem_filter.mpr ⟨hin, decide_eq_true heq⟩)
    · exact .inr (List.mem_cons_of_mem _ hin)
  | expire =>
    exact ⟨h.writing, h.table, h.position, h.history, h.requests, h.ordered, h.exact, h.received, h.once⟩
  | @request since hsince =>
    refine ⟨h.writing, h.table, h.position, h.history, fun r hr => ?_, h.ordered, h.exact, h.received, h.once⟩
    rcases List.mem_append.mp hr with hr | hr
    · exact h.requests r hr
    rw [List.mem_singleton.mp hr]
    refine ⟨h.history.2 since hsince, ?_⟩
    split <;> trivial
  | @timedOut i r hr hphase =>
    have hsince := (h.requests r (mem_of_getElem? hr)).1
    refine h.setRequest hr (.answered none [] r.sinceStreamId) (fun hat => ?_) w.lastDeleted
    refine ⟨hat.ge, hsince.trans h.position.2, .nil, fun row => ?_, fun t ht => absurd ht (Option.not_mem_none t)⟩
    refine ⟨fun hin => absurd hin not_mem_nil, fun ⟨_, hlt, hle⟩ => ?_⟩
    omega
  | caughtUp hr hphase hle => exact h.startDeletion hr
  | selectMax hr hphase => exact h.selectMax hr _
  | delete hr hphase => exact h.delete hr hphase
  | @readToken i r hr hphase =>
    have hsince := (h.requests r (mem_of_getElem? hr)).1
    exact h.setRequest hr (.reading w.token) ⟨hsince.trans h.position.2, le_refl _⟩ w.lastDeleted
  | checkCache hr hphase => exact h.checkCache hr hphase
  | query hr hphase => exact h.query hr hphase
  | again hr hphase => exact h.setRequest hr .syncing trivial w.lastDeleted
  | continueFrom hr hphase hsince => exact h.continueFrom hr hphase hsince

end Invariant

end World

/-- **A device gets its messages once.** In every run of calls that add messages and of sync requests of a
device, which goes on from a response that it has received, the device is given each of its messages once and in
order, and none is deleted before. -/
theorem safe_of_reachable (userId deviceId : String) (order : IterOrder String) {w : World}
    (h : Reachable (World.Start userId deviceId order) (World.Step userId deviceId order) w) :
    World.Safe userId deviceId w :=
  (h.invariant (fun _ hstart => hstart.inv) fun _ _ _ hinv hstep => World.inv_step hinv hstep).safe

/-- A process that has just started, with empty tables. -/
def World.fresh : World where
  gen := ⟨⟨IdGenerators.init "main" ["main"] true IdGenerators.freshRows, 0, ∅, ∅⟩, 1, 1, ∅, ∅⟩
  inbox := []
  federationInbox := []
  streamCache := .new 1 10
  lastDeleted := none
  sendings := []
  requests := []
  since := none
  history := [none]
  chain := []
  stored := []
  cleaned := []

theorem World.fresh_start : World.Start "@a:x" "D" (.sorted String) World.fresh where
  gen := ⟨⟨"main", ["main"], true, IdGenerators.freshRows, freshRows_within _, rfl,
    Or.inr (by decide), rfl, rfl, rfl⟩, rfl⟩
  rows := fun row hrow => absurd hrow not_mem_nil
  distinct := .nil
  streamCache := ⟨.stable, 10, rfl⟩
  idle := ⟨rfl, rfl, rfl, rfl⟩
  device := ⟨rfl, rfl, rfl⟩
  stored := rfl

theorem safe_of_reachable_example :
    ∃ w, Reachable (World.Start "@a:x" "D" (.sorted String)) (World.Step "@a:x" "D" (.sorted String)) w ∧
      w.chain = [⟨"@a:x", "D", 2, "hello"⟩] ∧ World.Safe "@a:x" "D" w := by
  have h0 := (Reachable.start World.fresh_start : Reachable _ (World.Step "@a:x" "D" (.sorted String)) _)
  -- the call gets a position
  have h1 := h0.next (.generator (.own (.enterFetch (Or.inr (by decide)))) rfl)
  have hfetching : IdGenerators.World.Step
      ⟨⟨(IdGenerators.init "main" ["main"] true IdGenerators.freshRows).enterFetch, {⟨1, .started⟩}, ∅, ∅⟩, 1, 1, ∅, ∅⟩
      .fetching := .own (.sequenceFetch [2] rfl (by decide) (by decide))
  have h2 := h1.next (.generator hfetching rfl)
  have h3 := h2.next (.generator (.own (@IdGenerators.InstanceStep.addIds _ 1 _ 0 _ _ rfl rfl)) rfl)
  have h4 := h3.next (.generator (.own (@IdGenerators.InstanceStep.leaveFetch _ _ ⟨1, .added⟩ 0 rfl (Or.inr rfl))) rfl)
  -- it adds a message for all devices of the user
  have hpending : (2 : ℤ) ∈ ({2} \ ∅ : Finset ℤ) := by decide
  have h5 := h4.next (.send none (Dict.empty.set "@a:x" (Dict.empty.set "*" "hello")) hpending List.not_mem_nil)
  have h6 := h5.next (.insertRows (i := 0) (fun _ => ["D", "E"]) rfl rfl (fun _ h => absurd h (Option.not_mem_none _)))
  have h7 := h6.next (.note (i := 0) rfl rfl)
  have h8 := h7.next (.finish (i := 0) rfl rfl rfl)
  -- the device syncs for the first time
  have h9 := h8.next (.request (List.mem_singleton.mpr rfl))
  have h10 := h9.next (.readToken (i := 0) rfl rfl)
  have h11 := h10.next (.checkCache (i := 0) rfl rfl)
  have h12 := h11.next (.query (i := 0) rfl rfl)
  have h13 := h12.next (.continueFrom (i := 0) rfl rfl rfl)
  exact ⟨_, h13, rfl, safe_of_reachable _ _ _ h13⟩

end Setka.Handlers.SyncToDevice
