/-
# Setka.Storage.SlidingSyncTree — the tables stand for a tree of positions.

Beside the tables stands the tree of positions: which position each continues from, what was persisted for it and
what its response sent. Deleting positions and connections keeps the rows of the others, a request adds a position
whose rows are those of its parent with the updates, and when a position is used the lazy members sent with it
become those of the connection.
-/
import Setka.Storage.SlidingSyncRows

namespace Setka.Storage.SlidingSync

open Setka.Api Setka.Lib Setka.Types Dict Function

/-! ## §1 The tree of positions -/

def PerConnectionState.empty : PerConnectionState := ⟨none, ∅, ∅, ∅, ∅⟩

/-- A state with the updates of a request. -/
def overlay (s : PerConnectionState) (u : Updates) : PerConnectionState :=
  { lastUsedTs := none
    rooms := s.rooms.update u.rooms
    receipts := s.receipts.update u.receipts
    accountData := s.accountData.update u.accountData
    roomConfigs := s.roomConfigs.update u.roomConfigs }

/-- What was persisted for each position, the one that it was built on, and what its response sent lazily. -/
structure History where
  persisted : ℕ → PerConnectionState
  parent : ℕ → Option ℕ
  response : ℕ → Dict String RoomLazyMembershipChanges

namespace History

def start : History := ⟨fun _ => .empty, fun _ => none, fun _ => ∅⟩

/-- A position is added. -/
def extend (h : History) (position : ℕ) (previous : Option ℕ) (u : Updates) : History :=
  { persisted := Function.update h.persisted position (overlay (previous.elim .empty h.persisted) u)
    parent := Function.update h.parent position previous
    response := Function.update h.response position u.roomLazyMembership }

end History

/-- **A membership that was sent on the way to a position**: in the response with that position or with one that it
continues from, and not invalidated since. -/
inductive SentOnPath (h : History) (room user : String) : ℕ → Prop
  | sent {q : ℕ} {c : RoomLazyMembershipChanges} : (h.response q).get? room = some c →
      c.returnedUserIdToLastSeenTsMap.get? user = some none → invalidates (h.response q) room user = false →
      SentOnPath h room user q
  | kept {q p : ℕ} : h.parent q = some p → SentOnPath h room user p →
      invalidates (h.response q) room user = false → SentOnPath h room user q

variable {h : History} {position : ℕ}

/-- A position that is added is on no path to one that was there. -/
theorem SentOnPath.extend (hparent : ∀ q p, h.parent q = some p → p < q) {room user : String} {q : ℕ}
    (hq : q < position) (previous : Option ℕ) (u : Updates) (hsent : SentOnPath h room user q) :
    SentOnPath (h.extend position previous u) room user q := by
  induction hsent with
  | @sent q c hresponse hreturned hvalid =>
    have hsame : (h.extend position previous u).response q = h.response q :=
      update_of_ne (Nat.ne_of_lt hq) _ _
    exact .sent (by rw [hsame]; exact hresponse) hreturned (by rw [hsame]; exact hvalid)
  | @kept q p hp _ hvalid ih =>
    have hsame : (h.extend position previous u).response q = h.response q :=
      update_of_ne (Nat.ne_of_lt hq) _ _
    have hsameParent : (h.extend position previous u).parent q = h.parent q :=
      update_of_ne (Nat.ne_of_lt hq) _ _
    have hlt := hparent q p hp
    exact .kept (by rw [hsameParent]; exact hp) (ih (by omega)) (by rw [hsame]; exact hvalid)

/-! ## §2 The tables and the tree -/

/-- **The tables stand for the tree**: the rows of a position that is not deleted for the state persisted for it,
and the rows of lazy members for memberships sent on the way, to one position or to all of the connection. -/
structure Inv (env : SyncEnv) (h : History) (t : Tables) : Prop where
  positionFresh : ∀ q key, t.positions.get? q = some key → q < t.nextPosition
  connected : ∀ q key, t.positions.get? q = some key → ∃ c, t.connections.get? key = some c
  keyFresh : ∀ key c, t.connections.get? key = some c → key < t.nextConnectionKey
  idFresh : ∀ id row, t.requiredState.get? id = some row → id < t.nextRequiredStateId
  texts : ∀ id row, t.requiredState.get? id = some row → ∃ m, row.2 = env.serialize m
  streamsLive : ∀ q name room row, t.streams.get? (q, name, room) = some row →
    (∃ key, t.positions.get? q = some key) ∧ ∃ stream : Stream, stream.name = name
  configsLive : ∀ q room row, t.roomConfigs.get? (q, room) = some row → ∃ key, t.positions.get? q = some key
  stores : ∀ q key, t.positions.get? q = some key → StoresState env key q t (h.persisted q)
  lazyFresh : ∀ key room user row, t.lazyMembers.get? (key, room, user) = some row → key < t.nextConnectionKey
  lazyOne : ∀ key room user q ts, t.lazyMembers.get? (key, room, user) = some (some q, ts) →
    t.positions.get? q = some key ∧ SentOnPath h room user q
  lazyAll : ∀ key room user ts, t.lazyMembers.get? (key, room, user) = some (none, ts) →
    ∀ q, t.positions.get? q = some key → SentOnPath h room user q
  parentLt : ∀ q p, h.parent q = some p → p < q

/-- Rows are deleted, but none of a position that stays. -/
structure Shrinks (t t' : Tables) : Prop where
  positions : ∀ q key, t'.positions.get? q = some key → t.positions.get? q = some key
  connections : ∀ key c, t'.connections.get? key = some c → t.connections.get? key = some c
  connected : ∀ q key c, t'.positions.get? q = some key → t.connections.get? key = some c →
    t'.connections.get? key = some c
  streams : ∀ q k row, t'.streams.get? (q, k) = some row →
    t.streams.get? (q, k) = some row ∧ ∃ key, t'.positions.get? q = some key
  streamsKept : ∀ q key k, t'.positions.get? q = some key → t'.streams.get? (q, k) = t.streams.get? (q, k)
  roomConfigs : ∀ q k row, t'.roomConfigs.get? (q, k) = some row →
    t.roomConfigs.get? (q, k) = some row ∧ ∃ key, t'.positions.get? q = some key
  roomConfigsKept : ∀ q key k, t'.positions.get? q = some key → t'.roomConfigs.get? (q, k) = t.roomConfigs.get? (q, k)
  requiredState : ∀ id row, t'.requiredState.get? id = some row → t.requiredState.get? id = some row
  requiredStateKept : ∀ q key id text, t'.positions.get? q = some key →
    t.requiredState.get? id = some (key, text) → t'.requiredState.get? id = some (key, text)
  lazyMembers : ∀ k row, t'.lazyMembers.get? k = some row →
    t.lazyMembers.get? k = some row ∧ ∀ q, row.1 = some q → ∃ key, t'.positions.get? q = some key
  nextConnectionKey : t'.nextConnectionKey = t.nextConnectionKey
  nextPosition : t'.nextPosition = t.nextPosition
  nextRequiredStateId : t'.nextRequiredStateId = t.nextRequiredStateId

variable {env : SyncEnv} {key : ℕ}

theorem StoresConfig.mono {requiredState requiredState' : Dict ℕ (ℕ × String)}
    (h : ∀ id text, requiredState.get? id = some (key, text) → requiredState'.get? id = some (key, text))
    {row : Option (ℤ × ℕ)} {c : Option RoomSyncConfig}
    (hrel : Option.Rel (StoresConfig env key requiredState) row c) :
    Option.Rel (StoresConfig env key requiredState') row c := by
  cases hrel with
  | none => exact .none
  | some hc => exact .some ⟨hc.timelineLimit, h _ _ hc.requiredState⟩

variable {t t' : Tables}

theorem Inv.shrink (hinv : Inv env h t) (hs : Shrinks t t') : Inv env h t' where
  positionFresh q key hq := by
    rw [hs.nextPosition]
    exact hinv.positionFresh q key (hs.positions q key hq)
  connected q key hq := by
    obtain ⟨c, hc⟩ := hinv.connected q key (hs.positions q key hq)
    exact ⟨c, hs.connected q key c hq hc⟩
  keyFresh key c hc := by
    rw [hs.nextConnectionKey]
    exact hinv.keyFresh key c (hs.connections key c hc)
  idFresh id row hrow := by
    rw [hs.nextRequiredStateId]
    exact hinv.idFresh id row (hs.requiredState id row hrow)
  texts id row hrow := hinv.texts id row (hs.requiredState id row hrow)
  streamsLive q name room row hrow := by
    obtain ⟨hrow, hlive⟩ := hs.streams q (name, room) row hrow
    exact ⟨hlive, (hinv.streamsLive q name room row hrow).2⟩
  configsLive q room row hrow := (hs.roomConfigs q room row hrow).2
  stores q key hq := by
    have hst := hinv.stores q key (hs.positions q key hq)
    exact
      { rooms := fun room => by rw [hs.streamsKept q key _ hq]; exact hst.rooms room
        receipts := fun room => by rw [hs.streamsKept q key _ hq]; exact hst.receipts room
        accountData := fun room => by rw [hs.streamsKept q key _ hq]; exact hst.accountData room
        roomConfigs := fun room => by
          rw [hs.roomConfigsKept q key _ hq]
          exact StoresConfig.mono (fun id text => hs.requiredStateKept q key id text hq) (hst.roomConfigs room) }
  lazyFresh key room user row hrow := by
    rw [hs.nextConnectionKey]
    exact hinv.lazyFresh key room user row (hs.lazyMembers _ row hrow).1
  lazyOne key room user q ts hrow := by
    obtain ⟨hrow, hlive⟩ := hs.lazyMembers _ _ hrow
    obtain ⟨hq, hsent⟩ := hinv.lazyOne key room user q ts hrow
    obtain ⟨key', hq'⟩ := hlive q rfl
    obtain rfl : key = key' := Option.some.inj (hq.symm.trans (hs.positions q key' hq'))
    exact ⟨hq', hsent⟩
  lazyAll key room user ts hrow q hq :=
    hinv.lazyAll key room user ts (hs.lazyMembers _ _ hrow).1 q (hs.positions q key hq)
  parentLt := hinv.parentLt

/-! ### Deletions -/

theorem get?_filter_of_keep {κ ν : Type} [DecidableEq κ] {p : κ → ν → Bool} {d : Dict κ ν} {k : κ}
    (h : ∀ v, d.get? k = some v → p k v = true) : (d.filter p).get? k = d.get? k := by
  ext v
  rw [get?_filter]
  exact ⟨fun hv => hv.1, fun hv => ⟨hv, h v hv⟩⟩

theorem Inv.deletePositions (hinv : Inv env h t) (gone : ℕ → ℕ → Bool) : Inv env h (t.deletePositions gone) := by
  -- what refers to a position goes exactly if the position does
  have hstays : ∀ q key, (t.deletePositions gone).positions.get? q = some key →
      t.positions.get? q = some key ∧ (t.positions.get? q).any (gone q) = false := by
    intro q key hq
    obtain ⟨hget, hgone⟩ := get?_filter.mp hq
    refine ⟨hget, ?_⟩
    rw [hget]
    simpa using hgone
  have hlives : ∀ q key, t.positions.get? q = some key → (!(t.positions.get? q).any (gone q)) = true →
      ∃ key, (t.deletePositions gone).positions.get? q = some key := by
    intro q key hq hkeep
    rw [hq] at hkeep
    exact ⟨key, get?_filter.mpr ⟨hq, by simpa using hkeep⟩⟩
  refine hinv.shrink
    { positions := fun q key hq => (hstays q key hq).1
      connections := fun key c hc => hc
      connected := fun q key c _ hc => hc
      streams := fun q k row hrow => ?_
      streamsKept := fun q key k hq => ?_
      roomConfigs := fun q k row hrow => ?_
      roomConfigsKept := fun q key k hq => ?_
      requiredState := fun id row hrow => hrow
      requiredStateKept := fun q key id text _ hrow => hrow
      lazyMembers := fun k row hrow => ?_
      nextConnectionKey := rfl
      nextPosition := rfl
      nextRequiredStateId := rfl }
  · obtain ⟨hrow, hkeep⟩ := get?_filter.mp hrow
    obtain ⟨key, hkey⟩ := (hinv.streamsLive q k.1 k.2 row hrow).1
    exact ⟨hrow, hlives q key hkey hkeep⟩
  · refine get?_filter_of_keep fun row _ => ?_
    simp only [(hstays q key hq).2, Bool.not_false]
  · obtain ⟨hrow, hkeep⟩ := get?_filter.mp hrow
    obtain ⟨key, hkey⟩ := hinv.configsLive q k row hrow
    exact ⟨hrow, hlives q key hkey hkeep⟩
  · refine get?_filter_of_keep fun row _ => ?_
    simp only [(hstays q key hq).2, Bool.not_false]
  · obtain ⟨hrow, hkeep⟩ := get?_filter.mp hrow
    refine ⟨hrow, fun q hq => ?_⟩
    obtain ⟨position, ts⟩ := row
    obtain rfl : position = some q := hq
    exact hlives q k.1 (hinv.lazyOne k.1 k.2.1 k.2.2 q ts hrow).1 hkeep

/-- Connections without positions are deleted. -/
theorem Inv.deleteEmptyConnections (hinv : Inv env h t) (isGone : ℕ → Bool) (gone : Connection → Bool)
    (hgone : ∀ key c, t.connections.get? key = some c → isGone key = gone c)
    (hempty : ∀ q key, t.positions.get? q = some key → isGone key = false) : Inv env h { t with
      connections := t.connections.filter fun _ c => !gone c
      requiredState := t.requiredState.filter fun _ row => !isGone row.1
      lazyMembers := t.lazyMembers.filter fun row _ => !isGone row.1 } := by
  refine hinv.shrink
    { positions := fun q key hq => hq
      connections := fun key c hc => (get?_filter.mp hc).1
      connected := fun q key c hq hc => get?_filter.mpr ⟨hc, ?_⟩
      streams := fun q k row hrow => ⟨hrow, (hinv.streamsLive q k.1 k.2 row hrow).1⟩
      streamsKept := fun q key k hq => rfl
      roomConfigs := fun q k row hrow => ⟨hrow, hinv.configsLive q k row hrow⟩
      roomConfigsKept := fun q key k hq => rfl
      requiredState := fun id row hrow => (get?_filter.mp hrow).1
      requiredStateKept := fun q key id text hq hrow => get?_filter.mpr ⟨hrow, ?_⟩
      lazyMembers := fun k row hrow => ?_
      nextConnectionKey := rfl
      nextPosition := rfl
      nextRequiredStateId := rfl }
  · rw [← hgone key c hc, hempty q key hq]
    rfl
  · simp only [hempty q key hq, Bool.not_false]
  · obtain ⟨hrow, _⟩ := get?_filter.mp hrow
    refine ⟨hrow, fun q hq => ?_⟩
    obtain ⟨position, ts⟩ := row
    obtain rfl : position = some q := hq
    exact ⟨k.1, (hinv.lazyOne k.1 k.2.1 k.2.2 q ts hrow).1⟩

theorem Inv.deleteConnections (hinv : Inv env h t)
    (gone : Connection → Bool) : Inv env h (t.deleteConnections gone) := by
  refine (hinv.deletePositions fun _ key => (t.connections.get? key).any gone).deleteEmptyConnections
    (fun key => (t.connections.get? key).any gone) gone (fun key c hc => ?_) fun q key hq => ?_
  · have hget : t.connections.get? key = some c := hc
    simp only [hget, Option.any_some]
  · have hkeep := (get?_filter.mp hq).2
    simpa using hkeep

/-! ### A position is added -/

/-- The connection that a new position is added to: that of the previous one, or a new one. -/
structure Opened (owner : Owner) (previous : Option ℕ) (key : ℕ) (t : Tables) : Prop where
  owned : ∃ c, t.connections.get? key = some c ∧ c.owner = owner
  continues : ∀ p, previous = some p → t.positions.get? p = some key
  fresh : previous = none → (∀ q, t.positions.get? q ≠ some key) ∧
    ∀ room user row, t.lazyMembers.get? (key, room, user) ≠ some row

theorem Inv.addConnection (hinv : Inv env h t) (c : Connection) : Inv env h { t with
      connections := t.connections.set t.nextConnectionKey c
      nextConnectionKey := t.nextConnectionKey + 1 } where
  positionFresh := hinv.positionFresh
  connected q key hq := by
    obtain ⟨c', hc'⟩ := hinv.connected q key hq
    have hlt := hinv.keyFresh key c' hc'
    refine ⟨c', ?_⟩
    rw [get?_set, if_neg (by omega)]
    exact hc'
  keyFresh key c' hc' := by
    dsimp only at hc' ⊢
    rcases of_get?_set hc' with ⟨hkey, -⟩ | ⟨hkey, hc'⟩
    · omega
    · have hlt := hinv.keyFresh key c' hc'
      omega
  idFresh := hinv.idFresh
  texts := hinv.texts
  streamsLive := hinv.streamsLive
  configsLive := hinv.configsLive
  stores q key hq := by
    have hst := hinv.stores q key hq
    exact ⟨hst.rooms, hst.receipts, hst.accountData, hst.roomConfigs⟩
  lazyFresh key room user row hrow := by
    have hlt := hinv.lazyFresh key room user row hrow
    dsimp only
    omega
  lazyOne := hinv.lazyOne
  lazyAll := hinv.lazyAll
  parentLt := hinv.parentLt

variable {owner : Owner}

theorem connectionOf_eq_some {c : Connection} : t.connectionOf owner position = some (key, c) ↔
      t.positions.get? position = some key ∧ t.connections.get? key = some c ∧ c.owner = owner := by
  unfold Tables.connectionOf
  constructor
  · intro h
    obtain ⟨key', hkey', h⟩ := Option.bind_eq_some_iff.mp h
    obtain ⟨c', hc', h⟩ := Option.bind_eq_some_iff.mp h
    by_cases howner : c'.owner = owner
    · rw [if_pos howner] at h
      cases h
      exact ⟨hkey', hc', howner⟩
    · rw [if_neg howner] at h
      cases h
  · rintro ⟨hkey, hc, howner⟩
    rw [hkey, Option.bind_some, hc, Option.bind_some, if_pos howner]

variable {previous : Option ℕ}

theorem Inv.openConnection {now : ℤ} (hinv : Inv env h t)
    (hopen : openConnection now owner previous t = .ok (key, t')) :
    Inv env h t' ∧ Opened owner previous key t' ∧ t'.nextPosition = t.nextPosition := by
  unfold SlidingSync.openConnection at hopen
  cases previous with
  | some p =>
    dsimp only at hopen
    cases hconn : t.connectionOf owner p with
    | none =>
      rw [hconn] at hopen
      cases hopen
    | some row =>
      obtain ⟨key', c⟩ := row
      rw [hconn] at hopen
      cases hopen
      obtain ⟨hp, hc, howner⟩ := connectionOf_eq_some.mp hconn
      refine ⟨hinv, ⟨⟨c, hc, howner⟩, fun p' hp' => ?_, fun hnone => by cases hnone⟩, rfl⟩
      cases hp'
      exact hp
  | none =>
    have hdeleted := hinv.deleteConnections fun c => decide (c.owner = owner)
    obtain ⟨rfl, rfl⟩ := Prod.mk.inj (Except.ok.inj hopen)
    refine ⟨hdeleted.addConnection _, ⟨⟨⟨owner, some now⟩, ?_, rfl⟩, fun p hp => (by cases hp), fun _ => ⟨?_, ?_⟩⟩,
      rfl⟩
    · dsimp only
      rw [get?_set, if_pos rfl]
    · intro q hq
      obtain ⟨c, hc⟩ := hdeleted.connected q _ hq
      have hlt := hdeleted.keyFresh _ c hc
      omega
    · intro room user row hrow
      have hlt := hdeleted.lazyFresh _ room user row hrow
      omega

/-- Tokens that survive being printed and parsed. -/
structure PlainUpdates (u : Updates) : Prop where
  rooms : ∀ room s, u.rooms.get? room = some s → ∀ token ∈ s.lastToken, Plain token
  receipts : ∀ room s, u.receipts.get? room = some s → ∀ token ∈ s.lastToken, 0 ≤ token.stream

/-- The rows of updated statuses stand for them, and those of the others are the ones that were there. -/
theorem stores_update {τ : Type} {print : τ → Except Error String} {parse : String → Except Error τ}
    {updates statuses : RoomStatusMap τ} {printed : RoomStatusMap String}
    {old : String → Option (String × Option String)}
    (hback : ∀ room s, updates.get? room = some s → ∀ token ∈ s.lastToken, ∀ string,
      print token = .ok string → parse string = .ok token)
    (hprinted : updates.traverse (fun _ s => s.mapToken print) = .ok printed)
    (hold : ∀ room, Option.Rel (Stores parse) (old room) (statuses.get? room)) (room : String) :
    Option.Rel (Stores parse) (((printed.get? room).map statusRow).or (old room))
      ((statuses.update updates).get? room) := by
  rw [get?_update]
  have hrel := related_traverse hprinted room
  have hback := hback room
  generalize updates.get? room = s, printed.get? room = s' at hrel hback ⊢
  cases hrel with
  | none => exact hold room
  | some hprint => exact .some (stores_of_print (hback _ rfl) hprint)

/-- The rows that a new position starts with stand for the state that it is built on. -/
theorem fromPrevious_rel {ι κ ν μ : Type} [DecidableEq ι] {r : ν → μ → Prop} {d : Dict (ℕ × ι) ν}
    (find : PerConnectionState → κ → Option μ) {persisted : ℕ → PerConnectionState} {k : ι} {room : κ}
    (hnone : find .empty room = none)
    (hsome : ∀ p, previous = some p → Option.Rel r (d.get? (p, k)) (find (persisted p) room)) :
    Option.Rel r (fromPrevious d previous k) (find (previous.elim .empty persisted) room) := by
  cases previous with
  | none =>
    show Option.Rel r none (find .empty room)
    rw [hnone]
    exact .none
  | some p => exact hsome p rfl

/-- The rows of a new position stand for the state that it is built on with the updates. -/
theorem Written.stores (hb : env.store.Bijective) {u : Updates} {d : PerConnectionStateDB} (hinv : Inv env h t)
    (hopen : Opened owner previous key t) (hplain : PlainUpdates u) (hd : fromState env u = .ok d)
    (hw : Written env key previous d t t') :
    StoresState env key t.nextPosition t' (overlay (previous.elim .empty h.persisted) u) := by
  obtain ⟨rooms, hrooms, hd⟩ := except_bind_eq_ok.mp hd
  obtain ⟨receipts, hreceipts, hd⟩ := except_bind_eq_ok.mp hd
  obtain ⟨accountData, haccountData, hd⟩ := except_bind_eq_ok.mp hd
  obtain rfl := Except.ok.inj hd
  have hst : ∀ p, previous = some p → StoresState env key p t (h.persisted p) := fun p hp =>
    hinv.stores p key (hopen.continues p hp)
  refine ⟨fun room => ?_, fun room => ?_, fun room => ?_, fun room => ?_⟩
  · rw [hw.streams]
    exact stores_update (fun room s hs token htoken string hprint =>
        roomToken_back hb (hplain.rooms room s hs token htoken) hprint) hrooms
      (fun room => fromPrevious_rel (fun s room => s.rooms.get? room) rfl fun p hp => (hst p hp).rooms room)
      room
  · rw [hw.streams]
    exact stores_update (fun room s hs token htoken string hprint =>
        multiWriterToken_back hb (hplain.receipts room s hs token htoken) hprint) hreceipts
      (fun room => fromPrevious_rel (fun s room => s.receipts.get? room) rfl
        fun p hp => (hst p hp).receipts room) room
  · rw [hw.streams]
    exact stores_update (fun room s _ token _ string hprint => int_back env.py hprint) haccountData
      (fun room => fromPrevious_rel (fun s room => s.accountData.get? room) rfl
        fun p hp => (hst p hp).accountData room) room
  · obtain ⟨rows, hrows, hget⟩ := hw.roomConfigs
    rw [hget]
    show Option.Rel _ _ (((previous.elim .empty h.persisted).roomConfigs.update u.roomConfigs).get? room)
    rw [get?_update]
    have hrow : Option.Rel (StoresConfig env key t'.requiredState) (rows.get? room) (u.roomConfigs.get? room) :=
      hrows room
    have hold : Option.Rel (StoresConfig env key t'.requiredState) (fromPrevious t.roomConfigs previous room)
        ((previous.elim .empty h.persisted).roomConfigs.get? room) :=
      fromPrevious_rel (fun s room => s.roomConfigs.get? room) rfl fun p hp =>
        StoresConfig.mono (fun id text => hw.requiredStateKept id (key, text)) ((hst p hp).roomConfigs room)
    generalize rows.get? room = row, u.roomConfigs.get? room = c at hrow ⊢
    cases hrow with
    | none => exact hold
    | some hc => exact .some hc

/-- **A request extends the tree**, and the tables stand for it. -/
theorem Inv.extend (hb : env.store.Bijective) {u : Updates} {d : PerConnectionStateDB} (hinv : Inv env h t)
    (hopen : Opened owner previous key t) (hplain : PlainUpdates u) (hd : fromState env u = .ok d)
    (hlazy : ∀ room c user ts, u.roomLazyMembership.get? room = some c →
      c.returnedUserIdToLastSeenTsMap.get? user = some (some ts) →
      ∃ p, previous = some p ∧ SentOnPath h room user p)
    (hw : Written env key previous d t t') : Inv env (h.extend t.nextPosition previous u) t' := by
  have hchanges : d.roomLazyMembership = u.roomLazyMembership := by
    obtain ⟨_, _, hd⟩ := except_bind_eq_ok.mp hd
    obtain ⟨_, _, hd⟩ := except_bind_eq_ok.mp hd
    obtain ⟨_, _, hd⟩ := except_bind_eq_ok.mp hd
    obtain rfl := Except.ok.inj hd
    rfl
  have hnew : ∀ q key', t'.positions.get? q = some key' →
      (q = t.nextPosition ∧ key' = key) ∨ (q < t.nextPosition ∧ t.positions.get? q = some key') := by
    intro q key' hq
    rw [hw.positions, get?_set] at hq
    by_cases heq : q = t.nextPosition
    · rw [if_pos heq] at hq
      cases hq
      exact Or.inl ⟨heq, rfl⟩
    · rw [if_neg heq] at hq
      exact Or.inr ⟨hinv.positionFresh q key' hq, hq⟩
  have hlive : t'.positions.get? t.nextPosition = some key := by rw [hw.positions, get?_set, if_pos rfl]
  have hkept : ∀ q key', t.positions.get? q = some key' → t'.positions.get? q = some key' := by
    intro q key' hq
    have hlt := hinv.positionFresh q key' hq
    rw [hw.positions, get?_set, if_neg (by omega)]
    exact hq
  have hsentOld : ∀ room user q, q < t.nextPosition → SentOnPath h room user q →
      SentOnPath (h.extend t.nextPosition previous u) room user q := fun room user q hq hsent =>
    hsent.extend hinv.parentLt hq previous u
  have hresponse : (h.extend t.nextPosition previous u).response t.nextPosition = u.roomLazyMembership :=
    update_self _ _ _
  -- what was sent on the way to the previous position is sent on the way to the new one, if still valid
  have hsentNew : ∀ room user p, previous = some p → SentOnPath h room user p →
      invalidates u.roomLazyMembership room user = false →
      SentOnPath (h.extend t.nextPosition previous u) room user t.nextPosition := by
    intro room user p hp hsent hvalid
    have hlt := hinv.positionFresh p key (hopen.continues p hp)
    refine .kept (p := p) ?_ (hsentOld room user p hlt hsent) (by rw [hresponse]; exact hvalid)
    rw [← hp]
    exact update_self _ _ _
  have hpersisted : ∀ q, q ≠ t.nextPosition → (h.extend t.nextPosition previous u).persisted q = h.persisted q :=
    fun q hq => update_of_ne hq _ _
  have hrows := hw.lazyMembers
  rw [hchanges] at hrows
  exact
    { positionFresh := fun q key' hq => by
        rw [hw.nextPosition]
        rcases hnew q key' hq with ⟨rfl, _⟩ | ⟨hlt, _⟩
        · omega
        · omega
      connected := fun q key' hq => by
        rw [hw.connections]
        rcases hnew q key' hq with ⟨_, rfl⟩ | ⟨_, hq⟩
        · obtain ⟨c, hc, _⟩ := hopen.owned
          exact ⟨c, hc⟩
        · exact hinv.connected q key' hq
      keyFresh := fun key' c hc => by
        rw [hw.connections] at hc
        rw [hw.nextConnectionKey]
        exact hinv.keyFresh key' c hc
      idFresh := hw.requiredStateFresh
      texts := fun id row hrow => by
        rcases hw.requiredStateAdded id row hrow with hold | ⟨m, rfl⟩
        · exact hinv.texts id row hold
        · exact ⟨m, rfl⟩
      streamsLive := fun q name room row hrow => by
        by_cases hq : q = t.nextPosition
        · subst hq
          refine ⟨⟨key, hlive⟩, ?_⟩
          by_contra hnone
          have hname : ∀ stream : Stream, name ≠ stream.name := fun stream heq => hnone ⟨stream, heq.symm⟩
          rw [hw.unnamed name room hname] at hrow
          obtain ⟨p, _, hrow⟩ := Option.bind_eq_some_iff.mp hrow
          exact hnone (hinv.streamsLive p name room row hrow).2
        · rw [hw.otherStreams q (name, room) hq] at hrow
          obtain ⟨⟨key', hkey'⟩, hname⟩ := hinv.streamsLive q name room row hrow
          exact ⟨⟨key', hkept q key' hkey'⟩, hname⟩
      configsLive := fun q room row hrow => by
        by_cases hq : q = t.nextPosition
        · subst hq
          exact ⟨key, hlive⟩
        rw [hw.otherRoomConfigs q room hq] at hrow
        obtain ⟨key', hkey'⟩ := hinv.configsLive q room row hrow
        exact ⟨key', hkept q key' hkey'⟩
      stores := fun q key' hq => by
        rcases hnew q key' hq with ⟨rfl, rfl⟩ | ⟨hlt, hq⟩
        · have hself : (h.extend t.nextPosition previous u).persisted t.nextPosition =
              overlay (previous.elim .empty h.persisted) u := update_self _ _ _
          rw [hself]
          exact Written.stores hb hinv hopen hplain hd hw
        have hne : q ≠ t.nextPosition := by omega
        rw [hpersisted q hne]
        have hst := hinv.stores q key' hq
        exact
          { rooms := fun room => by rw [hw.otherStreams q _ hne]; exact hst.rooms room
            receipts := fun room => by rw [hw.otherStreams q _ hne]; exact hst.receipts room
            accountData := fun room => by rw [hw.otherStreams q _ hne]; exact hst.accountData room
            roomConfigs := fun room => by
              rw [hw.otherRoomConfigs q room hne]
              exact StoresConfig.mono (fun id text => hw.requiredStateKept id (key', text)) (hst.roomConfigs room) }
      lazyFresh := fun key' room user row hrow => by
        rw [hw.nextConnectionKey]
        rcases (hrows key' room user row hrow).1 with ⟨ts, hold⟩ | ⟨_, rfl, _⟩
        · exact hinv.lazyFresh key' room user _ hold
        · obtain ⟨c, hc, _⟩ := hopen.owned
          exact hinv.keyFresh key' c hc
      lazyOne := fun key' room user q ts hrow => by
        obtain ⟨hcase, hvalid⟩ := hrows key' room user _ hrow
        rcases hcase with ⟨ts', hold⟩ | ⟨hq, hkey, c, lastSeenTs, hc, hlast⟩
        · obtain ⟨hq, hsent⟩ := hinv.lazyOne key' room user q ts' hold
          exact ⟨hkept q key' hq, hsentOld room user q (hinv.positionFresh q key' hq) hsent⟩
        obtain rfl : q = t.nextPosition := Option.some.inj hq
        refine ⟨by rw [hkey]; exact hlive, ?_⟩
        cases lastSeenTs with
        | none =>
          exact .sent (c := c) (by rw [hresponse]; exact hc) hlast (by rw [hresponse]; exact hvalid hkey)
        | some lastSeenTs =>
          -- the user was reported when the request was made
          obtain ⟨p, hp, hsent⟩ := hlazy room c user lastSeenTs hc hlast
          exact hsentNew room user p hp hsent (hvalid hkey)
      lazyAll := fun key' room user ts hrow q hq => by
        obtain ⟨hcase, hvalid⟩ := hrows key' room user _ hrow
        rcases hcase with ⟨ts', hold⟩ | ⟨hnone, _⟩
        · rcases hnew q key' hq with ⟨rfl, rfl⟩ | ⟨hlt, hq⟩
          · cases previous with
            | none => exact absurd hold ((hopen.fresh rfl).2 room user _)
            | some p =>
              have hsent := hinv.lazyAll key' room user ts' hold p (hopen.continues p rfl)
              exact hsentNew room user p rfl hsent (hvalid rfl)
          · exact hsentOld room user q hlt (hinv.lazyAll key' room user ts' hold q hq)
        · cases hnone
      parentLt := fun q p hp => by
        by_cases hq : q = t.nextPosition
        · subst hq
          rw [show (h.extend t.nextPosition previous u).parent t.nextPosition = previous from
            update_self _ _ _] at hp
          exact hinv.positionFresh p key (hopen.continues p hp)
        · rw [show (h.extend t.nextPosition previous u).parent q = h.parent q from update_of_ne hq _ _] at hp
          exact hinv.parentLt q p hp }

/-! ### A position is used -/

theorem Inv.touch (hinv : Inv env h t) (now : ℤ) {c : Connection}
    (hkey : t.connections.get? key = some c) : Inv env h (touch now key c t) := by
  unfold SlidingSync.touch
  by_cases hdue : (c.lastUsedTs.all fun lastUsedTs => updateIntervalLastUsedTs < now - lastUsedTs) = true
  · rw [if_pos hdue]
    exact { hinv with
        connected := fun q key' hq => by
          rw [get?_set]
          by_cases heq : key' = key
          · exact ⟨_, if_pos heq⟩
          · rw [if_neg heq]
            exact hinv.connected q key' hq
        keyFresh := fun key' c' hc' => by
          rcases of_get?_set hc' with ⟨heq, -⟩ | ⟨heq, hc'⟩
          · rw [heq]
            exact hinv.keyFresh key c hkey
          · exact hinv.keyFresh key' c' hc'
        stores := fun q key' hq => by
          have hst := hinv.stores q key' hq
          exact ⟨hst.rooms, hst.receipts, hst.accountData, hst.roomConfigs⟩ }
  · rw [if_neg hdue]
    exact hinv

/-- Other positions of the connection are gone. -/
theorem usePosition_positions {q key' : ℕ} : (usePosition key position t).positions.get? q = some key' ↔
      t.positions.get? q = some key' ∧ (key' = key → q = position) := by
  show (t.positions.filter _).get? q = some key' ↔ _
  rw [get?_filter]
  refine and_congr_right fun _ => ?_
  simp [imp_iff_not_or]

theorem Inv.use (hinv : Inv env h t) (key position : ℕ) : Inv env h (usePosition key position t) := by
  have hdeleted := hinv.deletePositions fun other key' => decide (key' = key) && decide (other ≠ position)
  -- a row of lazy members, as it was before
  have hrow : ∀ k row, (usePosition key position t).lazyMembers.get? k = some row → ∃ old,
      (t.deletePositions fun other key' => decide (key' = key) && decide (other ≠ position)).lazyMembers.get? k =
        some old ∧ (row.1 = old.1 ∨ (row.1 = none ∧ old.1 = some position ∧ k.1 = key)) := by
    intro k row hget
    unfold usePosition at hget
    rw [get?_updateWhere] at hget
    obtain ⟨old, hold, heq⟩ := Option.map_eq_some_iff.mp hget
    refine ⟨old, hold, ?_⟩
    by_cases hmoved : k.1 = key ∧ old.1 = some position
    · rw [if_pos (by simp [hmoved])] at heq
      exact Or.inr ⟨by rw [← heq], hmoved.2, hmoved.1⟩
    · rw [if_neg (by simpa using hmoved)] at heq
      exact Or.inl (by rw [heq])
  exact { hdeleted with
      stores := fun q key' hq => by
        have hst := hdeleted.stores q key' hq
        exact ⟨hst.rooms, hst.receipts, hst.accountData, hst.roomConfigs⟩
      lazyFresh := fun key' room user row hget => by
        obtain ⟨old, hold, _⟩ := hrow _ row hget
        exact hdeleted.lazyFresh key' room user old hold
      lazyOne := fun key' room user q ts hget => by
        obtain ⟨⟨old, ts'⟩, hold, hcase⟩ := hrow _ _ hget
        rcases hcase with hsame | ⟨hnone, _⟩
        · obtain rfl : some q = old := hsame
          exact hdeleted.lazyOne key' room user q ts' hold
        · cases hnone
      lazyAll := fun key' room user ts hget q hq => by
        obtain ⟨⟨old, ts'⟩, hold, hcase⟩ := hrow _ _ hget
        rcases hcase with hsame | ⟨_, hposition, hkey⟩
        · obtain rfl : none = old := hsame
          exact hdeleted.lazyAll key' room user ts' hold q hq
        -- the only position that is left is the one that the row was of
        obtain rfl : old = some position := hposition
        obtain rfl : q = position := (usePosition_positions.mp hq).2 hkey
        exact (hdeleted.lazyOne key' room user q ts' hold).2 }

end Setka.Storage.SlidingSync
