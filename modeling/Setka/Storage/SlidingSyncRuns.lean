/-
# Setka.Storage.SlidingSyncRuns — sliding sync follows the client.

The steps are requests that read a position or persist one, lookups of lazy members, evictions of cached results
and the expiry of connections. In every run what is returned for a position is what was persisted for it, and a
lazy member that is reported was sent on the way to the position. A position is answered until another one of its
connection is used, which may be the one before it, in a retry.
-/
import Setka.Storage.SlidingSyncTree
import Setka.Lib.Transition
import Mathlib.Data.Prod.Lex

namespace Setka.Storage.SlidingSync

open Setka.Api Setka.Lib Setka.Types Dict Function

/-! ## §1 Runs -/

/-- The server and its caches. Which worker has a result in its cache and for how long is not said: it is one cache
from which anything may be dropped at any time. Beside them stand the tree of positions, and the users that were
reported as sent before, with the position they were reported for. -/
structure World where
  tables : Tables
  cache : Dict (Owner × ℕ) PerConnectionState
  history : History
  reported : Finset (ℕ × String × String)

inductive Op
  | get (now : ℤ) (owner : Owner) (position : ℕ)
  | persist (now : ℤ) (owner : Owner) (previous : Option ℕ) (u : Updates)
  | lazyMembers (position : ℕ) (room : String) (userIds : Finset String)
  | evict (keep : Owner × ℕ → Bool)
  | expire (now : ℤ)

namespace World

def start : World := ⟨.empty, ∅, .start, ∅⟩

/-- `get_and_clear_connection_positions`, with its cache. -/
def get (env : SyncEnv) (now : ℤ) (owner : Owner) (position : ℕ) (w : World) :
    Except Error PerConnectionState × World :=
  match w.cache.get? (owner, position) with
  | some state => (.ok state, w)
  | none =>
    match getAndClearConnectionPositions env now owner position w.tables with
    | (.ok state, t) => (.ok state, { w with tables := t, cache := w.cache.set (owner, position) state })
    | (.error e, t) => (.error e, { w with tables := t })

def persist (env : SyncEnv) (now : ℤ) (owner : Owner) (previous : Option ℕ) (u : Updates) (w : World) : World :=
  match persistPerConnectionState env now owner previous u w.tables with
  | .ok (position, t) => { w with tables := t, history := w.history.extend position previous u }
  | .error _ => w

def lazyMembers (position : ℕ) (room : String) (userIds : Finset String) (w : World) : World :=
  { w with
    reported := w.reported ∪
      (getLazyMembers position room userIds w.tables).keys.toFinset.image fun user => (position, room, user) }

def apply (env : SyncEnv) (w : World) : Op → World
  | .get now owner position => (w.get env now owner position).2
  | .persist now owner previous u => w.persist env now owner previous u
  | .lazyMembers position room userIds => w.lazyMembers position room userIds
  | .evict keep => { w with cache := w.cache.filter fun k _ => keep k }
  | .expire now => { w with tables := deleteOldSlidingSyncConnections now w.tables }

/-- What the sync handler promises: the tokens that it records survive printing, and a user that it returns with
a time was reported with that position. -/
def Honest (w : World) : Op → Prop
  | .persist _ _ previous u => PlainUpdates u ∧ ∀ room c user ts, u.roomLazyMembership.get? room = some c →
      c.returnedUserIdToLastSeenTsMap.get? user = some (some ts) →
      ∃ p, previous = some p ∧ (p, room, user) ∈ w.reported
  | _ => True

def Step (env : SyncEnv) (w w' : World) : Prop := ∃ op, w.Honest op ∧ w' = w.apply env op

end World

/-! ### What every step keeps -/

/-- The tables stand for the tree, cached results are right, and what was reported was sent. -/
structure Sound (env : SyncEnv) (w : World) : Prop where
  inv : Inv env w.history w.tables
  cached : ∀ owner q s, w.cache.get? (owner, q) = some s → q < w.tables.nextPosition ∧ Same s (w.history.persisted q)
  reported : ∀ q room user, (q, room, user) ∈ w.reported →
    q < w.tables.nextPosition ∧ SentOnPath w.history room user q

theorem sound_start (env : SyncEnv) : Sound env .start where
  inv :=
    { positionFresh := fun q key hq => by cases hq
      connected := fun q key hq => by cases hq
      keyFresh := fun key c hc => by cases hc
      idFresh := fun id row hrow => by cases hrow
      texts := fun id row hrow => by cases hrow
      streamsLive := fun q name room row hrow => by cases hrow
      configsLive := fun q room row hrow => by cases hrow
      stores := fun q key hq => by cases hq
      lazyFresh := fun key room user row hrow => by cases hrow
      lazyOne := fun key room user q ts hrow => by cases hrow
      lazyAll := fun key room user ts hrow => by cases hrow
      parentLt := fun q p hp => by cases hp }
  cached := fun owner q s hs => by cases hs
  reported := fun q room user h => absurd h (Finset.notMem_empty _)

theorem touch_positions (now : ℤ) (key : ℕ) (c : Connection) (t : Tables) :
    (touch now key c t).positions = t.positions ∧ (touch now key c t).nextPosition = t.nextPosition := by
  unfold touch
  by_cases hdue : (c.lastUsedTs.all fun lastUsedTs => updateIntervalLastUsedTs < now - lastUsedTs) = true
  · rw [if_pos hdue]
    exact ⟨rfl, rfl⟩
  · rw [if_neg hdue]
    exact ⟨rfl, rfl⟩

variable {env : SyncEnv} {h : History} {t : Tables} {owner : Owner} {position key : ℕ} {c : Connection}

/-- **A position that is not deleted is answered** with what was persisted for it. -/
theorem Inv.answer (hinv : Inv env h t) (now : ℤ) (hconn : t.connectionOf owner position = some (key, c)) :
    Inv env h (usePosition key position (SlidingSync.touch now key c t)) ∧
      ∃ state, getAndClearConnectionPositions env now owner position t =
        (.ok state, usePosition key position (SlidingSync.touch now key c t)) ∧ Same state (h.persisted position) := by
  obtain ⟨hposition, hkey, _⟩ := connectionOf_eq_some.mp hconn
  have hused := (hinv.touch now hkey).use key position
  have hlive : (usePosition key position (SlidingSync.touch now key c t)).positions.get? position = some key := by
    refine usePosition_positions.mpr ⟨?_, fun _ => rfl⟩
    rw [(touch_positions now key c t).1]
    exact hposition
  refine ⟨hused, getAndClear_ok hconn (hused.stores position key hlive) ?_ hused.texts⟩
  exact fun name room row hrow => (hused.streamsLive position name room row hrow).2

theorem getAndClear_unknown {now : ℤ} (hconn : t.connectionOf owner position = none) :
    getAndClearConnectionPositions env now owner position t = (.error unknownPosition, t) := by
  unfold getAndClearConnectionPositions getAndClearConnectionPositionsTxn
  rw [hconn]

/-- What a member reported for a position says. -/
theorem Inv.reported (hinv : Inv env h t) {room user : String} {userIds : Finset String} {ts : ℤ}
    (hget : (getLazyMembers position room userIds t).get? user = some ts) :
    position < t.nextPosition ∧ SentOnPath h room user position ∧ user ∈ userIds := by
  unfold getLazyMembers at hget
  cases hkey : t.positions.get? position with
  | none =>
    rw [hkey] at hget
    cases hget
  | some key =>
    rw [hkey] at hget
    rw [get?_mapValues] at hget
    obtain ⟨row, hrow, _⟩ := Option.map_eq_some_iff.mp hget
    obtain ⟨hrow, hcond⟩ := get?_filter.mp hrow
    rw [get?_column, get?_column] at hrow
    obtain ⟨huser, hposition⟩ := Bool.and_eq_true_iff.mp hcond
    refine ⟨hinv.positionFresh position key hkey, ?_, of_decide_eq_true huser⟩
    obtain ⟨rowPosition, rowTs⟩ := row
    rcases Bool.or_eq_true_iff.mp hposition with heq | heq
    · obtain rfl : rowPosition = some position := of_decide_eq_true heq
      exact (hinv.lazyOne key room user position rowTs hrow).2
    · obtain rfl : rowPosition = none := of_decide_eq_true heq
      exact hinv.lazyAll key room user rowTs hrow position hkey

variable {q : ℕ}

theorem Inv.persisted {t' : Tables} (hinv : Inv env h t) {now : ℤ} {previous : Option ℕ} {u : Updates}
    (hok : persistPerConnectionState env now owner previous u t = .ok (q, t')) :
    q = t.nextPosition ∧ ∃ d key opened, fromState env u = .ok d ∧
      SlidingSync.openConnection now owner previous t = .ok (key, opened) ∧ Inv env h opened ∧
      Opened owner previous key opened ∧ opened.nextPosition = t.nextPosition ∧
      Written env key previous d opened t' := by
  unfold persistPerConnectionState at hok
  cases hd : fromState env u with
  | error e =>
    rw [hd] at hok
    cases hok
  | ok d =>
    rw [hd] at hok
    unfold persistPerConnectionStateTxn at hok
    cases hopen : SlidingSync.openConnection now owner previous t with
    | error e =>
      rw [hopen] at hok
      cases hok
    | ok pair =>
      obtain ⟨key, opened⟩ := pair
      rw [hopen] at hok
      obtain ⟨hinv', hopened, hnext⟩ := hinv.openConnection hopen
      -- nothing refers to a position that does not exist yet
      have hnone : ∀ key', opened.positions.get? opened.nextPosition ≠ some key' := by
        intro key' hq
        have hlt := hinv'.positionFresh _ key' hq
        omega
      obtain ⟨rfl, hw⟩ := persistPosition_written hok (fun k => by
          by_contra hrow
          obtain ⟨row, hrow⟩ := Option.ne_none_iff_exists'.mp hrow
          obtain ⟨key', hkey'⟩ := (hinv'.streamsLive _ k.1 k.2 row hrow).1
          exact hnone key' hkey')
        (fun room => by
          by_contra hrow
          obtain ⟨row, hrow⟩ := Option.ne_none_iff_exists'.mp hrow
          obtain ⟨key', hkey'⟩ := hinv'.configsLive _ room row hrow
          exact hnone key' hkey')
        hinv'.idFresh
      exact ⟨hnext, d, key, opened, rfl, rfl, hinv', hopened, hnext, hw⟩

variable {w : World}

/-- Cached results and reports are kept when only the tables change. -/
theorem Sound.withTables (hs : Sound env w) (hinv : Inv env w.history t)
    (hnext : t.nextPosition = w.tables.nextPosition) : Sound env { w with tables := t } where
  inv := hinv
  cached owner q s hget := by
    show q < t.nextPosition ∧ _
    rw [hnext]
    exact hs.cached owner q s hget
  reported q room user hmem := by
    show q < t.nextPosition ∧ _
    rw [hnext]
    exact hs.reported q room user hmem

theorem Sound.get (hs : Sound env w) (now : ℤ) (owner : Owner) (position : ℕ) :
    Sound env (w.get env now owner position).2 := by
  unfold World.get
  cases hcached : w.cache.get? (owner, position) with
  | some state => exact hs
  | none =>
    cases hconn : w.tables.connectionOf owner position with
    | none =>
      rw [getAndClear_unknown hconn]
      exact hs
    | some row =>
      obtain ⟨key, c⟩ := row
      obtain ⟨hinv, state, hok, hsame⟩ := hs.inv.answer now hconn
      have hnext : (usePosition key position (SlidingSync.touch now key c w.tables)).nextPosition =
          w.tables.nextPosition := (touch_positions now key c w.tables).2
      have hlt := hs.inv.positionFresh position key (connectionOf_eq_some.mp hconn).1
      rw [hok]
      exact { (hs.withTables hinv hnext) with
          cached := fun owner' q s hget => by
            show q < (usePosition key position (SlidingSync.touch now key c w.tables)).nextPosition ∧ _
            rw [hnext]
            rcases of_get?_set hget with ⟨heq, rfl⟩ | ⟨heq, hget⟩
            · obtain ⟨_, rfl⟩ := Prod.mk.inj heq
              exact ⟨hlt, hsame⟩
            · exact hs.cached owner' q s hget }

theorem Sound.persist (hb : env.store.Bijective) (hs : Sound env w) (now : ℤ) (owner : Owner)
    (previous : Option ℕ) (u : Updates) (hhonest : w.Honest (.persist now owner previous u)) :
    Sound env (w.persist env now owner previous u) := by
  unfold World.persist
  cases hok : persistPerConnectionState env now owner previous u w.tables with
  | error e => exact hs
  | ok pair =>
    obtain ⟨q, t⟩ := pair
    obtain ⟨hplain, hlazy⟩ := hhonest
    obtain ⟨rfl, d, key, opened, hd, _, hinv, hopened, hnext, hw⟩ := hs.inv.persisted hok
    have hext := hinv.extend hb hopened hplain hd (fun room c user ts hc hlast => by
      obtain ⟨p, hp, hmem⟩ := hlazy room c user ts hc hlast
      exact ⟨p, hp, (hs.reported p room user hmem).2⟩) hw
    have hnext' : t.nextPosition = w.tables.nextPosition + 1 := by rw [hw.nextPosition, hnext]
    rw [hnext] at hext
    refine ⟨hext, fun owner' q s hget => ?_, fun q room user hmem => ?_⟩
    · obtain ⟨hlt, hsame⟩ := hs.cached owner' q s hget
      dsimp only
      refine ⟨by omega, ?_⟩
      rw [show (w.history.extend w.tables.nextPosition previous u).persisted q = w.history.persisted q from
        update_of_ne (by omega) _ _]
      exact hsame
    · obtain ⟨hlt, hsent⟩ := hs.reported q room user hmem
      dsimp only
      exact ⟨by omega, hsent.extend hs.inv.parentLt hlt previous u⟩

theorem Sound.step (hb : env.store.Bijective) {w' : World} (hs : Sound env w)
    (hstep : w.Step env w') : Sound env w' := by
  obtain ⟨op, hhonest, rfl⟩ := hstep
  cases op with
  | get now owner position => exact hs.get now owner position
  | persist now owner previous u => exact hs.persist hb now owner previous u hhonest
  | lazyMembers position room userIds =>
    refine ⟨hs.inv, hs.cached, fun q room' user hmem => ?_⟩
    rcases Finset.mem_union.mp hmem with hmem | hmem
    · exact hs.reported q room' user hmem
    obtain ⟨user', huser', heq⟩ := Finset.mem_image.mp hmem
    cases heq
    obtain ⟨ts, hts⟩ := mem_keys_iff.mp (List.mem_toFinset.mp huser')
    obtain ⟨hlt, hsent, _⟩ := hs.inv.reported hts
    exact ⟨hlt, hsent⟩
  | evict keep => exact ⟨hs.inv, fun owner q s hget => hs.cached owner q s (get?_filter.mp hget).1, hs.reported⟩
  | expire now => exact hs.withTables (hs.inv.deleteConnections (expired now)) rfl

/-! ## §2 What a client gets -/

namespace World

/-- A position that is not deleted. -/
def Live (w : World) (owner : Owner) (q : ℕ) : Prop := (w.tables.connectionOf owner q).isSome

/-- What a position of an owner is deleted by: the use of another one of its connection, a restart of the
connection, or its expiry. -/
def MovesPast (w : World) (owner : Owner) (q : ℕ) : Op → Prop
  | .get _ owner' p => owner' = owner ∧ p ≠ q ∧ w.cache.get? (owner', p) = none
  | .persist _ owner' previous _ => owner' = owner ∧ previous = none
  | .expire now => ∃ key c, w.tables.connectionOf owner q = some (key, c) ∧ expired now c = true
  | _ => False

end World

theorem live_iff :
    w.Live owner q ↔ ∃ key c, w.tables.positions.get? q = some key ∧ w.tables.connections.get? key = some c ∧
      c.owner = owner := by
  unfold World.Live
  rw [Option.isSome_iff_exists]
  constructor
  · rintro ⟨⟨key, c⟩, h⟩
    exact ⟨key, c, connectionOf_eq_some.mp h⟩
  · rintro ⟨key, c, h⟩
    exact ⟨(key, c), connectionOf_eq_some.mpr h⟩

/-- A connection keeps its owner when its position is used. -/
theorem touch_connections (now : ℤ) {key' : ℕ} {c' : Connection} (hkey : t.connections.get? key = some c)
    (hc' : t.connections.get? key' = some c') :
    ∃ c'', (touch now key c t).connections.get? key' = some c'' ∧ c''.owner = c'.owner := by
  unfold touch
  by_cases hdue : (c.lastUsedTs.all fun lastUsedTs => updateIntervalLastUsedTs < now - lastUsedTs) = true
  · rw [if_pos hdue]
    rw [get?_set]
    by_cases heq : key' = key
    · rw [if_pos heq]
      subst heq
      rw [hkey] at hc'
      cases hc'
      exact ⟨_, rfl, rfl⟩
    · rw [if_neg heq]
      exact ⟨c', hc', rfl⟩
  · rw [if_neg hdue]
    exact ⟨c', hc', rfl⟩

theorem live_deleteConnections (gone : Connection → Bool) (hq : t.positions.get? q = some key)
    (hc : t.connections.get? key = some c) (hkeep : gone c = false) :
    (t.deleteConnections gone).positions.get? q = some key ∧
      (t.deleteConnections gone).connections.get? key = some c := by
  refine ⟨get?_filter.mpr ⟨hq, ?_⟩, get?_filter.mpr ⟨hc, ?_⟩⟩
  · dsimp only
    rw [hc]
    simpa using hkeep
  · simpa using hkeep

/-- **A position that is not deleted stays** until a step moves past it. -/
theorem Sound.stays (hs : Sound env w) (hlive : w.Live owner q) (op : Op)
    (hop : ¬ w.MovesPast owner q op) : (w.apply env op).Live owner q := by
  obtain ⟨key, c, hq, hc, howner⟩ := live_iff.mp hlive
  cases op with
  | get now owner' p =>
    show ((w.get env now owner' p).2).Live owner q
    unfold World.get
    cases hcached : w.cache.get? (owner', p) with
    | some state => exact hlive
    | none =>
      cases hconn : w.tables.connectionOf owner' p with
      | none =>
        rw [getAndClear_unknown hconn]
        exact hlive
      | some row =>
        obtain ⟨key', c'⟩ := row
        obtain ⟨_, state, hok, _⟩ := hs.inv.answer now hconn
        obtain ⟨hp, hc', howner'⟩ := connectionOf_eq_some.mp hconn
        rw [hok]
        obtain ⟨c'', hc'', howner''⟩ := touch_connections now hc' hc
        refine live_iff.mpr ⟨key, c'', usePosition_positions.mpr ⟨?_, fun hkey => ?_⟩, hc'', howner''.trans howner⟩
        · rw [(touch_positions now key' c' w.tables).1]
          exact hq
        -- another position of the same connection is not used
        subst hkey
        rw [hc] at hc'
        cases hc'
        by_contra hne
        exact hop ⟨howner'.symm.trans howner, fun heq => hne heq.symm, hcached⟩
  | persist now owner' previous u =>
    show (w.persist env now owner' previous u).Live owner q
    unfold World.persist
    cases hok : persistPerConnectionState env now owner' previous u w.tables with
    | error e => exact hlive
    | ok pair =>
      obtain ⟨q', t⟩ := pair
      obtain ⟨rfl, d, key', opened, _, hopen, hinv, _, hnext, hw⟩ := hs.inv.persisted hok
      have hlt := hs.inv.positionFresh q key hq
      have hopened : opened.positions.get? q = some key ∧ opened.connections.get? key = some c := by
        unfold openConnection at hopen
        cases previous with
        | some p =>
          dsimp only at hopen
          cases hconn : w.tables.connectionOf owner' p with
          | none =>
            rw [hconn] at hopen
            cases hopen
          | some row =>
            rw [hconn] at hopen
            cases hopen
            exact ⟨hq, hc⟩
        | none =>
          -- the connections of another owner are left alone
          have hother : c.owner ≠ owner' := fun heq => hop ⟨heq.symm.trans howner, rfl⟩
          obtain ⟨hq', hc'⟩ := live_deleteConnections
            (fun c => decide (c.owner = owner')) hq hc (decide_eq_false hother)
          have hkey := hs.inv.keyFresh key c hc
          cases hopen
          refine ⟨hq', ?_⟩
          rw [get?_set, if_neg]
          · exact hc'
          · show key ≠ w.tables.nextConnectionKey
            omega
      refine live_iff.mpr ⟨key, c, ?_, ?_, howner⟩
      · dsimp only
        rw [hw.positions, get?_set, if_neg (by omega)]
        exact hopened.1
      rw [hw.connections]
      exact hopened.2
  | lazyMembers position room userIds => exact hlive
  | evict keep => exact hlive
  | expire now =>
    have hkeep : expired now c = false := by
      by_contra hexpired
      exact hop ⟨key, c, connectionOf_eq_some.mpr ⟨hq, hc, howner⟩, by simpa using hexpired⟩
    obtain ⟨hq', hc'⟩ := live_deleteConnections (expired now) hq hc hkeep
    exact live_iff.mpr ⟨key, c, hq', hc', howner⟩

theorem World.get_history (env : SyncEnv) (now : ℤ) (owner : Owner) (position : ℕ) (w : World) :
    (w.get env now owner position).2.history = w.history := by
  unfold World.get
  cases w.cache.get? (owner, position) with
  | some state => rfl
  | none =>
    cases getAndClearConnectionPositions env now owner position w.tables with
    | mk result t =>
      cases result with
      | ok state => rfl
      | error e => rfl

/-- What a step leaves in the tree: a position that is there is never changed. -/
theorem Sound.history_fixed (hs : Sound env w) (op : Op)
    (hq : q < w.tables.nextPosition) : (w.apply env op).history.persisted q = w.history.persisted q ∧
      (w.apply env op).history.parent q = w.history.parent q ∧
      (w.apply env op).history.response q = w.history.response q := by
  cases op with
  | get now owner position =>
    show (w.get env now owner position).2.history.persisted q = _ ∧ _
    have hhistory : (w.apply env (.get now owner position)).history = w.history :=
      World.get_history env now owner position w
    rw [hhistory, World.get_history]
    exact ⟨rfl, rfl, rfl⟩
  | persist now owner previous u =>
    show (w.persist env now owner previous u).history.persisted q = _ ∧
      (w.persist env now owner previous u).history.parent q = _ ∧
      (w.persist env now owner previous u).history.response q = _
    unfold World.persist
    cases hok : persistPerConnectionState env now owner previous u w.tables with
    | error e => exact ⟨rfl, rfl, rfl⟩
    | ok pair =>
      obtain ⟨q', t⟩ := pair
      obtain ⟨rfl, _⟩ := hs.inv.persisted hok
      have hne : q ≠ w.tables.nextPosition := by omega
      exact ⟨update_of_ne hne _ _, update_of_ne hne _ _, update_of_ne hne _ _⟩
  | lazyMembers position room userIds => exact ⟨rfl, rfl, rfl⟩
  | evict keep => exact ⟨rfl, rfl, rfl⟩
  | expire now => exact ⟨rfl, rfl, rfl⟩

/-- **Sliding sync state follows the client.** What is returned for a position is what was persisted for it: the
state of the position that it was built on with the updates of its request. A position is answered as long as it is
not moved past, and the members reported for it were sent on the way to it. -/
structure Follows (env : SyncEnv) (w : World) : Prop where
  exact : ∀ now owner q s, (w.get env now owner q).1 = .ok s → Same s (w.history.persisted q)
  answered : ∀ now owner q, w.Live owner q → ∃ s, (w.get env now owner q).1 = .ok s
  overlaid : ∀ now owner previous u q t, persistPerConnectionState env now owner previous u w.tables = .ok (q, t) →
    let w' := w.apply env (.persist now owner previous u)
    w'.Live owner q ∧ w'.history.parent q = previous ∧ (∀ p, previous = some p → w.Live owner p) ∧
      w'.history.persisted q = overlay (previous.elim .empty w.history.persisted) u
  stays : ∀ owner q op, w.Live owner q → ¬ w.MovesPast owner q op → (w.apply env op).Live owner q
  fixed : ∀ owner q op, w.Live owner q → (w.apply env op).history.persisted q = w.history.persisted q ∧
    (w.apply env op).history.parent q = w.history.parent q ∧
    (w.apply env op).history.response q = w.history.response q
  sent : ∀ q room userIds user ts, (getLazyMembers q room userIds w.tables).get? user = some ts →
    user ∈ userIds ∧ SentOnPath w.history room user q
  streamRows : ∀ q name room row, w.tables.streams.get? (q, name, room) = some row →
    ∃ key, w.tables.positions.get? q = some key
  configRows : ∀ q room row, w.tables.roomConfigs.get? (q, room) = some row →
    ∃ key, w.tables.positions.get? q = some key
  lazyRows : ∀ key room user q ts, w.tables.lazyMembers.get? (key, room, user) = some (some q, ts) →
    w.tables.positions.get? q = some key

theorem Sound.follows (hs : Sound env w) : Follows env w where
  exact now owner q s hget := by
    unfold World.get at hget
    cases hcached : w.cache.get? (owner, q) with
    | some state =>
      rw [hcached] at hget
      cases hget
      exact (hs.cached owner q s hcached).2
    | none =>
      rw [hcached] at hget
      cases hconn : w.tables.connectionOf owner q with
      | none =>
        rw [getAndClear_unknown hconn] at hget
        cases hget
      | some row =>
        obtain ⟨_, state, hok, hsame⟩ := hs.inv.answer now hconn
        rw [hok] at hget
        cases hget
        exact hsame
  answered now owner q hlive := by
    unfold World.get
    cases hcached : w.cache.get? (owner, q) with
    | some state => exact ⟨state, rfl⟩
    | none =>
      obtain ⟨row, hconn⟩ := Option.isSome_iff_exists.mp hlive
      obtain ⟨_, state, hok, _⟩ := hs.inv.answer now hconn
      exact ⟨state, by rw [hok]⟩
  overlaid now owner previous u q t hok := by
    obtain ⟨rfl, d, key, opened, _, hopen, _, hopened, hnext, hw⟩ := hs.inv.persisted hok
    have happly : w.apply env (.persist now owner previous u) =
        { w with tables := t, history := w.history.extend w.tables.nextPosition previous u } := by
      show w.persist env now owner previous u = _
      unfold World.persist
      rw [hok]
    obtain ⟨c, hc, howner⟩ := hopened.owned
    rw [happly]
    refine ⟨live_iff.mpr ⟨key, c, ?_, ?_, howner⟩, update_self _ _ _, fun p hp => ?_,
      update_self _ _ _⟩
    · dsimp only
      rw [hw.positions, hnext, get?_set, if_pos rfl]
    · dsimp only
      rw [hw.connections]
      exact hc
    · -- the connection of the previous position was looked up
      subst hp
      unfold openConnection at hopen
      dsimp only at hopen
      cases hconn : w.tables.connectionOf owner p with
      | none =>
        rw [hconn] at hopen
        cases hopen
      | some row => exact Option.isSome_iff_exists.mpr ⟨row, hconn⟩
  stays owner q op hlive hop := hs.stays hlive op hop
  fixed owner q op hlive := by
    obtain ⟨key, _, hq, _⟩ := live_iff.mp hlive
    exact hs.history_fixed op (hs.inv.positionFresh q key hq)
  sent q room userIds user ts hget := by
    obtain ⟨_, hsent, huser⟩ := hs.inv.reported hget
    exact ⟨huser, hsent⟩
  streamRows q name room row hrow := (hs.inv.streamsLive q name room row hrow).1
  configRows := hs.inv.configsLive
  lazyRows key room user q ts hrow := (hs.inv.lazyOne key room user q ts hrow).1

/-- **In every run** of requests, retries, parallel requests, evictions and expiries, on any number of connections,
the state of sliding sync follows the client. -/
theorem positions_follow (env : SyncEnv) (hb : env.store.Bijective) {w : World}
    (hrun : Reachable (· = World.start) (World.Step env) w) : Follows env w := by
  have hsound : Sound env w := by
    refine hrun.invariant (fun s hstart => ?_) fun s t _ hs hstep => ?_
    · rw [hstart]
      exact sound_start env
    · exact hs.step hb hstep
  exact hsound.follows

/-! ## §3 An environment -/

/-- What stands for a character in a JSON string, for texts without control characters. -/
def escaped (c : Char) : List Char := if c = '"' ∨ c = '\\' then ['\\', c] else [c]

def quoted (s : String) : List Char := '"' :: (s.toList.flatMap escaped ++ ['"'])

/-- The rest of a JSON string, and what follows it. -/
def readQuoted : List Char → Option (List Char × List Char)
  | [] => none
  | '"' :: rest => some ([], rest)
  | '\\' :: c :: rest => (readQuoted rest).map fun r => (c :: r.1, r.2)
  | c :: rest => (readQuoted rest).map fun r => (c :: r.1, r.2)

theorem readQuoted_escaped (s rest : List Char) : readQuoted (s.flatMap escaped ++ '"' :: rest) = some (s, rest) := by
  induction s with
  | nil => rfl
  | cons c s ih =>
    rw [List.flatMap_cons, List.append_assoc, escaped]
    by_cases hc : c = '"' ∨ c = '\\'
    · rw [if_pos hc, List.cons_append, List.cons_append, List.nil_append]
      show (readQuoted _).map _ = _
      rw [ih]
      rfl
    · rw [if_neg hc]
      obtain ⟨hquote, hslash⟩ := not_or.mp hc
      rw [List.singleton_append, readQuoted, ih]
      · rfl
      · exact hquote
      · exact fun _ _ h _ => hslash h

/-- `["m.room.name",""]`, and the pairs after it. -/
def pairText (pair : String × String) : List Char := '[' :: (quoted pair.1 ++ ',' :: (quoted pair.2 ++ [']']))

def tailText : List (String × String) → List Char
  | [] => [']']
  | pair :: l => ',' :: (pairText pair ++ tailText l)

def pairsText : List (String × String) → List Char
  | [] => ['[', ']']
  | pair :: l => '[' :: (pairText pair ++ tailText l)

def readPair : List Char → Option ((String × String) × List Char)
  | '[' :: '"' :: rest =>
    match readQuoted rest with
    | some (type, ',' :: '"' :: rest) =>
      match readQuoted rest with
      | some (key, ']' :: rest) => some ((String.ofList type, String.ofList key), rest)
      | _ => none
    | _ => none
  | _ => none

theorem readPair_pairText (pair : String × String) (rest : List Char) :
    readPair (pairText pair ++ rest) = some (pair, rest) := by
  simp only [pairText, quoted, List.cons_append, List.append_assoc, List.nil_append, readPair, readQuoted_escaped,
    String.ofList_toList]

def readTail : ℕ → List Char → Option (List (String × String))
  | 0, _ => none
  | _ + 1, [']'] => some []
  | n + 1, ',' :: rest => (readPair rest).bind fun r => (readTail n r.2).map (r.1 :: ·)
  | _ + 1, _ => none

theorem readTail_tailText {l : List (String × String)} {n : ℕ} (h : l.length < n) :
    readTail n (tailText l) = some l := by
  induction l generalizing n with
  | nil =>
    obtain ⟨n, rfl⟩ := Nat.exists_eq_succ_of_ne_zero (Nat.ne_of_gt h)
    rfl
  | cons pair l ih =>
    obtain ⟨n, rfl⟩ := Nat.exists_eq_succ_of_ne_zero (Nat.ne_of_gt (Nat.zero_lt_of_lt h))
    rw [List.length_cons] at h
    simp only [tailText, readTail, readPair_pairText, Option.bind_some]
    rw [ih (by omega)]
    rfl

theorem length_tailText (l : List (String × String)) : l.length < (tailText l).length := by
  induction l with
  | nil => exact Nat.one_pos
  | cons pair l ih =>
    simp only [tailText, List.length_cons, List.length_append]
    omega

def readPairs (text : List Char) : Option (List (String × String)) :=
  match text with
  | ['[', ']'] => some []
  | '[' :: rest => (readPair rest).bind fun r => (readTail r.2.length r.2).map (r.1 :: ·)
  | _ => none

theorem readPairs_pairsText (l : List (String × String)) : readPairs (pairsText l) = some l := by
  cases l with
  | nil => rfl
  | cons pair l =>
    show (readPair (pairText pair ++ tailText l)).bind _ = _
    rw [readPair_pairText, Option.bind_some, readTail_tailText (length_tailText l)]
    rfl

/-- Pairs in increasing order. -/
def sortedPairs : IterOrder (String × String) where
  list s := ((IterOrder.sorted (Lex (String × String))).list (s.map toLex.toEmbedding)).map ofLex
  toFinset_list s := by
    ext pair
    rw [List.mem_toFinset, List.mem_map]
    constructor
    · rintro ⟨pair', hmem, rfl⟩
      obtain ⟨pair'', hpair, rfl⟩ := Finset.mem_map.mp ((IterOrder.mem_list _).mp hmem)
      exact hpair
    · intro hmem
      exact ⟨toLex pair, (IterOrder.mem_list _).mpr (Finset.mem_map.mpr ⟨pair, hmem, rfl⟩), rfl⟩
  nodup_list s := ((IterOrder.sorted (Lex (String × String))).nodup_list _).map ofLex.injective

def exampleEnv : SyncEnv where
  py := examplePython
  store := exampleStore
  pairOrder := sortedPairs
  encode l := String.ofList (pairsText l)
  decode text :=
    match readPairs text.toList with
    | some l => .ok l
    | none => .error .valueError
  decode_encode l := by rw [String.toList_ofList, readPairs_pairsText]

/-! ## §4 A retry -/

/-- A position that the client has moved past: it made a request from a later one on its path. -/
def MovedPast (h : History) (used : List ℕ) (p : ℕ) : Prop :=
  ∃ p' ∈ used, Relation.TransGen (fun a b => h.parent b = some a) p p'

/-- The runs of one client, which continues from positions that it has received and not moved past. A request gets
the state of its position and then persists a new one; requests from one position may overlap and be repeated. -/
inductive ClientRun (env : SyncEnv) (owner : Owner) : World → List ℕ → Prop
  | start {now : ℤ} {u : Updates} : World.start.Honest (.persist now owner none u) →
      ClientRun env owner (World.start.persist env now owner none u) []
  | request {w : World} {used : List ℕ} {now : ℤ} {p : ℕ} : ClientRun env owner w used → 0 < p →
      p < w.tables.nextPosition → ¬ MovedPast w.history used p →
      ClientRun env owner (w.get env now owner p).2 (p :: used)
  | respond {w : World} {used : List ℕ} {now : ℤ} {p : ℕ} {u : Updates} : ClientRun env owner w used → p ∈ used →
      w.Honest (.persist now owner (some p) u) → ClientRun env owner (w.persist env now owner (some p) u) used
  | evict {w : World} {used : List ℕ} {keep : Owner × ℕ → Bool} : ClientRun env owner w used →
      ClientRun env owner { w with cache := w.cache.filter fun k _ => keep k } used

/-- Every position that the client has received and not moved past is answered with its state. -/
def AnswersClient (env : SyncEnv) (owner : Owner) : Prop :=
  ∀ w used, ClientRun env owner w used → ∀ now p, 0 < p → p < w.tables.nextPosition → ¬ MovedPast w.history used p →
    ∃ s, (w.get env now owner p).1 = .ok s ∧ Same s (w.history.persisted p)

def exampleOwner : Owner := ⟨"@alice:example.org", "DEVICE", "main"⟩

def exampleConfig : RoomSyncConfig := ⟨10, (∅ : Dict String (Finset String)).set "m.room.name" {""}⟩

def exampleChanges (lastSeenTs : Option ℤ) : RoomLazyMembershipChanges :=
  ⟨(∅ : Dict String (Option ℤ)).set "@bob:example.org" lastSeenTs, ∅⟩

/-- A first response sends a room with a member of it. -/
def firstUpdates : Updates :=
  { rooms := (∅ : RoomStatusMap RoomStreamToken).set "!room:example.org" ⟨.live, none⟩
    receipts := ∅
    accountData := ∅
    roomConfigs := (∅ : Dict String RoomSyncConfig).set "!room:example.org" exampleConfig
    roomLazyMembership := (∅ : Dict String RoomLazyMembershipChanges).set "!room:example.org" (exampleChanges none) }

/-- The next one leaves the room for later, and the member out. -/
def nextUpdates : Updates :=
  { rooms := (∅ : RoomStatusMap RoomStreamToken).set "!room:example.org" ⟨.previously, some (.bare none 5)⟩
    receipts := ∅
    accountData := ∅
    roomConfigs := ∅
    roomLazyMembership :=
      (∅ : Dict String RoomLazyMembershipChanges).set "!room:example.org" (exampleChanges (some 0)) }

def firstWorld : World := World.start.persist exampleEnv 0 exampleOwner none firstUpdates

/-- The client asks from position 1, whose response is position 2. -/
def secondWorld : World := (firstWorld.get exampleEnv 0 exampleOwner 1).2

/-- The members that were sent are looked up, and the second response is sent. -/
def reportedWorld : World := secondWorld.lazyMembers 1 "!room:example.org" {"@bob:example.org"}

def thirdWorld : World := reportedWorld.persist exampleEnv 0 exampleOwner (some 1) nextUpdates

def exampleWorld : World := (thirdWorld.get exampleEnv 0 exampleOwner 2).2

theorem get?_single {ν : Type} {k a : String} {v w : ν} (h : ((∅ : Dict String ν).set k v).get? a = some w) :
    a = k ∧ v = w := by
  rw [get?_set] at h
  by_cases ha : a = k
  · rw [if_pos ha] at h
    exact ⟨ha, Option.some.inj h⟩
  · rw [if_neg ha] at h
    cases h

theorem plain_firstUpdates : PlainUpdates firstUpdates where
  rooms room s hs token htoken := by
    obtain ⟨_, rfl⟩ := get?_single hs
    cases htoken
  receipts room s hs := by cases hs

theorem plain_nextUpdates : PlainUpdates nextUpdates where
  rooms room s hs token htoken := by
    obtain ⟨_, rfl⟩ := get?_single hs
    cases htoken
    exact ⟨fun n hn => (by cases hn), fun h => (by cases h)⟩
  receipts room s hs := by cases hs

/-- A user that is returned in the changes of the example is returned with the time given. -/
theorem returned_exampleChanges {lastSeenTs : Option ℤ} {room user : String} {c : RoomLazyMembershipChanges}
    {ts : Option ℤ} (hc : ((∅ : Dict String RoomLazyMembershipChanges).set "!room:example.org"
      (exampleChanges lastSeenTs)).get? room = some c)
    (hts : c.returnedUserIdToLastSeenTsMap.get? user = some ts) :
    room = "!room:example.org" ∧ user = "@bob:example.org" ∧ lastSeenTs = ts := by
  obtain ⟨hroom, rfl⟩ := get?_single hc
  obtain ⟨huser, rfl⟩ := get?_single hts
  exact ⟨hroom, huser, rfl⟩

theorem honest_firstUpdates (w : World) (now : ℤ) (owner : Owner) (previous : Option ℕ) :
    w.Honest (.persist now owner previous firstUpdates) := by
  refine ⟨plain_firstUpdates, fun room c user ts hc hts => ?_⟩
  obtain ⟨_, _, hnone⟩ := returned_exampleChanges hc hts
  cases hnone

theorem mem_reportedWorld : (1, "!room:example.org", "@bob:example.org") ∈ reportedWorld.reported := by
  decide +kernel

theorem exampleWorld_reachable : Reachable (· = World.start) (World.Step exampleEnv) exampleWorld := by
  have h₁ : Reachable (· = World.start) (World.Step exampleEnv) firstWorld :=
    .next (.start rfl) ⟨.persist 0 exampleOwner none firstUpdates, honest_firstUpdates _ _ _ _, rfl⟩
  have h₂ : Reachable (· = World.start) (World.Step exampleEnv) secondWorld :=
    h₁.next ⟨.get 0 exampleOwner 1, trivial, rfl⟩
  have h₃ : Reachable (· = World.start) (World.Step exampleEnv) reportedWorld :=
    h₂.next ⟨.lazyMembers 1 "!room:example.org" {"@bob:example.org"}, trivial, rfl⟩
  have h₄ : Reachable (· = World.start) (World.Step exampleEnv) thirdWorld := by
    refine h₃.next ⟨.persist 0 exampleOwner (some 1) nextUpdates,
      ⟨plain_nextUpdates, fun room c user ts hc hts => ?_⟩, rfl⟩
    obtain ⟨rfl, rfl, _⟩ := returned_exampleChanges hc hts
    exact ⟨1, rfl, mem_reportedWorld⟩
  exact h₄.next ⟨.get 0 exampleOwner 2, trivial, rfl⟩

theorem positions_follow_example : exampleWorld.tables.positions.keys = [2] ∧ Follows exampleEnv exampleWorld :=
  ⟨by decide +kernel, positions_follow exampleEnv exampleStore_bijective exampleWorld_reachable⟩

/-- The client asks from position 1 twice. The second request finds no cached result, and deletes the position that
the first one was answered with. -/
def respondedWorld : World := secondWorld.persist exampleEnv 0 exampleOwner (some 1) firstUpdates

def evictedWorld : World := { respondedWorld with cache := respondedWorld.cache.filter fun _ _ => false }

def retriedWorld : World := (evictedWorld.get exampleEnv 0 exampleOwner 1).2

/-- **A position that the client has received is lost**: it is not known any more after a retry from the one before. -/
theorem position_lost : exampleStore.Bijective ∧ ¬ AnswersClient exampleEnv exampleOwner := by
  refine ⟨exampleStore_bijective, fun hanswers => ?_⟩
  -- nothing continues from position 2, and only position 1 was used
  have hpast : ∀ (h : History) (p : ℕ), h.parent 1 = none → ∀ used : List ℕ, (∀ p' ∈ used, p' = 1) →
      ¬ MovedPast h used p := by
    rintro h p hroot used hused ⟨p', hp', hpath⟩
    obtain rfl := hused p' hp'
    obtain ⟨a, _, ha⟩ := Relation.TransGen.tail'_iff.mp hpath
    rw [hroot] at ha
    cases ha
  have h₁ : ClientRun exampleEnv exampleOwner firstWorld [] := .start (honest_firstUpdates _ _ _ _)
  have h₂ : ClientRun exampleEnv exampleOwner secondWorld [1] :=
    .request h₁ (by decide) (by decide +kernel) (hpast _ _ (by decide +kernel) [] (by simp))
  have h₃ : ClientRun exampleEnv exampleOwner respondedWorld [1] := .respond h₂ (by simp) (honest_firstUpdates _ _ _ _)
  have h₄ : ClientRun exampleEnv exampleOwner evictedWorld [1] := .evict h₃
  have h₅ : ClientRun exampleEnv exampleOwner retriedWorld [1, 1] :=
    .request h₄ (by decide) (by decide +kernel) (hpast _ _ (by decide +kernel) [1] (by simp))
  obtain ⟨s, hok, _⟩ := hanswers retriedWorld [1, 1] h₅ 0 2 (by decide) (by decide +kernel)
    (hpast _ _ (by decide +kernel) [1, 1] (by simp))
  have herror : (retriedWorld.get exampleEnv 0 exampleOwner 2).1.toBool = false := by decide +kernel
  rw [hok] at herror
  cases herror

end Setka.Storage.SlidingSync
