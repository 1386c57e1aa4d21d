/-
# Setka.Storage.SlidingSyncRows — what the rows of a position stand for.

A row of a stream stands for a status, and a row of a room config together with the required state it refers to
stands for a config. Rows are read as what they stand for, and the updates of a request are written as rows
that stand for them. Event types without state keys leave no trace in a row.
-/
import Setka.Storage.SlidingSync

namespace Setka.Storage.SlidingSync

open Setka.Api Setka.Lib Setka.Types Dict Function
open List (mem_cons_of_mem mem_cons_self foldl_cons foldl_nil)

/-! ## §1 Tokens -/

theorem ofValue_value (status : HaveSentRoomFlag) : HaveSentRoomFlag.ofValue status.value = .ok status := by
  cases status with
  | never => rfl
  | previously => rfl
  | live => rfl

/-- A row stands for a status, if its token is parsed so. -/
structure Stores {τ : Type} (parse : String → Except Error τ) (row : String × Option String)
    (s : HaveSentRoom τ) : Prop where
  status : row.1 = s.status.value
  token : Option.Rel (fun string token => parse string = .ok token) row.2 s.lastToken

variable {τ : Type}

/-- A status that is printed with a token that can be parsed back. -/
theorem stores_of_print {print : τ → Except Error String} {parse : String → Except Error τ} {s : HaveSentRoom τ}
    {s' : HaveSentRoom String}
    (hback : ∀ token ∈ s.lastToken, ∀ string, print token = .ok string → parse string = .ok token)
    (h : s.mapToken print = .ok s') : Stores parse (s'.status.value, s'.lastToken) s := by
  rw [HaveSentRoom.mapToken] at h
  cases htoken : s.lastToken with
  | none =>
    rw [htoken] at h
    cases h
    exact ⟨rfl, by rw [htoken]; exact .none⟩
  | some token =>
    rw [htoken] at h
    dsimp only at h
    cases hprint : print token with
    | error e =>
      rw [hprint] at h
      cases h
    | ok string =>
      rw [hprint] at h
      cases h
      exact ⟨rfl, by rw [htoken]; exact .some (hback token (Option.mem_def.mpr htoken) string hprint)⟩

variable {row : String × Option String}

/-- A row that is read and parsed is what it stands for. -/
theorem mapToken_of_stores {parse : String → Except Error τ} {s : HaveSentRoom τ} (h : Stores parse row s) :
    HaveSentRoom.mapToken parse ⟨s.status, row.2⟩ = .ok s := by
  obtain ⟨value, string⟩ := row
  obtain ⟨status, lastToken⟩ := s
  have htoken : Option.Rel (fun string token => parse string = .ok token) string lastToken := h.token
  cases htoken with
  | none => rfl
  | some hparse => simp only [HaveSentRoom.mapToken, hparse]; rfl

/-- A room token that survives printing and parsing, if its numbers can be printed. -/
def Plain (token : RoomStreamToken) : Prop :=
  (∀ n ∈ token.topological, 0 ≤ n) ∧ (token.topological = some 0 → token.instanceMap.items = [])

variable {string : String}

theorem printable_of_toString {store : InstanceStore} {token : RoomStreamToken} (hplain : Plain token)
    (h : token.toString store = .ok string) : token.Printable store := by
  unfold RoomStreamToken.toString at h
  cases htopological : token.topological with
  | some n =>
    rw [htopological] at h
    obtain ⟨_, hn, h⟩ := except_bind_eq_ok.mp h
    obtain ⟨_, hm, _⟩ := except_bind_eq_ok.mp h
    -- a token with a topological part has no instance map
    have hmap : token.instanceMap.items = [] := by
      rcases token.exclusive with hmap | hfalse
      · exact hmap
      · rw [htopological] at hfalse
        exact hplain.2 (htopological.trans (by simpa [truthy] using hfalse))
    refine ⟨⟨(fmt_eq_ok.mp hm).1, by simp [hmap]⟩, ?_⟩
    intro k hk
    rw [htopological] at hk
    cases hk
    exact (fmt_eq_ok.mp hn).1
  | none =>
    rw [htopological] at h
    refine ⟨?_, fun k hk => by rw [htopological] at hk; cases hk⟩
    by_cases hmap : token.instanceMap.items = []
    · rw [if_neg (not_not.mpr hmap)] at h
      obtain ⟨_, hm, _⟩ := except_bind_eq_ok.mp h
      exact ⟨(fmt_eq_ok.mp hm).1, by simp [hmap]⟩
    · rw [if_pos hmap] at h
      exact ((encodeMap_eq_ok hmap).mp h).1

variable {env : SyncEnv}

theorem roomToken_back (hb : env.store.Bijective) {token : RoomStreamToken} (hplain : Plain token)
    (h : token.toString env.store = .ok string) :
    RoomStreamToken.parse env.py env.store string = .ok token := by
  obtain ⟨string', hprint, hparse⟩ := (RoomStreamToken.roundTrips_iff env.py hb hplain.1).mpr
    ⟨printable_of_toString hplain h, hplain.2⟩
  rw [h] at hprint
  cases hprint
  exact hparse

theorem multiWriterToken_back (hb : env.store.Bijective) {token : MultiWriterStreamToken}
    (hn : 0 ≤ token.stream) (h : MultiWriterStreamToken.toString env.store token = .ok string) :
    MultiWriterStreamToken.parse env.py env.store string = .ok token := by
  have hprintable : token.Printable env.store := by
    unfold MultiWriterStreamToken.toString at h
    by_cases hmap : token.instanceMap.items = []
    · rw [if_neg (not_not.mpr hmap)] at h
      exact ⟨(fmt_eq_ok.mp h).1, by simp [hmap]⟩
    · rw [if_pos hmap] at h
      exact ((encodeMap_eq_ok hmap).mp h).1
  obtain ⟨string', hprint, hparse⟩ := (MultiWriterStreamToken.roundTrips_iff env.py hb hn).mpr hprintable
  rw [h] at hprint
  cases hprint
  exact hparse

theorem int_back (py : Python) {n : ℤ} (h : fmt n = .ok string) : py.int string = .ok n := by
  obtain ⟨hprintable, rfl⟩ := fmt_eq_ok.mp h
  exact py.int_toString hprintable

/-! ## §2 Rows of streams -/

/-- A row of a stream and the status that is read from it. -/
def Reads (row : String × Option String) (s : HaveSentRoom String) : Prop :=
  HaveSentRoomFlag.ofValue row.1 = .ok s.status ∧ s.lastToken = row.2

theorem name_injective : Injective Stream.name := by
  intro stream stream' h
  cases stream <;> cases stream' <;> first | rfl | exact absurd h (by decide)

/-- A row is read into the stream that it names, if it names one. -/
theorem readStreamRow_ok (statuses : Stream → RoomStatusMap String) (name room : String)
    {s : HaveSentRoom String} (h : Reads row s) :
    ∃ statuses', readStreamRow statuses ((name, room), row) = .ok statuses' ∧ ∀ stream room',
      (statuses' stream).get? room' =
        if (stream.name, room') = (name, room) then some s else (statuses stream).get? room' := by
  obtain ⟨value, string⟩ := row
  obtain ⟨status, token⟩ := s
  obtain ⟨hvalue, htoken⟩ := h
  subst htoken
  -- the rows of one stream are updated, and of that stream one room
  have hadd : ∀ into : Stream, name = into.name → ∀ stream room',
      ((update statuses into ((statuses into).set room ⟨status, token⟩)) stream).get? room' =
        if (stream.name, room') = (name, room) then some ⟨status, token⟩
        else (statuses stream).get? room' := by
    intro into hinto stream room'
    subst hinto
    by_cases hstream : stream = into
    · subst hstream
      rw [update_self, get?_set]
      simp only [Prod.mk.injEq, true_and]
    rw [update_of_ne hstream, if_neg]
    intro heq
    exact hstream (name_injective (Prod.mk.inj heq).1)
  unfold readStreamRow
  simp only [hvalue]
  by_cases hrooms : name = "rooms"
  · exact ⟨_, if_pos hrooms, hadd .rooms hrooms⟩
  by_cases hreceipts : name = "receipts"
  · exact ⟨_, by rw [if_neg hrooms, if_pos hreceipts], hadd .receipts hreceipts⟩
  by_cases haccount : name = "account_data"
  · exact ⟨_, by rw [if_neg hrooms, if_neg hreceipts, if_pos haccount], hadd .accountData haccount⟩
  refine ⟨statuses, by rw [if_neg hrooms, if_neg hreceipts, if_neg haccount], fun stream room' => ?_⟩
  rw [if_neg]
  intro heq
  have hname : stream.name = name := (Prod.mk.inj heq).1
  cases stream with
  | rooms => exact hrooms hname.symm
  | receipts => exact hreceipts hname.symm
  | accountData => exact haccount hname.symm

/-- All rows of a position are read. -/
theorem readStreamRows_ok (rows : Dict (String × String) (String × Option String))
    (h : ∀ k row, rows.get? k = some row → ∃ s, Reads row s) :
    ∃ statuses, rows.items.foldlM readStreamRow (fun _ => ∅) = .ok statuses ∧ ∀ stream room,
      Option.Rel Reads (rows.get? (stream.name, room)) ((statuses stream).get? room) := by
  have hloop : ∀ (l : List ((String × String) × (String × Option String)))
      (statuses : Stream → RoomStatusMap String), (l.map Prod.fst).Nodup →
      (∀ row ∈ l, ∃ s, Reads row.2 s) →
      ∃ statuses', l.foldlM readStreamRow statuses = .ok statuses' ∧ ∀ stream room,
        (∀ row, ((stream.name, room), row) ∈ l → ∃ s, Reads row s ∧ (statuses' stream).get? room = some s) ∧
        ((stream.name, room) ∉ l.map Prod.fst → (statuses' stream).get? room = (statuses stream).get? room) := by
    intro l
    induction l with
    | nil =>
      intro statuses _ _
      exact ⟨statuses, rfl, fun stream room => ⟨fun row h => absurd h List.not_mem_nil, fun _ => rfl⟩⟩
    | cons item l ih =>
      intro statuses hnodup hall
      obtain ⟨⟨name, room⟩, row⟩ := item
      obtain ⟨hnot, hnodup⟩ := List.nodup_cons.mp hnodup
      obtain ⟨s, hs⟩ := hall _ mem_cons_self
      obtain ⟨statuses₁, hrow, hget⟩ := readStreamRow_ok statuses name room hs
      obtain ⟨statuses₂, hrest, hget'⟩ := ih statuses₁ hnodup fun row hrow => hall row (mem_cons_of_mem _ hrow)
      refine ⟨statuses₂, by rw [List.foldlM_cons, hrow]; exact hrest, fun stream room' => ⟨?_, ?_⟩⟩
      · intro row' hrow'
        rcases List.mem_cons.mp hrow' with heq | hrow'
        · -- no later row has the same key
          obtain ⟨hkey, rfl⟩ := Prod.mk.inj heq
          rw [← hkey] at hnot
          exact ⟨s, hs, by rw [(hget' stream room').2 hnot, hget, if_pos hkey]⟩
        · exact (hget' stream room').1 row' hrow'
      · intro hnone
        obtain ⟨hkey, hrest⟩ := not_or.mp (mt List.mem_cons.mpr hnone)
        rw [(hget' stream room').2 hrest, hget, if_neg hkey]
  obtain ⟨statuses, hrun, hget⟩ := hloop rows.items (fun _ => ∅) rows.nodup fun row hrow =>
    h row.1 row.2 (get?_eq_some_iff.mpr hrow)
  refine ⟨statuses, hrun, fun stream room => ?_⟩
  obtain ⟨hsome, hnone⟩ := hget stream room
  cases hrow : rows.get? (stream.name, room) with
  | none =>
    rw [hnone (get?_eq_none_iff.mp hrow)]
    exact .none
  | some row =>
    obtain ⟨s, hs, hgets⟩ := hsome row (get?_eq_some_iff.mp hrow)
    rw [hgets]
    exact .some hs

/-- Statuses that are read and parsed are those that the rows stand for. -/
theorem traverse_of_stores {parse : String → Except Error τ} {read : RoomStatusMap String}
    {rows : String → Option (String × Option String)} {statuses : RoomStatusMap τ}
    (hread : ∀ room, Option.Rel Reads (rows room) (read.get? room))
    (h : ∀ room, Option.Rel (Stores parse) (rows room) (statuses.get? room)) :
    ∃ parsed, read.traverse (fun _ s => s.mapToken parse) = .ok parsed ∧ parsed.Agrees statuses := by
  -- what is read under a room is parsed as the status of the room
  have hroom : ∀ room, Option.Rel (fun s s' => s.mapToken parse = .ok s') (read.get? room) (statuses.get? room) := by
    intro room
    have hr := hread room
    have hs := h room
    generalize rows room = row, read.get? room = s, statuses.get? room = s' at hr hs ⊢
    cases hr with
    | none =>
      cases hs
      exact .none
    | @some row s hr =>
      cases hs with
      | @some _ s' hs =>
        refine .some ?_
        have hstatus := hr.1
        rw [hs.status, ofValue_value] at hstatus
        obtain ⟨status, lastToken⟩ := s
        obtain rfl : s'.status = status := Except.ok.inj hstatus
        obtain rfl : lastToken = row.2 := hr.2
        exact mapToken_of_stores hs
  obtain ⟨parsed, hparsed⟩ := traverse_ok (f := fun _ s => HaveSentRoom.mapToken parse s) (d := read)
    fun room s hs => by
      have hr := hroom room
      rw [hs] at hr
      generalize statuses.get? room = s' at hr
      cases hr with
      | some hr => exact ⟨_, hr⟩
  refine ⟨parsed, hparsed, fun room => ?_⟩
  have hr := hroom room
  have hp := related_traverse hparsed room
  generalize read.get? room = s, statuses.get? room = s', parsed.get? room = s'' at hr hp ⊢
  cases hr with
  | none =>
    cases hp
    rfl
  | some hr =>
    cases hp with
    | some hp => rw [Except.ok.inj (hp.symm.trans hr)]

/-! ## §3 Rows of room configs -/

/-- Two maps have the same state keys, an event type that one of them lacks having none. -/
def SameState (m m' : Dict String (Finset String)) : Prop := ∀ type, m.getD type ∅ = m'.getD type ∅

structure SameConfig (c c' : RoomSyncConfig) : Prop where
  timelineLimit : c.timelineLimit = c'.timelineLimit
  requiredState : SameState c.requiredStateMap c'.requiredStateMap

theorem mem_pairs {m : Dict String (Finset String)} {type key : String} :
    (type, key) ∈ pairs m ↔ key ∈ m.getD type ∅ := by
  have hloop : ∀ l : List (String × Finset String),
      (type, key) ∈ (l.map fun item => item.2.image (Prod.mk item.1)).foldr (· ∪ ·) ∅ ↔
        ∃ keys, (type, keys) ∈ l ∧ key ∈ keys := by
    intro l
    induction l with
    | nil => simp
    | cons item l ih =>
      rw [List.map_cons, List.foldr_cons, Finset.mem_union, ih, Finset.mem_image]
      constructor
      · rintro (⟨key', hkey, heq⟩ | ⟨keys, hmem, hkey⟩)
        · obtain ⟨rfl, rfl⟩ := Prod.mk.inj heq
          exact ⟨item.2, mem_cons_self, hkey⟩
        · exact ⟨keys, mem_cons_of_mem item hmem, hkey⟩
      · rintro ⟨keys, hmem, hkey⟩
        rcases List.mem_cons.mp hmem with rfl | hmem
        · exact Or.inl ⟨key, hkey, rfl⟩
        · exact Or.inr ⟨keys, hmem, hkey⟩
  rw [pairs, hloop, Dict.getD]
  constructor
  · rintro ⟨keys, hmem, hkey⟩
    rw [get?_eq_some_iff.mpr hmem]
    exact hkey
  intro hkey
  cases hkeys : m.get? type with
  | none =>
    rw [hkeys] at hkey
    exact absurd hkey (Finset.notMem_empty key)
  | some keys =>
    rw [hkeys] at hkey
    exact ⟨keys, get?_eq_some_iff.mp hkeys, hkey⟩

theorem mem_collectPairs {l : List (String × String)} {type key : String} :
    key ∈ (collectPairs l).getD type ∅ ↔ (type, key) ∈ l := by
  have hloop : ∀ (l : List (String × String)) (state : Dict String (Finset String)),
      key ∈ (l.foldl (fun state pair => state.set pair.1 (insert pair.2 (state.getD pair.1 ∅))) state).getD type ∅ ↔
        key ∈ state.getD type ∅ ∨ (type, key) ∈ l := by
    intro l
    induction l with
    | nil => simp
    | cons pair l ih =>
      intro state
      obtain ⟨type', key'⟩ := pair
      rw [foldl_cons, ih, List.mem_cons, ← or_assoc, Prod.mk.injEq]
      refine or_congr_left ?_
      show key ∈ ((state.set type' (insert key' (state.getD type' ∅))).get? type).getD ∅ ↔ _
      rw [get?_set]
      by_cases htype : type = type'
      · subst htype
        rw [if_pos rfl]
        simp only [Option.getD_some, Finset.mem_insert, true_and]
        exact or_comm
      · rw [if_neg htype]
        simp only [htype, false_and, or_false]
        rfl
  have hempty : key ∉ (∅ : Dict String (Finset String)).getD type ∅ := Finset.notMem_empty key
  rw [collectPairs, hloop, or_iff_right hempty]

/-- What is serialized is read back, up to event types without state keys. -/
theorem read_serialize (env : SyncEnv) (m : Dict String (Finset String)) :
    ∃ m', (env.decode (env.serialize m)).map collectPairs = .ok m' ∧ SameState m' m := by
  refine ⟨collectPairs (env.pairOrder.list (pairs m)), ?_, fun type => ?_⟩
  · rw [SyncEnv.serialize, env.decode_encode]
    rfl
  · ext key
    rw [mem_collectPairs, IterOrder.mem_list, mem_pairs]

/-- A row of a room config, and the required state that it refers to, stand for a config. -/
structure StoresConfig (env : SyncEnv) (key : ℕ) (requiredState : Dict ℕ (ℕ × String)) (row : ℤ × ℕ)
    (c : RoomSyncConfig) : Prop where
  timelineLimit : row.1 = c.timelineLimit
  requiredState : requiredState.get? row.2 = some (key, env.serialize c.requiredStateMap)

variable {t : Tables}

theorem readRequiredState_ok (key : ℕ)
    (h : ∀ id row, t.requiredState.get? id = some row → ∃ m, row.2 = env.serialize m) :
    ∃ read, readRequiredState env key t = .ok read ∧ ∀ id m,
      t.requiredState.get? id = some (key, env.serialize m) → ∃ m', read.get? id = some m' ∧ SameState m' m := by
  obtain ⟨read, hread⟩ := traverse_ok (f := fun _ row => (env.decode row.2).map collectPairs)
    (d := t.requiredState.filter fun _ row => row.1 = key) fun id row hrow => by
      obtain ⟨m, hm⟩ := h id row (get?_filter.mp hrow).1
      obtain ⟨m', hm', _⟩ := read_serialize env m
      exact ⟨m', by rw [hm]; exact hm'⟩
  refine ⟨read, hread, fun id m hm => ?_⟩
  have hrel := related_traverse hread id
  rw [get?_filter.mpr ⟨hm, decide_eq_true rfl⟩] at hrel
  obtain ⟨m', hm', hsame⟩ := read_serialize env m
  generalize read.get? id = found at hrel ⊢
  cases hrel with
  | some hrel =>
    rw [hm'] at hrel
    cases hrel
    exact ⟨m', rfl, hsame⟩

variable {key position : ℕ} {configs : Dict String RoomSyncConfig}

theorem readRoomConfigs_ok {read : Dict ℕ (Dict String (Finset String))}
    (hread : ∀ id m, t.requiredState.get? id = some (key, env.serialize m) →
      ∃ m', read.get? id = some m' ∧ SameState m' m)
    (h : ∀ room, Option.Rel (StoresConfig env key t.requiredState) (t.roomConfigs.get? (position, room))
      (configs.get? room)) : ∃ roomConfigs, readRoomConfigs read position t = .ok roomConfigs ∧
      roomConfigs.Related (fun _ => SameConfig) configs := by
  -- a row that stands for a config is read as one that is the same
  have hrow : ∀ room, Option.Rel (fun row c => ∃ c', readRoomConfig read row = .ok c' ∧ SameConfig c' c)
      (t.roomConfigs.get? (position, room)) (configs.get? room) := by
    intro room
    have hrel := h room
    generalize t.roomConfigs.get? (position, room) = row, configs.get? room = c at hrel ⊢
    cases hrel with
    | none => exact .none
    | @some row c hc =>
      obtain ⟨m', hm', hsame⟩ := hread row.2 c.requiredStateMap hc.requiredState
      refine .some ⟨⟨row.1, m'⟩, ?_, ⟨hc.timelineLimit, hsame⟩⟩
      unfold readRoomConfig
      rw [hm']
  obtain ⟨roomConfigs, hok⟩ := traverse_ok (f := fun _ row => readRoomConfig read row)
    (d := t.roomConfigs.column position) fun room row hget => by
      have hrel := hrow room
      rw [get?_column] at hget
      rw [hget] at hrel
      generalize configs.get? room = c at hrel
      cases hrel with
      | some hrel =>
        obtain ⟨c', hc', _⟩ := hrel
        exact ⟨c', hc'⟩
  refine ⟨roomConfigs, hok, fun room => ?_⟩
  have hrel := hrow room
  have hfound := related_traverse hok room
  rw [get?_column] at hfound
  generalize t.roomConfigs.get? (position, room) = row, configs.get? room = c,
    roomConfigs.get? room = found at hrel hfound ⊢
  cases hrel with
  | none =>
    cases hfound
    exact .none
  | some hrel =>
    cases hfound with
    | some hfound =>
      obtain ⟨c', hc', hsame⟩ := hrel
      rw [hc'] at hfound
      cases hfound
      exact .some hsame

/-! ## §4 A position is read -/

/-- Two states are the same but for when they were last used. -/
structure Same (s s' : PerConnectionState) : Prop where
  rooms : s.rooms.Agrees s'.rooms
  receipts : s.receipts.Agrees s'.receipts
  accountData : s.accountData.Agrees s'.accountData
  roomConfigs : s.roomConfigs.Related (fun _ => SameConfig) s'.roomConfigs

/-- The rows of a position stand for a state. -/
structure StoresState (env : SyncEnv) (key position : ℕ) (t : Tables) (s : PerConnectionState) : Prop where
  rooms : ∀ room, Option.Rel (Stores (RoomStreamToken.parse env.py env.store))
    (t.streams.get? (position, Stream.rooms.name, room)) (s.rooms.get? room)
  receipts : ∀ room, Option.Rel (Stores (MultiWriterStreamToken.parse env.py env.store))
    (t.streams.get? (position, Stream.receipts.name, room)) (s.receipts.get? room)
  accountData : ∀ room, Option.Rel (Stores env.py.int)
    (t.streams.get? (position, Stream.accountData.name, room)) (s.accountData.get? room)
  roomConfigs : ∀ room, Option.Rel (StoresConfig env key t.requiredState)
    (t.roomConfigs.get? (position, room)) (s.roomConfigs.get? room)

theorem reads_of_stores {parse : String → Except Error τ} {s : Option (HaveSentRoom τ)}
    (h : Option.Rel (Stores parse) (some row) s) : ∃ s, Reads row s := by
  cases h with
  | @some _ s hs => exact ⟨⟨s.status, row.2⟩, by rw [hs.status, ofValue_value], rfl⟩

variable {s : PerConnectionState}

/-- Every row of a position that stands for a state can be read. -/
theorem StoresState.readable (h : StoresState env key position t s)
    (hnames : ∀ name room row, t.streams.get? (position, name, room) = some row →
      ∃ stream : Stream, stream.name = name) (k : String × String) (row : String × Option String)
    (hrow : (t.streams.column position).get? k = some row) : ∃ s, Reads row s := by
  obtain ⟨name, room⟩ := k
  rw [get?_column] at hrow
  obtain ⟨stream, rfl⟩ := hnames name room row hrow
  cases stream with
  | rooms => exact reads_of_stores (hrow ▸ h.rooms room)
  | receipts => exact reads_of_stores (hrow ▸ h.receipts room)
  | accountData => exact reads_of_stores (hrow ▸ h.accountData room)

/-- The rows that stand for a state are read and parsed as the state. -/
theorem StoresState.read (h : StoresState env key position t s)
    (hnames : ∀ name room row, t.streams.get? (position, name, room) = some row →
      ∃ stream : Stream, stream.name = name)
    (hids : ∀ id row, t.requiredState.get? id = some row → ∃ m, row.2 = env.serialize m) :
    ∃ required roomConfigs statuses, readRequiredState env key t = .ok required ∧
      readRoomConfigs required position t = .ok roomConfigs ∧
      (t.streams.column position).items.foldlM readStreamRow (fun _ => ∅) = .ok statuses ∧
      ∀ lastUsedTs lazy, ∃ state,
        toState env ⟨lastUsedTs, statuses, roomConfigs, lazy⟩ = .ok state ∧ Same state s := by
  obtain ⟨required, hrequired, hmaps⟩ := readRequiredState_ok key hids
  obtain ⟨roomConfigs, hconfigs, hrelated⟩ := readRoomConfigs_ok hmaps h.roomConfigs
  obtain ⟨statuses, hstatuses, hreads⟩ := readStreamRows_ok (t.streams.column position) (h.readable hnames)
  have hread : ∀ stream room,
      Option.Rel Reads (t.streams.get? (position, stream.name, room)) ((statuses stream).get? room) := by
    intro stream room
    rw [← get?_column]
    exact hreads stream room
  refine ⟨required, roomConfigs, statuses, hrequired, hconfigs, hstatuses, fun lastUsedTs lazy => ?_⟩
  obtain ⟨rooms, hrooms, hroomsSame⟩ := traverse_of_stores (hread .rooms) h.rooms
  obtain ⟨receipts, hreceipts, hreceiptsSame⟩ := traverse_of_stores (hread .receipts) h.receipts
  obtain ⟨accountData, haccountData, haccountDataSame⟩ := traverse_of_stores (hread .accountData) h.accountData
  refine ⟨⟨lastUsedTs, rooms, receipts, accountData, roomConfigs⟩, ?_,
    ⟨hroomsSame, hreceiptsSame, haccountDataSame, hrelated⟩⟩
  unfold toState
  rw [hrooms, except_ok_bind, hreceipts, except_ok_bind, haccountData, except_ok_bind]
  rfl

variable {now : ℤ}

/-- **What a position that is not deleted is read as**: the state that its rows stand for when all others of the
connection are gone. -/
theorem getAndClear_ok {owner : Owner} {c : Connection} (hconn : t.connectionOf owner position = some (key, c))
    (h : StoresState env key position (usePosition key position (touch now key c t)) s)
    (hnames : ∀ name room row, (usePosition key position (touch now key c t)).streams.get? (position, name, room) =
      some row → ∃ stream : Stream, stream.name = name)
    (hids : ∀ id row, (usePosition key position (touch now key c t)).requiredState.get? id = some row →
      ∃ m, row.2 = env.serialize m) : ∃ state, getAndClearConnectionPositions env now owner position t =
      (.ok state, usePosition key position (touch now key c t)) ∧ Same state s := by
  obtain ⟨required, roomConfigs, statuses, hrequired, hconfigs, hstatuses, hstate⟩ := h.read hnames hids
  obtain ⟨state, hok, hsame⟩ := hstate c.lastUsedTs ∅
  refine ⟨state, ?_, hsame⟩
  unfold getAndClearConnectionPositions getAndClearConnectionPositionsTxn
  simp only [hconn, hrequired, hconfigs, hstatuses, hok]

/-! ## §5 Rows are written -/

theorem get?_copied {ι ν : Type} [DecidableEq ι] (d : Dict (ℕ × ι) ν) (previous position : ℕ) (q : ℕ) (k : ι) :
    ((d.column previous).upsertRows (Prod.mk position) (fun _ row => row) d).get? (q, k) =
      if q = position then (d.get? (previous, k)).or (d.get? (q, k)) else d.get? (q, k) := by
  by_cases hq : q = position
  · subst hq
    rw [if_pos rfl, get?_upsertRows (Prod.mk_right_injective q), get?_column, Option.map_id']
  rw [if_neg hq]
  refine get?_upsertRows_of_forall_ne _ _ _ fun i heq => ?_
  exact hq (Prod.mk.inj heq).1

/-- A row of the previous position, if there is one. -/
def fromPrevious {ι ν : Type} [DecidableEq ι] (d : Dict (ℕ × ι) ν) (previous : Option ℕ) (k : ι) : Option ν :=
  previous.bind fun previous => d.get? (previous, k)

theorem get?_copyRows_streams (previous : Option ℕ) (position : ℕ) (t : Tables) (q : ℕ) (k : String × String) :
    (copyRows previous position t).streams.get? (q, k) =
      if q = position then (fromPrevious t.streams previous k).or (t.streams.get? (q, k))
      else t.streams.get? (q, k) := by
  cases previous with
  | none =>
    show t.streams.get? (q, k) = if q = position then t.streams.get? (q, k) else _
    rw [ite_self]
  | some previous => exact get?_copied t.streams previous position q k

theorem get?_copyRows_roomConfigs (previous : Option ℕ) (position : ℕ) (t : Tables) (q : ℕ) (room : String) :
    (copyRows previous position t).roomConfigs.get? (q, room) =
      if q = position then (fromPrevious t.roomConfigs previous room).or (t.roomConfigs.get? (q, room))
      else t.roomConfigs.get? (q, room) := by
  cases previous with
  | none =>
    show t.roomConfigs.get? (q, room) = if q = position then t.roomConfigs.get? (q, room) else _
    rw [ite_self]
  | some previous => exact get?_copied t.roomConfigs previous position q room

/-- The row of a status. -/
def statusRow (s : HaveSentRoom String) : String × Option String := (s.status.value, s.lastToken)

theorem get?_upsertStream (position : ℕ) (d : PerConnectionStateDB)
    (streams : Dict (ℕ × String × String) (String × Option String)) (stream : Stream) (q : ℕ) (name room : String) :
    (upsertStream position d streams stream).get? (q, name, room) = if q = position ∧ name = stream.name then
        (((d.statuses stream).get? room).map statusRow).or (streams.get? (q, name, room))
      else streams.get? (q, name, room) := by
  by_cases hk : q = position ∧ name = stream.name
  · obtain ⟨rfl, rfl⟩ := hk
    rw [if_pos ⟨rfl, rfl⟩]
    have hinj : Injective fun room : String => (q, stream.name, room) := by
      intro room room' heq
      exact (Prod.mk.inj (Prod.mk.inj heq).2).2
    exact get?_upsertRows hinj _ _ _ room
  · rw [if_neg hk]
    refine get?_upsertRows_of_forall_ne _ _ _ fun i heq => hk ?_
    obtain ⟨hq, heq⟩ := Prod.mk.inj heq
    exact ⟨hq, (Prod.mk.inj heq).1⟩

/-- The updates of all three streams. -/
theorem get?_upsertStreams (position : ℕ) (d : PerConnectionStateDB)
    (streams : Dict (ℕ × String × String) (String × Option String)) (stream : Stream) (room : String) :
    ([Stream.rooms, .receipts, .accountData].foldl (upsertStream position d) streams).get?
        (position, stream.name, room) =
      (((d.statuses stream).get? room).map statusRow).or (streams.get? (position, stream.name, room)) := by
  simp only [foldl_cons, foldl_nil, get?_upsertStream, true_and, name_injective.eq_iff]
  cases stream with
  | rooms => simp
  | receipts => simp
  | accountData => simp

theorem get?_upsertStreams_of_ne (position : ℕ) (d : PerConnectionStateDB)
    (streams : Dict (ℕ × String × String) (String × Option String)) {q : ℕ} {name : String} (room : String)
    (h : q ≠ position ∨ ∀ stream : Stream, name ≠ stream.name) :
    ([Stream.rooms, .receipts, .accountData].foldl (upsertStream position d) streams).get? (q, name, room) =
      streams.get? (q, name, room) := by
  have hother : ∀ stream : Stream, ¬ (q = position ∧ name = stream.name) := by
    rintro stream ⟨hq, hname⟩
    rcases h with h | h
    · exact h hq
    · exact h stream hname
  simp only [foldl_cons, foldl_nil, get?_upsertStream, if_neg (hother _)]

/-! ### Required states -/

theorem requiredStateToId_sound {previous : Option ℕ} {text : String} {id : ℕ}
    (h : (requiredStateToId key previous t).get? text = some id) : t.requiredState.get? id = some (key, text) := by
  have hloop : ∀ (l : List (ℕ × (ℕ × String))) (d : Dict String ℕ),
      (l.foldl (fun d row => if row.2.1 = key then d.set row.2.2 row.1 else d) d).get? text = some id →
        d.get? text = some id ∨ (id, key, text) ∈ l := by
    intro l
    induction l with
    | nil => exact fun d h => Or.inl h
    | cons row l ih =>
      intro d h
      rcases ih _ h with hd | hmem
      · dsimp only at hd
        by_cases hkey : row.2.1 = key
        · rw [if_pos hkey, get?_set] at hd
          by_cases htext : text = row.2.2
          · rw [if_pos htext] at hd
            cases hd
            subst htext hkey
            exact Or.inr mem_cons_self
          · rw [if_neg htext] at hd
            exact Or.inl hd
        · rw [if_neg hkey] at hd
          exact Or.inl hd
      · exact Or.inr (mem_cons_of_mem row hmem)
  unfold requiredStateToId at h
  by_cases hprevious : previous = none
  · rw [if_pos hprevious] at h
    cases h
  rw [if_neg hprevious] at h
  rcases hloop _ _ h with hd | hmem
  · cases hd
  · exact get?_eq_some_iff.mpr hmem

/-- Rooms are known with the id of their required state, or wait with it for one. -/
structure Split (env : SyncEnv) (known : Dict String ℕ) (configs : Dict String RoomSyncConfig)
    (split : Dict String ℕ × Dict String (List String)) : Prop where
  ids : ∀ room id, split.1.get? room = some id →
    ∃ c, configs.get? room = some c ∧ known.get? (env.serialize c.requiredStateMap) = some id
  unique : ∀ text room, room ∈ split.2.getD text [] →
    ∃ c, configs.get? room = some c ∧ env.serialize c.requiredStateMap = text
  texts : ∀ text rooms, split.2.get? text = some rooms → ∃ m, env.serialize m = text

/-- One more room. -/
theorem Split.step {known : Dict String ℕ} {split : Dict String ℕ × Dict String (List String)}
    (h : Split env known configs split) {item : String × RoomSyncConfig}
    (hitem : configs.get? item.1 = some item.2) :
    Split env known configs (splitConfig env known split item) := by
  unfold splitConfig
  cases hknown : known.get? (env.serialize item.2.requiredStateMap) with
  | some id =>
    refine ⟨fun room id' hroom => ?_, h.unique, h.texts⟩
    rcases of_get?_set hroom with ⟨heq, rfl⟩ | ⟨heq, hroom⟩
    · exact ⟨item.2, by rw [heq]; exact hitem, hknown⟩
    · exact h.ids room id' hroom
  | none =>
    refine ⟨h.ids, fun text room hroom => ?_, fun text rooms hget => ?_⟩
    · rcases (mem_appendTo split.2).mp hroom with hroom | ⟨htext, heq⟩
      · exact h.unique text room hroom
      · exact ⟨item.2, by rw [← heq]; exact hitem, htext⟩
    rw [Dict.appendTo, get?_set] at hget
    by_cases htext : text = env.serialize item.2.requiredStateMap
    · exact ⟨_, htext.symm⟩
    · rw [if_neg htext] at hget
      exact h.texts text rooms hget

theorem splitConfigs_split (env : SyncEnv) (known : Dict String ℕ) (configs : Dict String RoomSyncConfig) :
    Split env known configs (splitConfigs env known configs) := by
  have hloop : ∀ (l : List (String × RoomSyncConfig)) (split : Dict String ℕ × Dict String (List String)),
      (∀ item ∈ l, configs.get? item.1 = some item.2) → Split env known configs split →
      Split env known configs (l.foldl (splitConfig env known) split) := by
    intro l
    induction l with
    | nil => exact fun split _ h => h
    | cons item l ih =>
      intro split hall h
      exact ih _ (fun item' hitem' => hall item' (mem_cons_of_mem item hitem'))
        (h.step (hall item mem_cons_self))
  refine hloop configs.items (∅, ∅) (fun item hitem => get?_eq_some_iff.mpr hitem) ?_
  exact ⟨fun room id h => (by cases h), fun text room h => absurd h List.not_mem_nil,
    fun text rooms h => (by cases h)⟩

/-- Every room with an id has its required state under it; rows are added under new ids. -/
structure Inserted (env : SyncEnv) (key : ℕ) (configs : Dict String RoomSyncConfig) (t : Tables)
    (acc : Dict String ℕ × Tables) : Prop where
  ids : ∀ room id, acc.1.get? room = some id →
    ∃ c, configs.get? room = some c ∧ acc.2.requiredState.get? id = some (key, env.serialize c.requiredStateMap)
  kept : ∀ id row, t.requiredState.get? id = some row → acc.2.requiredState.get? id = some row
  added : ∀ id row, acc.2.requiredState.get? id = some row →
    t.requiredState.get? id = some row ∨ ∃ m, row = (key, env.serialize m)
  fresh : ∀ id row, acc.2.requiredState.get? id = some row → id < acc.2.nextRequiredStateId
  rest : acc.2 = { t with
    requiredState := acc.2.requiredState
    nextRequiredStateId := acc.2.nextRequiredStateId }

theorem get?_foldl_set_const (rooms : List String) (id : ℕ) (ids : Dict String ℕ) (room : String) :
    (rooms.foldl (fun ids room => ids.set room id) ids).get? room =
      if room ∈ rooms then some id else ids.get? room := by
  induction rooms generalizing ids with
  | nil => rw [foldl_nil, if_neg List.not_mem_nil]
  | cons room' rooms ih =>
    rw [foldl_cons, ih, get?_set]
    by_cases hmem : room ∈ rooms
    · rw [if_pos hmem, if_pos (mem_cons_of_mem room' hmem)]
    by_cases heq : room = room'
    · rw [if_neg hmem, if_pos heq, if_pos (List.mem_cons.mpr (Or.inl heq))]
    · rw [if_neg hmem, if_neg heq, if_neg (mt List.mem_cons.mp (not_or.mpr ⟨heq, hmem⟩))]

theorem Inserted.step {acc : Dict String ℕ × Tables} (h : Inserted env key configs t acc)
    {item : String × List String}
    (hrooms : ∀ room ∈ item.2, ∃ c, configs.get? room = some c ∧ env.serialize c.requiredStateMap = item.1)
    (htext : ∃ m, env.serialize m = item.1) :
    Inserted env key configs t (insertOneRequiredState key acc item) := by
  -- an id that is in the table is not the next one
  have hold : ∀ id row, acc.2.requiredState.get? id = some row →
      (acc.2.requiredState.set acc.2.nextRequiredStateId (key, item.1)).get? id = some row := by
    intro id row hrow
    rw [get?_set, if_neg (Nat.ne_of_lt (h.fresh id row hrow))]
    exact hrow
  refine ⟨fun room id hid => ?_, fun id row hrow => hold id row (h.kept id row hrow), fun id row hrow => ?_,
    fun id row hrow => ?_, ?_⟩
  · dsimp only [insertOneRequiredState] at hid
    rw [get?_foldl_set_const] at hid
    by_cases hmem : room ∈ item.2
    · rw [if_pos hmem] at hid
      cases hid
      obtain ⟨c, hc, hserialize⟩ := hrooms room hmem
      refine ⟨c, hc, ?_⟩
      dsimp only [insertOneRequiredState]
      rw [get?_set, if_pos rfl, hserialize]
    · rw [if_neg hmem] at hid
      obtain ⟨c, hc, hrow⟩ := h.ids room id hid
      exact ⟨c, hc, hold id _ hrow⟩
  · dsimp only [insertOneRequiredState] at hrow
    rcases of_get?_set hrow with ⟨hid, rfl⟩ | ⟨hid, hrow⟩
    · obtain ⟨m, hm⟩ := htext
      exact Or.inr ⟨m, by rw [hm]⟩
    · exact h.added id row hrow
  · dsimp only [insertOneRequiredState] at hrow ⊢
    rcases of_get?_set hrow with ⟨hid, -⟩ | ⟨hid, hrow⟩
    · omega
    · have hlt := h.fresh id row hrow
      omega
  · have hrest := h.rest
    dsimp only [insertOneRequiredState]
    rw [hrest]

theorem insertRequiredState_inserted (env : SyncEnv) (key : ℕ) (previous : Option ℕ)
    (configs : Dict String RoomSyncConfig)
    (hfresh : ∀ id row, t.requiredState.get? id = some row → id < t.nextRequiredStateId) :
    Inserted env key configs t
      (insertRequiredState key (splitConfigs env (requiredStateToId key previous t) configs).2
        (splitConfigs env (requiredStateToId key previous t) configs).1 t) := by
  have hsplit := splitConfigs_split env (requiredStateToId key previous t) configs
  generalize splitConfigs env (requiredStateToId key previous t) configs = split at hsplit ⊢
  have hloop : ∀ (l : List (String × List String)) (acc : Dict String ℕ × Tables),
      (∀ item ∈ l, split.2.get? item.1 = some item.2) → Inserted env key configs t acc →
      Inserted env key configs t (l.foldl (insertOneRequiredState key) acc) := by
    intro l
    induction l with
    | nil => exact fun acc _ h => h
    | cons item l ih =>
      intro acc hall h
      have hitem := hall item mem_cons_self
      refine ih _ (fun item' hitem' => hall item' (mem_cons_of_mem item hitem')) (h.step ?_ ?_)
      · intro room hroom
        exact hsplit.unique item.1 room (by rw [Dict.getD, hitem]; exact hroom)
      · exact hsplit.texts item.1 item.2 hitem
  refine hloop split.2.items (split.1, t) (fun item hitem => get?_eq_some_iff.mpr hitem) ?_
  refine ⟨fun room id hid => ?_, fun _ _ h => h, fun _ _ h => Or.inl h, hfresh, rfl⟩
  obtain ⟨c, hc, hknown⟩ := hsplit.ids room id hid
  exact ⟨c, hc, requiredStateToId_sound hknown⟩

/-! ### Lazy members -/

theorem upsertLazyMembers_cases {l : List (String × String)} {rows : Dict (ℕ × String × String) (Option ℕ × ℤ)}
    {k : ℕ × String × String} {row : Option ℕ × ℤ}
    (h : (l.foldl (upsertLazyMember now key position) rows).get? k = some row) :
    (∃ ts, rows.get? k = some (row.1, ts)) ∨ (row.1 = some position ∧ k.1 = key ∧ k.2 ∈ l) := by
  induction l generalizing rows with
  | nil => exact Or.inl ⟨row.2, h⟩
  | cons member l ih =>
    rcases ih h with ⟨ts, hget⟩ | ⟨hposition, hkey, hmem⟩
    · unfold upsertLazyMember at hget
      by_cases hk : k = (key, member)
      · subst hk
        cases hold : rows.get? (key, member) with
        | none =>
          simp only [hold] at hget
          rw [get?_set, if_pos rfl] at hget
          obtain ⟨hfirst, _⟩ := Prod.mk.inj (Option.some.inj hget)
          exact Or.inr ⟨hfirst.symm, rfl, mem_cons_self⟩
        | some old =>
          left
          simp only [hold] at hget
          by_cases hsame : old.1 = none ∨ old.1 = some position
          · rw [if_pos hsame, get?_set, if_pos rfl] at hget
            obtain ⟨hfirst, _⟩ := Prod.mk.inj (Option.some.inj hget)
            exact ⟨old.2, by rw [← hfirst]⟩
          · rw [if_neg hsame, hold] at hget
            exact ⟨ts, hget⟩
      · left
        refine ⟨ts, ?_⟩
        rw [← hget]
        cases hold : rows.get? (key, member) with
        | none => simp only [get?_set, if_neg hk]
        | some old =>
          by_cases hsame : old.1 = none ∨ old.1 = some position
          · simp only [if_pos hsame, get?_set, if_neg hk]
          · simp only [if_neg hsame]
    · exact Or.inr ⟨hposition, hkey, mem_cons_of_mem member hmem⟩

theorem mem_getReturnedUserIdsToUpdate {c : RoomLazyMembershipChanges} {user : String}
    (h : user ∈ c.getReturnedUserIdsToUpdate now) :
    ∃ lastSeenTs, c.returnedUserIdToLastSeenTsMap.get? user = some lastSeenTs := by
  obtain ⟨item, hitem, rfl⟩ := List.mem_map.mp h
  exact ⟨item.2, get?_eq_some_iff.mpr (List.mem_filter.mp hitem).1⟩

/-- **The rows of lazy members after a response**: those that were there, and new ones of the position for users
that the response returned; a user that it invalidates has none. -/
theorem persistLazyMembers_cases {changes : Dict String RoomLazyMembershipChanges} {key' : ℕ}
    {room user : String} {row : Option ℕ × ℤ}
    (h : (persistLazyMembers now key position changes t).lazyMembers.get? (key', room, user) = some row) :
    ((∃ ts, t.lazyMembers.get? (key', room, user) = some (row.1, ts)) ∨
      (row.1 = some position ∧ key' = key ∧ ∃ c lastSeenTs, changes.get? room = some c ∧
        c.returnedUserIdToLastSeenTsMap.get? user = some lastSeenTs)) ∧
    (key' = key → invalidates changes room user = false) := by
  obtain ⟨hget, hkept⟩ := get?_filter.mp h
  refine ⟨?_, fun hkey => ?_⟩
  · rcases upsertLazyMembers_cases hget with hold | ⟨hposition, hkey, hmem⟩
    · exact Or.inl hold
    · refine Or.inr ⟨hposition, hkey, ?_⟩
      obtain ⟨item, hitem, huser⟩ := List.mem_flatMap.mp hmem
      obtain ⟨user', huser', heq⟩ := List.mem_map.mp huser
      obtain ⟨rfl, rfl⟩ := Prod.mk.inj heq
      obtain ⟨lastSeenTs, hlast⟩ := mem_getReturnedUserIdsToUpdate huser'
      exact ⟨item.2, lastSeenTs, get?_eq_some_iff.mpr hitem, hlast⟩
  · simpa [hkey] using hkept

/-! ### All rows of a request -/

/-- **What a request leaves in the tables**: under the new position the rows of the previous one, but for those that
are updated; and nothing under other positions. -/
structure Written (env : SyncEnv) (key : ℕ) (previous : Option ℕ) (d : PerConnectionStateDB) (t t' : Tables) :
    Prop where
  connections : t'.connections = t.connections
  nextConnectionKey : t'.nextConnectionKey = t.nextConnectionKey
  positions : t'.positions = t.positions.set t.nextPosition key
  nextPosition : t'.nextPosition = t.nextPosition + 1
  streams : ∀ stream room, t'.streams.get? (t.nextPosition, stream.name, room) =
    (((d.statuses stream).get? room).map statusRow).or (fromPrevious t.streams previous (stream.name, room))
  unnamed : ∀ name room, (∀ stream : Stream, name ≠ stream.name) →
    t'.streams.get? (t.nextPosition, name, room) = fromPrevious t.streams previous (name, room)
  otherStreams : ∀ q k, q ≠ t.nextPosition → t'.streams.get? (q, k) = t.streams.get? (q, k)
  roomConfigs : ∃ rows : Dict String (ℤ × ℕ),
    (∀ room, Option.Rel (StoresConfig env key t'.requiredState) (rows.get? room) (d.roomConfigs.get? room)) ∧
    ∀ room, t'.roomConfigs.get? (t.nextPosition, room) =
      (rows.get? room).or (fromPrevious t.roomConfigs previous room)
  otherRoomConfigs : ∀ q room, q ≠ t.nextPosition → t'.roomConfigs.get? (q, room) = t.roomConfigs.get? (q, room)
  requiredStateKept : ∀ id row, t.requiredState.get? id = some row → t'.requiredState.get? id = some row
  requiredStateAdded : ∀ id row, t'.requiredState.get? id = some row →
    t.requiredState.get? id = some row ∨ ∃ m, row = (key, env.serialize m)
  requiredStateFresh : ∀ id row, t'.requiredState.get? id = some row → id < t'.nextRequiredStateId
  lazyMembers : ∀ key' room user row, t'.lazyMembers.get? (key', room, user) = some row →
    ((∃ ts, t.lazyMembers.get? (key', room, user) = some (row.1, ts)) ∨
      (row.1 = some t.nextPosition ∧ key' = key ∧ ∃ c lastSeenTs, d.roomLazyMembership.get? room = some c ∧
        c.returnedUserIdToLastSeenTsMap.get? user = some lastSeenTs)) ∧
    (key' = key → invalidates d.roomLazyMembership room user = false)

theorem copyRows_eq (previous : Option ℕ) (position : ℕ) (t : Tables) : copyRows previous position t = { t with
      streams := (copyRows previous position t).streams
      roomConfigs := (copyRows previous position t).roomConfigs } := by
  cases previous with
  | none => rfl
  | some previous => rfl

/-- Every row of `configRows` stands for its config. -/
theorem configRows_stores {acc : Dict String ℕ × Tables} (h : Inserted env key configs t acc)
    {rows : Dict String (ℤ × ℕ)} (hrows : configRows acc.1 configs = .ok rows) (room : String) :
    Option.Rel (StoresConfig env key acc.2.requiredState) (rows.get? room) (configs.get? room) := by
  have hrel := related_traverse hrows room
  cases hc : configs.get? room with
  | none =>
    rw [hc] at hrel
    generalize rows.get? room = row at hrel ⊢
    cases hrel
    exact .none
  | some c =>
    rw [hc] at hrel
    generalize rows.get? room = row at hrel ⊢
    cases hrel with
    | @some _ row hrow =>
      cases hid : acc.1.get? room with
      | none =>
        simp only [hid] at hrow
        cases hrow
      | some id =>
        simp only [hid] at hrow
        cases hrow
        obtain ⟨c', hc', hstate⟩ := h.ids room id hid
        rw [hc] at hc'
        cases hc'
        exact .some ⟨rfl, hstate⟩

theorem persistPosition_written {previous : Option ℕ} {d : PerConnectionStateDB} {t' : Tables}
    (h : persistPosition env now key previous d t = .ok (position, t'))
    (hstreams : ∀ k, t.streams.get? (t.nextPosition, k) = none)
    (hconfigs : ∀ room, t.roomConfigs.get? (t.nextPosition, room) = none)
    (hfresh : ∀ id row, t.requiredState.get? id = some row → id < t.nextRequiredStateId) :
    position = t.nextPosition ∧ Written env key previous d t t' := by
  unfold persistPosition at h
  have hins := insertRequiredState_inserted env key previous d.roomConfigs
    (t := { t with positions := t.positions.set t.nextPosition key, nextPosition := t.nextPosition + 1 }) hfresh
  dsimp only at h
  generalize insertRequiredState key _ _ _ = acc at h hins
  obtain ⟨ids, t₂⟩ := acc
  cases hrows : configRows ids d.roomConfigs with
  | error e =>
    rw [hrows] at h
    cases h
  | ok rows =>
    rw [hrows] at h
    obtain ⟨rfl, rfl⟩ := Prod.mk.inj (Except.ok.inj h)
    refine ⟨rfl, ?_⟩
    have hstore := configRows_stores hins hrows
    -- the tables before and after the rows are copied
    have ht₂ := hins.rest
    have ht₃ := copyRows_eq previous t.nextPosition t₂
    dsimp only at hstore ht₂
    have hold : ∀ k, t₂.streams.get? (t.nextPosition, k) = none := by
      intro k
      rw [ht₂]
      exact hstreams k
    have holdConfigs : ∀ room, t₂.roomConfigs.get? (t.nextPosition, room) = none := by
      intro room
      rw [ht₂]
      exact hconfigs room
    exact
      { connections := by rw [persistLazyMembers, ht₃, ht₂]
        nextConnectionKey := by rw [persistLazyMembers, ht₃, ht₂]
        positions := by rw [persistLazyMembers, ht₃, ht₂]
        nextPosition := by rw [persistLazyMembers, ht₃, ht₂]
        streams := fun stream room => by
          dsimp only [persistLazyMembers]
          rw [get?_upsertStreams, get?_copyRows_streams, if_pos rfl, hold, Option.or_none, ht₂]
        unnamed := fun name room hname => by
          dsimp only [persistLazyMembers]
          rw [get?_upsertStreams_of_ne _ _ _ _ (Or.inr hname), get?_copyRows_streams, if_pos rfl, hold,
            Option.or_none, ht₂]
        otherStreams := fun q k hq => by
          dsimp only [persistLazyMembers]
          rw [get?_upsertStreams_of_ne _ _ _ _ (Or.inl hq), get?_copyRows_streams, if_neg hq, ht₂]
        roomConfigs := by
          refine ⟨rows, fun room => ?_, fun room => ?_⟩
          · dsimp only [persistLazyMembers]
            rw [ht₃]
            exact hstore room
          dsimp only [persistLazyMembers]
          rw [get?_upsertRows (Prod.mk_right_injective t.nextPosition), Option.map_id',
            get?_copyRows_roomConfigs, if_pos rfl, holdConfigs, Option.or_none, ht₂]
        otherRoomConfigs := fun q room hq => by
          dsimp only [persistLazyMembers]
          rw [get?_upsertRows_of_forall_ne _ _ _ fun i heq => hq (Prod.mk.inj heq).1,
            get?_copyRows_roomConfigs, if_neg hq, ht₂]
        requiredStateKept := fun id row hrow => by
          rw [ht₃]
          exact hins.kept id row hrow
        requiredStateAdded := fun id row hrow => by
          rw [ht₃] at hrow
          exact hins.added id row hrow
        requiredStateFresh := fun id row hrow => by
          dsimp only [persistLazyMembers] at hrow ⊢
          rw [ht₃] at hrow ⊢
          exact hins.fresh id row hrow
        lazyMembers := fun key' room user row hrow => by
          have hcases := persistLazyMembers_cases hrow
          rw [ht₃, ht₂] at hcases
          exact hcases }

end Setka.Storage.SlidingSync
