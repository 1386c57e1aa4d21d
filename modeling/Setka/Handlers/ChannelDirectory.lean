/-
# Setka.Handlers.ChannelDirectory — the directory of channels, page by page.

A call fetches ten rooms more than a page holds, fills a page with those that match, and ends the directory where
fewer rooms were fetched than were asked for. Rooms that were fetched last and found no place on the page are then
never listed. Nothing else is lost, and nothing is listed twice.
-/
import Mathlib.Data.Prod.Lex
import Setka.Handlers.ChannelRuns
import Setka.Lib.Base64
import Setka.Lib.Follow

namespace Setka.Handlers.Channels

open Setka.Api Setka.Events Setka.Lib Setka.Handlers.Feed Probe

/-! ## §1 The registry -/

/-- A room as `_fetch_published_channels_from_registry` returns it. -/
structure RegistryRoom where
  roomId : String
  name : Option String
  topic : String
  canonicalAlias : Option String
  numJoinedMembers : ℤ
  avatarUrl : Option String
  publishedAt : ℤ
  tag : Option String
  hidden : Bool
  categoryId : Option String
  feedEnabled : Bool

/-- `RoomListNextBatch`. -/
structure RoomListNextBatch where
  lastJoinedMembers : ℤ
  lastRoomId : String
  directionIsForward : Bool
  deriving DecidableEq

/-- A row of the registry with the statistics of its room, if the joins and the conditions on topic and join rule
select it. `like` is the database's `LOWER(…) LIKE ?`. -/
def registryRoom (like : String → String → Bool) (w : World) (roomId : String) (c : PublishedChannel) :
    Option RegistryRoom :=
  (w.roomStats.get? roomId).bind fun stats =>
    stats.topic.bind fun topic =>
      stats.joinRules.bind fun joinRules =>
        if like topic ("%" ++ channelTopicPrefix ++ "%") ∧ joinRules ∈ publicJoinRules then
          some
            { roomId
              name := stats.name
              topic
              canonicalAlias := stats.canonicalAlias
              numJoinedMembers := stats.joinedMembers
              avatarUrl := stats.avatar
              publishedAt := c.publishedAt
              tag := c.tag
              hidden := c.hidden
              categoryId := c.categoryId
              feedEnabled := c.feedEnabled }
        else none

def registryRooms (like : String → String → Bool) (w : World) : List RegistryRoom :=
  w.published.items.filterMap fun item => registryRoom like w item.1 item.2

/-- The place of a room in the directory. -/
def RegistryRoom.rank (room : RegistryRoom) : ℤ ×ₗ String := toLex (room.numJoinedMembers, room.roomId)

/-- The condition on `bounds`. -/
def RegistryRoom.beyond (bounds : Option (ℤ × String)) (forwards : Bool) (room : RegistryRoom) : Bool :=
  match bounds with
  | none => true
  | some (lastJoinedMembers, lastRoomId) =>
    if forwards then
      decide (room.numJoinedMembers ≤ lastJoinedMembers) &&
        (decide (room.numJoinedMembers < lastJoinedMembers) || decide (room.roomId < lastRoomId))
    else
      decide (lastJoinedMembers ≤ room.numJoinedMembers) &&
        (decide (lastJoinedMembers < room.numJoinedMembers) || decide (lastRoomId < room.roomId))

/-- `_fetch_published_channels_from_registry`. -/
def fetchPublishedChannelsFromRegistry (like : String → String → Bool) (w : World) (limit : ℕ)
    (bounds : Option (ℤ × String)) (forwards includeHidden : Bool) : List RegistryRoom :=
  let rooms := (registryRooms like w).filter fun room =>
    (includeHidden || !room.hidden) && room.beyond bounds forwards
  let rooms :=
    if forwards then rooms.insertionSort fun a b => b.rank ≤ a.rank
    else rooms.insertionSort fun a b => a.rank ≤ b.rank
  rooms.take limit

/-! ## §2 A page -/

/-- A channel as the directory lists it. -/
structure ChannelEntry where
  roomId : String
  name : Option String
  topic : String
  tag : Option String
  avatarUrl : Option String
  numJoinedMembers : ℤ
  canonicalAlias : Option String
  aliases : List String
  publishedAt : ℤ
  hidden : Bool
  category : Option (String × Option String)
  subscribed : Option Bool

/-- `x or default`, of a string or `None`. -/
def orElse (default x : Option String) : Option String := if x.getD "" = "" then default else x

/-- `_room_entry_to_channel`. -/
def roomEntryToChannel (uni : PyStr.Unicode) (room : RegistryRoom) : Option ChannelEntry :=
  if PyStr.startsWith channelTopicPrefix (uni.lower room.topic) then
    some
      { roomId := room.roomId
        name := room.name
        topic := room.topic
        tag := orElse (parseChannelTag uni room.topic) room.tag
        avatarUrl := room.avatarUrl
        numJoinedMembers := room.numJoinedMembers
        canonicalAlias := room.canonicalAlias
        aliases := []
        publishedAt := room.publishedAt
        hidden := room.hidden
        category := none
        subscribed := none }
  else none

/-- `needle in s`. -/
def within (needle s : String) : Bool := s.toList.tails.any fun t => needle.toList.isPrefixOf t

/-- `_matches_search`. -/
def matchesSearch (uni : PyStr.Unicode) (entry : ChannelEntry) (query : String) : Bool :=
  let needle := uni.lower (PyStr.strip query)
  let lowered (x : Option String) : String := uni.lower (x.getD "")
  if needle = "" then true
  else if PyStr.startsWith "#" needle then
    within (PyStr.drop 1 needle) (lowered entry.tag) || lowered entry.tag = PyStr.drop 1 needle
  else
    [lowered entry.name, uni.lower entry.topic, lowered entry.canonicalAlias, lowered entry.tag].any (within needle)

/-- `get_category_label`. -/
def getCategoryLabel (w : World) (categoryId : String) : Option String :=
  (w.categories.get? categoryId).map Category.label

/-- The arguments of `list_public_channels`. -/
structure DirectoryRequest where
  limit : Option ℤ
  sinceToken : Option String
  searchQuery : Option String
  userId : Option String

/-- What the loop of `list_public_channels` adds to an entry: its category, and for a user whether it is
subscribed to. -/
def withCategory (w : World) (room : RegistryRoom) (entry : ChannelEntry) : ChannelEntry :=
  if room.categoryId.getD "" = "" then entry
  else { entry with category := room.categoryId.map fun id => (id, getCategoryLabel w id) }

def withSubscribed (w : World) (q : DirectoryRequest) (room : RegistryRoom) (entry : ChannelEntry) : ChannelEntry :=
  if q.userId.getD "" = "" then entry
  else { entry with subscribed := some (decide ((q.userId.getD "", room.roomId) ∈ w.subscriptions)) }

/-- What the loop makes of a room, if it lists it. -/
def listedChannel (uni : PyStr.Unicode) (w : World) (q : DirectoryRequest) (room : RegistryRoom) :
    Option ChannelEntry :=
  ((roomEntryToChannel uni room).map fun entry => withSubscribed w q room (withCategory w room entry)).filter
    fun entry => matchesSearch uni entry (q.searchQuery.getD "")

/-- The loop of `list_public_channels`: the channels of the page, and the room that was considered last. -/
def considerRooms (listed : RegistryRoom → Option ChannelEntry) (pageSize : ℕ) :
    List RegistryRoom → List ChannelEntry → Option RegistryRoom → List ChannelEntry × Option RegistryRoom
  | [], channels, lastConsidered => (channels, lastConsidered)
  | room :: rest, channels, _ =>
    match listed room with
    | none => considerRooms listed pageSize rest channels (some room)
    | some entry =>
      if pageSize ≤ (channels ++ [entry]).length then (channels ++ [entry], some room)
      else considerRooms listed pageSize rest (channels ++ [entry]) (some room)

/-- What `list_public_channels` answers. -/
structure DirectoryPage where
  channels : List ChannelEntry
  nextBatch : Option String
  totalRoomCountEstimate : ℕ

/-- How a `RoomListNextBatch` is written as a token and read back. -/
structure BatchTokens where
  toToken : RoomListNextBatch → String
  fromToken : String → Except Error RoomListNextBatch

/-- `page_size`. -/
def pageSize (limit : Option ℤ) : ℕ :=
  let limit := match limit with
    | none => 40
    | some n => if n = 0 then 40 else n
  (max 1 (min limit 100)).toNat

/-- Where a token says to go on, and in which direction. -/
def batchBounds (tokens : BatchTokens) (sinceToken : Option String) : Except Error (Option (ℤ × String) × Bool) :=
  if sinceToken.getD "" = "" then .ok (none, true)
  else do
    let batchToken ← tokens.fromToken (sinceToken.getD "")
    .ok (some (batchToken.lastJoinedMembers, batchToken.lastRoomId), batchToken.directionIsForward)

/-- `list_public_channels`. -/
def listPublicChannels (tokens : BatchTokens) (uni : PyStr.Unicode) (like : String → String → Bool) (w : World)
    (q : DirectoryRequest) : Except Error DirectoryPage := do
  let pageSize := pageSize q.limit
  let (bounds, forwards) ← batchBounds tokens q.sinceToken
  let probingLimit := pageSize + 10
  let rawRooms := fetchPublishedChannelsFromRegistry like w probingLimit bounds forwards false
  let (channels, lastConsidered) := considerRooms (listedChannel uni w q) pageSize rawRooms [] none
  let nextBatch := lastConsidered.bind fun room =>
    if probingLimit ≤ rawRooms.length then
      some (tokens.toToken ⟨room.numJoinedMembers, room.roomId, true⟩)
    else none
  pure ⟨channels, nextBatch, channels.length⟩

/-! ## §3 One page of a sorted list -/

/-- The loop looks at rooms until the page is full. -/
theorem considerRooms_eq (listed : RegistryRoom → Option ChannelEntry) {n : ℕ} (rooms : List RegistryRoom)
    (channels : List ChannelEntry) (last : Option RegistryRoom) (h : channels.length < n) :
    considerRooms listed n rooms channels last =
      (channels ++ (Probe.looked listed (n - channels.length) rooms).filterMap listed,
        (Probe.looked listed (n - channels.length) rooms).getLast?.or last) := by
  induction rooms generalizing channels last with
  | nil => simp [considerRooms, Probe.looked]
  | cons room rest ih =>
    rw [considerRooms, Probe.looked]
    cases hroom : listed room with
    | none =>
      rw [ih channels (some room) h, List.filterMap_cons_none hroom, List.getLast?_cons]
      cases (Probe.looked listed (n - channels.length) rest).getLast? <;> rfl
    | some entry =>
      dsimp only
      have hlength : (channels ++ [entry]).length = channels.length + 1 := by simp
      by_cases hfull : n ≤ channels.length + 1
      · rw [if_pos (by omega), if_pos (by omega), List.filterMap_cons_some hroom]
        rfl
      have hrest : n - (channels ++ [entry]).length = n - channels.length - 1 := by omega
      rw [if_neg (by omega), if_neg (by omega), ih (channels ++ [entry]) (some room) (by omega), hrest,
        List.filterMap_cons_some hroom, List.getLast?_cons, List.append_assoc]
      cases (Probe.looked listed (n - channels.length - 1) rest).getLast? <;> rfl

/-- The directory: the published channels that are not hidden, the largest first. -/
def directoryRooms (like : String → String → Bool) (w : World) : List RegistryRoom :=
  ((registryRooms like w).filter fun room => !room.hidden).insertionSort fun a b => b.rank ≤ a.rank

variable {like : String → String → Bool} {w : World} {room : RegistryRoom}

theorem registryRoom_roomId {roomId : String} {c : PublishedChannel}
    (h : registryRoom like w roomId c = some room) : room.roomId = roomId := by
  obtain ⟨stats, -, h⟩ := Option.bind_eq_some_iff.mp h
  obtain ⟨topic, -, h⟩ := Option.bind_eq_some_iff.mp h
  obtain ⟨joinRules, -, h⟩ := Option.bind_eq_some_iff.mp h
  split at h
  · obtain rfl := Option.some.inj h
    rfl
  · cases h

/-- No two rooms of the registry have one place. -/
theorem pairwise_registryRooms (like : String → String → Bool) (w : World) :
    (registryRooms like w).Pairwise fun a b => a.rank ≠ b.rank := by
  refine List.pairwise_filterMap.mpr ((List.pairwise_map.mp w.published.nodup).imp ?_)
  intro a b hne x hx y hy heq
  have hid : x.roomId = y.roomId := congrArg Prod.snd (toLex.injective heq)
  rw [registryRoom_roomId hx, registryRoom_roomId hy] at hid
  exact hne hid

variable {rooms : List RegistryRoom}

/-- **Sorted without ties**: any list of rooms of the registry. -/
theorem pairwise_insertionSort_rank (h : rooms.Pairwise fun a b => a.rank ≠ b.rank) :
    (rooms.insertionSort fun a b => b.rank ≤ a.rank).Pairwise fun a b => b.rank < a.rank := by
  have hperm := List.perm_insertionSort (fun a b : RegistryRoom => b.rank ≤ a.rank) rooms
  have hne := (hperm.pairwise_iff fun {a b} hab => Ne.symm hab).mpr h
  exact ((List.pairwise_insertionSort _ rooms).and hne).imp fun hab => lt_of_le_of_ne hab.1 (Ne.symm hab.2)

theorem pairwise_directoryRooms (like : String → String → Bool) (w : World) :
    (directoryRooms like w).Pairwise fun a b => b.rank < a.rank :=
  pairwise_insertionSort_rank ((pairwise_registryRooms like w).sublist List.filter_sublist)

theorem beyond_iff {bounds : ℤ × String} : room.beyond (some bounds) true = true ↔ room.rank < toLex bounds := by
  rw [RegistryRoom.rank, Prod.Lex.toLex_lt_toLex]
  simp only [RegistryRoom.beyond, if_pos, Bool.and_eq_true, Bool.or_eq_true, decide_eq_true_eq]
  constructor
  · rintro ⟨hle, hless | hid⟩
    · exact .inl hless
    · exact hle.lt_or_eq.imp_right fun heq => ⟨heq, hid⟩
  rintro (hless | ⟨heq, hid⟩)
  · exact ⟨hless.le, .inl hless⟩
  · exact ⟨heq.le, .inr hid⟩

/-- **What a call fetches**, of the directory. -/
theorem fetch_eq (like : String → String → Bool) (w : World) (limit : ℕ) (bounds : Option (ℤ × String)) :
    fetchPublishedChannelsFromRegistry like w limit bounds true false =
      ((directoryRooms like w).filter (RegistryRoom.beyond bounds true)).take limit := by
  have hfilter : ((registryRooms like w).filter fun room => (false || !room.hidden) && room.beyond bounds true) =
      ((registryRooms like w).filter fun room => !room.hidden).filter (RegistryRoom.beyond bounds true) := by
    rw [List.filter_filter]
    refine List.filter_congr fun room _ => ?_
    rw [Bool.false_or, Bool.and_comm]
  have hperm : (((registryRooms like w).filter fun room => (false || !room.hidden) &&
      room.beyond bounds true).insertionSort fun a b => b.rank ≤ a.rank).Perm
      ((directoryRooms like w).filter (RegistryRoom.beyond bounds true)) := by
    refine (List.perm_insertionSort _ _).trans ?_
    rw [hfilter]
    exact (List.perm_insertionSort _ _).symm.filter _
  have hsorted := pairwise_insertionSort_rank ((pairwise_registryRooms like w).sublist
    (List.filter_sublist (p := fun room => (false || !room.hidden) && room.beyond bounds true)))
  have hdirectory := (pairwise_directoryRooms like w).sublist
    (List.filter_sublist (p := RegistryRoom.beyond bounds true))
  refine congrArg (List.take limit) (hperm.eq_of_pairwise ?_ hsorted hdirectory)
  exact fun a b _ _ hab hba => absurd hab (not_lt.mpr hba.le)

/-! ## §4 The whole directory -/

/-- How the directory is read. -/
def directoryProbe (uni : PyStr.Unicode) (w : World) (q : DirectoryRequest) : Probe RegistryRoom ChannelEntry where
  size := pageSize q.limit
  probe := pageSize q.limit + 10
  size_pos := Int.lt_toNat.mpr (lt_of_lt_of_le one_pos (le_max_left _ _))
  size_le := Nat.le_add_right _ _
  pick := listedChannel uni w q

/-- A call of `list_public_channels`, and the token that it leaves for the next. -/
def directoryPage (tokens : BatchTokens) (uni : PyStr.Unicode) (like : String → String → Bool) (w : World)
    (q : DirectoryRequest) (since : Option String) : Option (List ChannelEntry × Option (Option String)) :=
  match listPublicChannels tokens uni like w { q with sinceToken := since } with
  | .ok page => some (page.channels, page.nextBatch.map some)
  | .error _ => none

/-- The channels that the directory is to list: those that are published, not hidden, and match. -/
def matchingChannels (uni : PyStr.Unicode) (like : String → String → Bool) (w : World) (q : DirectoryRequest) :
    List ChannelEntry :=
  ((registryRooms like w).filter fun room => !room.hidden).filterMap (listedChannel uni w q)

def ChannelEntry.rank (entry : ChannelEntry) : ℤ ×ₗ String := toLex (entry.numJoinedMembers, entry.roomId)

/-- **Paging is complete**: following the tokens from the first page until there is none gives every matching
channel, in descending order of its members and its id, and so every one once. -/
def DirectoryComplete (tokens : BatchTokens) (uni : PyStr.Unicode) (like : String → String → Bool) (w : World)
    (q : DirectoryRequest) : Prop :=
  ∃ channels, Followed (directoryPage tokens uni like w q) none channels ∧
    (∀ entry, entry ∈ channels ↔ entry ∈ matchingChannels uni like w q) ∧
    channels.Pairwise fun a b => b.rank < a.rank

/-- The token of a room is no empty string, and is read as it was written. -/
def BatchTokens.Restores (tokens : BatchTokens) (room : RegistryRoom) : Prop :=
  tokens.toToken ⟨room.numJoinedMembers, room.roomId, true⟩ ≠ "" ∧
    tokens.fromToken (tokens.toToken ⟨room.numJoinedMembers, room.roomId, true⟩) =
      .ok ⟨room.numJoinedMembers, room.roomId, true⟩

/-- A token and the rooms that are left there. -/
def ListsFrom (tokens : BatchTokens) (like : String → String → Bool) (w : World) (since : Option String)
    (rooms : List RegistryRoom) : Prop :=
  ∃ bounds, batchBounds tokens since = .ok (bounds, true) ∧
    rooms = (directoryRooms like w).filter (RegistryRoom.beyond bounds true)

variable {tokens : BatchTokens}

theorem directoryPage_eq (uni : PyStr.Unicode) (q : DirectoryRequest) {since : Option String}
    {bounds : Option (ℤ × String)} (h : batchBounds tokens since = .ok (bounds, true))
    (hrooms : rooms = (directoryRooms like w).filter (RegistryRoom.beyond bounds true)) :
    directoryPage tokens uni like w q since =
      some (((directoryProbe uni w q).seen rooms).filterMap (listedChannel uni w q),
        (((directoryProbe uni w q).seen rooms).getLast?.bind fun room =>
          if pageSize q.limit + 10 ≤ rooms.length then
            some (tokens.toToken ⟨room.numJoinedMembers, room.roomId, true⟩)
          else none).map some) := by
  have hlimit : 0 < pageSize q.limit := (directoryProbe uni w q).size_pos
  have hconsider := considerRooms_eq (listedChannel uni w q) (rooms.take (pageSize q.limit + 10)) [] none hlimit
  rw [List.nil_append, List.length_nil, Nat.sub_zero, Option.or_none] at hconsider
  have hlength : pageSize q.limit + 10 ≤ (rooms.take (pageSize q.limit + 10)).length ↔
      pageSize q.limit + 10 ≤ rooms.length := by
    rw [List.length_take]
    omega
  have hlisted : listedChannel uni w { q with sinceToken := since } = listedChannel uni w q := rfl
  rw [directoryPage, listPublicChannels]
  dsimp only
  rw [h, except_ok_bind]
  rw [fetch_eq, ← hrooms, hlisted, hconsider]
  simp only [hlength]
  rfl

/-- A page of the directory looks at the beginning of the rooms and leaves the rest. -/
theorem ListsFrom.step (uni : PyStr.Unicode) (q : DirectoryRequest)
    (htokens : ∀ room ∈ directoryRooms like w, tokens.Restores room) {since : Option String}
    (h : ListsFrom tokens like w since rooms) :
    ∃ page next next', directoryPage tokens uni like w q since = some (page, next) ∧
      (directoryProbe uni w q).step rooms = some (page, next') ∧
      Option.Rel (ListsFrom tokens like w) next next' := by
  obtain ⟨bounds, hbounds, hrooms⟩ := h
  refine ⟨_, _, _, directoryPage_eq uni q hbounds hrooms, rfl, ?_⟩
  show Option.Rel _ _ (if pageSize q.limit + 10 ≤ rooms.length then _ else none)
  by_cases hprobe : pageSize q.limit + 10 ≤ rooms.length
  · have hpos := length_seen_pos (P := directoryProbe uni w q)
      (List.length_pos_iff.mp (by omega : 0 < rooms.length))
    obtain ⟨room, hroom⟩ := Option.isSome_iff_exists.mp (List.getLast?_isSome.mpr (List.length_pos_iff.mp hpos))
    have hsorted : rooms.Pairwise fun a b => b.rank < a.rank :=
      hrooms ▸ (pairwise_directoryRooms like w).sublist List.filter_sublist
    have hmem : room ∈ rooms := isPrefix_seen.subset (List.mem_of_getLast? hroom)
    rw [hrooms] at hmem
    obtain ⟨hdirectory, hbeyond⟩ := List.mem_filter.mp hmem
    obtain ⟨hne, hrestores⟩ := htokens room hdirectory
    rw [hroom, Option.bind_some, if_pos hprobe, if_pos hprobe]
    refine .some ⟨some (room.numJoinedMembers, room.roomId), ?_, ?_⟩
    · rw [batchBounds, Option.getD_some, if_neg hne, hrestores]
      rfl
    rw [drop_seen (r := fun a b => b.rank < a.rank) (fun _ _ h => not_lt.mpr h.le) hsorted hroom, hrooms,
      List.filter_filter]
    refine List.filter_congr fun a _ => Bool.eq_iff_iff.mpr ?_
    rw [Bool.and_eq_true, decide_eq_true_eq, beyond_iff]
    -- what comes after the room comes after the bounds that the room comes after
    refine ⟨And.left, fun hless => ⟨hless, ?_⟩⟩
    cases bounds with
    | none => rfl
    | some bounds => exact beyond_iff.mpr (lt_trans hless (beyond_iff.mp hbeyond))
  · rw [if_neg hprobe]
    simp only [if_neg hprobe, Option.bind_fun_none]
    exact .none

variable {uni : PyStr.Unicode}

theorem roomEntryToChannel_rank {entry : ChannelEntry}
    (h : roomEntryToChannel uni room = some entry) : entry.rank = room.rank := by
  unfold roomEntryToChannel at h
  split at h
  · obtain rfl := Option.some.inj h
    rfl
  · cases h

variable {q : DirectoryRequest}

theorem listedChannel_rank {entry : ChannelEntry}
    (h : listedChannel uni w q room = some entry) : entry.rank = room.rank := by
  obtain ⟨h, -⟩ := Option.filter_eq_some_iff.mp h
  obtain ⟨first, hfirst, rfl⟩ := Option.map_eq_some_iff.mp h
  rw [← roomEntryToChannel_rank hfirst, withSubscribed, withCategory]
  split <;> split <;> rfl

/-- The matching channels in order. -/
theorem pairwise_listed (uni : PyStr.Unicode) (like : String → String → Bool) (w : World) (q : DirectoryRequest) :
    ((directoryRooms like w).filterMap (listedChannel uni w q)).Pairwise fun a b => b.rank < a.rank := by
  refine List.pairwise_filterMap.mpr ((pairwise_directoryRooms like w).imp ?_)
  intro a b hless x hx y hy
  rw [listedChannel_rank hx, listedChannel_rank hy]
  exact hless

theorem perm_matchingChannels (uni : PyStr.Unicode) (like : String → String → Bool) (w : World)
    (q : DirectoryRequest) :
    ((directoryRooms like w).filterMap (listedChannel uni w q)).Perm (matchingChannels uni like w q) :=
  (List.perm_insertionSort _ _).filterMap _

/-- **The directory is read as its rooms are**: a page at a time, with a look ahead. -/
theorem directoryComplete_iff_followed (htokens : ∀ room ∈ directoryRooms like w, tokens.Restores room) :
    DirectoryComplete tokens uni like w q ↔ Followed (directoryProbe uni w q).step (directoryRooms like w)
      ((directoryRooms like w).filterMap (directoryProbe uni w q).pick) := by
  have hstart : ListsFrom tokens like w none (directoryRooms like w) :=
    ⟨none, rfl, (List.filter_eq_self.mpr fun _ _ => rfl).symm⟩
  have hfollowed : ∀ channels, Followed (directoryPage tokens uni like w q) none channels ↔
      Followed (directoryProbe uni w q).step (directoryRooms like w) channels := fun channels =>
    followed_iff_of_alike (fun _ _ h => h.step uni q htokens) hstart
  have hmem : ∀ entry, entry ∈ (directoryRooms like w).filterMap (listedChannel uni w q) ↔
      entry ∈ matchingChannels uni like w q := fun entry => (perm_matchingChannels uni like w q).mem_iff
  have hne : ∀ {xs : List ChannelEntry}, (xs.Pairwise fun a b => b.rank < a.rank) → xs.Nodup := fun hxs =>
    hxs.imp fun hless heq => absurd (heq ▸ hless) (lt_irrefl _)
  constructor
  · rintro ⟨channels, hchannels, hall, hsorted⟩
    have hlisted := pairwise_listed uni like w q
    have hperm : channels.Perm ((directoryRooms like w).filterMap (listedChannel uni w q)) :=
      (List.perm_ext_iff_of_nodup (hne hsorted) (hne hlisted)).mpr fun entry => (hall entry).trans (hmem entry).symm
    have heq := hperm.eq_of_pairwise (fun a b _ _ hab hba => absurd hab (not_lt.mpr hba.le)) hsorted hlisted
    exact heq ▸ (hfollowed channels).mp hchannels
  · intro hread
    exact ⟨_, (hfollowed _).mpr hread, hmem, pairwise_listed uni like w q⟩

/-- The first page of a complete directory: if it is the last, all there is fits. -/
theorem DirectoryComplete.fits (htokens : ∀ room ∈ directoryRooms like w, tokens.Restores room)
    (h : DirectoryComplete tokens uni like w q) : (directoryProbe uni w q).Fits (directoryRooms like w) :=
  (followed_iff.mp ((directoryComplete_iff_followed htokens).mp h)).here

/-- **The directory is complete exactly when the rooms that are left for its last page fit.** -/
theorem directoryComplete_iff (tokens : BatchTokens) (uni : PyStr.Unicode) (like : String → String → Bool) (w : World)
    (q : DirectoryRequest) (htokens : ∀ room ∈ directoryRooms like w, tokens.Restores room) :
    DirectoryComplete tokens uni like w q ↔
      AlongPages (directoryProbe uni w q).step (directoryProbe uni w q).Fits (directoryRooms like w) := by
  rw [directoryComplete_iff_followed htokens, Probe.followed_iff]

/-- Tokens of rooms with fewer than 128 members and a short id in ASCII. -/
def exampleTokens : BatchTokens where
  toToken batch := Base64.encodeBytes ([131, 161, 109, batch.lastJoinedMembers.toNat, 161, 114] ++
    (160 + batch.lastRoomId.length) :: batch.lastRoomId.toList.map Char.toNat ++
    [161, 100, if batch.directionIsForward then 195 else 194])
  fromToken token :=
    match (Base64.decodeBytes token).getD [] with
    | 131 :: 161 :: 109 :: members :: 161 :: 114 :: size :: rest =>
      .ok
        { lastJoinedMembers := members
          lastRoomId := String.ofList ((rest.take (size - 160)).map Char.ofNat)
          directionIsForward := (rest.drop (size - 160)).getLast? = some 195 }
    | _ => .error .exception

/-- Channels with their members. -/
def exampleDirectory (rooms : List (String × ℤ)) : World :=
  { exampleServer with
    published := rooms.foldl (fun d room => d.set room.1 ⟨0, none, false, none, true⟩) .empty
    roomStats := rooms.foldl (fun d room =>
      d.set room.1 ⟨none, some "setka:channel", none, none, some "public", room.2⟩) .empty }

/-- A page of one channel. -/
def exampleListing : DirectoryRequest := ⟨some 1, none, none, none⟩

theorem exampleTokens_restore : ∀ room ∈ directoryRooms (fun _ _ => true)
    (exampleDirectory [("!a:s", 2), ("!b:s", 1)]), exampleTokens.Restores room := by
  refine List.forall_mem_cons.mpr ⟨⟨?_, ?_⟩, List.forall_mem_cons.mpr ⟨⟨?_, ?_⟩, ?_⟩⟩
  · decide +kernel
  · decide +kernel
  · decide +kernel
  · decide +kernel
  · exact fun _ h => absurd h List.not_mem_nil

theorem directoryComplete_iff_example :
    DirectoryComplete exampleTokens exampleTables (fun _ _ => true) (exampleDirectory [("!a:s", 2), ("!b:s", 1)])
        exampleListing ↔
      AlongPages (directoryProbe exampleTables (exampleDirectory [("!a:s", 2), ("!b:s", 1)]) exampleListing).step
        (directoryProbe exampleTables (exampleDirectory [("!a:s", 2), ("!b:s", 1)]) exampleListing).Fits
        (directoryRooms (fun _ _ => true) (exampleDirectory [("!a:s", 2), ("!b:s", 1)])) :=
  directoryComplete_iff _ _ _ _ _ exampleTokens_restore

/-- **Two channels on pages of one**: both are fetched for the first page, which has no token, and the second is
never listed. -/
theorem directory_not_complete : ¬DirectoryComplete exampleTokens exampleTables (fun _ _ => true)
      (exampleDirectory [("!a:s", 2), ("!b:s", 1)]) exampleListing := by
  intro h
  have hfits := h.fits exampleTokens_restore
  exact absurd (hfits (by decide +kernel)) (by decide +kernel)

end Setka.Handlers.Channels
