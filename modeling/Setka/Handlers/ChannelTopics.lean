/-
# Setka.Handlers.ChannelTopics — what makes a room a channel.

Four places decide it by the topic: the permission to post and the registration, the directory, the tag, and the scan
that rebuilds the registry. The first strip the topic before they look for the marker at its beginning, the second and
third do not, and the last one looks for it anywhere. The topics are found on which all agree.
-/
import Setka.Handlers.ChannelDirectory
import Setka.Handlers.ChannelModeration
import Setka.Lib.PyStrSpaces

namespace Setka.Handlers.Channels

open Setka.Api Setka.Events Setka.Lib Setka.Handlers.Feed PyStr Dict

/-! ## §1 Topics -/

/-- Whether a topic without its outer white space begins with the marker. -/
def marked (uni : PyStr.Unicode) (topic : String) : Bool :=
  PyStr.startsWith channelTopicPrefix (uni.lower (PyStr.strip topic))

/-- What follows the marker. -/
def textAfterPrefix (topic : String) : String :=
  PyStr.strip (PyStr.drop channelTopicPrefix.length (PyStr.strip topic))

/-- The first word of a text. -/
def firstWord (text : String) : List Char := text.toList.takeWhile fun c => !PyStr.isSpace c

/-- What stands between the first word of a text and the next blank. -/
def behindFirstWord (text : String) : List Char :=
  (text.toList.takeWhile fun c => c ≠ ' ').dropWhile fun c => !PyStr.isSpace c

/-- The tag that a word is. -/
def tagOf : List Char → Option (List Char)
  | '#' :: tag => if 3 ≤ tag.length ∧ tag.length ≤ 32 ∧ tag.all isTagChar then some tag else none
  | _ => none

/-- The word that is matched against the pattern of tags. -/
def matchedWord (text : String) : List Char :=
  (PyStr.strip (String.ofList (text.toList.takeWhile fun c => c ≠ ' '))).toList

variable {tag : List Char}

theorem tagOf_eq_some {word : List Char} (h : tagOf word = some tag) :
    word = '#' :: tag ∧ ∀ c ∈ tag, isTagChar c = true := by
  unfold tagOf at h
  split at h
  · split at h
    · next hvalid =>
        cases h
        exact ⟨rfl, List.all_eq_true.mp hvalid.2.2⟩
    · cases h
  · cases h

theorem isSpace_of_isTagChar {c : Char} (h : isTagChar c = true) : PyStr.isSpace c = false := by
  have hcode : 48 ≤ c.toNat ∧ c.toNat ≤ 57 ∨ 65 ≤ c.toNat ∧ c.toNat ≤ 90 ∨ 97 ≤ c.toNat ∧ c.toNat ≤ 122 ∨
      c.toNat = 95 ∨ c.toNat ∈ [0x130, 0x131, 0x17f, 0x212a] := by
    unfold isTagChar Char.isAlphanum Char.isAlpha Char.isUpper Char.isLower Char.isDigit at h
    simp only [Bool.or_eq_true, decide_eq_true_eq, ge_iff_le, Bool.and_eq_true, UInt32.le_iff_toNat_le] at h
    rcases h with ((((hupper | hlower) | hdigit) | rfl) | hother)
    · exact Or.inr (Or.inl hupper)
    · exact Or.inr (Or.inr (Or.inl hlower))
    · exact Or.inl hdigit
    · exact Or.inr (Or.inr (Or.inr (Or.inl rfl)))
    · exact Or.inr (Or.inr (Or.inr (Or.inr hother)))
  simp only [List.mem_cons, List.not_mem_nil, or_false] at hcode
  simp only [PyStr.isSpace, Bool.or_eq_false_iff, Bool.and_eq_false_iff, decide_eq_false_iff_not, beq_eq_false_iff_ne]
  omega

theorem parseChannelTag_eq (uni : PyStr.Unicode) (topic : String) : parseChannelTag uni topic =
      if PyStr.startsWith channelTopicPrefix (uni.lower topic) then
        (tagOf (matchedWord (textAfterPrefix topic))).map fun tag => uni.lower (String.ofList tag)
      else none := by
  have hword : matchedWord (textAfterPrefix topic) = (PyStr.strip (String.ofList
      ((PyStr.strip (PyStr.drop channelTopicPrefix.length (PyStr.strip topic))).toList.takeWhile
        fun c => c ≠ ' '))).toList := rfl
  rw [parseChannelTag, hword]
  refine if_congr Iff.rfl ?_ rfl
  dsimp only
  generalize (PyStr.strip (String.ofList
    ((PyStr.strip (PyStr.drop channelTopicPrefix.length (PyStr.strip topic))).toList.takeWhile
      fun c => c ≠ ' '))).toList = word
  cases word with
  | nil => rfl
  | cons c tag =>
    by_cases hc : c = '#'
    · subst hc
      show (if _ then _ else _) = Option.map _ (if _ then _ else _)
      split
      · rfl
      · rfl
    · simp [tagOf, hc]

/-! ## §2 The tag -/

/-- The first word of what is not split at a blank yet. -/
theorem firstWord_eq (text : String) :
    firstWord text = (text.toList.takeWhile fun c => c ≠ ' ').takeWhile fun c => !PyStr.isSpace c := by
  rw [firstWord, List.takeWhile_takeWhile]
  congr 1
  funext c
  by_cases hc : c = ' '
  · subst hc
    rfl
  · simp [hc]

theorem takeWhile_eq_append (text : String) :
    (text.toList.takeWhile fun c => c ≠ ' ') = firstWord text ++ behindFirstWord text := by
  rw [firstWord_eq, behindFirstWord, List.takeWhile_append_dropWhile]

theorem isSpace_of_tagOf {word : List Char} (h : tagOf word = some tag) : ∀ c ∈ word, PyStr.isSpace c = false := by
  obtain ⟨rfl, hchars⟩ := tagOf_eq_some h
  intro c hc
  rcases List.mem_cons.mp hc with rfl | htag
  · rfl
  · exact isSpace_of_isTagChar (hchars c htag)

variable {text : String}

theorem isSpace_head_behindFirstWord {c : Char} {rest : List Char}
    (h : behindFirstWord text = c :: rest) : PyStr.isSpace c = true := by
  rw [behindFirstWord] at h
  have hne : (text.toList.takeWhile fun c => c ≠ ' ').dropWhile (fun c => !PyStr.isSpace c) ≠ [] := by
    rw [h]
    exact List.cons_ne_nil c rest
  have hhead := List.head_dropWhile_not _ hne
  simpa only [h, List.head_cons, Bool.not_eq_false'] using hhead

theorem matchedWord_eq (htag : tagOf (firstWord text) = some tag)
    (hbehind : ∀ c ∈ behindFirstWord text, PyStr.isSpace c = true) : matchedWord text = firstWord text := by
  obtain ⟨hword, -⟩ := tagOf_eq_some htag
  rw [matchedWord, takeWhile_eq_append]
  exact toList_strip_append (isSpace_of_tagOf htag) hbehind (by simp [hword])

theorem exists_matchedWord (text : String) : ∃ front back : List Char,
    firstWord text ++ behindFirstWord text = front ++ (matchedWord text ++ back) ∧
      (∀ c ∈ front, PyStr.isSpace c = true) ∧ ∀ c ∈ back, PyStr.isSpace c = true := by
  obtain ⟨front, back, hparts, hfront, hback, -⟩ :=
    exists_strip (String.ofList (text.toList.takeWhile fun c => c ≠ ' '))
  rw [String.toList_ofList] at hparts
  exact ⟨front, back, (takeWhile_eq_append text).symm.trans hparts, hfront, hback⟩

/-- If the word that is matched is a tag as well as the first one, nothing follows that before the next blank. -/
theorem isSpace_behindFirstWord {matched : List Char} (htag : tagOf (firstWord text) = some tag)
    (hmatched : tagOf (matchedWord text) = some matched) :
    ∀ c ∈ behindFirstWord text, PyStr.isSpace c = true := by
  obtain ⟨hword, -⟩ := tagOf_eq_some htag
  have hspaces := isSpace_of_tagOf hmatched
  obtain ⟨front, back, hparts, hfront, hback⟩ := exists_matchedWord text
  cases front with
  | cons c front =>
    rw [hword, List.cons_append, List.cons_append] at hparts
    have hspace := hfront c List.mem_cons_self
    rw [← (List.cons.inj hparts).1] at hspace
    cases hspace
  | nil =>
    rw [List.nil_append] at hparts
    rcases List.append_eq_append_iff.mp hparts with ⟨more, hmore, hbehind⟩ | ⟨less, -, hback'⟩
    · cases more with
      | nil =>
        rw [hbehind]
        exact hback
      | cons c more =>
        -- the next word would belong to what is matched
        have hmem : c ∈ matchedWord text := by
          rw [hmore]
          exact List.mem_append_right _ List.mem_cons_self
        have hspace := hspaces c hmem
        rw [isSpace_head_behindFirstWord hbehind] at hspace
        cases hspace
    · exact fun c hc => hback c (hback' ▸ List.mem_append_right less hc)

/-! ## §3 The registry -/

/-- A rebuild leaves the rooms of its scan. -/
theorem isSome_rebuildRegistry_iff (uni : PyStr.Unicode) (now : ℤ) (scanned : List (String × String)) (w : World)
    (roomId : String) :
    (((rebuildRegistry uni now scanned).run w).2.published.get? roomId).isSome ↔ roomId ∈ scanned.map Prod.fst := by
  let published := scanned.foldl (rebuildRoom uni now) w.published
  let stale := published.keys.filter fun room => room ∉ scanned.map Prod.fst
  have hrow : ((rebuildRegistry uni now scanned).run w).2.published.get? roomId =
      if roomId ∈ stale then none else published.get? roomId :=
    get?_foldl_erase_eq stale published roomId
  have hstale : roomId ∈ stale ↔ roomId ∈ published.keys ∧ roomId ∉ scanned.map Prod.fst := by
    rw [List.mem_filter, decide_eq_true_eq]
  rw [hrow]
  by_cases hmem : roomId ∈ scanned.map Prod.fst
  · obtain ⟨c, hc, -⟩ := get?_foldl_rebuildRoom_of_mem uni now hmem w.published
    rw [if_neg fun h => (hstale.mp h).2 hmem, show published.get? roomId = some c from hc]
    exact iff_of_true rfl hmem
  refine iff_of_false ?_ hmem
  split
  · simp
  next hkept =>
    have hnone : published.get? roomId = none :=
      get?_eq_none_iff.mpr fun hkey => hkept (hstale.mpr ⟨hkey, hmem⟩)
    simp [hnone]

theorem mem_scannedRooms_iff {like : String → String → Bool} {w : World} {roomId topic joinRule : String}
    {stats : RoomStats} (hstats : w.roomStats.get? roomId = some stats) (htopic : stats.topic = some topic)
    (hjoinRule : stats.joinRules = some joinRule) :
    roomId ∈ (scannedRooms like w).map Prod.fst ↔
      like topic ("%" ++ channelTopicPrefix ++ "%") = true ∧ joinRule ∈ publicJoinRules := by
  simp only [scannedRooms, List.mem_map, List.mem_filterMap]
  constructor
  · rintro ⟨room, ⟨⟨roomId', stats'⟩, hitem, hroom⟩, rfl⟩
    split at hroom
    · next topic' joinRule' htopic' hjoinRule' =>
        obtain ⟨hscanned, heq⟩ := Option.ite_none_right_eq_some.mp hroom
        cases heq
        have hsame := Option.some.inj (hstats.symm.trans (get?_eq_some_iff.mpr hitem))
        subst hsame
        cases htopic.symm.trans htopic'
        cases hjoinRule.symm.trans hjoinRule'
        exact hscanned
    · cases hroom
  · intro hscanned
    refine ⟨(roomId, topic), ⟨(roomId, stats), get?_eq_some_iff.mp hstats, ?_⟩, rfl⟩
    rw [htopic, hjoinRule]
    exact if_pos hscanned

/-- Whether `ensure_channel_published` takes a room: it does not return `False`. -/
def Accepts (str : Str) (uni : PyStr.Unicode) (now : ℤ) (roomId : String) (categoryId : Option String)
    (state : StateMap EventBase) (w : World) : Prop :=
  ((ensureChannelPublished str uni now roomId categoryId (some state)).run w).1 ≠ .ok false

theorem accepts_iff (str : Str) (uni : PyStr.Unicode) (now : ℤ) (roomId : String) (categoryId : Option String)
    (state : StateMap EventBase) (w : World) :
    Accepts str uni now roomId categoryId state w ↔
      isSetkaChannelState str uni state = true ∧ joinRuleFromState str state ∈ publicJoinRules := by
  rw [Accepts, ensureChannelPublished]
  cases hchannel : isSetkaChannelState str uni state with
  | false =>
    refine iff_of_false ?_ (by simp)
    exact fun hne => hne rfl
  | true =>
    rw [if_neg (by decide), and_iff_right rfl]
    by_cases hjoinRule : joinRuleFromState str state ∈ publicJoinRules
    · refine iff_of_true ?_ hjoinRule
      rw [if_neg (not_not.mpr hjoinRule)]
      split
      · cases hresolved : resolvedCategoryId w roomId categoryId with
        | error e =>
          rw [Action.run_bind_of_error (by rw [Action.run_reads, hresolved])]
          exact nofun
        | ok resolved =>
          rw [Action.run_bind_of_ok (by rw [Action.run_reads, hresolved])]
          exact nofun
      · exact nofun
    · refine iff_of_false ?_ hjoinRule
      rw [if_pos hjoinRule]
      exact fun hne => hne rfl

/-! ## §4 What they agree on -/

/-- One topic and one join rule, as they stand in the state of a room, in its entry and in its statistics. -/
structure SeenAs (str : Str) (topic joinRule roomId : String) (state : StateMap EventBase) (entry : RegistryRoom)
    (w : World) : Prop where
  stateTopic : topicFromState str state = topic
  stateJoinRule : joinRuleFromState str state = joinRule
  entryTopic : entry.topic = topic
  roomStats : ∃ stats, w.roomStats.get? roomId = some stats ∧ stats.topic = some topic ∧ stats.joinRules = some joinRule

/-- A room is a channel for `check_event_allowed` and `ensure_channel_published` if the directory can list it, its tag
is parsed if the text after the marker begins with one, and a rebuild keeps it if it would be registered. -/
structure PathsAgree (str : Str) (uni : PyStr.Unicode) (like : String → String → Bool) (now : ℤ) (roomId topic : String)
    (categoryId : Option String) (state : StateMap EventBase) (entry : RegistryRoom) (w : World) : Prop where
  listed : isSetkaChannelState str uni state = true ↔ (roomEntryToChannel uni entry).isSome
  tagged : isSetkaChannelState str uni state = true → ∀ tag, tagOf (firstWord (textAfterPrefix topic)) = some tag →
    parseChannelTag uni topic = some (uni.lower (String.ofList tag))
  rebuilt : (((rebuildRegistry uni now (scannedRooms like w)).run w).2.published.get? roomId).isSome ↔
    Accepts str uni now roomId categoryId state w

/-- The topics and join rules for which that is so: a marked topic has no white space in front, nothing between a tag
and the next blank, and its marker is known to the database; any other topic has no marker inside. The last two are
only asked for under a public join rule. -/
def Unambiguous (uni : PyStr.Unicode) (dbLower : String → String) (topic joinRule : String) : Prop :=
  if marked uni topic then
    PyStr.startsWithSpace topic = false ∧
      ((tagOf (firstWord (textAfterPrefix topic))).isSome →
        ∀ c ∈ behindFirstWord (textAfterPrefix topic), PyStr.isSpace c = true) ∧
      (joinRule ∈ publicJoinRules → within channelTopicPrefix (dbLower topic) = true)
  else joinRule ∈ publicJoinRules → within channelTopicPrefix (dbLower topic) = false

theorem startsWith_lower_topic_iff {uni : PyStr.Unicode} (h : uni.KeepsSpaces) (topic : String) :
    PyStr.startsWith channelTopicPrefix (uni.lower topic) = true ↔
      marked uni topic = true ∧ PyStr.startsWithSpace topic = false :=
  h.startsWith_lower_iff (by decide) (not_isSpace_of_all (by decide)) topic

theorem isSome_roomEntryToChannel (uni : PyStr.Unicode) (entry : RegistryRoom) :
    (roomEntryToChannel uni entry).isSome ↔ PyStr.startsWith channelTopicPrefix (uni.lower entry.topic) = true := by
  rw [roomEntryToChannel]
  split
  · next h => exact iff_of_true rfl h
  · next h => exact iff_of_false (by simp) h

/-- A room of which the topic and the join rule are known. -/
def exampleState (topic joinRule : String) : StateMap EventBase :=
  (Dict.empty.set ("m.room.topic", "") (exampleEvent "$topic" "m.room.topic" (some "") "topic" topic)).set
    ("m.room.join_rules", "") (exampleEvent "$rules" "m.room.join_rules" (some "") "join_rule" joinRule)

def exampleEntry (topic : String) : RegistryRoom :=
  ⟨"!channel:s", none, topic, none, 1, none, 0, none, false, none, true⟩

def exampleStatistics (topic joinRule : String) : World :=
  { exampleServer with
    roomStats := Dict.empty.set "!channel:s" ⟨none, some topic, none, none, some joinRule, 1⟩ }

/-- A database that knows the letters of ASCII. -/
def exampleLike (topic _ : String) : Bool := within channelTopicPrefix (PyStr.lower topic)

end Setka.Handlers.Channels
