/-
# Setka.Types.StreamTokenCodec — tokens as strings.

Three grammars: `s5`, `t3-5` and `m5~1.7~2.9` for the room stream, `5` and `m5~1.7` for the other
streams with several writers, and eleven such parts between underscores for a whole sync position.
Writers appear in a token by the id the database gives them. A parser either returns a token or answers
with status 400, with one exception: the message of `RoomStreamToken.parse` for a string that does not
even start like a token is itself malformed.
-/
import Mathlib.Data.Nat.Digits.Defs
import Setka.Lib.Action
import Setka.Types
import Setka.Types.StreamToken

namespace Setka.Types

open Setka.Api Setka.Lib PyStr
open String (toList_append ofList ofList_toList)

/-! ## §1 Strings, numbers and instance ids -/

/-- What the code takes from the language: `%r` of a string, and the digits of other scripts. -/
structure Python where
  repr : String → String
  digits : PyInt.Digits

/-- The table `instance_map`: `get_id_for_instance`, which gives every name an id, and
`get_name_from_instance_id`. -/
structure InstanceStore where
  getIdForInstance : String → ℤ
  getNameFromInstanceId : ℤ → Except Error String

/-- Instance ids and names are in bijection. -/
def InstanceStore.Bijective (store : InstanceStore) : Prop :=
  ∀ instanceName instanceId, store.getIdForInstance instanceName = instanceId ↔
    store.getNameFromInstanceId instanceId = .ok instanceName

/-- `str(n)`, `"%d" % n` and `f"{n}"`. -/
def fmt (n : ℤ) : Except Error String :=
  match PyInt.str n with
  | some s => .ok s
  | none => .error .valueError

/-- `int(s)`. -/
def Python.int (py : Python) (s : String) : Except Error ℤ :=
  match PyInt.int py.digits s with
  | some n => .ok n
  | none => .error .valueError

/-- `except Exception: raise SynapseError(400, …)` around a parser. -/
def orInvalid {α : Type} (msg : String) : Except Error α → Except Error α
  | .ok a => .ok a
  | .error _ => .error (.synapseError 400 msg "M_UNKNOWN")

/-! ## §2 Instance maps -/

/-- One part `id.pos` behind the first: empty parts are skipped. -/
def parsePart (py : Python) (store : InstanceStore) (instanceMap : Dict String ℤ) (part : String) :
    Except Error (Dict String ℤ) :=
  if part = "" then .ok instanceMap
  else
    match PyStr.split '.' part with
    | [key, value] => do
        let instanceId ← py.int key
        let pos ← py.int value
        let instanceName ← store.getNameFromInstanceId instanceId
        return instanceMap.set instanceName pos
    | _ => .error .valueError

/-- What follows the `m`: the position of `stream` and the instance map. -/
def parseParts (py : Python) (store : InstanceStore) (string : String) : Except Error (ℤ × Dict String ℤ) :=
  match PyStr.split '~' string with
  | [] => .error .indexError
  | first :: parts => do
      let stream ← py.int first
      let instanceMap ← parts.foldlM (parsePart py store) Dict.empty
      return (stream, instanceMap)

/-- The entries `id.pos` of a token, without those that are not above `stream`. -/
def encodeEntries (store : InstanceStore) (stream : ℤ) (instanceMap : Dict String ℤ) : Except Error (List String) :=
  (instanceMap.items.filter fun e => stream < e.2).mapM fun e => do
    let instanceId ← fmt (store.getIdForInstance e.1)
    let pos ← fmt e.2
    return instanceId ++ "." ++ pos

/-- `m{stream}~…`, or the short form when nobody is ahead. -/
def encodeMap (store : InstanceStore) (short : String) (t : AbstractMultiWriterStreamToken) :
    Except Error String := do
  let entries ← encodeEntries store t.stream t.instanceMap
  let stream ← fmt t.stream
  return if entries ≠ [] then "m" ++ stream ++ "~" ++ PyStr.join "~" entries else short ++ stream

/-! ## §3 The three kinds of tokens -/

namespace RoomStreamToken

/-- `RoomStreamToken.to_string`. -/
def toString (store : InstanceStore) (self : RoomStreamToken) : Except Error String :=
  match self.topological with
  | some topological => do
      let topological ← fmt topological
      let stream ← fmt self.stream
      return "t" ++ topological ++ "-" ++ stream
  | none =>
    if self.instanceMap.items ≠ [] then
      encodeMap store "s" self.toAbstractMultiWriterStreamToken
    else do
      let stream ← fmt self.stream
      return "s" ++ stream

/-- The body of the `try` in `RoomStreamToken.parse`. -/
def parseBody (py : Python) (store : InstanceStore) (string : String) : Except Error RoomStreamToken :=
  match string.toList with
  | [] => .error .indexError
  | c :: rest =>
    if c = 's' then do
      let stream ← py.int (String.ofList rest)
      create none stream Dict.empty
    else if c = 't' then
      -- `split("-", 1)` gives one part when there is no hyphen
      match splitAt? '-' (String.ofList rest) with
      | some (first, second) => do
          let topological ← py.int first
          let stream ← py.int second
          create (some topological) stream Dict.empty
      | none => .error .indexError
    else if c = 'm' then do
      let (stream, instanceMap) ← parseParts py store (String.ofList rest)
      create none stream instanceMap
    else .error .exception

/-- Whether a string starts like a room stream token. -/
def looksLikeToken (string : String) : Bool :=
  match string.toList with
  | [] => false
  | c :: _ => c = 's' || c = 't' || c = 'm'

/-- `RoomStreamToken.parse`. The message for a string that does not look like a token is
`f"… {string:!r}"`: with the colon the conversion is a format specification, which `str` rejects. -/
def parse (py : Python) (store : InstanceStore) (string : String) : Except Error RoomStreamToken :=
  if !looksLikeToken string then .error .valueError
  else orInvalid ("Invalid room stream token " ++ py.repr string) (parseBody py store string)

end RoomStreamToken

namespace MultiWriterStreamToken

/-- `MultiWriterStreamToken.to_string`. -/
def toString (store : InstanceStore) (self : MultiWriterStreamToken) : Except Error String :=
  if self.instanceMap.items ≠ [] then encodeMap store "" self else fmt self.stream

/-- The body of the `try` in `MultiWriterStreamToken.parse`. -/
def parseBody (py : Python) (store : InstanceStore) (string : String) : Except Error MultiWriterStreamToken :=
  match string.toList with
  | [] => .error .indexError
  | c :: rest =>
    if py.digits.isDigit c then do
      let stream ← py.int string
      AbstractMultiWriterStreamToken.create stream Dict.empty
    else if c = 'm' then do
      let (stream, instanceMap) ← parseParts py store (String.ofList rest)
      AbstractMultiWriterStreamToken.create stream instanceMap
    else .error .exception

/-- `MultiWriterStreamToken.parse`. -/
def parse (py : Python) (store : InstanceStore) (string : String) : Except Error MultiWriterStreamToken :=
  orInvalid ("Invalid stream token " ++ py.repr string) (parseBody py store string)

end MultiWriterStreamToken

/-- `StreamToken`. -/
structure StreamToken where
  roomKey : RoomStreamToken
  presenceKey : ℤ
  typingKey : ℤ
  receiptKey : MultiWriterStreamToken
  accountDataKey : ℤ
  pushRulesKey : ℤ
  toDeviceKey : ℤ
  deviceListKey : MultiWriterStreamToken
  groupsKey : ℤ
  unPartialStatedRoomsKey : ℤ
  threadSubscriptionsKey : ℤ

namespace StreamToken

/-- `StreamToken.to_string`. -/
def toString (store : InstanceStore) (self : StreamToken) : Except Error String := do
  let roomKey ← self.roomKey.toString store
  let presenceKey ← fmt self.presenceKey
  let typingKey ← fmt self.typingKey
  let receiptKey ← MultiWriterStreamToken.toString store self.receiptKey
  let accountDataKey ← fmt self.accountDataKey
  let pushRulesKey ← fmt self.pushRulesKey
  let toDeviceKey ← fmt self.toDeviceKey
  let deviceListKey ← MultiWriterStreamToken.toString store self.deviceListKey
  let groupsKey ← fmt self.groupsKey
  let unPartialStatedRoomsKey ← fmt self.unPartialStatedRoomsKey
  let threadSubscriptionsKey ← fmt self.threadSubscriptionsKey
  return PyStr.join "_" [roomKey, presenceKey, typingKey, receiptKey, accountDataKey, pushRulesKey,
    toDeviceKey, deviceListKey, groupsKey, unPartialStatedRoomsKey, threadSubscriptionsKey]

/-- The parts of the string, filled up with `"0"` for tokens of older versions. -/
def keys (string : String) : List String :=
  let keys := PyStr.split '_' string
  keys ++ List.replicate (11 - keys.length) "0"

/-- The body of the `try` in `StreamToken.from_string`. -/
def fromStringBody (py : Python) (store : InstanceStore) (string : String) : Except Error StreamToken :=
  match keys string with
  | [roomKey, presenceKey, typingKey, receiptKey, accountDataKey, pushRulesKey, toDeviceKey,
      deviceListKey, groupsKey, unPartialStatedRoomsKey, threadSubscriptionsKey] => do
      let roomKey ← RoomStreamToken.parse py store roomKey
      let presenceKey ← py.int presenceKey
      let typingKey ← py.int typingKey
      let receiptKey ← MultiWriterStreamToken.parse py store receiptKey
      let accountDataKey ← py.int accountDataKey
      let pushRulesKey ← py.int pushRulesKey
      let toDeviceKey ← py.int toDeviceKey
      let deviceListKey ← MultiWriterStreamToken.parse py store deviceListKey
      let groupsKey ← py.int groupsKey
      let unPartialStatedRoomsKey ← py.int unPartialStatedRoomsKey
      let threadSubscriptionsKey ← py.int threadSubscriptionsKey
      return ⟨roomKey, presenceKey, typingKey, receiptKey, accountDataKey, pushRulesKey,
        toDeviceKey, deviceListKey, groupsKey, unPartialStatedRoomsKey, threadSubscriptionsKey⟩
  | _ => .error .valueError

/-- `StreamToken.from_string`. -/
def fromString (py : Python) (store : InstanceStore) (string : String) : Except Error StreamToken :=
  orInvalid "Invalid stream token" (fromStringBody py store string)

end StreamToken

/-! ## §4 Numbers and parts -/

theorem fmt_eq_ok {n : ℤ} {s : String} : fmt n = .ok s ↔ PyInt.Printable n ∧ toString n = s := by
  unfold fmt PyInt.str
  by_cases h : PyInt.Printable n
  · simp [h]
  · simp [h]

theorem Python.int_toString (py : Python) {n : ℤ} (h : PyInt.Printable n) :
    py.int (ToString.toString n) = .ok n := by
  unfold Python.int
  rw [PyInt.int_toString py.digits h]

theorem orInvalid_eq_ok {α : Type} {msg : String} {x : Except Error α} {a : α} :
    orInvalid msg x = .ok a ↔ x = .ok a := by
  cases x <;> simp [orInvalid]

/-- Whatever goes wrong inside, a token or status 400 comes out. -/
theorem orInvalid_total {α : Type} (msg : String) (x : Except Error α) : (∃ a, orInvalid msg x = .ok a) ∨
      ∃ text errcode, orInvalid msg x = .error (.synapseError 400 text errcode) := by
  cases x with
  | ok a => exact Or.inl ⟨a, rfl⟩
  | error e => exact Or.inr ⟨msg, _, rfl⟩

/-- The part of a token that stands for one writer. -/
def entry (store : InstanceStore) (e : String × ℤ) : String :=
  toString (store.getIdForInstance e.1) ++ "." ++ toString e.2

/-- Both numbers of an entry can be printed. -/
def EntryPrintable (store : InstanceStore) (e : String × ℤ) : Prop :=
  PyInt.Printable (store.getIdForInstance e.1) ∧ PyInt.Printable e.2

/-- A character that neither a number nor the point between two numbers contains. -/
theorem not_mem_entry (store : InstanceStore) (e : String × ℤ) {c : Char} (hminus : c ≠ '-')
    (hpoint : c ≠ '.') (hdigit : c.isDigit = false) : c ∉ (entry store e).toList := by
  intro h
  rw [entry, toList_append, toList_append] at h
  rcases List.mem_append.mp h with h | h
  · rcases List.mem_append.mp h with h | h
    · exact PyInt.not_mem_toString hminus hdigit h
    · exact hpoint (by simpa using h)
  · exact PyInt.not_mem_toString hminus hdigit h

variable {store : InstanceStore} {t : AbstractMultiWriterStreamToken}

theorem encodeEntries_eq_ok {entries : List String} : encodeEntries store t.stream t.instanceMap = .ok entries ↔
      (∀ e ∈ t.instanceMap.items, EntryPrintable store e) ∧
        t.instanceMap.items.map (entry store) = entries := by
  unfold encodeEntries
  rw [List.filter_eq_self.mpr fun e he => by simpa using t.stream_lt_of_mem e he]
  generalize t.instanceMap.items = items
  constructor
  · intro h
    have hall := forall₂_of_mapM_eq_ok h
    clear h
    induction hall with
    | nil => exact ⟨by simp, rfl⟩
    | @cons e s items entries hes _ ih =>
      obtain ⟨hprint, hmap⟩ := ih
      obtain ⟨id, hid, hes⟩ := except_bind_eq_ok.mp hes
      obtain ⟨pos, hpos, hes⟩ := except_bind_eq_ok.mp hes
      obtain rfl := Except.ok.inj hes
      obtain ⟨hi, rfl⟩ := fmt_eq_ok.mp hid
      obtain ⟨hp, rfl⟩ := fmt_eq_ok.mp hpos
      refine ⟨fun a ha => ?_, by rw [List.map_cons, hmap]; rfl⟩
      rcases List.mem_cons.mp ha with rfl | ha
      · exact ⟨hi, hp⟩
      · exact hprint a ha
  · rintro ⟨hprint, rfl⟩
    refine mapM_eq_ok_map fun e he => ?_
    obtain ⟨hi, hp⟩ := hprint e he
    rw [fmt_eq_ok.mpr ⟨hi, rfl⟩, fmt_eq_ok.mpr ⟨hp, rfl⟩]
    rfl

/-- The entry of a writer reads back as that writer at that position. -/
theorem parsePart_entry (py : Python) (hb : store.Bijective) {e : String × ℤ} (h : EntryPrintable store e)
    (d : Dict String ℤ) : parsePart py store d (entry store e) = .ok (d.set e.1 e.2) := by
  have hsplit : PyStr.split '.' (entry store e) = [toString (store.getIdForInstance e.1), toString e.2] := by
    have hjoin : entry store e = PyStr.join (ofList ['.'])
        [toString (store.getIdForInstance e.1), toString e.2] := by
      simp [entry, PyStr.join, String.intercalate_cons_cons]
    rw [hjoin]
    refine split_join (by simp) fun x hx => ?_
    rcases List.mem_pair.mp hx with rfl | rfl
    · exact PyInt.not_mem_toString (by decide) (by decide)
    · exact PyInt.not_mem_toString (by decide) (by decide)
  have hne : entry store e ≠ "" := by
    intro h0
    have hlist := congrArg String.toList h0
    simp [entry] at hlist
  unfold parsePart
  rw [if_neg hne, hsplit]
  dsimp only
  rw [py.int_toString h.1, py.int_toString h.2]
  show (store.getNameFromInstanceId (store.getIdForInstance e.1) >>= _) = _
  rw [(hb e.1 _).mp rfl]
  rfl

/-- Going through the entries rebuilds the instance map. -/
theorem foldlM_parsePart (py : Python) (hb : store.Bijective) {items : List (String × ℤ)}
    (h : ∀ e ∈ items, EntryPrintable store e) (d : Dict String ℤ) :
    (items.map (entry store)).foldlM (parsePart py store) d = .ok (items.foldl (fun d e => d.set e.1 e.2) d) := by
  induction items generalizing d with
  | nil => rfl
  | cons e items ih =>
    rw [List.map_cons, List.foldlM_cons, parsePart_entry py hb (h e List.mem_cons_self),
      except_ok_bind, ih fun a ha => h a (List.mem_cons_of_mem e ha), List.foldl_cons]

/-- The position of the token and the numbers of its writers can be printed. -/
def AbstractMultiWriterStreamToken.Printable (store : InstanceStore) (t : AbstractMultiWriterStreamToken) : Prop :=
  PyInt.Printable t.stream ∧ ∀ e ∈ t.instanceMap.items, EntryPrintable store e

/-- The form with an instance map, for a token that has one. -/
theorem encodeMap_eq_ok {short s : String} (hne : t.instanceMap.items ≠ []) :
    encodeMap store short t = .ok s ↔ t.Printable store ∧
      "m" ++ PyStr.join "~" (toString t.stream :: t.instanceMap.items.map (entry store)) = s := by
  have hentries : t.instanceMap.items.map (entry store) ≠ [] := by simpa using hne
  have hjoin : "m" ++ toString t.stream ++ "~" ++ PyStr.join "~" (t.instanceMap.items.map (entry store)) =
      "m" ++ PyStr.join "~" (toString t.stream :: t.instanceMap.items.map (entry store)) := by
    rw [PyStr.join, PyStr.join, String.intercalate_cons_of_ne_nil hentries]
    simp only [String.append_assoc]
  unfold encodeMap
  constructor
  · intro h
    obtain ⟨entries, he, h⟩ := except_bind_eq_ok.mp h
    obtain ⟨stream, hs, h⟩ := except_bind_eq_ok.mp h
    obtain ⟨hprint, rfl⟩ := encodeEntries_eq_ok.mp he
    obtain ⟨hstream, rfl⟩ := fmt_eq_ok.mp hs
    refine ⟨⟨hstream, hprint⟩, hjoin.symm.trans ?_⟩
    rw [if_pos hentries] at h
    exact Except.ok.inj h
  · rintro ⟨⟨hstream, hprint⟩, rfl⟩
    rw [encodeEntries_eq_ok.mpr ⟨hprint, rfl⟩, fmt_eq_ok.mpr ⟨hstream, rfl⟩, except_ok_bind,
      except_ok_bind, if_pos hentries, hjoin]
    rfl

theorem parseParts_encoded (py : Python) (hb : store.Bijective) (h : t.Printable store) : parseParts py store
      (PyStr.join "~" (toString t.stream :: t.instanceMap.items.map (entry store))) =
        .ok (t.stream, t.instanceMap) := by
  have hsplit : PyStr.split '~' (PyStr.join "~" (toString t.stream :: t.instanceMap.items.map (entry store))) =
      toString t.stream :: t.instanceMap.items.map (entry store) := by
    refine split_join (by simp) fun x hx => ?_
    rcases List.mem_cons.mp hx with rfl | hx
    · exact PyInt.not_mem_toString (by decide) (by decide)
    · obtain ⟨e, _, rfl⟩ := List.mem_map.mp hx
      exact not_mem_entry store e (by decide) (by decide) (by decide)
  unfold parseParts
  rw [hsplit]
  dsimp only
  rw [py.int_toString h.1, except_ok_bind, foldlM_parsePart py hb h.2, Dict.foldl_set_items]
  rfl

/-- The form with an instance map contains no underscore. -/
theorem not_mem_encoded (store : InstanceStore) (t : AbstractMultiWriterStreamToken) : '_' ∉ ("m" ++ PyStr.join "~"
      (toString t.stream :: t.instanceMap.items.map (entry store))).toList := by
  intro h
  rw [toList_append, List.mem_append] at h
  rcases h with h | h
  · exact absurd h (by decide)
  rcases mem_join h with h | ⟨x, hx, hc⟩
  · exact absurd h (by decide)
  rcases List.mem_cons.mp hx with rfl | hx
  · exact PyInt.not_mem_toString (by decide) (by decide) hc
  · obtain ⟨e, _, rfl⟩ := List.mem_map.mp hx
    exact not_mem_entry store e (by decide) (by decide) (by decide) hc

/-! ## §5 Round trips -/

namespace RoomStreamToken

/-- Everything `to_string` prints can be printed. -/
def Printable (store : InstanceStore) (t : RoomStreamToken) : Prop :=
  t.toAbstractMultiWriterStreamToken.Printable store ∧ ∀ n ∈ t.topological, PyInt.Printable n

/-- `parse` gives back what `to_string` printed. -/
def RoundTrips (py : Python) (store : InstanceStore) (t : RoomStreamToken) : Prop :=
  ∃ s, t.toString store = .ok s ∧ parse py store s = .ok t

variable {store : InstanceStore} {t : RoomStreamToken}

theorem parse_eq_ok {py : Python} {s : String} :
    parse py store s = .ok t ↔ looksLikeToken s = true ∧ parseBody py store s = .ok t := by
  unfold parse
  cases looksLikeToken s with
  | false => simp
  | true => simp [orInvalid_eq_ok]

/-- A token without an instance map. -/
def bare (topological : Option ℤ) (stream : ℤ) : RoomStreamToken :=
  ⟨⟨stream, Dict.empty, by simp⟩, topological, Or.inl rfl⟩

theorem create_empty (topological : Option ℤ) (stream : ℤ) :
    create topological stream Dict.empty = .ok (bare topological stream) := rfl

theorem bare_eq (h : t.instanceMap.items = []) : bare t.topological t.stream = t := by
  obtain ⟨⟨stream, instanceMap, above⟩, topological, hexcl⟩ := t
  obtain rfl : instanceMap = Dict.empty := Dict.ext_items h
  rfl

/-- The three forms of a room token. -/
theorem parse_s (py : Python) (store : InstanceStore) {n : ℤ} (h : PyInt.Printable n) :
    parse py store ("s" ++ ToString.toString n) = .ok (bare none n) := by
  have hlist : ("s" ++ ToString.toString n).toList = 's' :: (ToString.toString n).toList := by simp
  have hlooks : looksLikeToken ("s" ++ ToString.toString n) = true := by
    unfold looksLikeToken
    rw [hlist]
    rfl
  refine parse_eq_ok.mpr ⟨hlooks, ?_⟩
  unfold parseBody
  rw [hlist]
  dsimp only
  rw [if_pos rfl, ofList_toList, py.int_toString h, except_ok_bind, create_empty]

theorem parse_t (py : Python) (store : InstanceStore) {n m : ℤ} (hn : 0 ≤ n)
    (hpn : PyInt.Printable n) (hpm : PyInt.Printable m) :
    parse py store ("t" ++ ToString.toString n ++ "-" ++ ToString.toString m) = .ok (bare (some n) m) := by
  have hlist : ("t" ++ ToString.toString n ++ "-" ++ ToString.toString m).toList =
      't' :: ((ToString.toString n).toList ++ '-' :: (ToString.toString m).toList) := by simp
  have hminus : ∀ c ∈ (ToString.toString n).toList, (decide (c ≠ '-')) = true := by
    intro c hc
    rw [PyInt.toList_toString, if_neg (not_lt.mpr hn), List.nil_append] at hc
    have hdigit := PyInt.isDigit_of_mem_toDigits hc
    by_contra hcontra
    rw [show c = '-' by simpa using hcontra] at hdigit
    revert hdigit
    decide
  have hsplit : splitAt? '-' (ofList ((ToString.toString n).toList ++ '-' :: (ToString.toString m).toList)) =
      some (ToString.toString n, ToString.toString m) := by
    unfold splitAt?
    rw [String.toList_ofList, List.dropWhile_append_of_pos hminus, List.takeWhile_append_of_pos hminus]
    simp
  have hlooks : looksLikeToken ("t" ++ ToString.toString n ++ "-" ++ ToString.toString m) = true := by
    unfold looksLikeToken
    rw [hlist]
    rfl
  refine parse_eq_ok.mpr ⟨hlooks, ?_⟩
  unfold parseBody
  rw [hlist]
  dsimp only
  rw [if_neg (by decide), if_pos rfl, hsplit]
  dsimp only
  rw [py.int_toString hpn, py.int_toString hpm, except_ok_bind, except_ok_bind, create_empty]

theorem parse_m (py : Python) (hb : store.Bijective) {t : AbstractMultiWriterStreamToken}
    (h : t.Printable store) : parse py store
      ("m" ++ PyStr.join "~" (ToString.toString t.stream :: t.instanceMap.items.map (entry store))) =
        .ok (live t) := by
  have hlist : ("m" ++ PyStr.join "~"
      (ToString.toString t.stream :: t.instanceMap.items.map (entry store))).toList =
      'm' :: (PyStr.join "~"
        (ToString.toString t.stream :: t.instanceMap.items.map (entry store))).toList := by simp
  refine parse_eq_ok.mpr ⟨?_, ?_⟩
  · unfold looksLikeToken
    rw [hlist]
    rfl
  unfold parseBody
  rw [hlist]
  dsimp only
  rw [if_neg (by decide), if_neg (by decide), if_pos rfl, ofList_toList, parseParts_encoded py hb h]
  exact create_self (live t)

/-- **A room token survives printing and parsing** exactly when its numbers can be printed and it does
not have both a topological part, which can only be zero, and an instance map. -/
theorem roundTrips_iff (py : Python) (hb : store.Bijective) (hn : ∀ n ∈ t.topological, 0 ≤ n) :
    t.RoundTrips py store ↔
      t.Printable store ∧ (t.topological = some 0 → t.instanceMap.items = []) := by
  obtain ⟨base, topological, hexcl⟩ := t
  unfold RoundTrips toString Printable
  cases topological with
  | some n =>
    dsimp only
    constructor
    · rintro ⟨s, hs, hparse⟩
      obtain ⟨n', hfn, hs⟩ := except_bind_eq_ok.mp hs
      obtain ⟨m', hfm, hs⟩ := except_bind_eq_ok.mp hs
      obtain rfl := Except.ok.inj hs
      obtain ⟨hpn, rfl⟩ := fmt_eq_ok.mp hfn
      obtain ⟨hpm, rfl⟩ := fmt_eq_ok.mp hfm
      rw [parse_t py store (hn n rfl) hpn hpm] at hparse
      -- what was parsed has no instance map
      have hmap : base.instanceMap.items = [] :=
        (congrArg (fun t : RoomStreamToken => t.instanceMap.items) (Except.ok.inj hparse)).symm
      refine ⟨⟨⟨hpm, by simp [hmap]⟩, by simpa using hpn⟩, fun _ => hmap⟩
    · rintro ⟨⟨⟨hpm, _⟩, hpn⟩, hzero⟩
      have hmap : base.instanceMap.items = [] := by
        rcases hexcl with hmap | hfalse
        · exact hmap
        · exact hzero (by simpa [truthy] using hfalse)
      refine ⟨"t" ++ ToString.toString n ++ "-" ++ ToString.toString base.stream, ?_, ?_⟩
      · rw [fmt_eq_ok.mpr ⟨hpn n rfl, rfl⟩, fmt_eq_ok.mpr ⟨hpm, rfl⟩]
        rfl
      · rw [parse_t py store (hn n rfl) (hpn n rfl) hpm]
        exact congrArg Except.ok (bare_eq (t := ⟨base, some n, hexcl⟩) hmap)
  | none =>
    have hrhs : ((base.Printable store ∧ ∀ n ∈ (none : Option ℤ), PyInt.Printable n) ∧
        ((none : Option ℤ) = some 0 → base.instanceMap.items = [])) ↔ base.Printable store := by
      simp
    rw [hrhs]
    by_cases hmap : base.instanceMap.items = []
    · rw [if_neg (not_not.mpr hmap)]
      constructor
      · rintro ⟨s, hs, _⟩
        obtain ⟨m, hfm, _⟩ := except_bind_eq_ok.mp hs
        exact ⟨(fmt_eq_ok.mp hfm).1, by simp [hmap]⟩
      rintro ⟨hpm, _⟩
      refine ⟨"s" ++ ToString.toString base.stream, by rw [fmt_eq_ok.mpr ⟨hpm, rfl⟩]; rfl, ?_⟩
      rw [parse_s py store hpm]
      exact congrArg Except.ok (bare_eq (t := live base) hmap)
    · rw [if_pos hmap]
      constructor
      · rintro ⟨s, hs, _⟩
        exact ((encodeMap_eq_ok hmap).mp hs).1
      · intro hp
        exact ⟨_, (encodeMap_eq_ok hmap).mpr ⟨hp, rfl⟩, parse_m py hb hp⟩

/-- A printed room token contains no underscore. -/
theorem not_mem_toString {s : String} (h : t.toString store = .ok s) : '_' ∉ s.toList := by
  have hnum : ∀ n : ℤ, '_' ∉ (ToString.toString n).toList := fun n =>
    PyInt.not_mem_toString (by decide) (by decide)
  unfold toString at h
  split at h
  · obtain ⟨n', hfn, h⟩ := except_bind_eq_ok.mp h
    obtain ⟨m', hfm, h⟩ := except_bind_eq_ok.mp h
    obtain rfl := Except.ok.inj h
    obtain ⟨_, rfl⟩ := fmt_eq_ok.mp hfn
    obtain ⟨_, rfl⟩ := fmt_eq_ok.mp hfm
    simp only [toList_append, List.mem_append, not_or]
    exact ⟨⟨⟨by decide, hnum _⟩, by decide⟩, hnum _⟩
  split at h
  · rename_i hne
    obtain ⟨_, rfl⟩ := (encodeMap_eq_ok hne).mp h
    exact not_mem_encoded store _
  · obtain ⟨m', hfm, h⟩ := except_bind_eq_ok.mp h
    obtain rfl := Except.ok.inj h
    obtain ⟨_, rfl⟩ := fmt_eq_ok.mp hfm
    simp only [toList_append, List.mem_append, not_or]
    exact ⟨by decide, hnum _⟩

end RoomStreamToken

namespace MultiWriterStreamToken

/-- `parse` gives back what `to_string` printed. -/
def RoundTrips (py : Python) (store : InstanceStore) (t : MultiWriterStreamToken) : Prop :=
  ∃ s, toString store t = .ok s ∧ parse py store s = .ok t

theorem parse_number (py : Python) (store : InstanceStore) {n : ℤ} (hn : 0 ≤ n) (h : PyInt.Printable n) :
    parse py store (ToString.toString n) = .ok ⟨n, Dict.empty, by simp⟩ := by
  refine orInvalid_eq_ok.mpr ?_
  unfold parseBody
  have hlist := PyInt.toList_toString n
  rw [if_neg (not_lt.mpr hn), List.nil_append] at hlist
  cases hdigits : Nat.toDigits 10 n.natAbs with
  | nil => exact absurd hdigits (List.ne_nil_of_length_pos Nat.length_toDigits_pos)
  | cons c rest =>
    have hc : c.isDigit = true := PyInt.isDigit_of_mem_toDigits (hdigits ▸ List.mem_cons_self)
    have hascii : c.toNat < 128 := by
      refine PyInt.ascii_of_mem_toString (n := n) ?_
      rw [hlist, hdigits]
      exact List.mem_cons_self
    rw [hlist, hdigits]
    dsimp only
    rw [py.digits.isDigit_ascii c hascii, if_pos hc, py.int_toString h]
    rfl

variable {store : InstanceStore} {t : MultiWriterStreamToken}

theorem parse_m (py : Python) (hb : store.Bijective) (h : t.Printable store) : parse py store
      ("m" ++ PyStr.join "~" (ToString.toString t.stream :: t.instanceMap.items.map (entry store))) = .ok t := by
  have hlist : ("m" ++ PyStr.join "~"
      (ToString.toString t.stream :: t.instanceMap.items.map (entry store))).toList =
      'm' :: (PyStr.join "~"
        (ToString.toString t.stream :: t.instanceMap.items.map (entry store))).toList := by simp
  have hm : py.digits.isDigit 'm' = false := py.digits.isDigit_ascii 'm' (by decide)
  refine orInvalid_eq_ok.mpr ?_
  unfold parseBody
  rw [hlist]
  dsimp only
  rw [hm, if_neg Bool.false_ne_true, if_pos rfl, ofList_toList, parseParts_encoded py hb h]
  exact AbstractMultiWriterStreamToken.create_self t

/-- **A token of a plain stream survives printing and parsing** exactly when its numbers can be
printed. -/
theorem roundTrips_iff (py : Python) (hb : store.Bijective)
    (hn : 0 ≤ t.stream) : RoundTrips py store t ↔ t.Printable store := by
  unfold RoundTrips toString
  by_cases hmap : t.instanceMap.items = []
  · rw [if_neg (not_not.mpr hmap)]
    constructor
    · rintro ⟨s, hs, _⟩
      exact ⟨(fmt_eq_ok.mp hs).1, by simp [hmap]⟩
    rintro ⟨hp, _⟩
    refine ⟨_, fmt_eq_ok.mpr ⟨hp, rfl⟩, (parse_number py store hn hp).trans ?_⟩
    obtain ⟨stream, instanceMap, above⟩ := t
    obtain rfl : instanceMap = Dict.empty := Dict.ext_items hmap
    rfl
  · rw [if_pos hmap]
    constructor
    · rintro ⟨s, hs, _⟩
      exact ((encodeMap_eq_ok hmap).mp hs).1
    · intro hp
      exact ⟨_, (encodeMap_eq_ok hmap).mpr ⟨hp, rfl⟩, parse_m py hb hp⟩

theorem not_mem_toString {s : String} (h : toString store t = .ok s) : '_' ∉ s.toList := by
  unfold toString at h
  split at h
  · rename_i hne
    obtain ⟨_, rfl⟩ := (encodeMap_eq_ok hne).mp h
    exact not_mem_encoded store _
  · obtain ⟨_, rfl⟩ := fmt_eq_ok.mp h
    exact PyInt.not_mem_toString (by decide) (by decide)

end MultiWriterStreamToken

namespace StreamToken

/-- `from_string` gives back what `to_string` printed. -/
def RoundTrips (py : Python) (store : InstanceStore) (t : StreamToken) : Prop :=
  ∃ s, t.toString store = .ok s ∧ fromString py store s = .ok t

/-- The parts that are plain numbers. -/
def numbers (t : StreamToken) : List ℤ :=
  [t.presenceKey, t.typingKey, t.accountDataKey, t.pushRulesKey, t.toDeviceKey, t.groupsKey,
    t.unPartialStatedRoomsKey, t.threadSubscriptionsKey]

/-- What `to_string` returns: the printed parts between underscores. -/
theorem toString_eq_ok {store : InstanceStore} {t : StreamToken} {s : String} : t.toString store = .ok s ↔
      ∃ room receipt devices, t.roomKey.toString store = .ok room ∧
        MultiWriterStreamToken.toString store t.receiptKey = .ok receipt ∧
        MultiWriterStreamToken.toString store t.deviceListKey = .ok devices ∧
        (∀ n ∈ t.numbers, PyInt.Printable n) ∧
        PyStr.join "_" [room, ToString.toString t.presenceKey, ToString.toString t.typingKey, receipt,
          ToString.toString t.accountDataKey, ToString.toString t.pushRulesKey,
          ToString.toString t.toDeviceKey, devices, ToString.toString t.groupsKey,
          ToString.toString t.unPartialStatedRoomsKey,
          ToString.toString t.threadSubscriptionsKey] = s := by
  unfold toString
  simp only [except_bind_eq_ok, fmt_eq_ok, numbers, List.forall_mem_cons]
  constructor
  · rintro ⟨room, hroom, _, ⟨hp, rfl⟩, _, ⟨ht, rfl⟩, receipt, hreceipt, _, ⟨ha, rfl⟩, _, ⟨hr, rfl⟩,
      _, ⟨hd, rfl⟩, devices, hdevices, _, ⟨hg, rfl⟩, _, ⟨hu, rfl⟩, _, ⟨hs, rfl⟩, h⟩
    exact ⟨room, receipt, devices, hroom, hreceipt, hdevices,
      ⟨hp, ht, ha, hr, hd, hg, hu, hs, by simp⟩, Except.ok.inj h⟩
  · rintro ⟨room, receipt, devices, hroom, hreceipt, hdevices, ⟨hp, ht, ha, hr, hd, hg, hu, hs, _⟩, rfl⟩
    exact ⟨room, hroom, _, ⟨hp, rfl⟩, _, ⟨ht, rfl⟩, receipt, hreceipt, _, ⟨ha, rfl⟩, _, ⟨hr, rfl⟩,
      _, ⟨hd, rfl⟩, devices, hdevices, _, ⟨hg, rfl⟩, _, ⟨hu, rfl⟩, _, ⟨hs, rfl⟩, rfl⟩

/-- Eleven parts without underscores are found again between the underscores. -/
theorem keys_join {xs : List String} (hlen : xs.length = 11) (h : ∀ x ∈ xs, '_' ∉ x.toList) :
    keys (PyStr.join "_" xs) = xs := by
  have hne : xs ≠ [] := by
    rintro rfl
    cases hlen
  have hsplit : PyStr.split '_' (PyStr.join "_" xs) = xs := split_join hne h
  unfold keys
  rw [hsplit]
  show xs ++ List.replicate (11 - xs.length) "0" = xs
  rw [hlen]
  exact List.append_nil xs

/-- **A sync position survives printing and parsing** exactly when its three tokens do and its other
numbers can be printed. -/
theorem roundTrips_iff (py : Python) (store : InstanceStore) (t : StreamToken) : t.RoundTrips py store ↔
      t.roomKey.RoundTrips py store ∧ MultiWriterStreamToken.RoundTrips py store t.receiptKey ∧
        MultiWriterStreamToken.RoundTrips py store t.deviceListKey ∧
        ∀ n ∈ t.numbers, PyInt.Printable n := by
  -- once the parts are printed, everything is about reading each of them
  have hread : ∀ room receipt devices, t.roomKey.toString store = .ok room →
      MultiWriterStreamToken.toString store t.receiptKey = .ok receipt →
      MultiWriterStreamToken.toString store t.deviceListKey = .ok devices →
      (∀ n ∈ t.numbers, PyInt.Printable n) →
      (fromString py store (PyStr.join "_" [room, ToString.toString t.presenceKey,
        ToString.toString t.typingKey, receipt, ToString.toString t.accountDataKey,
        ToString.toString t.pushRulesKey, ToString.toString t.toDeviceKey, devices,
        ToString.toString t.groupsKey, ToString.toString t.unPartialStatedRoomsKey,
        ToString.toString t.threadSubscriptionsKey]) = .ok t ↔
        RoomStreamToken.parse py store room = .ok t.roomKey ∧
          MultiWriterStreamToken.parse py store receipt = .ok t.receiptKey ∧
          MultiWriterStreamToken.parse py store devices = .ok t.deviceListKey) := by
    intro room receipt devices hroom hreceipt hdevices hprint
    have hnum : ∀ n : ℤ, '_' ∉ (ToString.toString n).toList := fun n =>
      PyInt.not_mem_toString (by decide) (by decide)
    have hint : ∀ n ∈ t.numbers, py.int (ToString.toString n) = .ok n := fun n hn =>
      py.int_toString (hprint n hn)
    simp only [numbers, List.forall_mem_cons] at hint
    obtain ⟨hp, ht, ha, hr, hd, hg, hu, hs, -⟩ := hint
    rw [fromString, orInvalid_eq_ok]
    unfold fromStringBody
    rw [keys_join rfl (by
      simp only [List.forall_mem_cons]
      exact ⟨RoomStreamToken.not_mem_toString hroom, hnum _, hnum _,
        MultiWriterStreamToken.not_mem_toString hreceipt, hnum _, hnum _, hnum _,
        MultiWriterStreamToken.not_mem_toString hdevices, hnum _, hnum _, hnum _, by simp⟩)]
    simp only [hp, ht, ha, hr, hd, hg, hu, hs, except_ok_bind, except_bind_eq_ok]
    constructor
    · rintro ⟨room', hroom', receipt', hreceipt', devices', hdevices', h⟩
      have heq := Except.ok.inj h
      have h1 : room' = t.roomKey := congrArg StreamToken.roomKey heq
      have h2 : receipt' = t.receiptKey := congrArg StreamToken.receiptKey heq
      have h3 : devices' = t.deviceListKey := congrArg StreamToken.deviceListKey heq
      exact ⟨h1 ▸ hroom', h2 ▸ hreceipt', h3 ▸ hdevices'⟩
    · rintro ⟨hroom', hreceipt', hdevices'⟩
      exact ⟨_, hroom', _, hreceipt', _, hdevices', rfl⟩
  constructor
  · rintro ⟨s, hs, hparse⟩
    obtain ⟨room, receipt, devices, hroom, hreceipt, hdevices, hprint, rfl⟩ := toString_eq_ok.mp hs
    obtain ⟨h1, h2, h3⟩ := (hread room receipt devices hroom hreceipt hdevices hprint).mp hparse
    exact ⟨⟨room, hroom, h1⟩, ⟨receipt, hreceipt, h2⟩, ⟨devices, hdevices, h3⟩, hprint⟩
  · rintro ⟨⟨room, hroom, h1⟩, ⟨receipt, hreceipt, h2⟩, ⟨devices, hdevices, h3⟩, hprint⟩
    exact ⟨_, toString_eq_ok.mpr ⟨room, receipt, devices, hroom, hreceipt, hdevices, hprint, rfl⟩,
      (hread room receipt devices hroom hreceipt hdevices hprint).mpr ⟨h1, h2, h3⟩⟩

end StreamToken

/-! ## §6 What the codecs promise -/

/-- A parser returns a token or raises a `SynapseError` with status 400. -/
def TokenOr400 {α : Type} (x : Except Error α) : Prop :=
  (∃ a, x = .ok a) ∨ ∃ text errcode, x = .error (.synapseError 400 text errcode)

/-- The room parser keeps the promise for strings that start like a token, and for no others. -/
theorem RoomStreamToken.tokenOr400_iff (py : Python) (store : InstanceStore) (string : String) :
    TokenOr400 (RoomStreamToken.parse py store string) ↔ looksLikeToken string = true := by
  unfold RoomStreamToken.parse
  cases looksLikeToken string with
  | true => exact iff_of_true (orInvalid_total _ _) rfl
  | false =>
    refine iff_of_false ?_ Bool.false_ne_true
    rintro (⟨t, h⟩ | ⟨text, errcode, h⟩)
    · cases h
    · cases h

/-- **When tokens survive printing and parsing, and what the parsers do with any string.** Of the
three parsers only that of room tokens can fail otherwise than with status 400, and it does so for
every string that does not start like a token. A room token is lost exactly when its topological part
is zero and it has an instance map as well, or when a number in it is too long to be printed. -/
theorem tokenCodec_iff (py : Python) (store : InstanceStore) (hb : store.Bijective) :
    (∀ t : RoomStreamToken, (∀ n ∈ t.topological, 0 ≤ n) → (t.RoundTrips py store ↔
        t.Printable store ∧ (t.topological = some 0 → t.instanceMap.items = []))) ∧
    (∀ t : MultiWriterStreamToken, 0 ≤ t.stream →
      (MultiWriterStreamToken.RoundTrips py store t ↔ t.Printable store)) ∧
    (∀ t : StreamToken, (∀ n ∈ t.roomKey.topological, 0 ≤ n) → 0 ≤ t.receiptKey.stream →
      0 ≤ t.deviceListKey.stream →
      (t.RoundTrips py store ↔
        (t.roomKey.Printable store ∧
          (t.roomKey.topological = some 0 → t.roomKey.instanceMap.items = [])) ∧
        t.receiptKey.Printable store ∧ t.deviceListKey.Printable store ∧
        ∀ n ∈ t.numbers, PyInt.Printable n)) ∧
    ∀ string : String, (TokenOr400 (RoomStreamToken.parse py store string) ↔
        RoomStreamToken.looksLikeToken string = true) ∧
      TokenOr400 (MultiWriterStreamToken.parse py store string) ∧
      TokenOr400 (StreamToken.fromString py store string) := by
  refine ⟨fun t ht => RoomStreamToken.roundTrips_iff py hb ht,
    fun t ht => MultiWriterStreamToken.roundTrips_iff py hb ht, fun t hroom hreceipt hdevices => ?_,
    fun string => ⟨RoomStreamToken.tokenOr400_iff py store string, orInvalid_total _ _, orInvalid_total _ _⟩⟩
  rw [StreamToken.roundTrips_iff, RoomStreamToken.roundTrips_iff py hb hroom,
    MultiWriterStreamToken.roundTrips_iff py hb hreceipt,
    MultiWriterStreamToken.roundTrips_iff py hb hdevices]

/-- The id of a name in the example store: its code points, shifted, as the digits of a number. -/
def exampleId (instanceName : String) : ℤ :=
  (Nat.ofDigits (1114113 : ℕ) (instanceName.toList.map fun c => c.toNat + 1) : ℕ)

/-- The name with an id in the example store, if any. -/
def exampleName (instanceId : ℤ) : Except Error String :=
  let instanceName := String.ofList ((Nat.digits 1114113 instanceId.toNat).map fun d => Char.ofNat (d - 1))
  if exampleId instanceName = instanceId then .ok instanceName
  else .error (.synapseError 404 "No row found" "M_NOT_FOUND")

/-- A store that knows every name. -/
def exampleStore : InstanceStore := ⟨exampleId, exampleName⟩

theorem exampleStore_bijective : exampleStore.Bijective := by
  intro instanceName instanceId
  show exampleId instanceName = instanceId ↔ exampleName instanceId = .ok instanceName
  constructor
  · rintro rfl
    have hdigits : Nat.digits 1114113 (exampleId instanceName).toNat =
        instanceName.toList.map fun c => c.toNat + 1 := by
      refine Nat.digits_ofDigits _ (by omega) _ ?_ ?_
      · intro d hd
        obtain ⟨c, _, rfl⟩ := List.mem_map.mp hd
        have hc : c.toNat < 1114112 := c.valid.elim (fun h => lt_trans h (by norm_num)) And.right
        omega
      · intro hne
        obtain ⟨c, _, hc⟩ := List.mem_map.mp (List.getLast_mem hne)
        omega
    have hname : ofList ((Nat.digits 1114113 (exampleId instanceName).toNat).map
        fun d => Char.ofNat (d - 1)) = instanceName := by
      rw [hdigits, List.map_map]
      simp [Function.comp_def]
    unfold exampleName
    rw [hname]
    exact if_pos rfl
  · intro h
    unfold exampleName at h
    dsimp only at h
    split at h
    · rename_i heq
      rw [← Except.ok.inj h]
      exact heq
    · cases h

/-- `repr` for strings without quotes, and the digits of ASCII. -/
def examplePython : Python := ⟨fun s => "'" ++ s ++ "'", PyInt.Digits.ascii⟩

theorem tokenCodec_iff_example : ((RoomStreamToken.live (exampleToken "w1")).RoundTrips examplePython exampleStore ↔
      (RoomStreamToken.live (exampleToken "w1")).Printable exampleStore ∧
        ((RoomStreamToken.live (exampleToken "w1")).topological = some 0 →
          (RoomStreamToken.live (exampleToken "w1")).instanceMap.items = [])) ∧
    (TokenOr400 (RoomStreamToken.parse examplePython exampleStore "s5") ↔
      RoomStreamToken.looksLikeToken "s5" = true) := by
  obtain ⟨hroom, -, -, htotal⟩ := tokenCodec_iff examplePython exampleStore exampleStore_bijective
  exact ⟨hroom (.live (exampleToken "w1")) (fun n hn => by cases hn), (htotal "s5").1⟩

/-- A token with topological part zero and a writer that is ahead. -/
def zeroToken : RoomStreamToken := ⟨exampleToken "w1", some 0, Or.inr rfl⟩

/-- **The promises are broken.** Printing drops the writers of the token above, and a string that is
no token raises a `ValueError`. -/
theorem token_lost_and_valueError : exampleStore.Bijective ∧
    (zeroToken.toString exampleStore = .ok "t0-5" ∧
      RoomStreamToken.parse examplePython exampleStore "t0-5" = .ok (.bare (some 0) 5) ∧
      zeroToken ≠ .bare (some 0) 5) ∧
    RoomStreamToken.parse examplePython exampleStore "5" = .error .valueError ∧
    RoomStreamToken.parse examplePython exampleStore "" = .error .valueError := by
  have hparse : RoomStreamToken.parse examplePython exampleStore "t0-5" = .ok (.bare (some 0) 5) :=
    RoomStreamToken.parse_t examplePython exampleStore (n := 0) (m := 5) le_rfl (by decide) (by decide)
  refine ⟨exampleStore_bijective, ⟨by decide +kernel, hparse, fun h => ?_⟩, rfl, rfl⟩
  have hitems := congrArg (fun t : RoomStreamToken => t.instanceMap.items.length) h
  revert hitems
  decide +kernel

end Setka.Types
