/-
# Setka.Replication.Commands — replication commands on the wire.

A command goes over a replication connection as one line, its name, a blank and `to_line`, and the other
side reads it with `parse_command_from_line`. Every class has its own format: fields between blanks,
words for values that are missing, or JSON. A line that does not parse closes the connection. The device
id of `USER_SYNC` is whatever a client chose at login and stands between blanks as it is.
-/
import Setka.Lib.JsonText

namespace Setka.Replication

open Setka.Lib PyStr PyInt

/-- What the code takes from the language: the digits of other scripts and the text of floats. -/
structure Python where
  digits : PyInt.Digits
  floats : JsonText.FloatText

namespace Python

/-- `int(s)`, `str(n)` and JSON texts, `none` for a `ValueError`. -/
def int (py : Python) (s : String) : Option ℤ := PyInt.int py.digits s

def encode (py : Python) (v : Json) : Option String :=
  (JsonText.encode py.floats v).map String.ofList

def decode (py : Python) (s : String) : Option Json := JsonText.decode py.floats s

end Python

/-! ## §1 Commands -/

/-- The subclasses of `_SimpleCommand`, whose argument is just a string. -/
inductive SimpleCommand
  | server
  | error
  | ping
  | name
  | remoteServerUp
  | newActiveTask
  deriving DecidableEq

def SimpleCommand.NAME : SimpleCommand → String
  | server => "SERVER"
  | error => "ERROR"
  | ping => "PING"
  | name => "NAME"
  | remoteServerUp => "REMOTE_SERVER_UP"
  | newActiveTask => "NEW_ACTIVE_TASK"

inductive Command
  | simple (cls : SimpleCommand) (data : String)
  | rdata (streamName instanceName : String) (token : Option ℤ) (row : Json)
  | position (streamName instanceName : String) (prevToken newToken : ℤ)
  | replicate
  | userSync (instanceId userId : String) (deviceId : Option String) (isSyncing : Bool) (lastSyncMs : ℤ)
  | clearUserSyncs (instanceId : String)
  | federationAck (instanceName : String) (token : ℤ)
  | userIp (userId accessToken ip userAgent : String) (deviceId : Option String) (lastSeen : ℤ)
  | lockReleased (instanceName lockName lockKey : String)

namespace Command

def NAME : Command → String
  | simple cls _ => cls.NAME
  | rdata .. => "RDATA"
  | position .. => "POSITION"
  | replicate => "REPLICATE"
  | userSync .. => "USER_SYNC"
  | clearUserSyncs _ => "CLEAR_USER_SYNC"
  | federationAck .. => "FEDERATION_ACK"
  | userIp .. => "USER_IP"
  | lockReleased .. => "LOCK_RELEASED"

/-! ## §2 Writing -/

/-- A string in JSON, or `null`. -/
def optional (s : Option String) : Json := s.elim .null .str

/-- The row behind the user id of `USER_IP`. -/
def userIpRow (accessToken ip userAgent : String) (deviceId : Option String) (lastSeen : ℤ) : Json :=
  .arr [.str accessToken, .str ip, .str userAgent, optional deviceId, .int lastSeen]

def lockReleasedRow (instanceName lockName lockKey : String) : Json :=
  .arr [.str instanceName, .str lockName, .str lockKey]

/-- `to_line`, `none` when it raises. -/
def toLine (py : Python) : Command → Option String
  | simple _ data => some data
  | rdata streamName instanceName token row => do
      let token ← token.elim (some "batch") PyInt.str
      let row ← py.encode row
      pure (PyStr.join " " [streamName, instanceName, token, row])
  | position streamName instanceName prevToken newToken => do
      let prevToken ← PyInt.str prevToken
      let newToken ← PyInt.str newToken
      pure (PyStr.join " " [streamName, instanceName, prevToken, newToken])
  | replicate => some ""
  | userSync instanceId userId deviceId isSyncing lastSyncMs => do
      let lastSyncMs ← PyInt.str lastSyncMs
      pure (PyStr.join " " [instanceId, userId, deviceId.getD "None",
        if isSyncing then "start" else "end", lastSyncMs])
  | clearUserSyncs instanceId => some instanceId
  | federationAck instanceName token => do
      let token ← PyInt.str token
      pure (PyStr.join " " [instanceName, token])
  | userIp userId accessToken ip userAgent deviceId lastSeen => do
      let jsn ← py.encode (userIpRow accessToken ip userAgent deviceId lastSeen)
      pure (PyStr.join " " [userId, jsn])
  | lockReleased instanceName lockName lockKey =>
    py.encode (lockReleasedRow instanceName lockName lockKey)

/-- The line on the wire: `"%s %s" % (cmd.NAME, cmd.to_line())`. -/
def wire (py : Python) (cmd : Command) : Option String :=
  (cmd.toLine py).map fun line => cmd.NAME ++ " " ++ line

/-! ## §3 Reading -/

/-- `None if token == "batch" else int(token)`. -/
def tokenFromLine (py : Python) (token : String) : Option (Option ℤ) :=
  if token = "batch" then some none else (py.int token).map some

def rdataFromLine (py : Python) (line : String) : Option Command :=
  match PyStr.splitMax ' ' 3 line with
  | [streamName, instanceName, token, rowJson] => do
      let token ← tokenFromLine py token
      let row ← py.decode rowJson
      pure (rdata streamName instanceName token row)
  | _ => none

def positionFromLine (py : Python) (line : String) : Option Command :=
  match PyStr.splitMax ' ' 3 line with
  | [streamName, instanceName, prevToken, newToken] => do
      let prevToken ← py.int prevToken
      let newToken ← py.int newToken
      pure (position streamName instanceName prevToken newToken)
  | _ => none

def userSyncFromLine (py : Python) (line : String) : Option Command :=
  match PyStr.splitMax ' ' 4 line with
  | [instanceId, userId, deviceId, state, lastSyncMs] => do
      let deviceId := if deviceId = "None" then none else some deviceId
      if state = "start" ∨ state = "end" then do
        let lastSyncMs ← py.int lastSyncMs
        pure (userSync instanceId userId deviceId (state = "start") lastSyncMs)
      else none
  | _ => none

def federationAckFromLine (py : Python) (line : String) : Option Command :=
  match PyStr.split ' ' line with
  | [instanceName, token] => do
      let token ← py.int token
      pure (federationAck instanceName token)
  | _ => none

/-- A row whose parts have other types than the annotations say builds no command here. -/
def userIpFromLine (py : Python) (line : String) : Option Command :=
  match PyStr.splitMax ' ' 1 line with
  | [userId, jsn] => do
      match ← py.decode jsn with
      | .arr [.str accessToken, .str ip, .str userAgent, .null, .int lastSeen] =>
        pure (userIp userId accessToken ip userAgent none lastSeen)
      | .arr [.str accessToken, .str ip, .str userAgent, .str deviceId, .int lastSeen] =>
        pure (userIp userId accessToken ip userAgent (some deviceId) lastSeen)
      | _ => none
  | _ => none

def lockReleasedFromLine (py : Python) (line : String) : Option Command := do
  match ← py.decode line with
  | .arr [.str instanceName, .str lockName, .str lockKey] =>
    pure (lockReleased instanceName lockName lockKey)
  | _ => none

/-- `COMMAND_MAP`, each class as its `from_line`. -/
def COMMAND_MAP (py : Python) : List (String × (String → Option Command)) :=
  [ ("SERVER", fun line => some (simple .server line)), ("RDATA", rdataFromLine py),
    ("POSITION", positionFromLine py),
    ("ERROR", fun line => some (simple .error line)),
    ("PING", fun line => some (simple .ping line)),
    ("NAME", fun line => some (simple .name line)),
    ("REPLICATE", fun _ => some replicate),
    ("USER_SYNC", userSyncFromLine py),
    ("FEDERATION_ACK", federationAckFromLine py),
    ("USER_IP", userIpFromLine py),
    ("REMOTE_SERVER_UP", fun line => some (simple .remoteServerUp line)),
    ("CLEAR_USER_SYNC", fun line => some (clearUserSyncs line)),
    ("LOCK_RELEASED", lockReleasedFromLine py),
    ("NEW_ACTIVE_TASK", fun line => some (simple .newActiveTask line)) ]

/-- `parse_command_from_line`, `none` when it raises. -/
def parseCommandFromLine (py : Python) (line : String) : Option Command := do
  let (cmdName, restOfLine) := (PyStr.partition ' ' line).getD (line, "")
  let cmdCls ← (COMMAND_MAP py).lookup cmdName
  cmdCls restOfLine

/-! ## §4 What survives -/

/-- The line is one line, and reads back as the command. -/
def Survives (py : Python) (cmd : Command) : Prop :=
  ∃ line, cmd.wire py = some line ∧ '\n' ∉ line.toList ∧ parseCommandFromLine py line = some cmd

/-- A name without blanks. -/
def Name (s : String) : Prop := ∀ c ∈ s.toList, PyStr.isSpace c = false

/-- What a command is made from: names without blanks, and rows that are JSON. -/
def Constructible (py : Python) : Command → Prop
  | simple .server data | simple .remoteServerUp data => Name data
  | simple _ _ => True
  | rdata streamName instanceName _ row =>
    Name streamName ∧ Name instanceName ∧ JsonText.FloatsReadBack py.floats (JsonText.leaves row)
  | position streamName instanceName _ _ => Name streamName ∧ Name instanceName
  | replicate => True
  | userSync instanceId userId _ _ _ => Name instanceId ∧ Name userId
  | clearUserSyncs instanceId => Name instanceId
  | federationAck instanceName _ => Name instanceName
  | userIp userId _ _ _ _ _ => Name userId
  | lockReleased .. => True

/-- No text breaks the line, integers can be written, and a device id of `USER_SYNC` neither contains
a blank nor is the word for none. -/
def Unambiguous : Command → Prop
  | simple _ data => '\n' ∉ data.toList
  | rdata _ _ token row => (∀ n ∈ token, PyInt.Printable n) ∧ JsonText.Printable (JsonText.leaves row)
  | position _ _ prevToken newToken => PyInt.Printable prevToken ∧ PyInt.Printable newToken
  | userSync _ _ deviceId _ lastSyncMs =>
    PyInt.Printable lastSyncMs ∧
      ∀ d ∈ deviceId, d ≠ "None" ∧ ' ' ∉ d.toList ∧ '\n' ∉ d.toList
  | federationAck _ token => PyInt.Printable token
  | userIp _ _ _ _ _ lastSeen => PyInt.Printable lastSeen
  | replicate | clearUserSyncs _ | lockReleased .. => True

/-! ## §5 The way there and back -/

/-- The `from_line` of the command's class. -/
def fromLine (py : Python) : Command → String → Option Command
  | simple cls _ => fun line => some (simple cls line)
  | rdata .. => rdataFromLine py
  | position .. => positionFromLine py
  | replicate => fun _ => some replicate
  | userSync .. => userSyncFromLine py
  | clearUserSyncs _ => fun line => some (clearUserSyncs line)
  | federationAck .. => federationAckFromLine py
  | userIp .. => userIpFromLine py
  | lockReleased .. => lockReleasedFromLine py

theorem lookup_NAME (py : Python) (cmd : Command) : (COMMAND_MAP py).lookup cmd.NAME = some (cmd.fromLine py) := by
  cases cmd with
  | simple cls data => cases cls <;> rfl
  | _ => rfl

/-- No name contains a blank or a line break. -/
theorem not_mem_NAME (cmd : Command) : ' ' ∉ cmd.NAME.toList ∧ '\n' ∉ cmd.NAME.toList := by
  cases cmd with
  | simple cls data => cases cls <;> (dsimp only [NAME, SimpleCommand.NAME]; decide)
  | _ => dsimp only [NAME]; decide

theorem parse_line (py : Python) (cmd : Command) (line : String) :
    parseCommandFromLine py (cmd.NAME ++ " " ++ line) = cmd.fromLine py line := by
  unfold parseCommandFromLine
  have hcut : PyStr.partition ' ' (cmd.NAME ++ " " ++ line) = some (cmd.NAME, line) :=
    partition_append (not_mem_NAME cmd).1 line
  rw [hcut]
  show ((COMMAND_MAP py).lookup cmd.NAME >>= fun cls => cls line) = _
  rw [lookup_NAME]
  rfl

/-- Only what follows the name matters. -/
theorem survives_iff_line (py : Python) (cmd : Command) :
    cmd.Survives py ↔ ∃ line, cmd.toLine py = some line ∧ '\n' ∉ line.toList ∧
      cmd.fromLine py line = some cmd := by
  have hbreak : ∀ line : String, '\n' ∉ (cmd.NAME ++ " " ++ line).toList ↔ '\n' ∉ line.toList := by
    intro line
    have hblank : '\n' ∉ (" " : String).toList := by decide
    rw [String.toList_append, String.toList_append, List.mem_append, List.mem_append]
    constructor
    · exact fun h hline => h (Or.inr hline)
    rintro h ((hname | hsep) | hline)
    · exact (not_mem_NAME cmd).2 hname
    · exact hblank hsep
    · exact h hline
  constructor
  · rintro ⟨_, hwire, hline, hparse⟩
    obtain ⟨line, hto, rfl⟩ := Option.map_eq_some_iff.mp hwire
    exact ⟨line, hto, (hbreak line).mp hline, (parse_line py cmd line).symm.trans hparse⟩
  rintro ⟨line, hto, hline, hparse⟩
  exact ⟨_, Option.map_eq_some_iff.mpr ⟨line, hto, rfl⟩, (hbreak line).mpr hline,
    (parse_line py cmd line).trans hparse⟩

variable {s : String}

theorem Name.not_mem (h : Name s) {c : Char} (hc : PyStr.isSpace c = true) : c ∉ s.toList := by
  intro hmem
  rw [h c hmem] at hc
  cases hc

/-- The parts of a line have no line break when none of the fields has. -/
theorem not_mem_join {xs : List String} (h : ∀ x ∈ xs, '\n' ∉ x.toList) : '\n' ∉ (PyStr.join " " xs).toList := by
  intro hmem
  rcases mem_join hmem with hsep | ⟨x, hx, hc⟩
  · exact absurd hsep (by decide)
  · exact h x hx hc

theorem mem_join_of_mem {x : String} {xs : List String} (hx : x ∈ xs) {c : Char} (hc : c ∈ x.toList) :
    c ∈ (PyStr.join " " xs).toList := by
  induction xs with
  | nil => cases hx
  | cons y ys ih =>
    unfold PyStr.join at ih ⊢
    by_cases hnil : ys = []
    · subst hnil
      rw [String.intercalate_singleton, ← List.mem_singleton.mp hx]
      exact hc
    obtain ⟨z, zs, rfl⟩ := List.exists_cons_of_ne_nil hnil
    rw [String.intercalate_cons_cons, String.toList_append, String.toList_append, List.mem_append, List.mem_append]
    rcases List.mem_cons.mp hx with rfl | hx
    · exact Or.inl (Or.inl hc)
    · exact Or.inr (ih hx)

theorem str_eq_some {n : ℤ} : PyInt.str n = some s ↔ PyInt.Printable n ∧ s = toString n := by
  unfold PyInt.str
  split
  · simp [*, eq_comm]
  · simp [*]

theorem int_str (py : Python) {n : ℤ} (h : PyInt.Printable n) : py.int (toString n) = some n :=
  int_toString py.digits h

/-- A field of a line has neither a blank nor a line break. -/
structure Field (s : String) : Prop where
  blank : ' ' ∉ s.toList
  line : '\n' ∉ s.toList

theorem Name.field (h : Name s) : Field s := ⟨h.not_mem (by decide), h.not_mem (by decide)⟩

theorem field_number (n : ℤ) : Field (toString n) :=
  ⟨not_mem_toString (by decide) (by decide), not_mem_toString (by decide) (by decide)⟩

/-- **A line of fields** survives when they are read back; in the last one there may be blanks. -/
theorem survives_of_fields {py : Python} {cmd : Command} (n : ℕ) (xs : List String) (last : String)
    (hto : cmd.toLine py = some (PyStr.join " " (xs ++ [last]))) (hfields : xs.Forall Field)
    (hlast : '\n' ∉ last.toList) (hn : xs.length = n)
    (hread : ∀ line, PyStr.splitMax ' ' n line = xs ++ [last] → cmd.fromLine py line = some cmd) :
    cmd.Survives py := by
  rw [List.forall_iff_forall_mem] at hfields
  refine (survives_iff_line py cmd).mpr ⟨_, hto, not_mem_join fun x hx => ?_, hread _ ?_⟩
  · rcases List.mem_append.mp hx with hx | hx
    · exact (hfields x hx).line
    · rwa [List.mem_singleton.mp hx]
  · rw [← hn]
    exact splitMax_join (fun x hx => (hfields x hx).blank) last

/-- **A JSON text has no line break and reads back**, and there is one when the integers can be
written. -/
theorem encode_spec {py : Python} {v : Json} (hfloats : JsonText.FloatsReadBack py.floats (JsonText.leaves v)) :
    (∀ s, py.encode v = some s → '\n' ∉ s.toList ∧ py.decode s = some v) ∧
      ((∃ s, py.encode v = some s) ↔ JsonText.Printable (JsonText.leaves v)) := by
  constructor
  · intro s hs
    obtain ⟨t, ht, rfl⟩ := Option.map_eq_some_iff.mp hs
    refine ⟨fun hmem => ?_, JsonText.decode_encode ht hfloats⟩
    rw [String.toList_ofList] at hmem
    exact absurd (JsonText.plain_encode py.floats ht hfloats '\n' hmem) (by decide)
  · rw [← JsonText.isSome_encode py.floats hfloats, Option.isSome_iff_exists]
    simp [Python.encode]

theorem floatsReadBack_of_no_float {ft : JsonText.FloatText} {vs : List Json}
    (h : ∀ x, .float x ∉ vs) : JsonText.FloatsReadBack ft vs := fun x hx => absurd hx (h x)

/-! ## §6 Command by command -/

theorem survives_simple (py : Python) (cls : SimpleCommand) (data : String) :
    (simple cls data).Survives py ↔ '\n' ∉ data.toList := by
  rw [survives_iff_line]
  constructor
  · rintro ⟨line, hto, hline, -⟩
    obtain rfl := Option.some.inj hto
    exact hline
  · exact fun h => ⟨data, rfl, h, rfl⟩

theorem survives_clearUserSyncs (py : Python) {instanceId : String} (h : Name instanceId) :
    (clearUserSyncs instanceId).Survives py :=
  (survives_iff_line _ _).mpr ⟨instanceId, rfl, h.not_mem (by decide), rfl⟩

theorem survives_replicate (py : Python) : replicate.Survives py :=
  (survives_iff_line _ _).mpr ⟨"", rfl, by decide, rfl⟩

variable {instanceName : String}

theorem survives_position (py : Python) {streamName : String} (hs : Name streamName) (hi : Name instanceName)
    (prevToken newToken : ℤ) : (position streamName instanceName prevToken newToken).Survives py ↔
      PyInt.Printable prevToken ∧ PyInt.Printable newToken := by
  constructor
  · intro hsurvives
    obtain ⟨line, hto, -, -⟩ := (survives_iff_line py _).mp hsurvives
    obtain ⟨p, hp, hrest⟩ := Option.bind_eq_some_iff.mp hto
    obtain ⟨n, hn, -⟩ := Option.bind_eq_some_iff.mp hrest
    exact ⟨(str_eq_some.mp hp).1, (str_eq_some.mp hn).1⟩
  rintro ⟨hp, hn⟩
  refine survives_of_fields 3 [streamName, instanceName, toString prevToken] (toString newToken)
    ?_ ⟨hs.field, hi.field, field_number prevToken⟩ (field_number newToken).line rfl fun line hsplit => ?_
  · simp only [toLine, str_eq_some.mpr ⟨hp, rfl⟩, str_eq_some.mpr ⟨hn, rfl⟩]
    rfl
  show positionFromLine py line = _
  rw [positionFromLine, hsplit]
  simp only [List.cons_append, List.nil_append, int_str py hp, int_str py hn]
  rfl

theorem survives_rdata (py : Python) {streamName : String} (hs : Name streamName) (hi : Name instanceName)
    (token : Option ℤ) {row : Json} (hrow : JsonText.FloatsReadBack py.floats (JsonText.leaves row)) :
    (rdata streamName instanceName token row).Survives py ↔
      (∀ n ∈ token, PyInt.Printable n) ∧ JsonText.Printable (JsonText.leaves row) := by
  obtain ⟨hjson, hprint⟩ := encode_spec hrow
  constructor
  · intro hsurvives
    obtain ⟨line, hto, -, -⟩ := (survives_iff_line py _).mp hsurvives
    obtain ⟨t, ht, hrest⟩ := Option.bind_eq_some_iff.mp hto
    obtain ⟨r, hr, -⟩ := Option.bind_eq_some_iff.mp hrest
    refine ⟨?_, hprint.mp ⟨r, hr⟩⟩
    rintro n rfl
    exact (str_eq_some.mp ht).1
  rintro ⟨htoken, hleaves⟩
  obtain ⟨r, hr⟩ := hprint.mpr hleaves
  obtain ⟨hbreak, hback⟩ := hjson r hr
  -- the token as the line has it
  obtain ⟨t, ht, hfield, hread⟩ : ∃ t, token.elim (some "batch") PyInt.str = some t ∧ Field t ∧
      tokenFromLine py t = some token := by
    cases token with
    | none => exact ⟨"batch", rfl, ⟨by decide, by decide⟩, rfl⟩
    | some n =>
      have hn := htoken n rfl
      refine ⟨toString n, str_eq_some.mpr ⟨hn, rfl⟩, field_number n, ?_⟩
      have hword : toString n ≠ "batch" := by
        intro heq
        have hb : 'b' ∉ (toString n).toList := not_mem_toString (by decide) (by decide)
        rw [heq] at hb
        exact hb (by decide)
      rw [tokenFromLine, if_neg hword, int_str py hn]
      rfl
  refine survives_of_fields 3 [streamName, instanceName, t] r ?_ ⟨hs.field, hi.field, hfield⟩ hbreak rfl fun line hsplit => ?_
  · simp only [toLine, ht, hr]
    rfl
  show rdataFromLine py line = _
  rw [rdataFromLine, hsplit]
  simp only [List.cons_append, List.nil_append, hread, hback]
  rfl

theorem survives_federationAck (py : Python) (hi : Name instanceName)
    (token : ℤ) : (federationAck instanceName token).Survives py ↔ PyInt.Printable token := by
  rw [survives_iff_line]
  constructor
  · rintro ⟨line, hto, -, -⟩
    obtain ⟨t, ht, -⟩ := Option.bind_eq_some_iff.mp hto
    exact (str_eq_some.mp ht).1
  intro ht
  have hfields : ∀ x ∈ [instanceName, toString token], Field x :=
    List.forall_iff_forall_mem.mp (show List.Forall Field _ from ⟨hi.field, field_number token⟩)
  refine ⟨PyStr.join " " [instanceName, toString token], ?_, not_mem_join fun x hx => (hfields x hx).line, ?_⟩
  · simp only [toLine, str_eq_some.mpr ⟨ht, rfl⟩]
    rfl
  have hsplit : PyStr.split ' ' (PyStr.join " " [instanceName, toString token]) = [instanceName, toString token] :=
    split_join (List.cons_ne_nil _ _) fun x hx => (hfields x hx).blank
  show federationAckFromLine py _ = _
  unfold federationAckFromLine
  rw [hsplit]
  simp only [int_str py ht]
  rfl

theorem survives_userIp (py : Python) {userId : String} (hu : Name userId)
    (accessToken ip userAgent : String) (deviceId : Option String) (lastSeen : ℤ) :
    (userIp userId accessToken ip userAgent deviceId lastSeen).Survives py ↔
      PyInt.Printable lastSeen := by
  have hleaves : JsonText.leaves (userIpRow accessToken ip userAgent deviceId lastSeen) =
      [.str accessToken, .str ip, .str userAgent, optional deviceId, .int lastSeen] := by
    cases deviceId <;> rfl
  have hfloats : JsonText.FloatsReadBack py.floats
      (JsonText.leaves (userIpRow accessToken ip userAgent deviceId lastSeen)) := by
    refine floatsReadBack_of_no_float fun x => ?_
    rw [hleaves]
    cases deviceId <;> simp [optional]
  obtain ⟨hjson, hprint⟩ := encode_spec hfloats
  have hlast : JsonText.Printable (JsonText.leaves (userIpRow accessToken ip userAgent deviceId lastSeen)) ↔
      PyInt.Printable lastSeen := by
    rw [hleaves]
    cases deviceId <;> simp [JsonText.Printable, optional]
  rw [← hlast]
  constructor
  · intro hsurvives
    obtain ⟨line, hto, -, -⟩ := (survives_iff_line py _).mp hsurvives
    obtain ⟨r, hr, -⟩ := Option.bind_eq_some_iff.mp hto
    exact hprint.mp ⟨r, hr⟩
  intro h
  obtain ⟨r, hr⟩ := hprint.mpr h
  obtain ⟨hbreak, hback⟩ := hjson r hr
  refine survives_of_fields 1 [userId] r ?_ hu.field hbreak rfl fun line hsplit => ?_
  · simp only [toLine, hr]
    rfl
  show userIpFromLine py line = _
  rw [userIpFromLine, hsplit]
  simp only [List.cons_append, List.nil_append, hback]
  cases deviceId <;> rfl

theorem survives_lockReleased (py : Python) (instanceName lockName lockKey : String) :
    (lockReleased instanceName lockName lockKey).Survives py := by
  have hleaves : JsonText.leaves (lockReleasedRow instanceName lockName lockKey) =
      [.str instanceName, .str lockName, .str lockKey] := rfl
  have hfloats : JsonText.FloatsReadBack py.floats
      (JsonText.leaves (lockReleasedRow instanceName lockName lockKey)) := by
    refine floatsReadBack_of_no_float fun x => ?_
    rw [hleaves]
    simp
  obtain ⟨hjson, hprint⟩ := encode_spec hfloats
  obtain ⟨r, hr⟩ := hprint.mpr (by rw [hleaves]; simp [JsonText.Printable])
  obtain ⟨hbreak, hback⟩ := hjson r hr
  refine (survives_iff_line _ _).mpr ⟨r, hr, hbreak, ?_⟩
  show lockReleasedFromLine py r = _
  unfold lockReleasedFromLine
  rw [hback]
  rfl

/-- The fields of `USER_SYNC` between blanks. -/
theorem survives_userSync (py : Python) {instanceId userId : String} (hi : Name instanceId)
    (hu : Name userId) (deviceId : Option String) (isSyncing : Bool) (lastSyncMs : ℤ) :
    (userSync instanceId userId deviceId isSyncing lastSyncMs).Survives py ↔
      PyInt.Printable lastSyncMs ∧
        ∀ d ∈ deviceId, d ≠ "None" ∧ ' ' ∉ d.toList ∧ '\n' ∉ d.toList := by
  constructor
  · intro hsurvives
    obtain ⟨line, hto, hline, hparse⟩ := (survives_iff_line py _).mp hsurvives
    obtain ⟨t, ht, hjoin⟩ := Option.bind_eq_some_iff.mp hto
    obtain rfl := Option.some.inj hjoin
    refine ⟨(str_eq_some.mp ht).1, ?_⟩
    rintro d rfl
    have hbreak : '\n' ∉ d.toList := fun hd => hline (mem_join_of_mem (by simp) hd)
    have hparsed : userSyncFromLine py (PyStr.join " " [instanceId, userId, d,
        if isSyncing then "start" else "end", t]) = _ := hparse
    unfold userSyncFromLine at hparsed
    split at hparsed
    · rename_i i u d' state last hsplit
      have hblank : ' ' ∉ d'.toList := by
        refine @not_mem_splitMax ' ' 4 (PyStr.join " " [instanceId, userId, d,
          if isSyncing then "start" else "end", t]) d' ?_
        rw [hsplit]
        simp
      dsimp only at hparsed
      split at hparsed
      · obtain ⟨n, -, hcmd⟩ := Option.bind_eq_some_iff.mp hparsed
        have hdevice : (if d' = "None" then none else some d') = some d := by
          have := Option.some.inj hcmd
          injection this
        split at hdevice
        · cases hdevice
        rename_i hnone
        obtain rfl := Option.some.inj hdevice
        exact ⟨hnone, hblank, hbreak⟩
      · cases hparsed
    · cases hparsed
  · rintro ⟨ht, hdevice⟩
    -- the device id as the line has it
    obtain ⟨d, hd, hfield, hread⟩ : ∃ d, deviceId.getD "None" = d ∧ Field d ∧
        (if d = "None" then none else some d) = deviceId := by
      cases deviceId with
      | none => exact ⟨"None", rfl, ⟨by decide, by decide⟩, rfl⟩
      | some d =>
        obtain ⟨hnone, hblank, hline⟩ := hdevice d rfl
        exact ⟨d, rfl, ⟨hblank, hline⟩, if_neg hnone⟩
    obtain ⟨state, hstate, hsfield, hword, hsyncing⟩ : ∃ state : String,
        (if isSyncing then "start" else "end") = state ∧ Field state ∧
        (state = "start" ∨ state = "end") ∧ decide (state = "start") = isSyncing := by
      cases isSyncing with
      | true => exact ⟨"start", rfl, ⟨by decide, by decide⟩, by decide, rfl⟩
      | false => exact ⟨"end", rfl, ⟨by decide, by decide⟩, by decide, rfl⟩
    refine survives_of_fields 4 [instanceId, userId, d, state] (toString lastSyncMs) ?_
      ⟨hi.field, hu.field, hfield, hsfield⟩ (field_number lastSyncMs).line rfl fun line hsplit => ?_
    · simp only [toLine, str_eq_some.mpr ⟨ht, rfl⟩, hd, hstate]
      rfl
    show userSyncFromLine py line = _
    rw [userSyncFromLine, hsplit]
    simp only [List.cons_append, List.nil_append, hread, if_pos hword, int_str py ht]
    show some (userSync instanceId userId deviceId (decide (state = "start")) lastSyncMs) = _
    rw [hsyncing]

/-- **Which commands survive the wire.** -/
theorem survives_iff (py : Python) (cmd : Command) (h : cmd.Constructible py) :
    cmd.Survives py ↔ cmd.Unambiguous := by
  cases cmd with
  | simple cls data => exact survives_simple py cls data
  | rdata streamName instanceName token row => exact survives_rdata py h.1 h.2.1 token h.2.2
  | position streamName instanceName prevToken newToken =>
    exact survives_position py h.1 h.2 prevToken newToken
  | replicate => exact iff_of_true (survives_replicate py) trivial
  | userSync instanceId userId deviceId isSyncing lastSyncMs =>
    exact survives_userSync py h.1 h.2 deviceId isSyncing lastSyncMs
  | clearUserSyncs instanceId => exact iff_of_true (survives_clearUserSyncs py h) trivial
  | federationAck instanceName token => exact survives_federationAck py h token
  | userIp userId accessToken ip userAgent deviceId lastSeen =>
    exact survives_userIp py h accessToken ip userAgent deviceId lastSeen
  | lockReleased instanceName lockName lockKey =>
    exact iff_of_true (survives_lockReleased py instanceName lockName lockKey) trivial

/-- A float that is read from a table of one. -/
def examplePython : Python := ⟨PyInt.Digits.ascii, fun _ => "1.5", fun _ => .finite (3 / 2)⟩

/-- A row with a float, a list and a text outside ASCII. -/
def exampleRow : Json :=
  .arr [.str "@zoë:example.org\n", .float (.finite (3 / 2)), .arr [.int (-1), .null], .obj [("k", .bool true)]]

theorem survives_iff_example : (rdata "presence" "master" (some 59) exampleRow).Survives examplePython ↔
      (rdata "presence" "master" (some 59) exampleRow).Unambiguous := by
  refine survives_iff examplePython _ ⟨PyStr.not_isSpace_of_all (by decide), PyStr.not_isSpace_of_all (by decide), ?_⟩
  intro x hx
  have hleaves : JsonText.leaves exampleRow =
      [.str "@zoë:example.org\n", .float (.finite (3 / 2)), .int (-1), .null, .bool true] := rfl
  rw [hleaves] at hx
  simp only [List.mem_cons, List.not_mem_nil, or_false, Json.float.injEq, reduceCtorEq, false_or] at hx
  subst hx
  refine ⟨3 / 2, rfl, ['1'], ['.', '5'], [], rfl, ⟨?_, ?_, Or.inl rfl⟩, ?_, rfl⟩
  · exact ⟨['1'], ⟨by decide, List.forall_mem_singleton.mpr (by decide)⟩, by decide, Or.inl rfl⟩
  · exact Or.inr ⟨['5'], ⟨by decide, List.forall_mem_singleton.mpr (by decide)⟩, rfl⟩
  · exact fun h => absurd h.1 (by decide)

/-- **A device id with a blank does not come through**, nor does one spelled like the word for none. -/
theorem deviceId_lost :
    ¬ (userSync "worker1-abc" "@alice:example.org" (some "my phone") true 0).Survives examplePython ∧
      ¬ (userSync "worker1-abc" "@alice:example.org" (some "None") true 0).Survives examplePython := by
  have hlost : ∀ d : String, (d = "None" ∨ ' ' ∈ d.toList) →
      ¬ (userSync "worker1-abc" "@alice:example.org" (some d) true 0).Survives examplePython := by
    intro d hd hsurvives
    have hi : Name "worker1-abc" := PyStr.not_isSpace_of_all (by decide)
    have hu : Name "@alice:example.org" := PyStr.not_isSpace_of_all (by decide)
    obtain ⟨hnone, hblank, -⟩ :=
      ((survives_userSync examplePython hi hu (some d) true 0).mp hsurvives).2 d rfl
    rcases hd with hd | hd
    · exact hnone hd
    · exact hblank hd
  exact ⟨hlost "my phone" (Or.inr (by decide)), hlost "None" (Or.inl rfl)⟩

end Command

end Setka.Replication
