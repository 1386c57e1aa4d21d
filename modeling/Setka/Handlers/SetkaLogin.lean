/-
# Setka.Handlers.SetkaLogin — login codes, verified devices and the recovery key of one user.

All that the handler knows of a user is one value in the account data: open challenges, verified devices and
the recovery backup. Each operation loads the value, changes its copy and saves it whole, with awaits in
between. Any worker serves these calls, and a copy is a call's own. What `isinstance` guards against, values
that this handler never writes, is left out, and so are the texts of mails and notices.
-/
import Setka.Api.Errors
import Setka.Lib.PyInt
import Setka.Lib.SharedCell

namespace Setka.Handlers.SetkaLogin

open Setka.Api Setka.Lib

/-! ## §1 The account data -/

/-- `_CHALLENGE_TTL_MS`. -/
def challengeTtlMs : ℤ := 15 * 60 * 1000

/-- `_MAX_ATTEMPTS`. -/
def maxAttempts : ℕ := 8

/-- `rotation` is not in the source: it tells which draw the code comes from, by the step that drew it. -/
structure Challenge where
  codeHash : String
  expiresAt : ℤ
  attempts : ℕ
  ip : String
  region : String
  createdAt : ℤ
  noticeSent : Bool
  emailSent : Option Bool
  userAgent : Option String
  rotation : ℕ

structure RecoveryBackup where
  version : ℤ
  nonce : String
  ciphertext : String
  updatedAt : ℤ
deriving DecidableEq

structure LoginData where
  challenges : Dict String Challenge
  verifiedDevices : Dict String ℤ
  recoveryBackup : Option RecoveryBackup

/-- What a call finds out when it goes on: the time, a drawn code, what the encryption gives (nonce and
ciphertext, or that it is not configured), the address found for the user, the error of a mail that could not
be sent, and whether the notice was sent. Between two accesses the clock stands still. -/
structure LoginInput where
  now : ℤ
  draw : Fin 1000000
  encrypted : Option (String × String)
  deliveryEmail : Option String
  emailError : Option String
  noticeSent : Bool
deriving Inhabited

/-- What happens to codes, devices and the recovery key. -/
inductive LoginEvent
  | stored (device : String) (rotation : ℕ) (expiresAt : ℤ)
  | compared (device : String) (rotation : ℕ)
  | accepted (device : String) (rotation : ℕ) (now : ℤ)
  | expired (device : String) (rotation : ℕ)
  | verified (device : String)
  | recovery (call : ℕ) (backup : Option RecoveryBackup)
deriving DecidableEq

inductive LoginCall
  | getStatus (deviceId : String) (ip : Option String)
  | sendCodeViaEmail (deviceId : String) (email ip userAgent : Option String)
  | verifyCode (deviceId code : String)
  | storeRecoveryKey (deviceId recoveryKey : String)
  | deleteRecoveryKey (deviceId : String)
  | completeFallback (deviceId method : String) (recoveryKey : Option String)

def LoginCall.deviceId : LoginCall → String
  | .getStatus deviceId _ => deviceId
  | .sendCodeViaEmail deviceId _ _ _ => deviceId
  | .verifyCode deviceId _ => deviceId
  | .storeRecoveryKey deviceId _ => deviceId
  | .deleteRecoveryKey deviceId => deviceId
  | .completeFallback deviceId _ _ => deviceId

inductive LoginAnswer
  | status (verified : Bool) (ipAndRegion : Option (String × String)) (recoveryBackupAvailable : Bool)
  | sent (email : String)
  | verified (method : String) (recoveryBackupAvailable : Bool)
  | stored
  | deleted

abbrev LoginProg := CellProg LoginData LoginInput LoginEvent Error

/-! ## §2 Strings -/

/-- `device_id.strip() if device_id else ""`, and `"_session"` for nothing. -/
def deviceKey (deviceId : String) : String :=
  if PyStr.strip deviceId = "" then "_session" else PyStr.strip deviceId

def asStr (value : Option String) : Option String :=
  value.bind fun s => if PyStr.strip s = "" then none else some (PyStr.strip s)

def cleanStr (value : String) (maxLen : ℕ) : Option String :=
  if PyStr.strip value = "" then none else some (PyStr.take maxLen (PyStr.strip value))

/-- `f"{n:06d}"`. -/
def codeText (n : Fin 1000000) : String :=
  let digits := Nat.toDigits 10 n
  String.ofList (List.replicate (6 - digits.length) '0' ++ digits)

def maskLocal (cs : List Char) : List Char :=
  match cs with
  | [] => ['*']
  | [_] => ['*']
  | [c, _] => [c, '*']
  | c :: cs => c :: (List.replicate (cs.length - 1) '*' ++ cs.getLast?.toList)

/-- `local, _, domain = email.partition("@")`. -/
def maskEmail (email : String) : String :=
  let «local» := email.toList.takeWhile fun c => c ≠ '@'
  let domain := (email.toList.dropWhile fun c => c ≠ '@').drop 1
  if domain = [] then "***" else String.ofList (maskLocal «local» ++ '@' :: domain)

def resolveRegion (ip : Option String) : String :=
  match asStr ip with
  | none => "Неизвестно"
  | some ip => if PyStr.startsWith "127." ip || ip = "::1" then "Локальная сеть" else "Неизвестно"

/-! ## §3 The helpers -/

open CellProg

/-- `_has_recovery_backup`. -/
def hasRecoveryBackup (data : LoginData) : Bool :=
  data.recoveryBackup.any fun backup => backup.ciphertext ≠ ""

def LoginData.setChallenge (data : LoginData) (device : String) (challenge : Challenge) : LoginData :=
  { data with challenges := data.challenges.set device challenge }

def LoginData.popChallenge (data : LoginData) (device : String) : LoginData :=
  { data with challenges := data.challenges.erase device }

/-- What `_mark_verified` does to its copy. -/
def LoginData.verify (data : LoginData) (device : String) (now : ℤ) : LoginData where
  challenges := data.challenges.erase device
  verifiedDevices := data.verifiedDevices.set device now
  recoveryBackup := data.recoveryBackup

def markVerified (device : String) (data : LoginData) (now : ℤ) : LoginProg Unit := do
  let wasNew := (data.verifiedDevices.get? device).isNone
  let _ ← saved (data.verify device now)
  emitted (.verified device)
  if wasNew then
    let _ ← awaited

def resolveDeliveryEmail (email : Option String) : LoginProg (Option String) :=
  match asStr email with
  | some email => pure (some email)
  | none => do
      let (_, input) ← awaited
      pure input.deliveryEmail

def deliverCodeEmail (challenge : Challenge) : LoginProg Challenge := do
  let deliveryEmail ← resolveDeliveryEmail none
  if deliveryEmail.getD "" = "" then
    pure { challenge with emailSent := some false }
  else do
    let (_, input) ← awaited
    pure { challenge with emailSent := some input.emailError.isNone }

variable (hash : String → String)

def rotateCode (challenge : Challenge) (step : ℕ) (input : LoginInput) : Challenge :=
  { challenge with
    codeHash := hash (codeText input.draw)
    expiresAt := input.now + challengeTtlMs
    attempts := 0
    noticeSent := false
    rotation := step }

/-- `ip or challenge["ip"]`, with the region that is known or that it resolves to. -/
def Challenge.withAddress (challenge : Challenge) (ip : Option String) : Challenge :=
  let ipLine := ip.getD challenge.ip
  { challenge with
    ip := ipLine
    region := if challenge.region = "" then resolveRegion (some ipLine) else challenge.region }

/-- How both branches of `_ensure_challenge` that draw a code end. -/
def saveAndSend (device : String) (data : LoginData) (challenge : Challenge) : LoginProg Challenge := do
  let _ ← saved (data.setChallenge device challenge)
  emitted (.stored device challenge.rotation challenge.expiresAt)
  let (_, input) ← awaited
  let challenge ← deliverCodeEmail { challenge with noticeSent := input.noticeSent }
  let _ ← saved (data.setChallenge device challenge)
  pure challenge

def newChallenge (ip userAgent : Option String) (step : ℕ) (input : LoginInput) : Challenge where
  codeHash := hash (codeText input.draw)
  expiresAt := input.now + challengeTtlMs
  attempts := 0
  ip := ip.getD ""
  region := resolveRegion ip
  createdAt := input.now
  noticeSent := false
  emailSent := none
  userAgent := userAgent.map (PyStr.take 255)
  rotation := step

def ensureChallenge (device : String) (data : LoginData) (ip userAgent : Option String) (step : ℕ)
    (input : LoginInput) : LoginProg Challenge :=
  let ip := asStr ip
  let userAgent := asStr userAgent
  match data.challenges.get? device with
  | some existing =>
    if input.now < existing.expiresAt then
      if existing.noticeSent then
        pure existing
      else
        saveAndSend device data ((rotateCode hash existing step input).withAddress ip)
    else
      saveAndSend device data (newChallenge hash ip userAgent step input)
  | none => saveAndSend device data (newChallenge hash ip userAgent step input)

/-! ## §4 The operations -/

def getStatus (deviceId : String) (ip : Option String) : LoginProg LoginAnswer := do
  let device := deviceKey deviceId
  let ip := asStr ip
  let (data, _, input) ← loaded
  if (data.verifiedDevices.get? device).isSome then
    emitted (.verified device)
    pure (.status true none (hasRecoveryBackup data))
  else if data.verifiedDevices.keys ≠ [] then do
    markVerified device data input.now
    pure (.status true none (hasRecoveryBackup data))
  else if hasRecoveryBackup data then do
    let (_, input) ← awaited
    markVerified device data input.now
    pure (.status true (some (ip.getD "", resolveRegion ip)) true)
  else
    pure (.status false (some (ip.getD "", resolveRegion ip)) false)

/-- `send_code_via_email` from the rotation on. -/
def sendRotatedCode (device deliveryEmail : String) (ip : Option String) (data : LoginData)
    (challenge : Challenge) (step : ℕ) (input : LoginInput) : LoginProg LoginAnswer := do
  let challenge := (rotateCode hash challenge step input).withAddress ip
  let _ ← saved (data.setChallenge device challenge)
  emitted (.stored device challenge.rotation challenge.expiresAt)
  let (_, input) ← awaited
  match input.emailError with
  | some exc => raise (.synapseError 503 ("Email delivery failed: " ++ exc) "M_UNKNOWN")
  | none =>
    let (_, input) ← awaited
    let _ ← saved (data.setChallenge device { challenge with noticeSent := input.noticeSent })
    pure (.sent (maskEmail deliveryEmail))

/-- `send_code_via_email` from the look at the open challenge on. -/
def sendOpenCode (device deliveryEmail : String) (ip userAgent : Option String) (data : LoginData)
    (step : ℕ) (input : LoginInput) : LoginProg LoginAnswer :=
  match (data.challenges.get? device).filter fun challenge => input.now < challenge.expiresAt with
  | some challenge => sendRotatedCode hash device deliveryEmail ip data challenge step input
  | none => do
      let _ ← ensureChallenge hash device data ip userAgent step input
      let (data, step, input) ← loaded
      match data.challenges.get? device with
      | none => raise (.synapseError 500 "Failed to create login challenge" "M_UNKNOWN")
      | some challenge => sendRotatedCode hash device deliveryEmail ip data challenge step input

def sendCodeViaEmail (deviceId : String) (email ip userAgent : Option String) : LoginProg LoginAnswer := do
  let deliveryEmail ← resolveDeliveryEmail email
  if deliveryEmail.getD "" = "" then
    raise (.synapseError 400 "No email address is linked to this account" "M_NOT_FOUND")
  else do
    let (data, step, input) ← loaded
    if hasRecoveryBackup data then
      sendOpenCode hash (deviceKey deviceId) (deliveryEmail.getD "") (asStr ip) (asStr userAgent) data step input
    else
      raise (.synapseError 403 "Email verification requires server recovery backup" "M_FORBIDDEN")

variable (u : PyInt.Digits) (t : PyStr.Unicode)

/-- The submitted code, when it is six digits. -/
def cleanCode (code : String) : Option String :=
  (cleanStr code 6).filter fun cleaned => cleaned.toList.all u.isDigit && cleaned.toList.length == 6

/-- `verify_code` from the stored challenge on. -/
def checkCode (device cleaned : String) (data : LoginData) (challenge : Challenge) (input : LoginInput) :
    LoginProg LoginAnswer :=
  if challenge.expiresAt ≤ input.now then do
    emitted (.expired device challenge.rotation)
    let _ ← saved (data.popChallenge device)
    raise (.synapseError 403 "Verification code expired" "M_FORBIDDEN")
  else if maxAttempts < challenge.attempts + 1 then do
    let _ ← saved (data.popChallenge device)
    raise (.synapseError 403 "Too many attempts" "M_FORBIDDEN")
  else if cleaned.toList.any fun c => 128 ≤ c.toNat then
    -- `code.encode("ascii")`
    raise .valueError
  else do
    let data := data.setChallenge device { challenge with attempts := challenge.attempts + 1 }
    emitted (.compared device challenge.rotation)
    if hash cleaned ≠ challenge.codeHash then
      let _ ← saved data
      raise (.synapseError 403 "Invalid verification code" "M_FORBIDDEN")
    else
      emitted (.accepted device challenge.rotation input.now)
      markVerified device data input.now
      let (data, _, _) ← loaded
      pure (.verified "code" (hasRecoveryBackup data))

def verifyCode (deviceId code : String) : LoginProg LoginAnswer :=
  match cleanCode u code with
  | none => raise (.synapseError 400 "Code must be 6 digits" "M_INVALID_PARAM")
  | some cleaned => do
      let (data, _, input) ← loaded
      match data.challenges.get? (deviceKey deviceId) with
      | none => raise (.synapseError 404 "No active login challenge" "M_NOT_FOUND")
      | some challenge => checkCode hash (deviceKey deviceId) cleaned data challenge input

/-- `_encrypt_recovery_backup` into the copy, and the save. -/
def saveRecoveryBackup (id : ℕ) (data : LoginData) (input : LoginInput) : LoginProg Unit :=
  match input.encrypted with
  | none => raise (.synapseError 500 "Setka recovery encryption is not configured" "M_UNKNOWN")
  | some (nonce, ciphertext) => do
      let backup : RecoveryBackup := ⟨1, nonce, ciphertext, input.now⟩
      let _ ← saved { data with recoveryBackup := some backup }
      emitted (.recovery id (some backup))

def storeRecoveryKey (id : ℕ) (recoveryKey : String) : LoginProg LoginAnswer :=
  match cleanStr recoveryKey 512 with
  | none => raise (.synapseError 400 "Invalid recovery key" "M_INVALID_PARAM")
  | some _ => do
      let (data, _, input) ← loaded
      saveRecoveryBackup id data input
      if data.recoveryBackup.isNone then
        let _ ← awaited
      pure .stored

def deleteRecoveryKey (id : ℕ) : LoginProg LoginAnswer := do
  let (data, _, _) ← loaded
  if data.recoveryBackup.isSome then do
    let _ ← saved { data with recoveryBackup := none }
    emitted (.recovery id none)
    let _ ← awaited
    pure .deleted
  else do
    emitted (.recovery id none)
    pure .deleted

def completeFallback (id : ℕ) (deviceId method : String) (recoveryKey : Option String) : LoginProg LoginAnswer := do
  let lowered := t.lower (PyStr.strip method)
  if lowered ≠ "emoji" ∧ lowered ≠ "recovery_key" then
    raise (.synapseError 400 "Unsupported fallback method" "M_INVALID_PARAM")
  else do
    let _ ← awaited
    if lowered = "recovery_key" then
      let _ ← awaited
    let (data, _, input) ← loaded
    markVerified (deviceKey deviceId) data input.now
    if (recoveryKey.bind fun key => cleanStr key 512).isSome then
      let (data, _, input) ← loaded
      saveRecoveryBackup id data input
    let (data, _, _) ← loaded
    pure (.verified lowered (hasRecoveryBackup data))

/-- What a call runs, by its number. -/
def login (id : ℕ) : LoginCall → LoginProg LoginAnswer
  | .getStatus deviceId ip => getStatus deviceId ip
  | .sendCodeViaEmail deviceId email ip userAgent => sendCodeViaEmail hash deviceId email ip userAgent
  | .verifyCode deviceId code => verifyCode hash u deviceId code
  | .storeRecoveryKey _ recoveryKey => storeRecoveryKey id recoveryKey
  | .deleteRecoveryKey _ => deleteRecoveryKey id
  | .completeFallback deviceId method recoveryKey => completeFallback t id deviceId method recoveryKey

end Setka.Handlers.SetkaLogin
