/-
# Setka.Types — user ids and server names.
-/
import Setka.Api.Errors
import Setka.Lib.PyInt

namespace Setka.Types

open Setka.Api Setka.Lib

/-- `s.split(c, 1)`, where the character occurs. -/
def splitAt? (c : Char) (s : String) : Option (String × String) :=
  match s.toList.dropWhile fun d => d ≠ c with
  | [] => none
  | _ :: rest => some (String.ofList (s.toList.takeWhile fun d => d ≠ c), String.ofList rest)

/-- `get_domain_from_id`. `shown` is the string as `%r` prints it. -/
def getDomainFromId (shown : String) (string : String) : Except Error String :=
  match splitAt? ':' string with
  | some (_, domain) => .ok domain
  | none => .error (.synapseError 400 ("Invalid ID: " ++ shown) "M_UNKNOWN")

/-- `UserID`: what stands before the first colon and what stands behind it. -/
structure UserID where
  localpart : String
  domain : String

/-- `UserID.from_string`. -/
def UserID.fromString (s : String) : Except Error UserID :=
  match s.toList with
  | '@' :: rest =>
    match splitAt? ':' (String.ofList rest) with
    | some (localpart, domain) => .ok ⟨localpart, domain⟩
    | none =>
      .error (.synapseError 400 "Expected UserID of the form '@localname:domain'" "M_INVALID_PARAM")
  | _ => .error (.synapseError 400 "Expected UserID string to start with '@'" "M_INVALID_PARAM")

/-- `parse_server_name`: a port that is there is a number. -/
def parseServerName (serverName : String) : Option (String × Option ℤ) :=
  if serverName.toList.getLast? = some ']' then some (serverName, none)
  else
    -- `rsplit` cuts at the last colon
    match splitAt? ':' (String.ofList serverName.toList.reverse) with
    | some (port, host) =>
      (PyInt.parse (String.ofList port.toList.reverse)).map fun port =>
        (String.ofList host.toList.reverse, some port)
    | none => some (serverName, none)

/-- `VALID_HOST_REGEX`: labels of letters, digits and hyphens, with dots between them. -/
def validHost (host : String) : Bool :=
  (PyStr.split '.' host).all fun label =>
    label ≠ "" && label.toList.all fun c => c.isAlphanum || c = '-'

/-- Whether `parse_and_validate_server_name` accepts a name. `validIpv6` is the address parser of the
networking library. -/
def validServerName (validIpv6 : String → Bool) (serverName : String) : Bool :=
  match parseServerName serverName with
  | none => false
  | some (host, _) =>
    match host.toList with
    | '[' :: rest =>
      rest.getLast? = some ']' && rest.dropLast ≠ [] && validIpv6 (String.ofList rest.dropLast)
    | _ => validHost host

/-- `UserID.is_valid`. -/
def UserID.isValid (validIpv6 : String → Bool) (s : String) : Bool :=
  match UserID.fromString s with
  | .ok user => validServerName validIpv6 user.domain
  | .error _ => false

end Setka.Types
