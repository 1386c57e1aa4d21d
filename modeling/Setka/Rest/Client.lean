/-
# Setka.Rest.Client — what a signed-in client can ask for.

The servlets of `rest/client/setka_plus.py` and `rest/client/account_data.py`: each checks whose data
the request is about and what its body says, and then calls a handler. What a servlet only answers
from its configuration is left out.
-/
import Setka.Handlers.StickerPacks

namespace Setka.Rest

open Setka.Api Setka.Lib Setka.Handlers Setka.Handlers.Plus

/-! ## §1 Account data -/

/-- Account data of the rooms, besides what the handler of Setka Plus keeps. -/
structure Server where
  plus : State
  roomAccountData : String → String → String → Option (List (String × Json))

/-- The configuration that servlets read. `validRoomId` is `RoomID.is_valid`. -/
structure Settings where
  cfg : Config
  tables : PyStr.Unicode
  tokens : ShareTokens
  msc3391Enabled : Bool
  validRoomId : String → Bool

/-- `_check_can_set_account_data_type`. -/
def checkCanSetAccountDataType (type : String) : Except Error Unit :=
  if type = "m.fully_read" then
    throw (.synapseError 405 "Cannot set m.fully_read through this API. Use /rooms/!roomId:server.name/read_markers"
      "M_BAD_JSON")
  else if type = "m.push_rules" then
    throw (.synapseError 405 "Cannot set m.push_rules through this API. Use /pushrules" "M_BAD_JSON")
  else pure ()

/-- The checks of a request for account data: `verb` is what it wants to do. -/
def checkAccountData (verb requester userId type : String) : Except Error Unit :=
  if userId ≠ requester then
    throw (.synapseError 403 ("Cannot " ++ verb ++ " account data for other users.") "M_FORBIDDEN")
  else checkCanSetAccountDataType type

/-- `AccountDataServlet.on_PUT`. -/
def putAccountData (env : Settings) (requester userId type : String)
    (body : List (String × Json)) : Action State Error Unit := do
  .lift (checkAccountData "add" requester userId type)
  if env.msc3391Enabled = true ∧ body.isEmpty = true then
    .modify fun s => s.removeAccountData userId type
  else .modify fun s => s.addAccountData userId type body

/-- `UnstableAccountDataServlet.on_DELETE`. -/
def deleteAccountData (requester userId type : String) : Action State Error Unit := do
  .lift (checkAccountData "delete" requester userId type)
  .modify fun s => s.removeAccountData userId type

/-- `add_account_data_to_room`. -/
def Server.addRoomAccountData (w : Server) (userId roomId type : String)
    (content : List (String × Json)) : Server :=
  { w with
    roomAccountData := fun u r t =>
      if u = userId ∧ r = roomId ∧ t = type then some content else w.roomAccountData u r t }

/-- The checks of a request for account data of a room. -/
def checkRoomAccountData (env : Settings) (verb requester userId roomId type : String) : Except Error Unit :=
  if userId ≠ requester then
    throw (.synapseError 403 ("Cannot " ++ verb ++ " account data for other users.") "M_FORBIDDEN")
  else if env.validRoomId roomId = false then
    throw (.synapseError 400 (roomId ++ " is not a valid room ID") "M_INVALID_PARAM")
  else checkCanSetAccountDataType type

/-- `RoomAccountDataServlet.on_PUT`. -/
def putRoomAccountData (env : Settings) (requester userId roomId type : String)
    (body : List (String × Json)) : Action Server Error Unit := do
  .lift (checkRoomAccountData env "add" requester userId roomId type)
  -- removing writes an empty object where there was something
  if env.msc3391Enabled = true ∧ body.isEmpty = true then
    .modify fun w =>
      if (w.roomAccountData userId roomId type).isSome then w.addRoomAccountData userId roomId type []
      else w
  else .modify fun w => w.addRoomAccountData userId roomId type body

/-- `UnstableRoomAccountDataServlet.on_DELETE`. -/
def deleteRoomAccountData (env : Settings) (requester userId roomId type : String) : Action Server Error Unit := do
  .lift (checkRoomAccountData env "delete" requester userId roomId type)
  .modify fun w =>
    if (w.roomAccountData userId roomId type).isSome then w.addRoomAccountData userId roomId type []
    else w

/-! ## §2 Setka Plus -/

/-- What a request finds: the clock, the identifiers that are made up for it, and what YooMoney and
PayAnyWay answer meanwhile, `none` where the call fails. -/
structure Surroundings where
  now : ℤ
  now_nonneg : 0 ≤ now
  uuid : Uuid
  labelUuid : Uuid
  readIds : ℕ → ℕ → Uuid
  newIds : ℕ → Uuid
  invId : ℕ
  yoomoneyAnswer : Option Json
  operationId : Option ℤ

/-- `_assert_self`. -/
def assertSelf (requester userId : String) : Except Error Unit :=
  if requester ≠ userId then
    throw (.synapseError 403 "Cannot access Setka Plus data for other users." "M_FORBIDDEN")
  else pure ()

/-- A string in a body that is there and not blank. -/
def nonblank? : Option Json → Option String
  | some (.str v) => if PyStr.strip v = "" then none else some v
  | _ => none

/-- An optional string in a body. -/
def stringParam (key : String) : Option Json → Except Error (Option String)
  | none | some .null => pure none
  | some (.str v) => pure (some v)
  | some _ => throw (.synapseError 400 (key ++ " must be a string") "M_INVALID_PARAM")

/-- The amount in the body of a checkout request, by `float`. -/
def amountParam : Option Json → Except Error (Option PyFloat)
  | none | some .null => pure none
  | some (.int n) =>
    if 2 ^ 1024 - 2 ^ 970 ≤ n.natAbs then throw .overflowError else pure (some (.finite n))
  | some (.float x) => pure (some x)
  | some (.bool b) => pure (some (.finite (if b then 1 else 0)))
  | some _ => throw (.synapseError 400 "amount must be numeric" "M_INVALID_PARAM")

/-- The body of a checkout request. -/
def checkoutRequest (userId : String) (body : List (String × Json)) : Except Error CheckoutRequest := do
  let amount ← amountParam (Json.member? body "amount")
  let description ← stringParam "description" (Json.member? body "description")
  let planId ← stringParam "plan_id" (Json.member? body "plan_id")
  pure { userId, amount, description, planId }

/-- `SetkaPlusYooMoneyCreateServlet`, `SetkaPlusRobokassaCreateServlet` and
`SetkaPlusPayAnyWayCreateServlet`: the same body for three handlers. -/
inductive Provider
  | yoomoney
  | robokassa
  | payanyway

def createPayment (env : Settings) (e : Surroundings) (requester userId : String)
    (provider : Provider) (body : List (String × Json)) : Action State Error Checkout := do
  .lift (assertSelf requester userId)
  let request ← .lift (checkoutRequest userId body)
  match provider with
  | .yoomoney =>
    createYoomoneyPaymentRequest env.cfg e.now e.labelUuid.hex e.uuid.hex e.yoomoneyAnswer request
  | .robokassa => createRobokassaPaymentRequest env.cfg e.now e.uuid.hex e.invId request
  | .payanyway => createPayanywayPaymentRequest env.cfg e.now e.uuid.hex e.operationId request

/-- The body of a request to process a payment: its id, and the plan it names. -/
def processParams (body : List (String × Json)) : Except Error (String × Option String) :=
  match nonblank? (Json.member? body "request_id") with
  | none => throw (.synapseError 400 "request_id is required" "M_MISSING_PARAM")
  | some requestId =>
    match nonblank? (some ((Json.member? body "money_source").getD (.str "wallet"))) with
    | none => throw (.synapseError 400 "money_source must be a string" "M_INVALID_PARAM")
    | some _ => do
        let planId ← stringParam "plan_id" (Json.member? body "plan_id")
        pure (PyStr.strip requestId, (planId.filter fun v => v ≠ "").map PyStr.strip)

/-- `SetkaPlusYooMoneyProcessServlet`. -/
def processPayment (env : Settings) (e : Surroundings) (requester userId : String)
    (body : List (String × Json)) : Action State Error Processed := do
  .lift (assertSelf requester userId)
  let (requestId, planId) ← .lift (processParams body)
  match e.yoomoneyAnswer with
  | some answer => processYoomoneyPayment env.cfg e.now userId requestId planId answer
  -- so do the checks of the handler before its call to YooMoney
  | none => .raise .httpResponseException

/-- `SetkaPlusStickerPacksServlet.on_POST`. -/
def postStickerPack (env : Settings) (e : Surroundings) (requester userId : String)
    (body : List (String × Json)) : Action State Error StickerPack := do
  .lift (assertSelf requester userId)
  match nonblank? (Json.member? body "name") with
  | none => .raise (.synapseError 400 "Sticker pack name is required" "M_MISSING_PARAM")
  | some name =>
    upsertStickerPack env.cfg env.tables e.now userId
      { packId := PyStr.strip ((nonblank? (Json.member? body "id")).getD e.uuid.hex)
        content :=
          [("name", .str (PyStr.strip name)), ("kind", (Json.member? body "kind").getD .null),
            ("stickers", (Json.member? body "stickers").getD (.arr []))]
        rights := ⟨false, false⟩
        readIds := e.readIds
        newIds := e.newIds }

/-- `SetkaPlusStickerPackServlet.on_PUT`. -/
def putStickerPack (env : Settings) (e : Surroundings) (requester userId packId : String)
    (body : List (String × Json)) : Action State Error StickerPack := do
  .lift (assertSelf requester userId)
  upsertStickerPack env.cfg env.tables e.now userId
    { packId
      content := body
      rights := ⟨false, false⟩
      readIds := e.readIds
      newIds := e.newIds }

/-! ## §3 Requests -/

/-- A request about the account of a user. -/
inductive Request
  | getSubscription
  | getPayments
  | getStickerPacks
  | postStickerPack (body : List (String × Json))
  | putStickerPack (packId : String) (body : List (String × Json))
  | deleteStickerPack (packId : String)
  | shareStickerPack (packId : String)
  | getSharedPack (token : String)
  | importSharedPack (token : String)
  | createPayment (provider : Provider) (body : List (String × Json))
  | processPayment (body : List (String × Json))
  | putAccountData (type : String) (body : List (String × Json))
  | deleteAccountData (type : String)
  | putRoomAccountData (roomId type : String) (body : List (String × Json))
  | deleteRoomAccountData (roomId type : String)

/-- A request as it arrives: who sends it, and whose account its path names. -/
structure ClientRequest where
  requester : String
  userId : String
  surroundings : Surroundings
  request : Request

/-- The servlet of a request on the handler's data, with its answer left out. -/
def Request.serve (env : Settings) (e : Surroundings) (requester userId : String) :
    Request → Action State Error Unit
  | .getSubscription => do
      .lift (assertSelf requester userId)
      let _ ← .reads fun s => Plus.getSubscription env.cfg e.now s userId
      pure ()
  | .getPayments => do
      .lift (assertSelf requester userId)
      let _ ← .reads fun s => Plus.getPayments e.now s userId
      pure ()
  | .getStickerPacks => do
      .lift (assertSelf requester userId)
      let _ ← .reads fun s => Plus.getStickerPacks env.tables e.now e.readIds s userId
      pure ()
  | .postStickerPack body => do
      let _ ← Rest.postStickerPack env e requester userId body
      pure ()
  | .putStickerPack packId body => do
      let _ ← Rest.putStickerPack env e requester userId packId body
      pure ()
  | .deleteStickerPack packId => do
      .lift (assertSelf requester userId)
      Plus.deleteStickerPack env.tables e.now e.readIds userId packId false
  | .shareStickerPack packId => do
      .lift (assertSelf requester userId)
      let _ ← .reads (createShareToken env.tables e.now e.readIds env.tokens userId packId false)
      pure ()
  | .getSharedPack token => do
      .lift (assertSelf requester userId)
      let _ ← .reads (resolveSharedPack env.tables e.now e.readIds env.tokens token)
      pure ()
  | .importSharedPack token => do
      .lift (assertSelf requester userId)
      let _ ← Plus.importSharedPack env.cfg env.tables e.now e.readIds e.newIds e.uuid env.tokens userId token
      pure ()
  | .createPayment provider body => do
      let _ ← Rest.createPayment env e requester userId provider body
      pure ()
  | .processPayment body => do
      let _ ← Rest.processPayment env e requester userId body
      pure ()
  | .putAccountData type body => Rest.putAccountData env requester userId type body
  | .deleteAccountData type =>
    if env.msc3391Enabled then Rest.deleteAccountData requester userId type else pure ()
  | .putRoomAccountData _ _ _ => pure ()
  | .deleteRoomAccountData _ _ => pure ()

/-- The server after a request. -/
def Server.serve (env : Settings) (w : Server) (r : ClientRequest) : Server :=
  match r.request with
  | .putRoomAccountData roomId type body =>
    ((putRoomAccountData env r.requester r.userId roomId type body).run w).2
  | .deleteRoomAccountData roomId type =>
    -- the servlet is registered with the other part of MSC3391
    if env.msc3391Enabled then
      ((deleteRoomAccountData env r.requester r.userId roomId type).run w).2
    else w
  | request =>
    { w with plus := ((request.serve env r.surroundings r.requester r.userId).run w.plus).2 }

end Setka.Rest
