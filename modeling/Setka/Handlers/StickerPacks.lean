/-
# Setka.Handlers.StickerPacks — the sticker packs of a user.

The packs are one value of account data. Every operation reads it through the normalising functions
and writes the whole list back. Identifiers made up for stickers without one are arguments.
-/
import Setka.Handlers.Plus

namespace Setka.Handlers.Plus

open Setka.Api Setka.Lib

/-! ## §1 Stickers and packs -/

/-- `AccountDataTypes.SETKA_PLUS_STICKER_PACKS`. -/
def stickerPacksType : String := "io.setka.plus.sticker_packs"

/-- `uuid.uuid4().hex`: 32 digits. -/
structure Uuid where
  hex : String
  length_hex : hex.toList.length = 32
  not_space : ∀ c ∈ hex.toList, PyStr.isSpace c = false

def exampleUuid : Uuid := ⟨"00000000000000000000000000000000", by decide, PyStr.not_isSpace_of_all (by decide)⟩

/-- A normalised sticker. -/
structure Sticker where
  id : String
  name : String
  mxcUrl : String
  mimeType : Option String
  width : Option ℤ
  height : Option ℤ
  size : Option ℤ
  deriving DecidableEq

/-- `_PACK_KIND`. -/
inductive PackKind
  | sticker
  | emoji
  deriving DecidableEq

/-- A normalised pack. -/
structure StickerPack where
  id : String
  name : String
  kind : PackKind
  stickers : List Sticker
  createdAt : ℤ
  updatedAt : ℤ
  deriving DecidableEq

def PackKind.toString : PackKind → String
  | sticker => "sticker"
  | emoji => "emoji"

/-- A kind in a request or in stored data, in any case. -/
def packKind? (uni : PyStr.Unicode) (raw : Option Json) : Option PackKind :=
  match (cleanStr 24 raw).map uni.lower with
  | some "sticker" => some .sticker
  | some "emoji" => some .emoji
  | _ => none

/-! ## §2 Normalising -/

/-- A size that is kept if it is positive. -/
def positive? (n : Option ℤ) : Option ℤ := n.filter fun n => 0 < n

/-- One item of `_normalize_stickers`, `none` where it is skipped. `uuid` stands in for a missing id. -/
def normalizeSticker (uuid : Uuid) (kind : PackKind) : Json → Except Error (Option Sticker)
  | .obj item => do
      let get := Json.member? item
      match (cleanStr 2048 (get "mxc_url")).or (cleanStr 2048 (get "url")) with
      | none => pure none
      | some mxcUrl =>
        if PyStr.startsWith "mxc://" mxcUrl then do
          let width ← cleanInt (get "width")
          let height ← cleanInt (get "height")
          let size ← cleanInt (get "size")
          pure (some
            { id := (cleanStr 128 (get "id")).getD uuid.hex
              name := (cleanStr 120 (get "name")).getD "Sticker"
              mxcUrl
              mimeType := cleanStr 128 (get "mime_type")
              width := if kind = .emoji then some 50 else positive? width
              height := if kind = .emoji then some 50 else positive? height
              size := positive? size })
        else pure none
  | _ => pure none

/-- `_normalize_stickers`: at most 512. -/
def normalizeStickers (uuid : ℕ → Uuid) (kind : PackKind) : Option Json → Except Error (List Sticker)
  | some (.arr raw) => do
      let normalized ← raw.zipIdx.mapM fun (item, i) => normalizeSticker (uuid i) kind item
      pure ((normalized.filterMap id).take 512)
  | _ => pure []

/-- One item of `_normalize_sticker_packs`, `none` where it is skipped. -/
def normalizeStickerPack (uni : PyStr.Unicode) (now : ℤ) (uuid : ℕ → Uuid) :
    Json → Except Error (Option StickerPack)
  | .obj item => do
      let get := Json.member? item
      match cleanStr 128 (get "id"), cleanStr 120 (get "name") with
      | some packId, some name => do
          let kind := (packKind? uni (get "kind")).getD .sticker
          let stickers ← normalizeStickers uuid kind (get "stickers")
          let createdAt ← cleanTimestampMs false (get "created_at")
          let updatedAt ← cleanTimestampMs false (get "updated_at")
          pure (some
            { id := packId, name, kind, stickers
              createdAt := createdAt.getD now
              updatedAt := updatedAt.getD now })
      | _, _ => pure none
  | _ => pure none

/-- The order of packs: by name, without regard to case. -/
def nameLe (uni : PyStr.Unicode) (a b : StickerPack) : Prop := uni.lower a.name ≤ uni.lower b.name

instance (uni : PyStr.Unicode) : DecidableRel (nameLe uni) :=
  fun a b => inferInstanceAs (Decidable (uni.lower a.name ≤ uni.lower b.name))

/-- `_normalize_sticker_packs`: at most 100, by name. -/
def normalizeStickerPacks (uni : PyStr.Unicode) (now : ℤ) (uuid : ℕ → ℕ → Uuid) :
    Option Json → Except Error (List StickerPack)
  | some (.arr raw) => do
      let normalized ← raw.zipIdx.mapM fun (item, i) => normalizeStickerPack uni now (uuid i) item
      pure (((normalized.filterMap id).insertionSort (nameLe uni)).take 100)
  | _ => pure []

/-! ## §3 Operations -/

/-- `get_sticker_packs`. -/
def getStickerPacks (uni : PyStr.Unicode) (now : ℤ) (uuid : ℕ → ℕ → Uuid) (s : State)
    (userId : String) : Except Error (List StickerPack) :=
  match s.accountData userId stickerPacksType with
  | some raw => normalizeStickerPacks uni now uuid (Json.member? raw "packs")
  | none => pure []

/-- The members of a sticker as a JSON object. -/
def Sticker.toMembers (s : Sticker) : List (String × Json) :=
  [("id", .str s.id), ("name", .str s.name), ("mxc_url", .str s.mxcUrl)] ++
  (s.mimeType.map fun v => ("mime_type", Json.str v)).toList ++
  (s.width.map fun v => ("width", Json.int v)).toList ++
  (s.height.map fun v => ("height", Json.int v)).toList ++
  (s.size.map fun v => ("size", Json.int v)).toList

def Sticker.toJson (s : Sticker) : Json := .obj s.toMembers

/-- A pack as a JSON object. -/
def StickerPack.toJson (p : StickerPack) : Json :=
  .obj [("id", .str p.id), ("name", .str p.name), ("kind", .str p.kind.toString),
    ("stickers", .arr (p.stickers.map Sticker.toJson)), ("created_at", .int p.createdAt),
    ("updated_at", .int p.updatedAt)]

/-- The stored value for a list of packs. -/
def packsContent (packs : List StickerPack) : List (String × Json) :=
  [("packs", .arr (packs.map StickerPack.toJson))]

/-- `remove_account_data_for_user`: what is stored becomes an empty object. -/
def State.removeAccountData (s : State) (userId type : String) : State :=
  match s.accountData userId type with
  | some _ => s.addAccountData userId type []
  | none => s

/-- `_assert_plus_active`. -/
def assertPlusActive (cfg : Config) (now : ℤ) (userId : String) : Action State Error Unit := do
  let subscription ← .reads fun s => getSubscription cfg now s userId
  if subscription.isActive then pure ()
  else .raise (.synapseError 403 "Setka Plus subscription is required." "M_FORBIDDEN")

/-- Who may manage emoji packs. -/
structure EmojiRights where
  allowEmojiImport : Bool
  adminOverride : Bool

/-- The check of `upsert_sticker_pack` for emoji packs. -/
def assertEmojiAllowed (cfg : Config) (now : ℤ) (userId : String) (rights : EmojiRights)
    (kind : PackKind) : Action State Error Unit :=
  if kind = .emoji ∧ rights.adminOverride = false then
    if rights.allowEmojiImport = false then
      .raise (.synapseError 403 "Emoji pack management is not available." "M_FORBIDDEN")
    else assertPlusActive cfg now userId
  else pure ()

/-- The stickers of the content, or those that the pack has. -/
def updatedStickers (uuid : ℕ → Uuid) (kind : PackKind) (existing : Option StickerPack) :
    Option Json → Except Error (List Sticker)
  | none => .ok ((existing.map StickerPack.stickers).getD [])
  | some .null => .ok ((existing.map StickerPack.stickers).getD [])
  | some stickers => normalizeStickers uuid kind (some stickers)

/-- The packs that `upsert_sticker_pack` writes. -/
def upsertedPacks (uni : PyStr.Unicode) (packs : List StickerPack) (pack : StickerPack) : List StickerPack :=
  (packs.filter (fun p => p.id ≠ pack.id) ++ [pack]).insertionSort (nameLe uni)

/-- The arguments of `upsert_sticker_pack` and the identifiers it makes up. -/
structure UpsertArgs where
  packId : String
  content : List (String × Json)
  rights : EmojiRights
  readIds : ℕ → ℕ → Uuid
  newIds : ℕ → Uuid

/-- `upsert_sticker_pack`. -/
def upsertStickerPack (cfg : Config) (uni : PyStr.Unicode) (now : ℤ) (userId : String)
    (a : UpsertArgs) : Action State Error StickerPack :=
  match cleanStr 128 (some (.str a.packId)) with
  | none => .raise (.synapseError 400 "pack_id is required" "M_INVALID_PARAM")
  | some packId => do
      let get := Json.member? a.content
      let packs ← .reads fun s => getStickerPacks uni now a.readIds s userId
      let existing := packs.find? fun pack => pack.id = packId
      match (cleanStr 120 (get "name")).or (existing.map StickerPack.name) with
      | none => .raise (.synapseError 400 "Sticker pack name is required" "M_MISSING_PARAM")
      | some name => do
          let kind := (packKind? uni (get "kind")).getD ((existing.map StickerPack.kind).getD .sticker)
          assertEmojiAllowed cfg now userId a.rights kind
          let stickers ← .lift (updatedStickers a.newIds kind existing (get "stickers"))
          let pack : StickerPack :=
            { id := packId, name, kind, stickers
              createdAt := (existing.map StickerPack.createdAt).getD now
              updatedAt := now }
          .modify fun s =>
            s.addAccountData userId stickerPacksType (packsContent (upsertedPacks uni packs pack))
          pure pack

/-- `delete_sticker_pack`. -/
def deleteStickerPack (uni : PyStr.Unicode) (now : ℤ) (readIds : ℕ → ℕ → Uuid)
    (userId packId : String) (adminOverride : Bool) : Action State Error Unit := do
  let packs ← .reads fun s => getStickerPacks uni now readIds s userId
  let existing := packs.find? fun pack => pack.id = packId
  if adminOverride = false ∧ (existing.map StickerPack.kind) = some .emoji then
    .raise (.synapseError 403 "Emoji pack management is not available." "M_FORBIDDEN")
  else
    let next := packs.filter fun pack => pack.id ≠ packId
    if next.length = packs.length then pure ()
    else if next = [] then .modify fun s => s.removeAccountData userId stickerPacksType
    else .modify fun s => s.addAccountData userId stickerPacksType (packsContent next)

/-! ## §4 Sharing -/

/-- The tokens of share links: the JSON object that a token signs, from and to its text, and how long a
link is good for. -/
structure ShareTokens where
  encode : List (String × Json) → String
  decode : String → Except Error (List (String × Json))
  ttlMs : ℤ

/-- `create_share_token`. -/
def createShareToken (uni : PyStr.Unicode) (now : ℤ) (readIds : ℕ → ℕ → Uuid) (tokens : ShareTokens)
    (userId packId : String) (adminOverride : Bool) (s : State) : Except Error String :=
  match cleanStr 128 (some (.str packId)) with
  | none => throw (.synapseError 400 "pack_id is required" "M_INVALID_PARAM")
  | some packId => do
      let packs ← getStickerPacks uni now readIds s userId
      match packs.find? fun pack => pack.id = packId with
      | none => throw (.synapseError 404 "Sticker pack not found" "M_NOT_FOUND")
      | some pack =>
        if adminOverride = false ∧ pack.kind = .emoji then
          throw (.synapseError 403 "Emoji pack sharing is not available." "M_FORBIDDEN")
        else do
          let text (v : Option String) : Json := (v.map Json.str).getD .null
          let previewUrl := pack.stickers.head?.bind fun first =>
            cleanStr 1024 (some (.str first.mxcUrl))
          pure (tokens.encode [("v", .int 1), ("u", .str userId), ("p", .str packId), ("iat", .int now),
              ("n", text (cleanStr 120 (some (.str pack.name)))),
              ("k", text (cleanStr 24 (some (.str pack.kind.toString)))),
              ("i", text previewUrl)])

/-- `resolve_shared_pack`. -/
def resolveSharedPack (uni : PyStr.Unicode) (now : ℤ) (readIds : ℕ → ℕ → Uuid)
    (tokens : ShareTokens) (token : String) (s : State) : Except Error StickerPack := do
  let payload ← tokens.decode token
  let get := Json.member? payload
  let iat := (← cleanTimestampMs false (get "iat")).getD 0
  if iat ≠ 0 ∧ 0 < tokens.ttlMs ∧ tokens.ttlMs < now - iat then
    throw (.synapseError 404 "Shared pack link has expired" "M_NOT_FOUND")
  else
    match cleanStr 255 (get "u"), cleanStr 128 (get "p") with
    | some ownerUserId, some packId => do
        let packs ← getStickerPacks uni now readIds s ownerUserId
        match packs.find? fun pack => pack.id = packId with
        | some pack => pure pack
        | none => throw (.synapseError 404 "Sticker pack not found" "M_NOT_FOUND")
    | _, _ => throw (.synapseError 400 "Invalid shared pack token" "M_INVALID_PARAM")

/-- `import_shared_pack`. `newPackId` is made up. -/
def importSharedPack (cfg : Config) (uni : PyStr.Unicode) (now : ℤ) (readIds : ℕ → ℕ → Uuid)
    (newIds : ℕ → Uuid) (newPackId : Uuid) (tokens : ShareTokens) (userId token : String) :
    Action State Error StickerPack := do
  let sharedPack ← .reads (resolveSharedPack uni now readIds tokens token)
  if sharedPack.kind = .emoji then assertPlusActive cfg now userId else pure ()
  upsertStickerPack cfg uni now userId
    { packId := newPackId.hex
      content :=
        [("name", .str sharedPack.name), ("kind", .str sharedPack.kind.toString),
          ("stickers", .arr (sharedPack.stickers.map Sticker.toJson))]
      rights := ⟨sharedPack.kind = .emoji, false⟩
      readIds
      newIds }

end Setka.Handlers.Plus
