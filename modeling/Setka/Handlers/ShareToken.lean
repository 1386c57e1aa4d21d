/-
# Setka.Handlers.ShareToken — the tokens of share links.

A token is a version, a JSON object and a signature of it, both in base64. Whoever opens a link sends a token, so
each step of its decoding may meet anything. Only the last of them is guarded: before it, characters that are not
ASCII and base64 that does not decode end the call with an exception that is not an answer.
-/
import Setka.Handlers.PlusClean
import Setka.Handlers.PlusCredit
import Setka.Handlers.StickerPacks
import Setka.Lib.JsonLoads

namespace Setka.Handlers.Plus

open Setka.Api Setka.Lib PyStr Base64 JsonText

/-! ## §1 Tokens -/

/-- `hmac.new(self._share_secret, text.encode("ascii"), hashlib.sha256).digest()`. -/
structure ShareSecret where
  digest : String → List ℕ
  digest_lt : ∀ text, ∀ b ∈ digest text, b < 256
  length_digest : ∀ text, (digest text).length = 32

/-- The error of a token that is refused. -/
def invalidToken : Error := .synapseError 400 "Invalid shared pack token" "M_INVALID_PARAM"

/-- What `_decode_share_token` makes of the two parts of a token. Text that is not ASCII and base64 that does not
decode raise `ValueError`s. -/
def openShareToken (ft : JsonText.FloatText) (secret : ShareSecret) (payloadB64 sigB64 : String) :
    Except Error (List (String × Json)) :=
  if (payloadB64.toList.all fun c => c.toNat < 128) = false then .error .valueError
  else
    match Base64.decodeBytes sigB64 with
    | none => .error .valueError
    | some suppliedSig =>
      if secret.digest payloadB64 ≠ suppliedSig then .error invalidToken
      else
        match Base64.decodeBytes payloadB64 with
        | none => .error .valueError
        | some payloadRaw =>
          match (Base64.ofUtf8? payloadRaw).bind (JsonText.loads ft) with
          | some (.obj payload) => .ok payload
          | _ => .error invalidToken

/-- `_decode_share_token`. -/
def decodeShareToken (ft : JsonText.FloatText) (secret : ShareSecret) (token : String) :
    Except Error (List (String × Json)) :=
  if PyStr.strip token = "" then .error (.synapseError 400 "token is required" "M_MISSING_PARAM")
  else
    match PyStr.split '.' (PyStr.strip token) with
    | ["v1", payloadB64, sigB64] =>
      if payloadB64 = "" ∨ sigB64 = "" then .error invalidToken
      else openShareToken ft secret payloadB64 sigB64
    | _ => .error invalidToken

/-- The text of a token, as `create_share_token` puts it together. A payload whose numbers are too long to be written
has none. -/
def encodeShareToken (ft : JsonText.FloatText) (secret : ShareSecret) (payload : List (String × Json)) : String :=
  match JsonText.dumpsSorted ft payload with
  | none => ""
  | some text =>
    let payloadB64 := Base64.encode text
    "v1." ++ payloadB64 ++ "." ++ Base64.encodeBytes (secret.digest payloadB64)

/-- The tokens that the handler makes and reads. -/
def shareTokens (ft : JsonText.FloatText) (secret : ShareSecret) (ttlMs : ℤ) : ShareTokens where
  encode := encodeShareToken ft secret
  decode := decodeShareToken ft secret
  ttlMs

/-! ## §2 Decoding anything -/

/-- The parts of a token, without dots in them. -/
structure Parts (token payloadB64 sigB64 : String) : Prop where
  text : PyStr.strip token = "v1." ++ payloadB64 ++ "." ++ sigB64
  payload : '.' ∉ payloadB64.toList
  sig : '.' ∉ sigB64.toList

/-- The token has the form `v1.P.S`, where `S` decodes to the digest of `P`. -/
def Signed (secret : ShareSecret) (token : String) : Prop :=
  ∃ payloadB64 sigB64, Parts token payloadB64 sigB64 ∧
    Base64.decodeBytes sigB64 = some (secret.digest payloadB64)

/-- **Safe decoding**: an object or an error with status 400, and an object only of a signed token. -/
def DecodedSafely (ft : JsonText.FloatText) (secret : ShareSecret) (token : String) : Prop :=
  ((∃ payload, decodeShareToken ft secret token = .ok payload) ∨
    ∃ msg errcode, decodeShareToken ft secret token = .error (.synapseError 400 msg errcode)) ∧
  ∀ payload, decodeShareToken ft secret token = .ok payload → Signed secret token

theorem toList_token (payloadB64 sigB64 : String) :
    "v1." ++ payloadB64 ++ "." ++ sigB64 = PyStr.join "." ["v1", payloadB64, sigB64] := by
  apply String.toList_inj.mp
  simp [PyStr.join, String.toList_append]

variable {token payloadB64 sigB64 : String}

theorem split_token_iff :
    PyStr.split '.' (PyStr.strip token) = ["v1", payloadB64, sigB64] ↔ Parts token payloadB64 sigB64 := by
  constructor
  · intro h
    have hpart : ∀ part ∈ PyStr.split '.' (PyStr.strip token), '.' ∉ part.toList :=
      fun part hpart => not_mem_of_mem_split hpart
    rw [h] at hpart
    have htext := join_split '.' (PyStr.strip token)
    rw [h, ← toList_token] at htext
    exact ⟨htext.symm, hpart _ (by simp), hpart _ (by simp)⟩
  · rintro ⟨htext, hpayload, hsig⟩
    rw [htext, toList_token]
    refine split_join (by simp) ?_
    rw [List.forall_mem_cons, List.forall_mem_cons, List.forall_mem_singleton]
    exact ⟨by decide, hpayload, hsig⟩

/-- A token that has not the form of one is refused. -/
theorem decodeShareToken_of_no_parts {ft : JsonText.FloatText} {secret : ShareSecret} {token : String}
    (h : ∀ payloadB64 sigB64, Parts token payloadB64 sigB64 → payloadB64 = "" ∨ sigB64 = "") :
    ∃ msg errcode, decodeShareToken ft secret token = .error (.synapseError 400 msg errcode) := by
  unfold decodeShareToken
  split
  · exact ⟨_, _, rfl⟩
  split
  · rename_i payloadB64 sigB64 hsplit
    rw [if_pos (h _ _ (split_token_iff.mp hsplit))]
    exact ⟨_, _, rfl⟩
  · exact ⟨_, _, rfl⟩

theorem decodeShareToken_of_parts {ft : JsonText.FloatText} {secret : ShareSecret}
    (h : Parts token payloadB64 sigB64) (hpayload : payloadB64 ≠ "") (hsig : sigB64 ≠ "") :
    decodeShareToken ft secret token = openShareToken ft secret payloadB64 sigB64 := by
  have hstrip : PyStr.strip token ≠ "" := by
    rw [h.text]
    intro hempty
    have hlength := congrArg (fun s => s.toList.length) hempty
    simp [String.toList_append] at hlength
  unfold decodeShareToken
  rw [if_neg hstrip, split_token_iff.mpr h]
  exact if_neg (not_or.mpr ⟨hpayload, hsig⟩)

/-- Both parts can be decoded as far as decoding gets: the payload only if the signature is its digest. -/
structure PartsDecode (secret : ShareSecret) (payloadB64 sigB64 : String) : Prop where
  ascii : (payloadB64.toList.all fun c => c.toNat < 128) = true
  sig : (Base64.decodeBytes sigB64).isSome = true
  payload : Base64.decodeBytes sigB64 = some (secret.digest payloadB64) →
    (Base64.decodeBytes payloadB64).isSome = true

/-- An object is only made of a payload with its digest. -/
theorem openShareToken_ok {ft : JsonText.FloatText} {secret : ShareSecret} {payload : List (String × Json)}
    (h : openShareToken ft secret payloadB64 sigB64 = .ok payload) :
    Base64.decodeBytes sigB64 = some (secret.digest payloadB64) := by
  unfold openShareToken at h
  split at h
  · cases h
  split at h
  · cases h
  rename_i suppliedSig hsig
  split at h
  · cases h
  · rename_i hsame
    rw [hsig, not_not.mp hsame]

theorem openShareToken_answers_iff (ft : JsonText.FloatText) (secret : ShareSecret) (payloadB64 sigB64 : String) :
    ((∃ payload, openShareToken ft secret payloadB64 sigB64 = .ok payload) ∨
      ∃ msg errcode, openShareToken ft secret payloadB64 sigB64 = .error (.synapseError 400 msg errcode)) ↔
    PartsDecode secret payloadB64 sigB64 := by
  have hvalue : ¬((∃ payload, (Except.error Error.valueError : Except Error (List (String × Json))) = .ok payload) ∨
      ∃ msg errcode, (Except.error Error.valueError : Except Error (List (String × Json))) =
        .error (.synapseError 400 msg errcode)) := by simp
  have hinvalid : (∃ payload, (Except.error invalidToken : Except Error (List (String × Json))) = .ok payload) ∨
      ∃ msg errcode, (Except.error invalidToken : Except Error (List (String × Json))) =
        .error (.synapseError 400 msg errcode) := .inr ⟨_, _, rfl⟩
  unfold openShareToken
  split
  · rename_i hascii
    exact iff_of_false hvalue fun h => absurd (hascii.symm.trans h.ascii) (by simp)
  rename_i hascii
  have hascii := Bool.eq_true_of_not_eq_false hascii
  split
  · rename_i hsig
    exact iff_of_false hvalue fun h => absurd h.sig (by rw [hsig]; simp)
  rename_i suppliedSig hsig
  split
  · -- the signature is another one, and the payload is not looked at
    rename_i hother
    refine iff_of_true hinvalid ⟨hascii, by rw [hsig]; rfl, fun hdigest => ?_⟩
    exact absurd (Option.some.inj (hdigest.symm.trans hsig)) hother
  rename_i hsame
  have hdigest : Base64.decodeBytes sigB64 = some (secret.digest payloadB64) := by
    rw [hsig, not_not.mp hsame]
  split
  · rename_i hpayload
    exact iff_of_false hvalue fun h => absurd (h.payload hdigest) (by rw [hpayload]; simp)
  rename_i payloadRaw hpayload
  refine iff_of_true ?_ ⟨hascii, by rw [hsig]; rfl, fun _ => by rw [hpayload]; rfl⟩
  split
  · exact .inl ⟨_, rfl⟩
  · exact hinvalid

/-- The parts of the token, if it is one, can be decoded. -/
def Decodable (secret : ShareSecret) (token : String) : Prop :=
  ∀ payloadB64 sigB64, Parts token payloadB64 sigB64 → payloadB64 ≠ "" → sigB64 ≠ "" →
    PartsDecode secret payloadB64 sigB64

/-- **When decoding is safe**: whenever the token is none, or its parts can be decoded. -/
theorem decodedSafely_iff (ft : JsonText.FloatText) (secret : ShareSecret) (token : String) :
    DecodedSafely ft secret token ↔ Decodable secret token := by
  by_cases hform : ∃ payloadB64 sigB64, Parts token payloadB64 sigB64 ∧ payloadB64 ≠ "" ∧ sigB64 ≠ ""
  · obtain ⟨payloadB64, sigB64, hparts, hpayload, hsig⟩ := hform
    have hone : ∀ p q, Parts token p q → p = payloadB64 ∧ q = sigB64 := by
      intro p q hpq
      have hsame := (split_token_iff.mpr hpq).symm.trans (split_token_iff.mpr hparts)
      simpa using hsame
    have hiff : Decodable secret token ↔ PartsDecode secret payloadB64 sigB64 := by
      constructor
      · exact fun h => h _ _ hparts hpayload hsig
      intro h p q hpq _ _
      obtain ⟨rfl, rfl⟩ := hone p q hpq
      exact h
    rw [hiff, ← openShareToken_answers_iff ft]
    unfold DecodedSafely
    rw [decodeShareToken_of_parts hparts hpayload hsig, and_iff_left_iff_imp]
    exact fun _ payload hok => ⟨payloadB64, sigB64, hparts, openShareToken_ok hok⟩
  · -- nothing to decode
    have hnone : ∀ payloadB64 sigB64, Parts token payloadB64 sigB64 → payloadB64 = "" ∨ sigB64 = "" := by
      intro payloadB64 sigB64 hparts
      by_contra hboth
      rw [not_or] at hboth
      exact hform ⟨_, _, hparts, hboth.1, hboth.2⟩
    obtain ⟨msg, errcode, herror⟩ := @decodeShareToken_of_no_parts ft secret token hnone
    refine iff_of_true ⟨.inr ⟨msg, errcode, herror⟩, fun payload hok => ?_⟩ fun p q hparts hp hq => ?_
    · exact absurd (hok.symm.trans herror) (by simp)
    · exact absurd (hnone p q hparts) (not_or.mpr ⟨hp, hq⟩)

/-! ## §3 The round trip -/

/-- The payload of a token for the pack that `create_share_token` finds. -/
def sharePayload (now : ℤ) (userId packId : String) (pack : StickerPack) : List (String × Json) :=
  let text (v : Option String) : Json := (v.map Json.str).getD .null
  let previewUrl := pack.stickers.head?.bind fun first => cleanStr 1024 (some (.str first.mxcUrl))
  [("v", .int 1), ("u", .str userId), ("p", .str packId), ("iat", .int now),
    ("n", text (cleanStr 120 (some (.str pack.name)))),
    ("k", text (cleanStr 24 (some (.str pack.kind.toString)))),
    ("i", text previewUrl)]

/-- A token is made of the payload of the pack with the id. -/
theorem createShareToken_ok {uni : PyStr.Unicode} {now : ℤ} {readIds : ℕ → ℕ → Uuid} {tokens : ShareTokens}
    {userId packId : String} {adminOverride : Bool} {s : State}
    (h : createShareToken uni now readIds tokens userId packId adminOverride s = .ok token) :
    ∃ packId' packs pack, cleanStr 128 (some (.str packId)) = some packId' ∧
      getStickerPacks uni now readIds s userId = .ok packs ∧ pack ∈ packs ∧ pack.id = packId' ∧
      token = tokens.encode (sharePayload now userId packId' pack) := by
  unfold createShareToken at h
  split at h
  · cases h
  rename_i packId' hclean
  cases hpacks : getStickerPacks uni now readIds s userId with
  | error e =>
    rw [hpacks] at h
    cases h
  | ok packs =>
    rw [hpacks] at h
    dsimp only [bind, Except.bind] at h
    split at h
    · cases h
    rename_i pack hfind
    split at h
    · cases h
    have hid := List.find?_some hfind
    refine ⟨packId', packs, pack, hclean, rfl, List.mem_of_find?_eq_some hfind, ?_, ?_⟩
    · simpa using hid
    · exact (Except.ok.inj h).symm

/-- Text or `null` at a leaf. -/
theorem leaves_text (v : Option String) :
    JsonText.leaves ((v.map Json.str).getD .null) = [(v.map Json.str).getD .null] := by
  match v with
  | none => rfl
  | some _ => rfl

theorem leaves_sharePayload (now : ℤ) (userId packId : String) (pack : StickerPack) :
    JsonText.leavesMembers (sharePayload now userId packId pack) =
      (sharePayload now userId packId pack).map Prod.snd := by
  unfold sharePayload
  simp only [JsonText.leavesMembers, leaves_text, JsonText.leaves, List.map_cons, List.map_nil, List.cons_append,
    List.nil_append, List.append_nil]

theorem text_ne {v : Option String} {x : Json} (hnull : x ≠ .null) (hstr : ∀ s, x ≠ .str s) :
    x ≠ (v.map Json.str).getD .null := by
  match v with
  | none => exact hnull
  | some s => exact hstr s

theorem noFloats_sharePayload (now : ℤ) (userId packId : String) (pack : StickerPack) :
    JsonText.NoFloats (JsonText.leavesMembers (sharePayload now userId packId pack)) := by
  intro x hx
  rw [leaves_sharePayload] at hx
  simp only [sharePayload, List.map_cons, List.map_nil, List.mem_cons, reduceCtorEq, List.not_mem_nil, or_false,
    false_or] at hx
  obtain hx | hx | hx := hx
  all_goals exact absurd hx (text_ne nofun nofun)

theorem printable_sharePayload {now : ℤ} (h : PyInt.Printable now) (userId packId : String) (pack : StickerPack) :
    JsonText.Printable (JsonText.leavesMembers (sharePayload now userId packId pack)) := by
  intro n hn
  rw [leaves_sharePayload] at hn
  simp only [sharePayload, List.map_cons, List.map_nil, List.mem_cons, Json.int.injEq, reduceCtorEq,
    List.not_mem_nil, or_false, false_or] at hn
  obtain rfl | rfl | hn | hn | hn := hn
  · decide
  · exact h
  all_goals exact absurd hn (text_ne nofun nofun)

/-- The members of a payload have distinct names. -/
theorem nodup_sharePayload (now : ℤ) (userId packId : String) (pack : StickerPack) :
    ((sharePayload now userId packId pack).map Prod.fst).Nodup := by
  show ["v", "u", "p", "iat", "n", "k", "i"].Nodup
  decide

/-- An encoding has neither white space nor a dot in it. -/
theorem clear_encodeBytes {bytes : List ℕ} (h : ∀ b ∈ bytes, b < 256) :
    ∀ c ∈ (Base64.encodeBytes bytes).toList, PyStr.isSpace c = false ∧ c ≠ '.' := by
  intro c hc
  obtain ⟨d, hd, rfl⟩ := mem_encodeBytes h hc
  exact clear_toChar hd

/-- The parts of a token that was put together of encodings. -/
theorem parts_encodeBytes {payload sig : List ℕ} (hpayload : ∀ b ∈ payload, b < 256) (hsig : ∀ b ∈ sig, b < 256) :
    Parts ("v1." ++ Base64.encodeBytes payload ++ "." ++ Base64.encodeBytes sig) (Base64.encodeBytes payload)
      (Base64.encodeBytes sig) where
  text := by
    refine strip_of_not_space fun c hc => ?_
    rw [String.toList_append, String.toList_append, String.toList_append, List.mem_append, List.mem_append,
      List.mem_append] at hc
    obtain ((hc | hc) | hc) | hc := hc
    · exact not_isSpace_of_all (by decide) c hc
    · exact (clear_encodeBytes hpayload c hc).1
    · exact not_isSpace_of_all (by decide) c hc
    · exact (clear_encodeBytes hsig c hc).1
  payload := fun hdot => (clear_encodeBytes hpayload _ hdot).2 rfl
  sig := fun hdot => (clear_encodeBytes hsig _ hdot).2 rfl

theorem encodeBytes_ne_empty {bytes : List ℕ} (h : ∀ b ∈ bytes, b < 256) (hne : bytes ≠ []) :
    Base64.encodeBytes bytes ≠ "" := by
  intro hempty
  have hround := decodeBytes_encodeBytes h
  rw [hempty] at hround
  exact hne (Option.some.inj hround).symm

/-- **What `create_share_token` encodes is decoded** to the same members. -/
theorem decodeShareToken_encodeShareToken (ft : JsonText.FloatText) (secret : ShareSecret)
    {payload : List (String × Json)} (hfloats : JsonText.NoFloats (JsonText.leavesMembers payload))
    (hprintable : JsonText.Printable (JsonText.leavesMembers payload)) :
    ∃ decoded, decodeShareToken ft secret (encodeShareToken ft secret payload) = .ok decoded ∧
      decoded.Perm payload := by
  obtain ⟨text, htext⟩ := Option.isSome_iff_exists.mp (isSome_dumpsSorted ft hfloats hprintable)
  have hloads := loads_dumpsSorted htext hfloats
  have htext_ne : Base64.utf8 text ≠ [] := by
    intro hempty
    have hround := ofUtf8?_utf8 text
    rw [hempty] at hround
    obtain rfl : "" = text := Option.some.inj hround
    exact absurd hloads nofun
  have hdigest_ne : secret.digest (Base64.encode text) ≠ [] := by
    intro hempty
    have hlength := secret.length_digest (Base64.encode text)
    rw [hempty] at hlength
    exact absurd hlength (by decide)
  have hdigest_lt := secret.digest_lt (Base64.encode text)
  refine ⟨_, ?_, (perm_sorted payload).symm⟩
  rw [encodeShareToken, htext]
  dsimp only
  rw [encode_eq] at hdigest_ne hdigest_lt ⊢
  rw [decodeShareToken_of_parts (parts_encodeBytes utf8_lt hdigest_lt)
    (encodeBytes_ne_empty utf8_lt htext_ne) (encodeBytes_ne_empty hdigest_lt hdigest_ne)]
  unfold openShareToken
  -- each step of the decoding gives back what was encoded
  rw [if_neg (by rw [ascii_encodeBytes utf8_lt]; simp), decodeBytes_encodeBytes hdigest_lt]
  dsimp only
  rw [if_neg (not_not.mpr rfl), decodeBytes_encodeBytes utf8_lt]
  dsimp only
  rw [ofUtf8?_utf8, Option.bind_some, hloads]

/-- **A token gives back the payload that it was made of**, for each user and pack. -/
def GivesBack (ft : JsonText.FloatText) (secret : ShareSecret) : Prop :=
  ∀ uni now readIds ttlMs userId packId adminOverride s token, PyInt.Printable now →
    createShareToken uni now readIds (shareTokens ft secret ttlMs) userId packId adminOverride s = .ok token →
    ∃ packId' packs pack, cleanStr 128 (some (.str packId)) = some packId' ∧
      getStickerPacks uni now readIds s userId = .ok packs ∧ pack ∈ packs ∧ pack.id = packId' ∧
      token = encodeShareToken ft secret (sharePayload now userId packId' pack) ∧
      ∃ payload, decodeShareToken ft secret token = .ok payload ∧
        payload.Perm (sharePayload now userId packId' pack) ∧ (payload.map Prod.fst).Nodup

theorem givesBack (ft : JsonText.FloatText) (secret : ShareSecret) : GivesBack ft secret := by
  intro uni now readIds ttlMs userId packId adminOverride s token hnow h
  obtain ⟨packId', packs, pack, hclean, hpacks, hmem, hid, rfl⟩ := createShareToken_ok h
  obtain ⟨payload, hdecode, hperm⟩ := decodeShareToken_encodeShareToken ft secret
    (noFloats_sharePayload now userId packId' pack) (printable_sharePayload hnow userId packId' pack)
  refine ⟨packId', packs, pack, hclean, hpacks, hmem, hid, rfl, payload, hdecode, hperm, ?_⟩
  exact (hperm.map Prod.fst).nodup_iff.mpr (nodup_sharePayload now userId packId' pack)

/-! ## §4 Safe decoding -/

/-- **Decoding is safe but for the steps that are not guarded**: every token that can be decoded ends in an object
or in an error with status 400, no other does, and the tokens of `create_share_token` give their payload back. -/
theorem shareTokens_safe_iff (ft : JsonText.FloatText) (secret : ShareSecret) :
    (∀ token, DecodedSafely ft secret token ↔ Decodable secret token) ∧ GivesBack ft secret :=
  ⟨decodedSafely_iff ft secret, givesBack ft secret⟩

/-- A secret with the same digest for every text. -/
def exampleSecret : ShareSecret where
  digest := fun _ => List.replicate 32 7
  digest_lt := fun _ b hb => by
    rw [List.eq_of_mem_replicate hb]
    decide
  length_digest := fun _ => List.length_replicate

def exampleFloats : JsonText.FloatText := ⟨fun _ => "0.0", fun _ => .finite 0⟩

/-- The token that the sticker pack `cats` is shared with. -/
def exampleToken : Except Error String :=
  createShareToken asciiTables 1700000000000 (fun _ _ => exampleUuid) (shareTokens exampleFloats exampleSecret 0)
    "@user:server" "cats" false
    (exampleState.addAccountData "@user:server" stickerPacksType
      [("packs", .arr [.obj [("id", .str "cats"), ("name", .str "Cats")]])])

theorem shareTokens_safe_iff_example :
    ∃ token payload, exampleToken = .ok token ∧ decodeShareToken exampleFloats exampleSecret token = .ok payload := by
  have hmade : exampleToken.toOption.isSome = true := by decide +kernel
  cases htoken : exampleToken with
  | error e =>
    rw [htoken] at hmade
    cases hmade
  | ok token =>
    obtain ⟨_, _, _, -, -, -, -, -, payload, hdecode, -⟩ :=
      (shareTokens_safe_iff exampleFloats exampleSecret).2 asciiTables 1700000000000 _ 0 "@user:server" "cats" false
        _ token (by decide) htoken
    exact ⟨token, payload, rfl, hdecode⟩

/-- **Tokens that are answered with an internal error**: a character that is not ASCII, and a signature that is not
base64. -/
theorem unguarded_tokens :
    ¬DecodedSafely exampleFloats exampleSecret "v1.é.x" ∧ ¬DecodedSafely exampleFloats exampleSecret "v1.abc.a" := by
  constructor
  · intro h
    have hparts : Parts "v1.é.x" "é" "x" := split_token_iff.mp (by decide +kernel)
    have hascii := ((decodedSafely_iff exampleFloats exampleSecret _).mp h _ _ hparts (by decide) (by decide)).ascii
    exact absurd hascii (by decide)
  · intro h
    have hparts : Parts "v1.abc.a" "abc" "a" := split_token_iff.mp (by decide +kernel)
    have hsig := ((decodedSafely_iff exampleFloats exampleSecret _).mp h _ _ hparts (by decide) (by decide)).sig
    exact absurd hsig (by decide)

end Setka.Handlers.Plus
