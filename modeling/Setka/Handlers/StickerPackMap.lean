/-
# Setka.Handlers.StickerPackMap — the sticker packs as a finite map.

What is stored was normalised when it was written and is normalised again when it is read. The second
time strips what the first one cut, makes every sticker of an emoji pack 50 by 50, and leaves out all
but the first 100 packs. A pack that this does not touch is found again under its id.
-/
import Setka.Handlers.PlusClean
import Setka.Handlers.PlusCredit
import Setka.Handlers.StickerPacks

namespace Setka.Handlers.Plus

open Setka.Api Setka.Lib PyStr Json Setka.Lib.Action StickerPack
open Option (map_some none_or some_or getD_none any_some)

/-! ## §1 Reading a sticker back -/

/-- A sticker as the normalising functions leave it. -/
structure Sticker.Fits (s : Sticker) : Prop where
  id : Plus.Fits 128 s.id
  name : Plus.Fits 120 s.name
  mxcUrl : Plus.Fits 2048 s.mxcUrl
  mxc : PyStr.startsWith "mxc://" s.mxcUrl
  mimeType : ∀ m, s.mimeType = some m → Plus.Fits 128 m
  width : positive? s.width = s.width
  height : positive? s.height = s.height
  size : positive? s.size = s.size

/-- The sticker after another round of normalising. -/
def Sticker.cleaned (kind : PackKind) (s : Sticker) : Sticker where
  id := PyStr.strip s.id
  name := PyStr.strip s.name
  mxcUrl := PyStr.strip s.mxcUrl
  mimeType := s.mimeType.map PyStr.strip
  width := if kind = .emoji then some 50 else s.width
  height := if kind = .emoji then some 50 else s.height
  size := s.size

theorem positive?_idem (n : Option ℤ) : positive? (positive? n) = positive? n := by
  unfold positive?
  simp

theorem cleanInt_optional (n : Option ℤ) : cleanInt (n.map Json.int) = .ok n := by
  cases n with
  | none => rfl
  | some n => rfl

variable {maxLen : ℕ}

theorem cleanStr_optional {o : Option String} (h : ∀ x, o = some x → Fits maxLen x) :
    cleanStr maxLen (o.map Json.str) = o.map PyStr.strip := by
  cases o with
  | none => rfl
  | some x => exact cleanStr_of_fits (h x rfl)

theorem startsWith_mxc_strip {url : String} (h : PyStr.startsWith "mxc://" url) :
    PyStr.startsWith "mxc://" (PyStr.strip url) :=
  startsWith_strip (by decide) (not_isSpace_of_all (by decide)) h

/-- **A stored sticker is read back cleaned.** -/
theorem normalizeSticker_toJson {s : Sticker} (h : s.Fits) (uuid : Uuid) (kind : PackKind) :
    normalizeSticker uuid kind s.toJson = .ok (some (s.cleaned kind)) := by
  simp only [normalizeSticker, Sticker.toJson, Sticker.toMembers, member?_append,
    member?_optional, member?_cons, member?_nil, String.reduceEq, if_true, if_false,
    none_or, Option.or_none]
  rw [cleanStr_of_fits h.mxcUrl, some_or]
  dsimp only
  rw [if_pos (startsWith_mxc_strip h.mxc), cleanInt_optional, cleanInt_optional, cleanInt_optional,
    cleanStr_of_fits h.id, cleanStr_of_fits h.name, cleanStr_optional h.mimeType]
  simp only [bind, Except.bind, pure, Except.pure, Option.getD_some, h.width, h.height, h.size]
  rfl

/-! ## §2 Reading packs back -/

/-- A time in milliseconds: later than April 1970, so that no cleaning takes it for seconds. -/
def Milliseconds (t : ℤ) : Prop := 10000000000 ≤ t

/-- A pack as the operations write it. -/
structure StickerPack.Fits (p : StickerPack) : Prop where
  id : Plus.Fits 128 p.id
  name : Plus.Fits 120 p.name
  stickers : ∀ s ∈ p.stickers, s.Fits
  count : p.stickers.length ≤ 512
  createdAt : Milliseconds p.createdAt
  updatedAt : Milliseconds p.updatedAt

/-- The pack after another round of normalising. -/
def StickerPack.cleaned (p : StickerPack) : StickerPack where
  id := PyStr.strip p.id
  name := PyStr.strip p.name
  kind := p.kind
  stickers := p.stickers.map (Sticker.cleaned p.kind)
  createdAt := p.createdAt
  updatedAt := p.updatedAt

theorem cleanTimestampMs_of_milliseconds {t : ℤ} (h : Milliseconds t) :
    cleanTimestampMs false (some (.int t)) = .ok (some t) := by
  have hms : timestampMs false t = some t := by
    unfold timestampMs
    unfold Milliseconds at h
    rw [if_neg (by omega), if_neg (by omega), if_neg (by omega)]
  show Except.ok ((some t).bind (timestampMs false)) = _
  rw [Option.bind_some, hms]

theorem packKind?_toString (uni : PyStr.Unicode) (kind : PackKind) :
    packKind? uni (some (.str kind.toString)) = some kind := by
  have hlower : ∀ kind : PackKind, uni.lower kind.toString = kind.toString := by
    intro kind
    rw [uni.lower_ascii]
    · cases kind <;> decide
    · apply ascii_of_all
      cases kind <;> decide
  have hclean : cleanStr 24 (some (.str kind.toString)) = some kind.toString := by
    cases kind <;> decide
  unfold packKind?
  rw [hclean, map_some, hlower]
  cases kind <;> rfl

theorem filterMap_id_map_some {α β : Type} (f : α → β) (l : List α) :
    (l.map fun x => some (f x)).filterMap id = l.map f := by
  rw [List.filterMap_map]
  show l.filterMap (fun x => some (f x)) = _
  rw [List.filterMap_eq_map']

variable {stickers : List Sticker}

theorem normalizeStickers_toJson (h : ∀ s ∈ stickers, s.Fits) (hcount : stickers.length ≤ 512) (uuid : ℕ → Uuid)
    (kind : PackKind) : normalizeStickers uuid kind (some (.arr (stickers.map Sticker.toJson))) =
      .ok (stickers.map (Sticker.cleaned kind)) := by
  unfold normalizeStickers
  dsimp only
  rw [mapM_zipIdx_map fun s hs i => normalizeSticker_toJson (h s hs) (uuid i) kind]
  show Except.ok _ = _
  rw [filterMap_id_map_some, List.take_of_length_le (by rwa [List.length_map])]

variable {p : StickerPack}

/-- **A stored pack is read back cleaned.** -/
theorem normalizeStickerPack_toJson (h : p.Fits) (uni : PyStr.Unicode) (now : ℤ)
    (uuid : ℕ → Uuid) : normalizeStickerPack uni now uuid p.toJson = .ok (some p.cleaned) := by
  simp only [normalizeStickerPack, StickerPack.toJson, member?_cons, member?_nil,
    String.reduceEq, if_true, if_false, none_or, some_or]
  rw [cleanStr_of_fits h.id, cleanStr_of_fits h.name, packKind?_toString,
    cleanTimestampMs_of_milliseconds h.createdAt, cleanTimestampMs_of_milliseconds h.updatedAt]
  show (normalizeStickers uuid p.kind _ >>= _) = _
  rw [normalizeStickers_toJson h.stickers h.count]
  rfl

/-- What is stored for a user is a list of packs, none for a missing or an emptied value. -/
def StoredPacks (s : State) (userId : String) (packs : List StickerPack) : Prop :=
  s.accountData userId stickerPacksType = some (packsContent packs) ∨
    packs = [] ∧ (s.accountData userId stickerPacksType = none ∨
      s.accountData userId stickerPacksType = some [])

variable {s : State} {userId : String} {packs : List StickerPack}

/-- **What is read back**, at any time. -/
theorem getStickerPacks_of_stored (hstored : StoredPacks s userId packs) (h : ∀ p ∈ packs, p.Fits)
    (uni : PyStr.Unicode) (now : ℤ) (uuid : ℕ → ℕ → Uuid) : getStickerPacks uni now uuid s userId =
      .ok (((packs.map StickerPack.cleaned).insertionSort (nameLe uni)).take 100) := by
  unfold getStickerPacks
  rcases hstored with hstored | ⟨rfl, hstored | hstored⟩
  · have hpacks : Json.member? (packsContent packs) "packs" = some (.arr (packs.map StickerPack.toJson)) := rfl
    rw [hstored]
    dsimp only
    rw [hpacks, normalizeStickerPacks]
    rw [mapM_zipIdx_map fun p hp i => normalizeStickerPack_toJson (h p hp) uni now (uuid i)]
    show Except.ok _ = _
    rw [filterMap_id_map_some]
  · rw [hstored]
    rfl
  · rw [hstored]
    rfl

/-! ## §3 Cleaned packs stay as they are -/

/-! ## §4 What an operation writes -/

variable {kind : PackKind}

theorem normalizeSticker_fits {uuid : Uuid} {raw : Json} {s : Sticker}
    (h : normalizeSticker uuid kind raw = .ok (some s)) : s.Fits := by
  unfold normalizeSticker at h
  split at h
  · rename_i item
    dsimp only at h
    split at h
    · cases h
    rename_i mxcUrl hurl
    split at h
    · rename_i hmxc
      obtain ⟨width, -, h⟩ := except_bind_eq_ok.mp h
      obtain ⟨height, -, h⟩ := except_bind_eq_ok.mp h
      obtain ⟨size, -, h⟩ := except_bind_eq_ok.mp h
      obtain rfl := Option.some.inj (Except.ok.inj h)
      constructor
      · dsimp only
        cases hid : cleanStr 128 (Json.member? item "id") with
        | none =>
          refine ⟨by rw [getD_none, uuid.length_hex]; decide, fun hblank => ?_⟩
          rw [getD_none, strip_eq_empty_iff] at hblank
          obtain ⟨c, hc⟩ := List.exists_mem_of_length_pos
            (by rw [uuid.length_hex]; decide : 0 < uuid.hex.toList.length)
          exact absurd (hblank c hc) (by rw [uuid.not_space c hc]; decide)
        | some id => exact fits_of_cleanStr (by decide) hid
      · dsimp only
        cases hname : cleanStr 120 (Json.member? item "name") with
        | none => exact ⟨by decide, by decide⟩
        | some name => exact fits_of_cleanStr (by decide) hname
      · rcases Option.or_eq_some_iff.mp hurl with hurl | ⟨-, hurl⟩
        · exact fits_of_cleanStr (by decide) hurl
        · exact fits_of_cleanStr (by decide) hurl
      · exact hmxc
      · intro m hm
        exact fits_of_cleanStr (by decide) hm
      · dsimp only
        split
        · rfl
        · exact positive?_idem width
      · dsimp only
        split
        · rfl
        · exact positive?_idem height
      · exact positive?_idem size
    · cases h
  · cases h

variable {uuid : ℕ → Uuid} {raw : Option Json}

theorem normalizeStickers_fits (h : normalizeStickers uuid kind raw = .ok stickers) :
    (∀ s ∈ stickers, s.Fits) ∧ stickers.length ≤ 512 := by
  unfold normalizeStickers at h
  split at h
  · obtain ⟨normalized, hnormalized, h⟩ := except_bind_eq_ok.mp h
    obtain rfl := Except.ok.inj h
    refine ⟨fun s hs => ?_, List.length_take_le _ _⟩
    obtain ⟨o, ho, hsome⟩ := List.mem_filterMap.mp (List.mem_of_mem_take hs)
    obtain rfl : o = some s := hsome
    obtain ⟨x, -, hx⟩ := exists_of_mapM_eq_ok hnormalized ho
    exact normalizeSticker_fits hx
  · obtain rfl := Except.ok.inj h
    exact ⟨fun s hs => absurd hs List.not_mem_nil, by decide⟩

/-- What is read from a store, at any time: cleaned packs, by name, of distinct ids, at most 100. -/
structure ReadPacks (uni : PyStr.Unicode) (s : State) (userId : String) (packs : List StickerPack) : Prop where
  read : ∀ now uuid, getStickerPacks uni now uuid s userId = .ok packs
  fits : ∀ p ∈ packs, p.Fits
  cleaned : ∀ p ∈ packs, p.cleaned = p
  distinct : (packs.map StickerPack.id).Nodup
  sorted : packs.Pairwise (nameLe uni)
  count : packs.length ≤ 100

/-- Packs that a read returns as they are, up to their order. -/
structure CleanPacks (packs : List StickerPack) : Prop where
  fits : ∀ p ∈ packs, p.Fits
  cleaned : ∀ p ∈ packs, p.cleaned = p
  distinct : (packs.map StickerPack.id).Nodup
  count : packs.length ≤ 100

/-- Nothing but clean packs is stored for the user. -/
def StoredClean (s : State) (userId : String) : Prop :=
  ∃ packs, StoredPacks s userId packs ∧ CleanPacks packs

instance (uni : PyStr.Unicode) : Std.Total (nameLe uni) :=
  ⟨fun a b => le_total (uni.lower a.name) (uni.lower b.name)⟩

instance (uni : PyStr.Unicode) : IsTrans StickerPack (nameLe uni) :=
  ⟨fun _ _ _ hab hbc => le_trans hab hbc⟩

theorem CleanPacks.perm {packs' : List StickerPack} (h : CleanPacks packs)
    (hperm : packs'.Perm packs) : CleanPacks packs' where
  fits p hp := h.fits p (hperm.mem_iff.mp hp)
  cleaned p hp := h.cleaned p (hperm.mem_iff.mp hp)
  distinct := (hperm.map StickerPack.id).nodup_iff.mpr h.distinct
  count := hperm.length_eq.trans_le h.count

theorem CleanPacks.filter (h : CleanPacks packs) (q : StickerPack → Bool) : CleanPacks (packs.filter q) where
  fits p hp := h.fits p (List.mem_of_mem_filter hp)
  cleaned p hp := h.cleaned p (List.mem_of_mem_filter hp)
  distinct := h.distinct.sublist (List.filter_sublist.map StickerPack.id)
  count := (List.length_filter_le q packs).trans h.count

variable {uni : PyStr.Unicode}

theorem ReadPacks.clean (h : ReadPacks uni s userId packs) : CleanPacks packs :=
  ⟨h.fits, h.cleaned, h.distinct, h.count⟩

/-- **Clean packs are read as they are stored**, in their order. -/
theorem StoredClean.read (h : StoredClean s userId)
    (uni : PyStr.Unicode) : ∃ packs, ReadPacks uni s userId packs := by
  obtain ⟨stored, hstored, hclean⟩ := h
  have hperm := List.perm_insertionSort (nameLe uni) stored
  have hsorted := hclean.perm hperm
  refine ⟨stored.insertionSort (nameLe uni), fun now uuid => ?_, hsorted.fits, hsorted.cleaned,
    hsorted.distinct, List.pairwise_insertionSort _ _, hsorted.count⟩
  rw [getStickerPacks_of_stored hstored hclean.fits, List.map_congr_left hclean.cleaned,
    List.map_id', List.take_of_length_le hsorted.count]

/-- The emoji check writes nothing. -/
theorem assertEmojiAllowed_state (cfg : Config) (now : ℤ) (userId : String) (rights : EmojiRights)
    (kind : PackKind) (s : State) :
    ((assertEmojiAllowed cfg now userId rights kind).run s).2 = s := by
  unfold assertEmojiAllowed
  split
  · split
    · rfl
    · refine Action.Keeps.after (R := fun s t => t = s) (fun _ => rfl) (fun sub => ?_)
        (Action.reads fun s => getSubscription cfg now s userId) s
      split
      · exact fun _ => rfl
      · exact fun _ => rfl
  · rfl

/-- The pack that the user has under the id of the request. -/
def existingPack (packs : List StickerPack) (a : UpsertArgs) : Option StickerPack :=
  packs.find? fun pack => some pack.id = cleanStr 128 (some (.str a.packId))

/-- The kind that a request gives its pack. -/
def upsertKind (uni : PyStr.Unicode) (packs : List StickerPack) (a : UpsertArgs) : PackKind :=
  (packKind? uni (Json.member? a.content "kind")).getD (((existingPack packs a).map StickerPack.kind).getD .sticker)

/-- The pack that a request makes of its arguments and of the packs there are. -/
structure Upserted (uni : PyStr.Unicode) (now : ℤ) (packs : List StickerPack) (a : UpsertArgs)
    (p : StickerPack) : Prop where
  id : cleanStr 128 (some (.str a.packId)) = some p.id
  name : (cleanStr 120 (Json.member? a.content "name")).or
    ((existingPack packs a).map StickerPack.name) = some p.name
  kind : p.kind = upsertKind uni packs a
  stickers : updatedStickers a.newIds p.kind (existingPack packs a)
    (Json.member? a.content "stickers") = .ok p.stickers
  createdAt : p.createdAt = ((existingPack packs a).map StickerPack.createdAt).getD now
  updatedAt : p.updatedAt = now

variable {a : UpsertArgs}

theorem existingPack_eq {packId : String} (h : cleanStr 128 (some (.str a.packId)) = some packId) :
    existingPack packs a = packs.find? fun pack => pack.id = packId := by
  unfold existingPack
  rw [h]
  simp only [Option.some.injEq]

variable {cfg : Config} {now : ℤ} {t : State}

/-- **What a successful `upsert_sticker_pack` writes**: the packs it read, with its own in the place of
the one of that id. -/
theorem upsertStickerPack_ok (hread : getStickerPacks uni now a.readIds s userId = .ok packs)
    (h : (upsertStickerPack cfg uni now userId a).run s = (.ok p, t)) :
    Upserted uni now packs a p ∧ t = s.addAccountData userId stickerPacksType
      (packsContent (upsertedPacks uni packs p)) := by
  unfold upsertStickerPack at h
  split at h
  · exact absurd (congrArg Prod.fst h) (by simp)
  rename_i packId hid
  dsimp only at h
  rw [run_bind_of_ok (by rw [run_reads, hread]), ← existingPack_eq hid] at h
  split at h
  · exact absurd (congrArg Prod.fst h) (by simp)
  rename_i name hname
  obtain ⟨_, s₁, hcheck, h⟩ := exists_of_run_bind_eq_ok h
  have hs₁ : s₁ = s := by
    have hstate := assertEmojiAllowed_state cfg now userId a.rights (upsertKind uni packs a) s
    unfold upsertKind at hstate
    rw [hcheck] at hstate
    exact hstate
  obtain ⟨stickers, s₂, hlift, h⟩ := exists_of_run_bind_eq_ok h
  obtain ⟨hstickers, rfl⟩ := Prod.mk.inj hlift
  obtain ⟨hp, ht⟩ := Prod.mk.inj h
  obtain rfl := Except.ok.inj hp
  exact ⟨⟨hid, hname, rfl, hstickers, rfl, rfl⟩, by rw [← ht, hs₁]⟩

/-- An upsert that raises writes nothing. -/
theorem upsertStickerPack_error {e : Error}
    (h : (upsertStickerPack cfg uni now userId a).run s = (.error e, t)) : t = s := by
  unfold upsertStickerPack at h
  split at h
  · exact (Prod.mk.inj h).2.symm
  rename_i packId hid
  dsimp only at h
  rcases run_bind_eq_error h with h | ⟨packs, s₀, hread, h⟩
  · exact (Prod.mk.inj h).2.symm
  obtain rfl : s = s₀ := (Prod.mk.inj hread).2
  rw [← existingPack_eq hid] at h
  have hstate := assertEmojiAllowed_state cfg now userId a.rights (upsertKind uni packs a) s
  unfold upsertKind at hstate
  split at h
  · exact (Prod.mk.inj h).2.symm
  rcases run_bind_eq_error h with hraised | ⟨_, s₁, hcheck, hrest⟩
  · rw [hraised] at hstate
    exact hstate
  rw [hcheck] at hstate
  obtain rfl : s₁ = s := hstate
  rcases run_bind_eq_error hrest with hraised | ⟨_, s₂, -, hwrite⟩
  · exact (Prod.mk.inj hraised).2.symm
  -- nothing raises from the write on
  rw [run_bind_of_ok (run_modify _ _)] at hwrite
  exact absurd (congrArg Prod.fst hwrite) (by simp)

theorem mem_of_existingPack {old : StickerPack}
    (h : existingPack packs a = some old) : old ∈ packs := List.mem_of_find?_eq_some h

theorem Upserted.fits (h : Upserted uni now packs a p) (hnow : Milliseconds now)
    (hclean : CleanPacks packs) : p.Fits := by
  have hold : ∀ old, existingPack packs a = some old → old.Fits :=
    fun old hfind => hclean.fits old (mem_of_existingPack hfind)
  have hkept : (∀ x ∈ p.stickers, x.Fits) ∧ p.stickers.length ≤ 512 := by
    have hexisting : ∀ xs : List Sticker, xs = ((existingPack packs a).map
        StickerPack.stickers).getD [] → (∀ x ∈ xs, x.Fits) ∧ xs.length ≤ 512 := by
      rintro xs rfl
      cases hfind : existingPack packs a with
      | none => exact ⟨fun x hx => absurd hx List.not_mem_nil, by decide⟩
      | some old => exact ⟨(hold old hfind).stickers, (hold old hfind).count⟩
    have hstickers := h.stickers
    unfold updatedStickers at hstickers
    split at hstickers
    · exact hexisting _ (Except.ok.inj hstickers).symm
    · exact hexisting _ (Except.ok.inj hstickers).symm
    · exact normalizeStickers_fits hstickers
  constructor
  · exact fits_of_cleanStr (by decide) h.id
  · rcases Option.or_eq_some_iff.mp h.name with hname | ⟨-, hname⟩
    · exact fits_of_cleanStr (by decide) hname
    · obtain ⟨old, hfind, hold'⟩ := Option.map_eq_some_iff.mp hname
      rw [← hold']
      exact (hold old hfind).name
  · exact hkept.1
  · exact hkept.2
  · rw [h.createdAt]
    cases hfind : existingPack packs a with
    | none => exact hnow
    | some old => exact (hold old hfind).createdAt
  · rw [h.updatedAt]
    exact hnow

/-! ## §5 An entry of a sorted list

The new entry goes to its place among the others, which keep their order. -/

section Upsert

variable {α : Type} {r : α → α → Prop} [DecidableRel r] {q : α → Bool} {others : List α} {x : α}

theorem filter_upsert_self (hothers : ∀ y ∈ others, q y = false) (hx : q x = true) :
    ((others ++ [x]).insertionSort r).filter q = [x] := by
  have hfilter : (others ++ [x]).filter q = [x] := by
    rw [List.filter_append, List.filter_eq_nil_iff.mpr fun y hy => by rw [hothers y hy]; decide,
      List.filter_cons_of_pos hx, List.filter_nil, List.nil_append]
  have hperm := (List.perm_insertionSort r (others ++ [x])).filter q
  rw [hfilter] at hperm
  exact List.perm_singleton.mp hperm

theorem filter_upsert_others (hsorted : others.Pairwise r) (hothers : ∀ y ∈ others, q y = false)
    (hx : q x = true) : ((others ++ [x]).insertionSort r).filter (fun y => !q y) = others := by
  have hself : others.filter (fun y => !q y) = others :=
    List.filter_eq_self.mpr fun y hy => by rw [hothers y hy]; rfl
  have hsub : List.Sublist others (((others ++ [x]).insertionSort r).filter fun y => !q y) := by
    have hsublist := (List.sublist_insertionSort hsorted
      (List.sublist_append_left others [x])).filter (fun y => !q y)
    rwa [hself] at hsublist
  refine (hsub.eq_of_length ?_).symm
  rw [((List.perm_insertionSort r (others ++ [x])).filter _).length_eq, List.filter_append, hself,
    List.filter_cons_of_neg (by rw [hx]; decide), List.filter_nil, List.append_nil]

end Upsert

/-- A later read finds the pack under its id, once, and the other packs as they were. -/
def ActsAsMap (uni : PyStr.Unicode) (userId : String) (packs : List StickerPack) (p : StickerPack)
    (t : State) : Prop :=
  ∀ now uuid, ∃ after, getStickerPacks uni now uuid t userId = .ok after ∧
    after.filter (fun q => q.id = p.id) = [p] ∧
    after.filter (fun q => q.id ≠ p.id) = packs.filter fun q => q.id ≠ p.id

/-- **An upsert acts as on a map** exactly when cleaning leaves the pack alone and there is room for
it. -/
theorem actsAsMap_iff (hread : ReadPacks uni s userId packs) (hp : p.Fits) :
    ActsAsMap uni userId packs p (s.addAccountData userId stickerPacksType
        (packsContent (upsertedPacks uni packs p))) ↔
      p.cleaned = p ∧ (packs.filter fun q => q.id ≠ p.id).length < 100 := by
  generalize ht : s.addAccountData userId stickerPacksType (packsContent (upsertedPacks uni packs p)) = t
  generalize hothers : (packs.filter fun q => q.id ≠ p.id) = others
  have hmem : ∀ q ∈ others, q ∈ packs ∧ q.id ≠ p.id := by
    intro q hq
    rw [← hothers] at hq
    simpa using List.mem_filter.mp hq
  have hstored : StoredPacks t userId ((others ++ [p]).insertionSort (nameLe uni)) := by
    left
    rw [← ht, accountData_addAccountData, if_pos ⟨rfl, rfl⟩, upsertedPacks, hothers]
  have hfits : ∀ q ∈ (others ++ [p]).insertionSort (nameLe uni), q.Fits := by
    intro q hq
    rw [List.mem_insertionSort, List.mem_append, List.mem_singleton] at hq
    rcases hq with hq | rfl
    · exact hread.fits q (hmem q hq).1
    · exact hp
  have hafter := getStickerPacks_of_stored hstored hfits uni
  have hclean : (others ++ [p]).map StickerPack.cleaned = others ++ [p.cleaned] := by
    rw [List.map_append, List.map_congr_left fun q hq => hread.cleaned q (hmem q hq).1]
    simp
  constructor
  · intro hmap
    obtain ⟨after, hget, hself, hrest⟩ := hmap 0 fun _ _ =>
      exampleUuid
    rw [hafter] at hget
    have hget := Except.ok.inj hget
    have hsplit : after.Perm (others ++ [p]) := by
      have hperm := (List.filter_append_perm (fun q : StickerPack => q.id = p.id) after).symm
      have hneg : (after.filter fun q => !decide (q.id = p.id)) = others := by
        rw [← hothers, ← hrest]
        congr 1
        funext q
        simp
      rw [hself, hneg] at hperm
      exact hperm.trans List.perm_append_comm
    have hlength := hsplit.length_eq
    rw [List.length_append, List.length_singleton] at hlength
    have hbound : after.length ≤ 100 := by
      rw [← hget]
      exact List.length_take_le _ _
    refine ⟨?_, by omega⟩
    -- nothing was cut, so the cleaned packs are the packs
    have hwhole : after = (((others ++ [p]).insertionSort (nameLe uni)).map
        StickerPack.cleaned).insertionSort (nameLe uni) := by
      rw [← hget]
      apply List.take_of_length_le
      rw [List.length_insertionSort, List.length_map, List.length_insertionSort,
        List.length_append, List.length_singleton]
      omega
    have hcleaned : after.Perm (others ++ [p.cleaned]) := by
      rw [hwhole, ← hclean]
      exact (List.perm_insertionSort _ _).trans ((List.perm_insertionSort _ _).map _)
    have hlast := (List.perm_append_left_iff others).mp (hcleaned.symm.trans hsplit)
    exact List.singleton_injective (List.perm_singleton.mp hlast)
  · rintro ⟨hself, hroom⟩ now uuid
    have hsorted : others.Pairwise (nameLe uni) := by
      rw [← hothers]
      exact hread.sorted.sublist List.filter_sublist
    have hread' : (((others ++ [p]).insertionSort (nameLe uni)).map StickerPack.cleaned) =
        (others ++ [p]).insertionSort (nameLe uni) := by
      have hid : ∀ q ∈ (others ++ [p]).insertionSort (nameLe uni), q.cleaned = q := by
        intro q hq
        rw [List.mem_insertionSort, List.mem_append, List.mem_singleton] at hq
        rcases hq with hq | rfl
        · exact hread.cleaned q (hmem q hq).1
        · exact hself
      rw [List.map_congr_left hid, List.map_id']
    refine ⟨_, hafter now uuid, ?_⟩
    rw [hread', (List.pairwise_insertionSort _ _).insertionSort_eq, List.take_of_length_le (by
      rw [List.length_insertionSort, List.length_append, List.length_singleton]
      omega)]
    have hneither : ∀ q ∈ others, decide (q.id = p.id) = false :=
      fun q hq => decide_eq_false (hmem q hq).2
    refine ⟨filter_upsert_self hneither (by simp), ?_⟩
    have hrest := filter_upsert_others hsorted hneither (by simp : decide (p.id = p.id) = true)
    rw [hothers]
    simpa using hrest

/-! ## §6 Content that stays clean -/

/-- What is cleaned when it is stored is not changed by the cleaning when it is read. -/
def StaysClean (maxLen : ℕ) (raw : Option Json) : Prop :=
  cleanStr maxLen ((cleanStr maxLen raw).map Json.str) = cleanStr maxLen raw

instance (maxLen : ℕ) (raw : Option Json) : Decidable (StaysClean maxLen raw) :=
  inferInstanceAs (Decidable (_ = _))

theorem staysClean_iff (hpos : 0 < maxLen) {x : String}
    (h : cleanStr maxLen raw = some x) : StaysClean maxLen raw ↔ PyStr.strip x = x := by
  unfold StaysClean
  rw [h, map_some, cleanStr_of_fits (fits_of_cleanStr hpos h), Option.some.injEq]

theorem staysClean_of_none (h : cleanStr maxLen raw = none) : StaysClean maxLen raw := by
  unfold StaysClean
  rw [h]
  rfl

/-- An optional string, and the default that takes its place. -/
theorem staysClean_iff_getD (hpos : 0 < maxLen) {d : String} (hd : PyStr.strip d = d) : StaysClean maxLen raw ↔
      PyStr.strip ((cleanStr maxLen raw).getD d) = (cleanStr maxLen raw).getD d := by
  cases h : cleanStr maxLen raw with
  | none => exact iff_of_true (staysClean_of_none h) hd
  | some x => exact staysClean_iff hpos h

/-- The address of a sticker object. -/
def stickerUrl (item : List (String × Json)) : Option String :=
  (cleanStr 2048 (Json.member? item "mxc_url")).or (cleanStr 2048 (Json.member? item "url"))

/-- `_normalize_stickers` keeps the item. -/
def isSticker : Json → Bool
  | .obj item => (stickerUrl item).any (PyStr.startsWith "mxc://")
  | _ => false

/-- None of the strings of a sticker object ends in white space where it is cut. -/
def StickerStaysClean : Json → Prop
  | .obj item =>
    StaysClean 128 (Json.member? item "id") ∧ StaysClean 120 (Json.member? item "name") ∧
    cleanStr 2048 ((stickerUrl item).map Json.str) = stickerUrl item ∧
    StaysClean 128 (Json.member? item "mime_type")
  | _ => True

/-- **A sticker is cleaned already** exactly when its object stays clean. -/
theorem normalizeSticker_cleaned {uuid : Uuid} {raw : Json} {o : Option Sticker}
    (h : normalizeSticker uuid kind raw = .ok o) :
    if isSticker raw then ∃ s, o = some s ∧ (StickerStaysClean raw ↔ s.cleaned kind = s)
    else o = none := by
  unfold normalizeSticker at h
  split at h
  · rename_i item
    dsimp only at h
    have hkept : isSticker (.obj item) = (stickerUrl item).any (PyStr.startsWith "mxc://") := rfl
    split at h
    · rename_i hurl
      have hurl' : stickerUrl item = none := hurl
      rw [hkept, hurl']
      exact (Except.ok.inj h).symm
    rename_i mxcUrl hurl
    have hurl' : stickerUrl item = some mxcUrl := hurl
    rw [hkept, hurl']
    split at h
    · rename_i hmxc
      obtain ⟨width, -, h⟩ := except_bind_eq_ok.mp h
      obtain ⟨height, -, h⟩ := except_bind_eq_ok.mp h
      obtain ⟨size, -, h⟩ := except_bind_eq_ok.mp h
      rw [any_some, if_pos hmxc]
      refine ⟨_, (Except.ok.inj h).symm, ?_⟩
      have hmime : StaysClean 128 (Json.member? item "mime_type") ↔
          (cleanStr 128 (Json.member? item "mime_type")).map PyStr.strip =
            cleanStr 128 (Json.member? item "mime_type") := by
        cases hm : cleanStr 128 (Json.member? item "mime_type") with
        | none => exact iff_of_true (staysClean_of_none hm) rfl
        | some m => rw [staysClean_iff (by decide) hm, map_some, Option.some.injEq]
      have hfits : Fits 2048 mxcUrl := by
        rcases Option.or_eq_some_iff.mp hurl with hurl | ⟨-, hurl⟩
        · exact fits_of_cleanStr (by decide) hurl
        · exact fits_of_cleanStr (by decide) hurl
      have hmxcUrl : cleanStr 2048 ((stickerUrl item).map Json.str) = stickerUrl item ↔
          PyStr.strip mxcUrl = mxcUrl := by
        rw [hurl', map_some, cleanStr_of_fits hfits, Option.some.injEq]
      have hside : ∀ n : Option ℤ, (if kind = .emoji then some 50
          else if kind = .emoji then some 50 else n) = if kind = .emoji then some 50 else n := by
        intro n
        split <;> rfl
      show (_ ∧ _ ∧ _ ∧ _) ↔ _
      rw [staysClean_iff_getD (by decide) (strip_of_not_space uuid.not_space),
        staysClean_iff_getD (by decide) (by decide : PyStr.strip "Sticker" = "Sticker"),
        hmxcUrl, hmime]
      simp only [Sticker.cleaned, Sticker.mk.injEq, hside, and_true]
    · rename_i hmxc
      rw [any_some, if_neg hmxc]
      exact (Except.ok.inj h).symm
  · rename_i hnot
    have hnone : isSticker raw = false := by
      unfold isSticker
      split
      · rename_i item
        exact absurd rfl (hnot item)
      · rfl
    rw [hnone]
    exact (Except.ok.inj h).symm

theorem normalizeStickers_cleaned {raw : List Json}
    (h : normalizeStickers uuid kind (some (.arr raw)) = .ok stickers) :
    (∀ item ∈ (raw.filter isSticker).take 512, StickerStaysClean item) ↔
      ∀ s ∈ stickers, s.cleaned kind = s := by
  obtain ⟨normalized, hnormalized, h⟩ := except_bind_eq_ok.mp h
  obtain rfl := Except.ok.inj h
  have hall : List.Forall₂ (fun item o => if isSticker item then
      ∃ s, o = some s ∧ (StickerStaysClean item ↔ s.cleaned kind = s) else o = none)
      raw normalized := by
    have hturns := (forall₂_of_mapM_eq_ok hnormalized).imp fun (x : Json × ℕ) _ hx => normalizeSticker_cleaned hx
    rw [← List.zipIdx_map_fst 0 raw]
    exact List.forall₂_map_left_iff.mpr hturns
  apply forall_mem_iff_of_forall₂
  exact List.forall₂_take 512 (forall₂_filterMap hall)

/-- The stickers of a request stay clean. Those that the pack keeps must have the size of emoji if it
becomes an emoji pack. -/
def StickersStayClean (kind : PackKind) (existing : Option StickerPack) : Option Json → Prop
  | some (.arr raw) => ∀ item ∈ (raw.filter isSticker).take 512, StickerStaysClean item
  | none | some .null => kind = .emoji →
      ∀ s ∈ (existing.map StickerPack.stickers).getD [], s.width = some 50 ∧ s.height = some 50
  | some _ => True

/-- **When an upsert is safe**: its strings stay clean and the user has room for a pack. -/
structure UpsertStaysClean (uni : PyStr.Unicode) (packs : List StickerPack) (a : UpsertArgs) : Prop where
  id : StaysClean 128 (some (.str a.packId))
  name : StaysClean 120 (Json.member? a.content "name")
  stickers : StickersStayClean (upsertKind uni packs a) (existingPack packs a) (Json.member? a.content "stickers")
  room : (packs.filter fun p => some p.id ≠ cleanStr 128 (some (.str a.packId))).length < 100

/-- A clean sticker in a pack of another kind. -/
theorem Sticker.cleaned_eq_iff {s : Sticker} {kind₀ : PackKind} (h : s.cleaned kind₀ = s) (kind : PackKind) :
    s.cleaned kind = s ↔ (kind = .emoji → s.width = some 50 ∧ s.height = some 50) := by
  obtain ⟨id, name, mxcUrl, mimeType, width, height, size⟩ := s
  simp only [Sticker.cleaned, Sticker.mk.injEq, and_true] at h ⊢
  obtain ⟨hid, hname, hurl, hmime, -, -⟩ := h
  by_cases hkind : kind = .emoji
  · simp [hid, hname, hurl, hmime, hkind, eq_comm]
  · simp [hid, hname, hurl, hmime, hkind]

theorem StickerPack.cleaned_eq_iff : p.cleaned = p ↔
    PyStr.strip p.id = p.id ∧ PyStr.strip p.name = p.name ∧
      ∀ s ∈ p.stickers, s.cleaned p.kind = s := by
  have hmap : p.stickers.map (Sticker.cleaned p.kind) = p.stickers ↔
      ∀ s ∈ p.stickers, s.cleaned p.kind = s := by
    conv_lhs => rhs; rw [← List.map_id' p.stickers]
    exact List.map_inj_left
  rw [← hmap]
  obtain ⟨id, name, kind, stickers, createdAt, updatedAt⟩ := p
  simp only [StickerPack.cleaned, StickerPack.mk.injEq, and_true, true_and]

theorem updatedStickers_cleaned {existing : Option StickerPack}
    (hexisting : ∀ old, existing = some old → old.cleaned = old)
    (h : updatedStickers uuid kind existing raw = .ok stickers) :
    StickersStayClean kind existing raw ↔ ∀ s ∈ stickers, s.cleaned kind = s := by
  have hkept : ∀ xs : List Sticker, xs = (existing.map StickerPack.stickers).getD [] →
      ((kind = .emoji → ∀ s ∈ xs, s.width = some 50 ∧ s.height = some 50) ↔
        ∀ s ∈ xs, s.cleaned kind = s) := by
    rintro xs rfl
    cases existing with
    | none => simp
    | some old =>
      have hold := (cleaned_eq_iff.mp (hexisting old rfl)).2.2
      constructor
      · exact fun hsize s hs => (Sticker.cleaned_eq_iff (hold s hs) kind).mpr fun hkind => hsize hkind s hs
      · exact fun hself hkind s hs => (Sticker.cleaned_eq_iff (hold s hs) kind).mp (hself s hs) hkind
  unfold updatedStickers at h
  split at h
  · obtain rfl := Except.ok.inj h
    exact hkept _ rfl
  · obtain rfl := Except.ok.inj h
    exact hkept _ rfl
  · rename_i raw hnull
    cases raw with
    | arr raw => exact normalizeStickers_cleaned h
    | null => exact absurd rfl hnull
    | _ =>
      -- what is not a list counts as no stickers
      obtain rfl := Except.ok.inj h
      exact iff_of_true trivial fun s hs => absurd hs List.not_mem_nil

/-- **The pack of a request is cleaned already** exactly when its strings stay clean. -/
theorem Upserted.cleaned_iff (h : Upserted uni now packs a p) (hclean : CleanPacks packs) :
    p.cleaned = p ↔ StaysClean 128 (some (.str a.packId)) ∧
      StaysClean 120 (Json.member? a.content "name") ∧
      StickersStayClean (upsertKind uni packs a) (existingPack packs a) (Json.member? a.content "stickers") := by
  have hold : ∀ old, existingPack packs a = some old → old.cleaned = old :=
    fun old hfind => hclean.cleaned old (mem_of_existingPack hfind)
  have hname : StaysClean 120 (Json.member? a.content "name") ↔ PyStr.strip p.name = p.name := by
    rcases Option.or_eq_some_iff.mp h.name with hname | ⟨hnone, hname⟩
    · exact staysClean_iff (by decide) hname
    obtain ⟨old, hfind, hp⟩ := Option.map_eq_some_iff.mp hname
    rw [← hp]
    exact iff_of_true (staysClean_of_none hnone) (cleaned_eq_iff.mp (hold old hfind)).2.1
  rw [cleaned_eq_iff, staysClean_iff (by decide) h.id, hname, ← h.kind,
    updatedStickers_cleaned hold h.stickers]

/-- **An upsert acts as on a map** exactly when it is safe. -/
theorem upsert_actsAsMap_iff (hnow : Milliseconds now) (hread : ReadPacks uni s userId packs)
    (h : (upsertStickerPack cfg uni now userId a).run s = (.ok p, t)) :
    ActsAsMap uni userId packs p t ↔ UpsertStaysClean uni packs a := by
  obtain ⟨hupserted, rfl⟩ := upsertStickerPack_ok (hread.read now a.readIds) h
  have hroom : (packs.filter fun q => some q.id ≠ cleanStr 128 (some (.str a.packId))) =
      packs.filter fun q => q.id ≠ p.id := by
    rw [hupserted.id]
    simp only [ne_eq, Option.some.injEq]
  rw [actsAsMap_iff hread (hupserted.fits hnow hread.clean), hupserted.cleaned_iff hread.clean, ← hroom]
  constructor
  · rintro ⟨⟨hid, hname, hstickers⟩, hroom⟩
    exact ⟨hid, hname, hstickers, hroom⟩
  · rintro ⟨hid, hname, hstickers, hroom⟩
    exact ⟨⟨hid, hname, hstickers⟩, hroom⟩

/-! ## §7 Runs -/

/-- The reading of a clock, in milliseconds. -/
structure Clock where
  now : ℤ
  milliseconds : Milliseconds now

/-- A step of a run: a call for the packs of some user, a client's own write of account data of any
type, or a change of anything but packs. -/
inductive PackOp
  | upsert (clock : Clock) (userId : String) (a : UpsertArgs)
  | delete (clock : Clock) (readIds : ℕ → ℕ → Uuid) (userId packId : String) (adminOverride : Bool)
  | put (userId type : String) (content : List (String × Json))
  | other (change : State → State) (keeps : ∀ s u, (change s).accountData u stickerPacksType =
      s.accountData u stickerPacksType)

/-- The state after a step. -/
def PackOp.apply (cfg : Config) (uni : PyStr.Unicode) (s : State) : PackOp → State
  | upsert clock userId a => ((upsertStickerPack cfg uni clock.now userId a).run s).2
  | delete clock readIds userId packId adminOverride =>
    ((deleteStickerPack uni clock.now readIds userId packId adminOverride).run s).2
  | put userId type content => s.addAccountData userId type content
  | other change _ => change s

def runPacks (cfg : Config) (uni : PyStr.Unicode) (s : State) (ops : List PackOp) : State :=
  ops.foldl (PackOp.apply cfg uni) s

theorem runPacks_concat (cfg : Config) (uni : PyStr.Unicode) (s : State) (ops : List PackOp)
    (op : PackOp) : runPacks cfg uni s (ops ++ [op]) = op.apply cfg uni (runPacks cfg uni s ops) := by
  unfold runPacks
  rw [List.foldl_append]
  rfl

/-- A safe step: an upsert that succeeds is safe for the packs it finds, and a client that writes packs
by itself writes what these functions would have written. -/
def PackOp.Safe (cfg : Config) (uni : PyStr.Unicode) (s : State) : PackOp → Prop
  | upsert clock userId a => ∀ p t, (upsertStickerPack cfg uni clock.now userId a).run s = (.ok p, t) →
      ∀ packs, getStickerPacks uni clock.now a.readIds s userId = .ok packs → UpsertStaysClean uni packs a
  | put _ type content => type = stickerPacksType →
      content = [] ∨ ∃ packs, CleanPacks packs ∧ content = packsContent packs
  | delete _ _ _ _ _ => True
  | other _ _ => True

/-- **What `delete_sticker_pack` writes**: nothing, or the packs without those of the id. -/
theorem deleteStickerPack_state (now : ℤ) (readIds : ℕ → ℕ → Uuid) (packId : String) (adminOverride : Bool)
    (hread : ReadPacks uni s userId packs) :
    let t := ((deleteStickerPack uni now readIds userId packId adminOverride).run s).2
    (t = s ∨ StoredPacks t userId (packs.filter fun p => p.id ≠ packId)) ∧
      ∀ u ≠ userId, t.accountData u stickerPacksType = s.accountData u stickerPacksType := by
  intro t
  have ht : t = ((deleteStickerPack uni now readIds userId packId adminOverride).run s).2 := rfl
  unfold deleteStickerPack at ht
  rw [run_bind_of_ok (by rw [run_reads, hread.read])] at ht
  dsimp only at ht
  split at ht
  · exact ⟨Or.inl ht, fun u _ => by rw [ht]; rfl⟩
  split at ht
  · exact ⟨Or.inl ht, fun u _ => by rw [ht]; rfl⟩
  split at ht
  · rename_i hnil
    rw [hnil]
    have hremoved : t = s.removeAccountData userId stickerPacksType := ht
    unfold State.removeAccountData at hremoved
    split at hremoved
    · refine ⟨Or.inr (Or.inr ⟨rfl, Or.inr ?_⟩), fun u hu => ?_⟩
      · rw [hremoved, accountData_addAccountData, if_pos ⟨rfl, rfl⟩]
      · rw [hremoved, accountData_addAccountData, if_neg fun h => hu h.1]
    · exact ⟨Or.inl hremoved, fun u _ => by rw [hremoved]⟩
  · have hwritten : t = s.addAccountData userId stickerPacksType
      (packsContent (packs.filter fun p => p.id ≠ packId)) := ht
    refine ⟨Or.inr (Or.inl ?_), fun u hu => ?_⟩
    · rw [hwritten, accountData_addAccountData, if_pos ⟨rfl, rfl⟩]
    · rw [hwritten, accountData_addAccountData, if_neg fun h => hu h.1]

theorem StoredClean.congr (h : StoredClean s userId)
    (heq : t.accountData userId stickerPacksType = s.accountData userId stickerPacksType) :
    StoredClean t userId := by
  obtain ⟨packs, hstored, hclean⟩ := h
  refine ⟨packs, ?_, hclean⟩
  unfold StoredPacks
  rw [heq]
  exact hstored

/-- The packs that an upsert writes, when there is room and its pack is clean. -/
theorem CleanPacks.upserted (h : CleanPacks packs) (hp : p.Fits) (hself : p.cleaned = p)
    (hroom : (packs.filter fun q => q.id ≠ p.id).length < 100) (uni : PyStr.Unicode) :
    CleanPacks (upsertedPacks uni packs p) := by
  have hothers := h.filter fun q => decide (q.id ≠ p.id)
  have hwith : CleanPacks (packs.filter (fun q => decide (q.id ≠ p.id)) ++ [p]) := by
    constructor
    · intro q hq
      rcases List.mem_append.mp hq with hq | hq
      · exact hothers.fits q hq
      · rwa [List.mem_singleton.mp hq]
    · intro q hq
      rcases List.mem_append.mp hq with hq | hq
      · exact hothers.cleaned q hq
      · rwa [List.mem_singleton.mp hq]
    · rw [List.map_append, List.nodup_append]
      refine ⟨hothers.distinct, List.nodup_singleton _, ?_⟩
      intro i hi j hj
      obtain ⟨q, hq, rfl⟩ := List.mem_map.mp hi
      obtain rfl : j = p.id := List.mem_singleton.mp hj
      simpa using (List.mem_filter.mp hq).2
    · rw [List.length_append, List.length_singleton]
      omega
  exact hwith.perm (List.perm_insertionSort _ _)

/-- **A safe step leaves clean packs.** -/
theorem PackOp.Safe.storedClean (h : ∀ u, StoredClean s u) {op : PackOp} (hop : op.Safe cfg uni s)
    (u : String) : StoredClean (op.apply cfg uni s) u := by
  cases op with
  | upsert clock userId a =>
    obtain ⟨packs, hread⟩ := (h userId).read uni
    rcases hrun : (upsertStickerPack cfg uni clock.now userId a).run s with ⟨r, t⟩
    show StoredClean ((upsertStickerPack cfg uni clock.now userId a).run s).2 u
    rw [hrun]
    cases r with
    | error e =>
      rw [upsertStickerPack_error hrun]
      exact h u
    | ok p =>
      have hpacks := hread.read clock.now a.readIds
      have hsafe := hop p t hrun packs hpacks
      obtain ⟨hupserted, rfl⟩ := upsertStickerPack_ok hpacks hrun
      by_cases hu : u = userId
      · subst hu
        refine ⟨upsertedPacks uni packs p, Or.inl ?_, hread.clean.upserted ?_ ?_ ?_ uni⟩
        · rw [accountData_addAccountData, if_pos ⟨rfl, rfl⟩]
        · exact hupserted.fits clock.milliseconds hread.clean
        · exact (hupserted.cleaned_iff hread.clean).mpr ⟨hsafe.id, hsafe.name, hsafe.stickers⟩
        · have hroom := hsafe.room
          rw [hupserted.id] at hroom
          simpa only [ne_eq, Option.some.injEq] using hroom
      · apply (h u).congr
        rw [accountData_addAccountData, if_neg fun hand => hu hand.1]
  | delete clock readIds userId packId adminOverride =>
    obtain ⟨packs, hread⟩ := (h userId).read uni
    obtain ⟨hstored, hothers⟩ :=
      deleteStickerPack_state clock.now readIds packId adminOverride hread
    by_cases hu : u = userId
    · subst hu
      rcases hstored with hsame | hstored
      · show StoredClean ((deleteStickerPack uni clock.now readIds u packId adminOverride).run s).2 u
        rw [hsame]
        exact h u
      · exact ⟨_, hstored, hread.clean.filter _⟩
    · exact (h u).congr (hothers u hu)
  | put userId type content =>
    show StoredClean (s.addAccountData userId type content) u
    by_cases hu : u = userId ∧ stickerPacksType = type
    · obtain ⟨rfl, rfl⟩ := hu
      rcases hop rfl with rfl | ⟨packs, hclean, rfl⟩
      · refine ⟨[], Or.inr ⟨rfl, Or.inr ?_⟩, ?_⟩
        · rw [accountData_addAccountData, if_pos ⟨rfl, rfl⟩]
        · exact ⟨by simp, by simp, by simp, by simp⟩
      · refine ⟨packs, Or.inl ?_, hclean⟩
        rw [accountData_addAccountData, if_pos ⟨rfl, rfl⟩]
    · apply (h u).congr
      rw [accountData_addAccountData, if_neg hu]
  | other change keeps => exact (h u).congr (keeps s u)

/-- **The packs after a run.** Every step that is safe where it is taken leaves clean packs. -/
theorem storedClean_runPacks (hinit : ∀ u, StoredClean s u) {ops : List PackOp}
    (hops : AllSteps (fun before op => op.Safe cfg uni (runPacks cfg uni s before)) ops)
    (u : String) : StoredClean (runPacks cfg uni s ops) u := by
  induction ops using List.reverseRecOn generalizing u with
  | nil => exact hinit u
  | append_singleton ops op ih =>
    obtain ⟨hbefore, hlast⟩ := allSteps_concat.mp hops
    rw [runPacks_concat]
    exact PackOp.Safe.storedClean (ih hbefore) hlast u

/-- **The store of packs is a finite map, for the upserts that are safe.** From a server that stores no
packs, as long as every step is safe, any read gives the same packs, of distinct ids, and one more
successful upsert acts as on a map exactly when it is safe too. -/
theorem stickerPacks_runPacks {cfg : Config} {uni : PyStr.Unicode} {s : State}
    (hinit : ∀ u, s.accountData u stickerPacksType = none) {ops : List PackOp}
    (hops : AllSteps (fun before op => op.Safe cfg uni (runPacks cfg uni s before)) ops)
    (u : String) :
    ∃ packs, (∀ now uuid, getStickerPacks uni now uuid (runPacks cfg uni s ops) u = .ok packs) ∧
      (packs.map StickerPack.id).Nodup ∧
      ∀ (clock : Clock) (a : UpsertArgs) (p : StickerPack) (t : State),
        (upsertStickerPack cfg uni clock.now u a).run (runPacks cfg uni s ops) = (.ok p, t) →
          (ActsAsMap uni u packs p t ↔ UpsertStaysClean uni packs a) := by
  have hempty : ∀ u, StoredClean s u := fun u =>
    ⟨[], Or.inr ⟨rfl, Or.inl (hinit u)⟩, by simp, by simp, by simp, by simp⟩
  obtain ⟨packs, hread⟩ := (storedClean_runPacks hempty hops u).read uni
  exact ⟨packs, hread.read, hread.distinct, fun clock a p t hrun =>
    upsert_actsAsMap_iff clock.milliseconds hread hrun⟩

def exampleClock : Clock := ⟨1700000000000, by unfold Milliseconds; decide⟩

/-- A request for an empty pack of the given id. -/
def exampleUpsert (packId : String) : UpsertArgs where
  packId
  content := [("name", .str "Cats")]
  rights := ⟨false, false⟩
  readIds := fun _ _ => exampleUuid
  newIds := fun _ => exampleUuid

/-- The ids of the packs that a read finds after a run. -/
def idsAfter (ops : List PackOp) : Option (List String) :=
  (getStickerPacks asciiTables 0 (fun _ _ => exampleUuid)
    (runPacks exampleConfig asciiTables exampleState ops) "@user:server").toOption.map
      fun packs => packs.map StickerPack.id

theorem safe_exampleUpsert : AllSteps (fun before op => PackOp.Safe exampleConfig asciiTables
      (runPacks exampleConfig asciiTables exampleState before) op)
    ([] ++ [.upsert exampleClock "@user:server" (exampleUpsert "cats")]) := by
  rw [allSteps_concat]
  refine ⟨allSteps_nil _, fun p t _ packs hpacks => ?_⟩
  obtain rfl : [] = packs := Except.ok.inj hpacks
  exact ⟨by decide, by decide, fun _ s hs => absurd hs List.not_mem_nil, by decide⟩

theorem stickerPacks_runPacks_example :
    idsAfter [.upsert exampleClock "@user:server" (exampleUpsert "cats")] = some ["cats"] ∧
      ∃ packs : List StickerPack, (packs.map StickerPack.id).Nodup ∧ idsAfter
        [.upsert exampleClock "@user:server" (exampleUpsert "cats")] = some (packs.map StickerPack.id) := by
  refine ⟨by decide +kernel, ?_⟩
  obtain ⟨packs, hread, hdistinct, -⟩ :=
    stickerPacks_runPacks (fun _ => rfl) safe_exampleUpsert "@user:server"
  refine ⟨packs, hdistinct, ?_⟩
  unfold idsAfter
  rw [← List.nil_append [PackOp.upsert _ _ _], hread]
  rfl

/-- An id whose cut at 128 characters ends in a space. -/
def exampleLongId : String := String.ofList ('a' :: (List.replicate 126 'a' ++ [' '] ++ ['b']))

theorem toList_exampleLongId : exampleLongId.toList = 'a' :: (List.replicate 126 'a' ++ [' '] ++ ['b']) :=
  String.toList_ofList

theorem exampleLongId_unclean : ¬ StaysClean 128 (some (.str exampleLongId)) := by
  have hstrip : PyStr.strip exampleLongId = exampleLongId :=
    strip_of_ends toList_exampleLongId (by decide) (by decide)
  have hne : exampleLongId ≠ "" := fun hnil =>
    absurd (toList_exampleLongId.symm.trans (congrArg String.toList hnil)) (List.cons_ne_nil _ _)
  have hclean : cleanStr 128 (some (.str exampleLongId)) = some (PyStr.take 128 exampleLongId) := by
    unfold cleanStr
    dsimp only
    rw [hstrip, if_neg hne]
  rw [staysClean_iff (by decide) hclean]
  intro hself
  have hlist := congrArg String.toList hself
  rw [toList_strip, toList_take, toList_exampleLongId] at hlist
  revert hlist
  decide +kernel

/-- The next read does not find the pack under the id that the upsert returned. -/
theorem long_id_not_found : ¬ ∀ p t, (upsertStickerPack exampleConfig asciiTables exampleClock.now
      "@user:server" (exampleUpsert exampleLongId)).run exampleState = (.ok p, t) →
    ActsAsMap asciiTables "@user:server" [] p t := by
  intro h
  have hsucceeds : ((upsertStickerPack exampleConfig asciiTables exampleClock.now "@user:server"
      (exampleUpsert exampleLongId)).run exampleState).1.toOption.isSome = true := by
    decide +kernel
  have hread : ReadPacks asciiTables exampleState "@user:server" [] :=
    ⟨fun _ _ => rfl, by simp, by simp, by simp, by simp, by simp⟩
  rcases hrun : (upsertStickerPack exampleConfig asciiTables exampleClock.now "@user:server"
    (exampleUpsert exampleLongId)).run exampleState with ⟨r, t⟩
  cases r with
  | error e =>
    rw [hrun] at hsucceeds
    exact absurd hsucceeds (by simp [Except.toOption])
  | ok p =>
    have hsafe := (upsert_actsAsMap_iff exampleClock.milliseconds hread hrun).mp (h p t hrun)
    exact exampleLongId_unclean hsafe.id

end Setka.Handlers.Plus
