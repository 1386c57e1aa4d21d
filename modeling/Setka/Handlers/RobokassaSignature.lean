/-
# Setka.Handlers.RobokassaSignature — what a Robokassa signature binds.

The signed text is the sum, the invoice, the password and the sorted `Shp_` parameters with colons between them,
and nothing is escaped. The sum and the invoice are numbers, and the parameters that a checkout sends are short
words: of such parts the text can be read in one way only. Of arbitrary parts it cannot.
-/
import Setka.Handlers.PlusCredit

namespace Setka.Handlers.Plus

open Setka.Api Setka.Lib Dict

/-! ## §1 The signed text -/

/-- The parameters in the order in which they are signed. -/
def shpPairs (shp : Dict String String) : List (List Char × List Char) :=
  (shp.keys.insertionSort (· ≤ ·)).map fun key => (key.toList, (shp.getD key "").toList)

theorem toList_join_cons (a : String) (parts : List String) :
    (PyStr.join ":" (a :: parts)).toList = a.toList ++ parts.flatMap fun part => ':' :: part.toList := by
  induction parts generalizing a with
  | nil => simp [PyStr.join]
  | cons b parts ih =>
    have hjoin : (PyStr.join ":" (a :: b :: parts)).toList =
        a.toList ++ (":".toList ++ (PyStr.join ":" (b :: parts)).toList) := by
      show (String.intercalate ":" (a :: b :: parts)).toList = _
      rw [String.intercalate_cons_cons, String.toList_append, String.toList_append, List.append_assoc]
      rfl
    rw [hjoin, ih b]
    rfl

/-- The text that is hashed. -/
theorem toList_signed (outSum invId password2 : String) (shp : Dict String String) :
    (PyStr.join ":" ([outSum, invId, password2] ++ shpParts shp)).toList =
      outSum.toList ++ ':' :: (invId.toList ++ ':' :: (password2.toList ++
        Delimited.fields [':', 'S', 'h', 'p', '_'] '=' (shpPairs shp))) := by
  have hfields : ((shpParts shp).flatMap fun part => ':' :: part.toList) =
      Delimited.fields [':', 'S', 'h', 'p', '_'] '=' (shpPairs shp) := by
    unfold shpParts shpPairs Delimited.fields
    rw [List.flatMap_map, List.flatMap_map]
    refine List.flatMap_congr fun key _ => ?_
    simp [String.toList_append]
  rw [List.cons_append, List.cons_append, List.cons_append, List.nil_append, toList_join_cons, ← hfields]
  simp

/-- Two maps with the same sorted pairs are the same. -/
theorem agrees_of_shpPairs {shp shp' : Dict String String} (h : shpPairs shp = shpPairs shp') :
    shp.Agrees shp' := by
  have hget : ∀ (d : Dict String String) (key value : String),
      d.get? key = some value ↔ (key.toList, value.toList) ∈ shpPairs d := by
    intro d key value
    unfold shpPairs
    rw [List.mem_map]
    constructor
    · intro hget
      refine ⟨key, (List.mem_insertionSort _).mpr (mem_keys_iff.mpr ⟨value, hget⟩), ?_⟩
      rw [getD_of_get? hget]
    rintro ⟨k, hk, heq⟩
    obtain ⟨hkey, hvalue⟩ := Prod.mk.inj heq
    obtain rfl := String.toList_inj.mp hkey
    obtain ⟨v, hv⟩ := mem_keys_iff.mp ((List.mem_insertionSort _).mp hk)
    rw [getD_of_get? hv] at hvalue
    rw [hv, String.toList_inj.mp hvalue]
  intro key
  ext value
  rw [hget, hget, h]

/-! ## §2 When the signature binds the message -/

/-- Parts that keep clear of what separates them: a sum and an invoice without a colon, keys without an equals
sign, values in which no parameter begins. -/
structure ClearParts (outSum invId : String) (shp : Dict String String) : Prop where
  outSum : ':' ∉ outSum.toList
  invId : ':' ∉ invId.toList
  shp : ∀ key value, shp.get? key = some value → '=' ∉ key.toList ∧ ¬[':', 'S', 'h', 'p', '_'] <:+: value.toList

theorem ClearParts.clear {outSum invId : String} {shp : Dict String String} (h : ClearParts outSum invId shp) :
    ∀ p ∈ shpPairs shp, Delimited.Clear [':', 'S', 'h', 'p', '_'] '=' p := by
  intro p hp
  obtain ⟨key, hkey, rfl⟩ := List.mem_map.mp hp
  obtain ⟨value, hvalue⟩ := mem_keys_iff.mp ((List.mem_insertionSort _).mp hkey)
  obtain ⟨hsign, hmark⟩ := h.shp key value hvalue
  rw [getD_of_get? hvalue]
  exact ⟨hsign, hmark⟩

/-- **The signature binds the message** whose parts are clear: the sum, the invoice and all parameters. -/
theorem robokassaResultSignature_inj {cfg : Config} (hmd5 : Function.Injective cfg.md5)
    {outSum invId outSum' invId' password2 : String} {shp shp' : Dict String String}
    (hclear : ClearParts outSum invId shp) (hclear' : ClearParts outSum' invId' shp')
    (h : robokassaResultSignature cfg outSum invId password2 shp =
      robokassaResultSignature cfg outSum' invId' password2 shp') :
    outSum = outSum' ∧ invId = invId' ∧ shp.Agrees shp' := by
  have htext := congrArg String.toList (hmd5 h)
  rw [toList_signed, toList_signed] at htext
  -- from the left: the sum and the invoice end at a colon, and the password is as long in both
  obtain ⟨hsum, htext⟩ := Delimited.append_cons_inj hclear.outSum hclear'.outSum htext
  obtain ⟨hinvoice, htext⟩ := Delimited.append_cons_inj hclear.invId hclear'.invId htext
  have hfields := List.append_cancel_left htext
  have hpairs := Delimited.fields_inj (by decide) hclear.clear hclear'.clear hfields
  exact ⟨String.toList_inj.mp hsum, String.toList_inj.mp hinvoice, agrees_of_shpPairs hpairs⟩

/-- The hash taken as injective. -/
def unhashed : Config := { exampleConfig with md5 := id }

/-- The parameters of a checkout. -/
def exampleShp : Dict String String where
  items := [("plan", "setka_plus_month"), ("uid", "QHVzZXI6c2VydmVy"), ("pid", "setka_plus_1")]
  nodup := by decide

theorem robokassaResultSignature_inj_example : "299.00" = "299.00" ∧ "7" = "7" ∧ exampleShp.Agrees exampleShp := by
  have hshp : ∀ p ∈ exampleShp.items, '=' ∉ p.1.toList ∧ ¬[':', 'S', 'h', 'p', '_'] <:+: p.2.toList := by
    decide +kernel
  have hclear : ClearParts "299.00" "7" exampleShp := by
    refine ⟨by decide, by decide, fun key value hget => ?_⟩
    exact hshp (key, value) (Dict.get?_eq_some_iff.mp hget)
  exact @robokassaResultSignature_inj unhashed Function.injective_id _ _ _ _ "secret" _ _ hclear hclear rfl

/-- A colon in a sum or an invoice, an equals sign in a key, and a mark in a value: each of them alone gives two
messages one signature. -/
theorem signature_of_two_messages : robokassaResultSignature unhashed "1:2" "3" "secret" Dict.empty =
      robokassaResultSignature unhashed "1" "2:3" "secret" Dict.empty ∧
    robokassaResultSignature unhashed "1" "2" "secret" (Dict.empty.set "a=b" "c") =
      robokassaResultSignature unhashed "1" "2" "secret" (Dict.empty.set "a" "b=c") ∧
    robokassaResultSignature unhashed "1" "2" "secret" (Dict.empty.set "a" "b:Shp_c=d") =
      robokassaResultSignature unhashed "1" "2" "secret" ((Dict.empty.set "a" "b").set "c" "d") ∧
    ¬∀ (cfg : Config), Function.Injective cfg.md5 →
      ∀ outSum invId outSum' invId' password2 : String, ∀ shp shp' : Dict String String,
        robokassaResultSignature cfg outSum invId password2 shp =
          robokassaResultSignature cfg outSum' invId' password2 shp' →
        outSum = outSum' ∧ invId = invId' ∧ shp.Agrees shp' := by
  have hcolon : robokassaResultSignature unhashed "1:2" "3" "secret" Dict.empty =
      robokassaResultSignature unhashed "1" "2:3" "secret" Dict.empty := by decide +kernel
  refine ⟨hcolon, by decide +kernel, by decide +kernel, fun h => ?_⟩
  have hsame := (h unhashed Function.injective_id _ _ _ _ _ _ _ hcolon).1
  exact absurd hsame (by decide)

end Setka.Handlers.Plus
