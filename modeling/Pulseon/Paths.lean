import Mathlib.Data.List.Basic
import Mathlib.Tactic.Common

/-!
# Paths

A Unix path is a string of bytes, which need not be UTF-8. Its text has the
replacement character for each ill-formed sequence.
-/

namespace Pulseon

abbrev Path := List UInt8

namespace Path

/-- `PathBuf::from` -/
def ofText (text : String) : Path := text.toUTF8.data.toList

def within (lo hi : Nat) (byte : UInt8) : Bool := decide (lo ≤ byte.toNat) && decide (byte.toNat ≤ hi)

/-- The second bytes that can follow the first one of three or four. -/
def secondByte (first : UInt8) : UInt8 → Bool :=
  if first = 0xe0 then within 0xa0 0xbf
  else if first = 0xed then within 0x80 0x9f
  else if within 0xe1 0xef first then within 0x80 0xbf
  else if first = 0xf0 then within 0x90 0xbf
  else if within 0xf1 0xf3 first then within 0x80 0xbf
  else if first = 0xf4 then within 0x80 0x8f
  else fun _ => false

/-- How many bytes one replacement character stands for. -/
def illFormed : List UInt8 → Nat
  | first :: second :: rest =>
    if secondByte first second then
      if within 0xf0 0xf4 first && (rest.head?.any (within 0x80 0xbf)) then 3 else 2
    else 1
  | _ => 1

def lossyChars : Nat → List UInt8 → List Char
  | 0, _ => []
  | fuel + 1, bytes =>
    if bytes = [] then []
    else match bytes.toByteArray.utf8DecodeChar? 0 with
      | some c => c :: lossyChars fuel (bytes.drop c.utf8Size)
      | none => '\ufffd' :: lossyChars fuel (bytes.drop (illFormed bytes))

def toStringLossy (path : Path) : String := String.ofList (lossyChars path.length path)

def isAbsolute (path : Path) : Bool := path.head? == some 47

def join (base path : Path) : Path :=
  if isAbsolute path then path
  else if base.getLast?.any (· != 47) then base ++ 47 :: path
  else base ++ path

theorem lossyChars_encoded (chars : List Char) {fuel : Nat}
    (hfuel : (chars.flatMap String.utf8EncodeChar).length ≤ fuel) :
    lossyChars fuel (chars.flatMap String.utf8EncodeChar) = chars := by
  induction chars generalizing fuel with
  | nil => cases fuel <;> rfl
  | cons c chars ih =>
    rw [List.flatMap_cons] at hfuel ⊢
    rw [List.length_append, String.length_utf8EncodeChar] at hfuel
    have hpos := c.utf8Size_pos
    obtain ⟨fuel, rfl⟩ : ∃ n, fuel = n + 1 := ⟨fuel - 1, by omega⟩
    have hdecode : (String.utf8EncodeChar c ++
        chars.flatMap String.utf8EncodeChar).toByteArray.utf8DecodeChar? 0 = some c := by
      rw [List.toByteArray_append]
      exact ByteArray.utf8DecodeChar?_utf8EncodeChar_append
    have hdrop : (String.utf8EncodeChar c ++ chars.flatMap String.utf8EncodeChar).drop c.utf8Size =
        chars.flatMap String.utf8EncodeChar := by
      rw [← String.length_utf8EncodeChar c, List.drop_left]
    have hne : String.utf8EncodeChar c ++ chars.flatMap String.utf8EncodeChar ≠ [] :=
      List.append_ne_nil_of_left_ne_nil String.utf8EncodeChar_ne_nil _
    rw [lossyChars, if_neg hne, hdecode]
    dsimp only
    rw [hdrop, ih (by omega)]

/-- The text of a path that is one. -/
theorem toStringLossy_ofText (text : String) : (ofText text).toStringLossy = text := by
  have hbytes : ofText text = text.toList.flatMap String.utf8EncodeChar := by
    rw [ofText, String.toUTF8_eq_toByteArray, ← String.utf8Encode_toList, List.utf8Encode]
    simp
  rw [toStringLossy, hbytes, lossyChars_encoded _ (Nat.le_refl _), String.ofList_toList]

end Path

end Pulseon
