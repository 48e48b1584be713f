import Mathlib.Data.Char
import Mathlib.Data.String.Basic
import Mathlib.Tactic.Common

/-!
# Percent encoding

Percent decoding of a text: a `%` with two hexadecimal digits stands for a byte,
every other character for its UTF-8 bytes. Texts of unreserved characters and
complete triples decode piece by piece.
-/

namespace Pulseon

def hexValue (c : Char) : Option Nat :=
  if '0' ≤ c ∧ c ≤ '9' then some (c.toNat - 48)
  else if 'A' ≤ c ∧ c ≤ 'F' then some (c.toNat - 55)
  else if 'a' ≤ c ∧ c ≤ 'f' then some (c.toNat - 87)
  else none

def hexByte (high low : Char) : Option UInt8 :=
  (hexValue high).bind fun h => (hexValue low).map fun l => UInt8.ofNat (16 * h + l)

def percentDecode : List Char → List UInt8
  | [] => []
  | '%' :: high :: low :: rest =>
    match hexByte high low with
    | some byte => byte :: percentDecode rest
    | none => String.utf8EncodeChar '%' ++ percentDecode (high :: low :: rest)
  | c :: rest => String.utf8EncodeChar c ++ percentDecode rest

/-- The characters that stand for themselves everywhere. -/
def unreserved (c : Char) : Bool := c.isAlphanum || c == '-' || c == '.' || c == '_' || c == '~'

def upperHexDigit (c : Char) : Bool := ('0' ≤ c && c ≤ '9') || ('A' ≤ c && c ≤ 'F')

/-- Unreserved characters and complete triples. -/
inductive PercentForm : List Char → Prop
  | nil : PercentForm []
  | plain {c : Char} {rest : List Char} (hc : unreserved c = true) (h : PercentForm rest) : PercentForm (c :: rest)
  | triple {high low : Char} {rest : List Char} (hhigh : upperHexDigit high = true)
    (hlow : upperHexDigit low = true)
      (h : PercentForm rest) : PercentForm ('%' :: high :: low :: rest)

theorem percentDecode_plain {c : Char} (hc : c ≠ '%') (hascii : c.toNat < 128) (rest : List Char) :
    percentDecode (c :: rest) = UInt8.ofNat c.toNat :: percentDecode rest := by
  have hsize : c.utf8Size = 1 := by
    rw [Char.utf8Size_eq_one_iff]
    exact UInt32.le_iff_toNat_le.mpr (Nat.le_of_lt_succ hascii)
  rw [percentDecode, String.utf8EncodeChar_eq_singleton hsize]
  · rfl
  · intro _ _ _ e
    exact absurd e hc

theorem percentDecode_triple {high low : Char} {h l : Nat} (hhigh : hexValue high = some h)
    (hlow : hexValue low = some l)
    (rest : List Char) : percentDecode ('%' :: high :: low :: rest) = UInt8.ofNat
    (16 * h + l) :: percentDecode rest := by
  simp [percentDecode, hexByte, hhigh, hlow]

theorem PercentForm.append {text rest : List Char} (h : PercentForm text) (hrest : PercentForm rest) :
    PercentForm (text ++ rest) := by
  induction h with
  | nil => exact hrest
  | plain hc _ ih => exact .plain hc ih
  | triple hhigh hlow _ ih => exact .triple hhigh hlow ih

/-- Every character of such a text is unreserved, a digit of a triple or `%`. -/
theorem PercentForm.chars {text : List Char} (h : PercentForm text) {c : Char} (hc : c ∈ text) :
    unreserved c = true ∨ upperHexDigit c = true ∨ c = '%' := by
  induction h with
  | nil => cases hc
  | plain hplain _ ih =>
    rcases List.mem_cons.mp hc with rfl | hc
    · exact Or.inl hplain
    · exact ih hc
  | triple hhigh hlow _ ih =>
    simp only [List.mem_cons] at hc
    rcases hc with rfl | rfl | rfl | hc
    · exact Or.inr (Or.inr rfl)
    · exact Or.inr (Or.inl hhigh)
    · exact Or.inr (Or.inl hlow)
    · exact ih hc

end Pulseon
