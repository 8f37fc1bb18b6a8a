import Himsha.Runtime.Pubkey

/-!
# JavaScript strings

A string is a sequence of UTF-16 code units, and any sequence is one. `TextEncoder` puts a
replacement character for every surrogate without a partner, so it keeps a string exactly where it
is the UTF-16 form of some text.
-/

set_option autoImplicit false

namespace Himsha
namespace Sdk

open Himsha.Lib Himsha.Runtime

/-- The code units of a string. -/
abbrev JsString := List UInt16

namespace JsString

def isHigh (u : UInt16) : Bool := 0xD800 ≤ u && u < 0xDC00

def isLow (u : UInt16) : Bool := 0xDC00 ≤ u && u < 0xE000

/-- A unit that is no half of a pair. -/
def lone (u : UInt16) : Char :=
  if isHigh u || isLow u then Char.ofNat 0xFFFD else Char.ofNat u.toNat

/-- The character of a pair. -/
def paired (high low : UInt16) : Char :=
  Char.ofNat (0x10000 + (high.toNat - 0xD800) * 0x400 + (low.toNat - 0xDC00))

/-- The characters of a string, as `TextEncoder` reads it. -/
def scalars : JsString → List Char
  | [] => []
  | [u] => [lone u]
  | u :: v :: rest =>
      if isHigh u && isLow v then paired u v :: scalars rest else lone u :: scalars (v :: rest)

/-- `new TextEncoder().encode(s)`. -/
def textEncode (s : JsString) : List UInt8 := Pubkey.utf8 (String.ofList s.scalars)

/-- The code units of a character. -/
def units (c : Char) : JsString :=
  if c.toNat < 0x10000 then [UInt16.ofNat c.toNat]
  else [UInt16.ofNat (0xD800 + (c.toNat - 0x10000) / 0x400),
    UInt16.ofNat (0xDC00 + (c.toNat - 0x10000) % 0x400)]

/-- The JavaScript string of a text. -/
def ofText (s : String) : JsString := s.toList.flatMap units

theorem isHigh_iff {u : UInt16} : isHigh u = true ↔ 0xD800 ≤ u.toNat ∧ u.toNat < 0xDC00 := by
  unfold isHigh
  rw [Bool.and_eq_true, decide_eq_true_iff, decide_eq_true_iff, UInt16.le_iff_toNat_le,
    UInt16.lt_iff_toNat_lt]
  rfl

theorem isLow_iff {u : UInt16} : isLow u = true ↔ 0xDC00 ≤ u.toNat ∧ u.toNat < 0xE000 := by
  unfold isLow
  rw [Bool.and_eq_true, decide_eq_true_iff, decide_eq_true_iff, UInt16.le_iff_toNat_le,
    UInt16.lt_iff_toNat_lt]
  rfl

/-- A character below the surrogates or above them is one unit. -/
theorem lone_units {c : Char} (h : c.toNat < 0x10000) :
    isHigh (UInt16.ofNat c.toNat) = false ∧ lone (UInt16.ofNat c.toNat) = c := by
  have hvalid : c.toNat < 0xD800 ∨ 0xDFFF < c.toNat ∧ c.toNat < 0x110000 := c.valid
  have hunit : (UInt16.ofNat c.toNat).toNat = c.toNat := UInt16.toNat_ofNat_of_lt' h
  have hhigh : isHigh (UInt16.ofNat c.toNat) = false := by
    rw [Bool.eq_false_iff, ne_eq, isHigh_iff, hunit]
    omega
  have hlow : isLow (UInt16.ofNat c.toNat) = false := by
    rw [Bool.eq_false_iff, ne_eq, isLow_iff, hunit]
    omega
  refine ⟨hhigh, ?_⟩
  unfold lone
  rw [hhigh, hlow, hunit]
  exact Char.ofNat_toNat c

/-- The two units of any other character are a pair. -/
theorem paired_units {c : Char} (h : ¬ c.toNat < 0x10000) :
    isHigh (UInt16.ofNat (0xD800 + (c.toNat - 0x10000) / 0x400)) = true ∧
      isLow (UInt16.ofNat (0xDC00 + (c.toNat - 0x10000) % 0x400)) = true ∧
      paired (UInt16.ofNat (0xD800 + (c.toNat - 0x10000) / 0x400))
        (UInt16.ofNat (0xDC00 + (c.toNat - 0x10000) % 0x400)) = c := by
  have hvalid : c.toNat < 0xD800 ∨ 0xDFFF < c.toNat ∧ c.toNat < 0x110000 := c.valid
  have hsize : UInt16.size = 0x10000 := rfl
  have hhigh : (UInt16.ofNat (0xD800 + (c.toNat - 0x10000) / 0x400)).toNat =
      0xD800 + (c.toNat - 0x10000) / 0x400 := UInt16.toNat_ofNat_of_lt (by omega)
  have hlow : (UInt16.ofNat (0xDC00 + (c.toNat - 0x10000) % 0x400)).toNat =
      0xDC00 + (c.toNat - 0x10000) % 0x400 := UInt16.toNat_ofNat_of_lt (by omega)
  refine ⟨isHigh_iff.mpr (by omega), isLow_iff.mpr (by omega), ?_⟩
  unfold paired
  rw [hhigh, hlow]
  have hsum : 0x10000 + (0xD800 + (c.toNat - 0x10000) / 0x400 - 0xD800) * 0x400 +
      (0xDC00 + (c.toNat - 0x10000) % 0x400 - 0xDC00) = c.toNat := by omega
  rw [hsum]
  exact Char.ofNat_toNat c

theorem scalars_units (c : Char) (rest : JsString) :
    scalars (units c ++ rest) = c :: scalars rest := by
  unfold units
  by_cases h : c.toNat < 0x10000
  · rw [if_pos h]
    obtain ⟨hhigh, hlone⟩ := lone_units h
    cases rest with
    | nil =>
      change [lone (UInt16.ofNat c.toNat)] = [c]
      rw [hlone]
    | cons v rest =>
      rw [List.singleton_append, scalars, hhigh, hlone]
      rfl
  · rw [if_neg h]
    obtain ⟨hhigh, hlow, hpaired⟩ := paired_units h
    rw [List.cons_append, List.singleton_append, scalars, hhigh, hlow, hpaired]
    rfl

/-- A text is read as it is. -/
theorem scalars_ofText (s : String) : scalars (ofText s) = s.toList := by
  unfold ofText
  induction s.toList with
  | nil => rfl
  | cons c cs ih => rw [List.flatMap_cons, scalars_units, ih]

theorem textEncode_ofText (s : String) : textEncode (ofText s) = Pubkey.utf8 s := by
  rw [textEncode, scalars_ofText, String.ofList_toList]

end JsString

end Sdk
end Himsha
