/-
  PyxelVM.Lib.Hex — hexadecimal text, as Python's `bytes.hex` and `bytes.fromhex`.
-/

import Mathlib.Data.List.Basic

namespace PyxelVM.Lib

def hexDigit (n : Nat) : Char := if n < 10 then Char.ofNat (48 + n) else Char.ofNat (87 + n)

/-- `bytes.hex`. -/
def toHex (bytes : List UInt8) : String :=
  String.ofList (bytes.flatMap fun b => [hexDigit (b.toNat / 16), hexDigit (b.toNat % 16)])

def hexValue (c : Char) : Option Nat :=
  if '0' ≤ c ∧ c ≤ '9' then some (c.toNat - 48)
  else if 'a' ≤ c ∧ c ≤ 'f' then some (c.toNat - 87)
  else if 'A' ≤ c ∧ c ≤ 'F' then some (c.toNat - 55)
  else none

/-- ASCII white space, which `bytes.fromhex` skips between bytes. -/
def isHexSpace (c : Char) : Bool := c == ' ' || (9 ≤ c.toNat && c.toNat ≤ 13)

def fromHexChars : List Char → Option (List UInt8)
  | [] => some []
  | [c] => if isHexSpace c then some [] else none
  | c :: d :: rest =>
    if isHexSpace c then fromHexChars (d :: rest)
    else do
      let h ← hexValue c
      let l ← hexValue d
      let bs ← fromHexChars rest
      return UInt8.ofNat (16 * h + l) :: bs

/-- `bytes.fromhex`: none where it raises ValueError. -/
def fromHex (s : String) : Option (List UInt8) := fromHexChars s.toList

theorem hexDigit_ok : ∀ n < 16, isHexSpace (hexDigit n) = false ∧ hexValue (hexDigit n) = some n := by decide

theorem length_toHex (bytes : List UInt8) : (toHex bytes).toList.length = 2 * bytes.length := by
  rw [toHex, String.toList_ofList]
  induction bytes with
  | nil => rfl
  | cons b bs ih =>
    rw [List.flatMap_cons, List.length_append, ih]
    simp only [List.length_cons, List.length_nil]
    omega

theorem fromHex_toHex (bytes : List UInt8) : fromHex (toHex bytes) = some bytes := by
  simp only [fromHex, toHex, String.toList_ofList]
  induction bytes with
  | nil => rfl
  | cons b bs ih =>
    have hb := b.toNat_lt
    obtain ⟨hs, hh⟩ := hexDigit_ok (b.toNat / 16) (by omega)
    have hl := (hexDigit_ok (b.toNat % 16) (by omega)).2
    have hval : 16 * (b.toNat / 16) + b.toNat % 16 = b.toNat := by omega
    simp only [List.flatMap_cons, List.cons_append, List.nil_append, fromHexChars, hs, hh, hl, ih, hval, UInt8.ofNat_toNat,
      Option.bind_eq_bind, Option.bind_some, Option.pure_def, Bool.false_eq_true, if_false]

end PyxelVM.Lib
