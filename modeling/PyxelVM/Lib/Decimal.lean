/-
  PyxelVM.Lib.Decimal — rationals with a fixed number of decimals, as Python's
  `f"{x:.nf}"` writes them: rounded to the nearest, ties to the even digit.
-/

import Mathlib.Algebra.Order.Field.Rat

namespace PyxelVM.Lib

/-- The nearest integer, the even one of two. -/
def roundHalfEven (q : Rat) : Int :=
  let n := q.floor
  let r := q - n
  if 1 / 2 < r ∨ (r = 1 / 2 ∧ n % 2 = 1) then n + 1 else n

/-- `f"{q:.nf}"`. -/
def fixed (n : Nat) (q : Rat) : String :=
  let m := (roundHalfEven (q * 10 ^ n)).natAbs
  let sign := if q < 0 then "-" else ""
  let frac := toString (m % 10 ^ n)
  let zeros := "".pushn '0' (n - frac.length)
  if n = 0 then s!"{sign}{m}" else s!"{sign}{m / 10 ^ n}.{zeros}{frac}"

example : fixed 1 (1205 / 100) = "12.0" := by decide +kernel
example : fixed 0 (-7 / 2) = "-4" := by decide +kernel

end PyxelVM.Lib
