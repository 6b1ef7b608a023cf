/-
  PyxelVM.Lib.Json — JSON values.

  An object is its members in insertion order, as Python's dict keeps them. A finite
  float is known by its shortest decimal text (`FloatText`), which is what is written
  for it and what reading gives back; the other numbers are integers. `isNumber` is the
  grammar of their texts.
-/

import Mathlib.Data.List.Basic

namespace PyxelVM.Lib

/-! ## Numbers as text -/

def isNumberChar (c : Char) : Bool := c.isDigit || c == '-' || c == '+' || c == '.' || c == 'e' || c == 'E'

/-- `([eE][-+]?\d+)?`. -/
def isExponent : List Char → Bool
  | [] => true
  | c :: cs =>
    let ds := if cs.head? = some '-' ∨ cs.head? = some '+' then cs.tail else cs
    (c == 'e' || c == 'E') && !ds.isEmpty && ds.all Char.isDigit

/-- `(\.\d+)?([eE][-+]?\d+)?`. -/
def isFraction (cs : List Char) : Bool :=
  if cs.head? = some '.' then !(cs.tail.takeWhile Char.isDigit).isEmpty && isExponent (cs.tail.dropWhile Char.isDigit)
  else isExponent cs

/-- `-?(0|[1-9]\d*)(\.\d+)?([eE][-+]?\d+)?`. -/
def isNumber (cs : List Char) : Bool :=
  let ds := if cs.head? = some '-' then cs.tail else cs
  let whole := ds.takeWhile Char.isDigit
  !whole.isEmpty && (whole == ['0'] || whole.head? != some '0') && isFraction (ds.dropWhile Char.isDigit)

/-- The text of a finite float: a number with a fraction or an exponent. -/
def isFloatText (cs : List Char) : Bool := isNumber cs && cs.all isNumberChar && cs.any fun c => c == '.' || c == 'e' || c == 'E'

structure FloatText where
  chars : List Char
  ok : isFloatText chars = true
  deriving DecidableEq

inductive Json where
  | null
  | bool (b : Bool)
  | int (n : Int)
  | float (f : FloatText)
  | str (s : String)
  | arr (items : List Json)
  | obj (members : List (String × Json))

namespace Json

/-! ## Equality is decidable -/

mutual

def beq : Json → Json → Bool
  | .null, .null => true
  | .bool a, .bool b => a == b
  | .int a, .int b => a == b
  | .float a, .float b => a == b
  | .str a, .str b => a == b
  | .arr xs, .arr ys => beqItems xs ys
  | .obj xs, .obj ys => beqMembers xs ys
  | _, _ => false

def beqItems : List Json → List Json → Bool
  | [], [] => true
  | x :: xs, y :: ys => beq x y && beqItems xs ys
  | _, _ => false

def beqMembers : List (String × Json) → List (String × Json) → Bool
  | [], [] => true
  | (k, x) :: xs, (l, y) :: ys => k == l && beq x y && beqMembers xs ys
  | _, _ => false

end

mutual

theorem beq_iff : ∀ x y : Json, beq x y = true ↔ x = y
  | .null, y => by cases y <;> simp [beq]
  | .bool a, y => by cases y <;> simp [beq]
  | .int a, y => by cases y <;> simp [beq]
  | .float a, y => by cases y <;> simp [beq]
  | .str a, y => by cases y <;> simp [beq]
  | .arr xs, y => by cases y <;> simp [beq, beqItems_iff xs]
  | .obj xs, y => by cases y <;> simp [beq, beqMembers_iff xs]

theorem beqItems_iff : ∀ xs ys : List Json, beqItems xs ys = true ↔ xs = ys
  | [], ys => by cases ys <;> simp [beqItems]
  | x :: xs, ys => by cases ys <;> simp [beqItems, beq_iff x, beqItems_iff xs]

theorem beqMembers_iff : ∀ xs ys : List (String × Json), beqMembers xs ys = true ↔ xs = ys
  | [], ys => by cases ys <;> simp [beqMembers]
  | (k, x) :: xs, ys => by
    rcases ys with _ | ⟨⟨l, y⟩, ys⟩ <;> simp [beqMembers, beq_iff x, beqMembers_iff xs]

end

instance : DecidableEq Json := fun x y => decidable_of_iff _ (beq_iff x y)

end Json

end PyxelVM.Lib
