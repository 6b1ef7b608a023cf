/-
  PyxelVM.Lib.PyJson — the values Python's `json` module can read, and what `int`, `bool`,
  `set`, `dict` and float arithmetic make of them.

  Beside JSON's own values there are NaN and the two infinities, and strings with
  surrogates that stand alone. `ofJson` embeds `Json`, whose floats are finite.
-/

import Mathlib.Data.Rat.Defs
import PyxelVM.Lib.Dict
import PyxelVM.Lib.Json
import PyxelVM.Lib.Text

namespace PyxelVM.Lib

/-! ## Values -/

/-- A Python string, by its code points. -/
abbrev PyStr := List Nat

namespace PyStr

/-- The string as text; one with a surrogate is none. -/
def text? (s : PyStr) : Option String :=
  if s.all fun c => decide c.isValidChar then some (String.ofList (s.map Char.ofNat)) else none

def ofText (s : String) : PyStr := s.toList.map Char.toNat

theorem text?_ofText (s : String) : text? (ofText s) = some s := by
  have hvalid : (ofText s).all (fun c => decide c.isValidChar) = true := by
    rw [ofText, List.all_eq_true]
    intro c hc
    rcases List.mem_map.mp hc with ⟨d, -, rfl⟩
    exact decide_eq_true d.valid
  have hback : (ofText s).map Char.ofNat = s.toList := by
    rw [ofText, List.map_map]
    exact (List.map_congr_left fun c _ => Char.ofNat_toNat c).trans (List.map_id _)
  rw [text?, if_pos hvalid, hback, String.ofList_toList]

theorem ofText_injective : Function.Injective ofText := by
  intro s t h
  have hread := text?_ofText s
  rw [h, text?_ofText] at hread
  exact (Option.some.inj hread).symm

theorem ofText_text? {s : PyStr} {t : String} (h : text? s = some t) : ofText t = s := by
  unfold text? at h
  split at h
  · rename_i hvalid
    rw [List.all_eq_true] at hvalid
    cases h
    rw [ofText, String.toList_ofList, List.map_map]
    refine (List.map_congr_left fun c hc => ?_).trans (List.map_id _)
    have hc' : c.isValidChar := of_decide_eq_true (hvalid c hc)
    show (Char.ofNat c).toNat = c
    rw [Char.ofNat, dif_pos hc']
    rfl
  · cases h

end PyStr

inductive PyFloat where
  | finite (q : Rat)
  | inf (negative : Bool)
  | nan
  deriving DecidableEq

/-- An object is its members as they are read; of those under one key the dict keeps the last. -/
inductive PyJson where
  | null
  | bool (b : Bool)
  | int (n : Int)
  | float (f : PyFloat)
  | str (s : PyStr)
  | arr (items : List PyJson)
  | obj (members : List (PyStr × PyJson))

/-- `type(v).__name__`. -/
def PyJson.typeName : PyJson → String
  | .null => "NoneType"
  | .bool _ => "bool"
  | .int _ => "int"
  | .float _ => "float"
  | .str _ => "str"
  | .arr _ => "list"
  | .obj _ => "dict"

/-! ## `int` -/

inductive IntError where
  | typeError
  | valueError
  | overflowError
  deriving DecidableEq, Repr

/-- `int(q)` of a finite float. -/
def truncate (q : Rat) : Int := q.num.tdiv q.den

/-- `int(f)`, which drops the fraction. -/
def PyFloat.toInt : PyFloat → Except IntError Int
  | .finite q => .ok (q.num.tdiv q.den)
  | .inf _ => .error .overflowError
  | .nan => .error .valueError

/-- `int(v)`. -/
def PyJson.toInt : PyJson → Except IntError Int
  | .bool b => .ok (if b then 1 else 0)
  | .int n => .ok n
  | .float f => f.toInt
  | .str s =>
    match s.text?.bind parseInt with
    | some n => .ok n
    | none => .error .valueError
  | .null | .arr _ | .obj _ => .error .typeError

/-- Only an infinity overflows. -/
theorem PyJson.toInt_overflow_iff {v : PyJson} : v.toInt = .error .overflowError ↔ ∃ negative, v = .float (.inf negative) := by
  constructor
  · intro h
    cases v with
    | float f =>
      cases f with
      | inf negative => exact ⟨negative, rfl⟩
      | finite q => cases h
      | nan => cases h
    | str s =>
      simp only [PyJson.toInt] at h
      split at h <;> cases h
    | null => cases h
    | bool b => cases h
    | int n => cases h
    | arr items => cases h
    | obj members => cases h
  · intro h
    rcases h with ⟨negative, rfl⟩
    rfl

/-! ## `bool`, `set` and `dict` -/

/-- `bool(v)`. -/
def PyJson.truthy : PyJson → Bool
  | .null => false
  | .bool b => b
  | .int n => n ≠ 0
  | .float (.finite q) => q ≠ 0
  | .float _ => true
  | .str s => !s.isEmpty
  | .arr items => !items.isEmpty
  | .obj members => !members.isEmpty

def PyJson.hashable : PyJson → Bool
  | .arr _ | .obj _ => false
  | _ => true

/-- Whether the value equals the string. -/
def PyJson.isStr (v : PyJson) (s : PyStr) : Bool :=
  match v with
  | .str t => t = s
  | _ => false

/-- What iterating over the value gives, if one can. -/
def PyJson.iter? : PyJson → Option (List PyJson)
  | .str s => some (s.map fun c => .str [c])
  | .arr items => some items
  | .obj members => some ((Dict.ofList members).keys.map .str)
  | _ => none

/-- `set(v)`, by its elements as they come; of equal ones the set has one. -/
def PyJson.set? (v : PyJson) : Option (List PyJson) := v.iter?.filter fun items => items.all PyJson.hashable

/-- An entry for `dict`: two values, the first of them a key. -/
def PyJson.pair? (v : PyJson) : Option (PyJson × PyJson) :=
  match v.iter? with
  | some [k, w] => if k.hashable then some (k, w) else none
  | _ => none

/-- `dict(v)`, by its entries as they come; of equal keys the last counts. -/
def PyJson.dict? : PyJson → Option (List (PyJson × PyJson))
  | .obj members => some ((Dict.ofList members).entries.map fun e => (.str e.1, e.2))
  | v => v.iter?.bind fun items => items.mapM PyJson.pair?

/-! ## Arithmetic -/

/-- From here on an integer overflows when it is made a float: half way to 2^1024 from the largest float. -/
def floatOverflow : Nat := Nat.pow 2 1024 - Nat.pow 2 970

/-- The operand of a float operation, where it is a number and does not overflow. -/
def PyJson.toFloat? : PyJson → Option PyFloat
  | .bool b => some (.finite (Rat.ofInt (if b then 1 else 0)))
  | .int n => if n.natAbs < floatOverflow then some (.finite (Rat.ofInt n)) else none
  | .float f => some f
  | _ => none

/-- `v <= 0`, of a number. -/
def PyJson.nonpositive? : PyJson → Option Bool
  | .bool b => some !b
  | .int n => some (n ≤ 0)
  | .float (.finite q) => some (q ≤ 0)
  | .float (.inf negative) => some negative
  | .float .nan => some false
  | _ => none

/-- `now - f > d`. -/
def PyFloat.olderThan (d now : Rat) : PyFloat → Bool
  | .finite q => now - q > d
  | .inf negative => negative
  | .nan => false

/-- `f < g`. -/
def PyFloat.lt : PyFloat → PyFloat → Bool
  | .nan, _ => false
  | _, .nan => false
  | .inf negative, .inf negative' => negative && !negative'
  | .inf negative, .finite _ => negative
  | .finite _, .inf negative => !negative
  | .finite p, .finite q => p < q

theorem PyFloat.lt_asymm {f g : PyFloat} (h : f.lt g = true) : g.lt f = false := by
  cases f with
  | nan => cases h
  | inf b => cases g <;> simp_all [PyFloat.lt]
  | finite p =>
    cases g with
    | nan => rfl
    | inf b => simpa [PyFloat.lt] using h
    | finite q => exact decide_eq_false (Rat.not_lt.mpr (Rat.le_of_lt (of_decide_eq_true h)))

/-- But for NaN, what is less than neither of two in a row is not less than the second. -/
theorem PyFloat.lt_false_trans {f g k : PyFloat} (hg : g ≠ .nan) (hfg : f.lt g = false) (hgk : g.lt k = false) :
    f.lt k = false := by
  cases g with
  | nan => exact absurd rfl hg
  | inf b => cases f <;> cases k <;> simp_all [PyFloat.lt]
  | finite q =>
    cases f with
    | nan => rfl
    | inf b => cases k <;> simp_all [PyFloat.lt]
    | finite p =>
      cases k with
      | nan => rfl
      | inf b => simpa [PyFloat.lt] using hgk
      | finite r =>
        have hqp : q ≤ p := Rat.not_lt.mp (of_decide_eq_false hfg)
        have hrq : r ≤ q := Rat.not_lt.mp (of_decide_eq_false hgk)
        exact decide_eq_false (Rat.not_lt.mpr (Rat.le_trans hrq hqp))

/-! ## JSON -/

section

variable (float : FloatText → PyFloat)

mutual

/-- A JSON value as Python reads it, its floats as `float` has them. -/
def ofJson : Json → PyJson
  | .null => .null
  | .bool b => .bool b
  | .int n => .int n
  | .float f => .float (float f)
  | .str s => .str (.ofText s)
  | .arr items => .arr (ofItems items)
  | .obj members => .obj (ofMembers members)

def ofItems : List Json → List PyJson
  | [] => []
  | v :: vs => ofJson v :: ofItems vs

def ofMembers : List (String × Json) → List (PyStr × PyJson)
  | [] => []
  | (k, v) :: ms => (.ofText k, ofJson v) :: ofMembers ms

end

theorem ofMembers_eq_map (members : List (String × Json)) :
    ofMembers float members = members.map fun m => (.ofText m.1, ofJson float m.2) := by
  induction members with
  | nil => rfl
  | cons m members ih => rw [ofMembers, ih, List.map_cons]

end

end PyxelVM.Lib
