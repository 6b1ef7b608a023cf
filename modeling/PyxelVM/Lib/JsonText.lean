/-
  PyxelVM.Lib.JsonText — `json.dumps` and `json.loads`.

  `dumps` writes with the separators `,` and `:`, and escapes all but ASCII or only what
  it must (`ensure_ascii`); `loads` reads any JSON text in UTF-8. NaN and Infinity, which
  Python's reader takes as well, and lone surrogates, which its strings can hold, are no
  values here; a number of more than 4300 digits is refused, as Python's `int` does.
  A float is its text: what `dumps` writes of one, the shortest, is read as that float, but
  a longer text of it (`1e01` for 10.0) as another value, where Python reads them alike.
  The readers go by a number of steps; the length of the text is always enough.
-/

import PyxelVM.Lib.Dict
import PyxelVM.Lib.Hex
import PyxelVM.Lib.Json

namespace PyxelVM.Lib

/-! ## UTF-8 -/

/-- `s.encode("utf-8")`. -/
def utf8 (s : String) : List UInt8 := s.toByteArray.data.toList

/-- `bs.decode("utf-8")`. -/
def ofUtf8 (bs : List UInt8) : Option String := String.fromUTF8? ⟨bs.toArray⟩

theorem ofUtf8_utf8 (s : String) : ofUtf8 (utf8 s) = some s := by
  have h : (⟨s.toByteArray.data.toList.toArray⟩ : ByteArray) = s.toByteArray := rfl
  rw [ofUtf8, utf8, h, String.fromUTF8?, dif_pos s.isValidUTF8]
  rfl

theorem utf8_ofList (cs : List Char) : utf8 (String.ofList cs) = cs.flatMap String.utf8EncodeChar := by
  rw [utf8, String.toByteArray_ofList, List.utf8Encode]
  simp

/-- ASCII text has a byte for each character. -/
theorem length_utf8_ascii {cs : List Char} (h : ∀ c ∈ cs, c.toNat < 128) : (utf8 (String.ofList cs)).length = cs.length := by
  rw [utf8_ofList]
  induction cs with
  | nil => rfl
  | cons c cs ih =>
    have hc : c.toNat < 128 := h c (List.mem_cons_self ..)
    have h1 : c.utf8Size = 1 := Char.utf8Size_eq_one_iff.mpr (by
      rw [UInt32.le_iff_toNat_le]
      exact Nat.le_of_lt_succ hc)
    rw [List.flatMap_cons, List.length_append, String.length_utf8EncodeChar, h1, ih fun d hd => h d (List.mem_cons_of_mem c hd),
      List.length_cons, Nat.add_comm]

namespace Json

/-! ## Writing -/

/-- Four hexadecimal digits. -/
def hex4 (n : Nat) : List Char := [hexDigit (n / 4096 % 16), hexDigit (n / 256 % 16), hexDigit (n / 16 % 16), hexDigit (n % 16)]

def unicodeEscape (n : Nat) : List Char := '\\' :: 'u' :: hex4 n

def escapeChar (ascii : Bool) (c : Char) : List Char :=
  let n := c.toNat
  if c = '"' then ['\\', '"']
  else if c = '\\' then ['\\', '\\']
  else if n = 8 then ['\\', 'b']
  else if n = 9 then ['\\', 't']
  else if n = 10 then ['\\', 'n']
  else if n = 12 then ['\\', 'f']
  else if n = 13 then ['\\', 'r']
  else if n < 32 ∨ (ascii = true ∧ 127 ≤ n) then
    -- beyond the sixteen bits of one escape, a surrogate pair
    if n < 0x10000 then unicodeEscape n
    else unicodeEscape (0xD800 + (n - 0x10000) / 1024) ++ unicodeEscape (0xDC00 + (n - 0x10000) % 1024)
  else [c]

def stringText (ascii : Bool) (s : String) : List Char := '"' :: (s.toList.flatMap (escapeChar ascii) ++ ['"'])

def intText (n : Int) : List Char := if n < 0 then '-' :: Nat.toDigits 10 n.natAbs else Nat.toDigits 10 n.natAbs

mutual

def text (ascii : Bool) : Json → List Char
  | .null => ['n', 'u', 'l', 'l']
  | .bool b => if b then ['t', 'r', 'u', 'e'] else ['f', 'a', 'l', 's', 'e']
  | .int n => intText n
  | .float f => f.chars
  | .str s => stringText ascii s
  | .arr items => '[' :: (itemsText ascii items ++ [']'])
  | .obj members => '{' :: (membersText ascii members ++ ['}'])

def itemsText (ascii : Bool) : List Json → List Char
  | [] => []
  | [v] => text ascii v
  | v :: vs => text ascii v ++ ',' :: itemsText ascii vs

def membersText (ascii : Bool) : List (String × Json) → List Char
  | [] => []
  | [(k, v)] => stringText ascii k ++ ':' :: text ascii v
  | (k, v) :: ms => stringText ascii k ++ ':' :: (text ascii v ++ ',' :: membersText ascii ms)

end

/-! ## Reading -/

def isWhitespace (c : Char) : Bool := c == ' ' || c == '\t' || c == '\n' || c == '\r'

def skip (cs : List Char) : List Char := cs.dropWhile isWhitespace

def readHex4 : List Char → Option (Nat × List Char)
  | a :: b :: c :: d :: rest => do
    let a ← hexValue a
    let b ← hexValue b
    let c ← hexValue c
    let d ← hexValue d
    return (4096 * a + 256 * b + 16 * c + d, rest)
  | _ => none

/-- After `\u`: a character, from one escape or from a surrogate pair. -/
def readUnicode (cs : List Char) : Option (Char × List Char) :=
  (readHex4 cs).bind fun r =>
    if 0xD800 ≤ r.1 ∧ r.1 < 0xDC00 then
      match r.2 with
      | '\\' :: 'u' :: rest =>
        (readHex4 rest).bind fun q =>
          if 0xDC00 ≤ q.1 ∧ q.1 < 0xE000 then some (Char.ofNat (0x10000 + (r.1 - 0xD800) * 1024 + (q.1 - 0xDC00)), q.2) else none
      | _ => none
    else if 0xDC00 ≤ r.1 ∧ r.1 < 0xE000 then none
    else some (Char.ofNat r.1, r.2)

/-- A character of a string, after its opening quote. -/
def readChar : List Char → Option (Char × List Char)
  | [] => none
  | '\\' :: [] => none
  | '\\' :: c :: rest =>
    if c = '"' ∨ c = '\\' ∨ c = '/' then some (c, rest)
    else if c = 'b' then some (Char.ofNat 8, rest)
    else if c = 't' then some ('\t', rest)
    else if c = 'n' then some ('\n', rest)
    else if c = 'f' then some (Char.ofNat 12, rest)
    else if c = 'r' then some ('\r', rest)
    else if c = 'u' then readUnicode rest
    else none
  | c :: rest => if c.toNat < 32 then none else some (c, rest)

/-- A string, after its opening quote. -/
def readString : Nat → List Char → Option (List Char × List Char)
  | 0, _ => none
  | k + 1, cs =>
    if cs.head? = some '"' then some ([], cs.tail)
    else (readChar cs).bind fun r => (readString k r.2).map fun s => (r.1 :: s.1, s.2)

/-- The value of a number's text. -/
def number? (cs : List Char) : Option Json :=
  if isNumber cs then
    if h : isFloatText cs = true then some (.float ⟨cs, h⟩)
    else
      let ds := if cs.head? = some '-' then cs.tail else cs
      let n : Int := Nat.ofDigitChars 10 ds 0
      if ds.length ≤ 4300 then some (.int (if cs.head? = some '-' then -n else n)) else none
  else none

def readNumber (cs : List Char) : Option (Json × List Char) :=
  (number? (cs.takeWhile isNumberChar)).map fun v => (v, cs.dropWhile isNumberChar)

mutual

/-- A value, after white space. -/
def readValue : Nat → List Char → Option (Json × List Char)
  | 0, _ => none
  | k + 1, cs =>
    match cs with
    | '"' :: rest => (readString rest.length rest).map fun r => (.str (String.ofList r.1), r.2)
    | '[' :: rest =>
      match skip rest with
      | ']' :: rest => some (.arr [], rest)
      | rest => (readItems k rest).map fun r => (.arr r.1, r.2)
    | '{' :: rest =>
      match skip rest with
      | '}' :: rest => some (.obj [], rest)
      | rest => (readMembers k rest).map fun r => (.obj (Dict.ofList r.1).entries, r.2)
    | 'n' :: 'u' :: 'l' :: 'l' :: rest => some (.null, rest)
    | 't' :: 'r' :: 'u' :: 'e' :: rest => some (.bool true, rest)
    | 'f' :: 'a' :: 'l' :: 's' :: 'e' :: rest => some (.bool false, rest)
    | cs => readNumber cs

/-- The items of an array, at least one, to its end. -/
def readItems : Nat → List Char → Option (List Json × List Char)
  | 0, _ => none
  | k + 1, cs =>
    (readValue k cs).bind fun r =>
      match skip r.2 with
      | ',' :: rest => (readItems k (skip rest)).map fun s => (r.1 :: s.1, s.2)
      | ']' :: rest => some ([r.1], rest)
      | _ => none

/-- The members of an object, at least one, to its end. -/
def readMembers : Nat → List Char → Option (List (String × Json) × List Char)
  | 0, _ => none
  | k + 1, cs =>
    match cs with
    | '"' :: rest =>
      (readString rest.length rest).bind fun key =>
        match skip key.2 with
        | ':' :: rest =>
          (readValue k (skip rest)).bind fun r =>
            match skip r.2 with
            | ',' :: rest => (readMembers k (skip rest)).map fun s => ((String.ofList key.1, r.1) :: s.1, s.2)
            | '}' :: rest => some ([(String.ofList key.1, r.1)], rest)
            | _ => none
        | _ => none
    | _ => none

end

/-- `json.dumps(v, separators=(",", ":")).encode("utf-8")`; `ascii` is `ensure_ascii`. -/
def dumps (ascii : Bool) (v : Json) : List UInt8 := utf8 (String.ofList (text ascii v))

/-- `json.loads` of a text. -/
def parse (cs : List Char) : Option Json :=
  (readValue (cs.length + 1) (skip cs)).bind fun r => if skip r.2 = [] then some r.1 else none

/-- `json.loads(bs.decode("utf-8"))`, and nothing where either raises. -/
def loads (bs : List UInt8) : Option Json := (ofUtf8 bs).bind fun s => parse s.toList

/-- The members of an object that is read have different keys. -/
theorem readValue_members {k : Nat} {cs rest : List Char} {members : List (String × Json)}
    (h : readValue k cs = some (.obj members, rest)) : (members.map (·.1)).Nodup := by
  cases k with
  | zero =>
    rw [readValue] at h
    cases h
  | succ k =>
    unfold readValue at h
    split at h
    · obtain ⟨r, -, he⟩ := Option.map_eq_some_iff.mp h
      cases he
    · split at h
      · cases h
      · obtain ⟨r, -, he⟩ := Option.map_eq_some_iff.mp h
        cases he
    · split at h
      · cases h
        exact List.nodup_nil
      · obtain ⟨r, -, he⟩ := Option.map_eq_some_iff.mp h
        cases he
        exact (Dict.ofList r.1).nodup
    · cases h
    · cases h
    · cases h
    · obtain ⟨v, hv, he⟩ := Option.map_eq_some_iff.mp h
      cases he
      simp only [number?] at hv
      repeat' split at hv
      all_goals cases hv

theorem loads_members {bs : List UInt8} {members : List (String × Json)} (h : loads bs = some (.obj members)) :
    (members.map (·.1)).Nodup := by
  obtain ⟨s, -, hparse⟩ := Option.bind_eq_some_iff.mp h
  obtain ⟨⟨v, rest⟩, hread, hv⟩ := Option.bind_eq_some_iff.mp hparse
  split at hv
  · cases hv
    exact readValue_members hread
  · cases hv

end Json

end PyxelVM.Lib
