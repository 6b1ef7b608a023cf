/-
  PyxelVM.Lib.JsonRoundTrip — `json.loads` gives back what `json.dumps` wrote.

  `loads_dumps`: for a value whose objects have no key twice and whose integers have at
  most 4300 digits (`Normal`), under either `ensure_ascii`. Below it one lemma for each
  reader, on what the writer wrote followed by anything: `readChar_escapeChar`,
  `readString_escaped`, `readNumber_intText`, and `readValue_text` by the shape of the
  value. The length of the text is always steps enough.
-/

import Mathlib.Data.List.TakeWhile
import PyxelVM.Lib.JsonText

namespace PyxelVM.Lib

namespace Json

/-! ## Normal values -/

mutual

/-- No object has a key twice, and no integer more digits than Python converts. -/
def Normal : Json → Prop
  | .int n => (Nat.toDigits 10 n.natAbs).length ≤ 4300
  | .arr items => NormalItems items
  | .obj members => (members.map (·.1)).Nodup ∧ NormalMembers members
  | _ => True

def NormalItems : List Json → Prop
  | [] => True
  | v :: vs => v.Normal ∧ NormalItems vs

def NormalMembers : List (String × Json) → Prop
  | [] => True
  | (_, v) :: ms => v.Normal ∧ NormalMembers ms

end

theorem normalMembers_iff {ms : List (String × Json)} : NormalMembers ms ↔ ∀ m ∈ ms, m.2.Normal := by
  induction ms with
  | nil => simp [NormalMembers]
  | cons m ms ih => simp [NormalMembers, ih]

/-! ## Strings -/

theorem readHex4_hex4 {n : Nat} (h : n < 65536) (rest : List Char) : readHex4 (hex4 n ++ rest) = some (n, rest) := by
  have h1 := (hexDigit_ok (n / 4096 % 16) (by omega)).2
  have h2 := (hexDigit_ok (n / 256 % 16) (by omega)).2
  have h3 := (hexDigit_ok (n / 16 % 16) (by omega)).2
  have h4 := (hexDigit_ok (n % 16) (by omega)).2
  have hn : 4096 * (n / 4096 % 16) + 256 * (n / 256 % 16) + 16 * (n / 16 % 16) + n % 16 = n := by omega
  simp only [hex4, List.cons_append, List.nil_append, readHex4, h1, h2, h3, h4, hn, Option.bind_eq_bind, Option.bind_some,
    Option.pure_def]

theorem toNat_bounds (c : Char) : c.toNat < 0xD800 ∨ 0xDFFF < c.toNat ∧ c.toNat < 0x110000 := c.valid

theorem readUnicode_small {c : Char} (h : c.toNat < 0x10000) (rest : List Char) :
    readUnicode (hex4 c.toNat ++ rest) = some (c, rest) := by
  have hb := toNat_bounds c
  have h1 : ¬(0xD800 ≤ c.toNat ∧ c.toNat < 0xDC00) := by omega
  have h2 : ¬(0xDC00 ≤ c.toNat ∧ c.toNat < 0xE000) := by omega
  rw [readUnicode, readHex4_hex4 (by omega), Option.bind_some, if_neg h1, if_neg h2, Char.ofNat_toNat]

theorem readUnicode_pair {c : Char} (h : ¬c.toNat < 0x10000) (rest : List Char) :
    readUnicode (hex4 (0xD800 + (c.toNat - 0x10000) / 1024) ++ (unicodeEscape (0xDC00 + (c.toNat - 0x10000) % 1024) ++ rest)) =
      some (c, rest) := by
  have hb := toNat_bounds c
  have hc : 0x10000 + (0xD800 + (c.toNat - 0x10000) / 1024 - 0xD800) * 1024 +
      (0xDC00 + (c.toNat - 0x10000) % 1024 - 0xDC00) = c.toNat := by omega
  rw [readUnicode, readHex4_hex4 (by omega), Option.bind_some]
  simp only [unicodeEscape, List.cons_append]
  rw [if_pos (by omega), readHex4_hex4 (by omega), Option.bind_some, if_pos (by omega), hc, Char.ofNat_toNat]

theorem readChar_plain {c : Char} (hq : c ≠ '\\') (h : ¬c.toNat < 32) (rest : List Char) :
    readChar (c :: rest) = some (c, rest) := by
  unfold readChar
  split
  · contradiction
  · rename_i e; cases e; contradiction
  · rename_i e; cases e; contradiction
  · rename_i e; cases e; rw [if_neg h]

theorem eq_of_toNat {c : Char} {n : Nat} (h : c.toNat = n) : c = Char.ofNat n := by rw [← h, Char.ofNat_toNat]

theorem readChar_escapeChar (ascii : Bool) (c : Char) (rest : List Char) :
    readChar (escapeChar ascii c ++ rest) = some (c, rest) := by
  unfold escapeChar
  simp only
  split
  · rename_i h; subst h; rfl
  split
  · rename_i h; subst h; rfl
  split
  · rename_i h; rw [eq_of_toNat h]; rfl
  split
  · rename_i h; rw [eq_of_toNat h]; rfl
  split
  · rename_i h; rw [eq_of_toNat h]; rfl
  split
  · rename_i h; rw [eq_of_toNat h]; rfl
  split
  · rename_i h; rw [eq_of_toNat h]; rfl
  split
  · split
    · exact readUnicode_small ‹_› rest
    · rw [List.append_assoc]
      exact readUnicode_pair ‹_› rest
  · exact readChar_plain ‹_› (fun h => absurd (Or.inl h) ‹_›) rest

theorem head_escapeChar (ascii : Bool) (c : Char) : ∃ d ds, escapeChar ascii c = d :: ds ∧ d ≠ '"' := by
  unfold escapeChar
  simp only [unicodeEscape]
  repeat' split
  all_goals first
    | exact ⟨_, _, rfl, by decide⟩
    | exact ⟨_, _, rfl, ‹_›⟩

theorem readString_escaped (ascii : Bool) (cs rest : List Char) {k : Nat} (h : cs.length < k) :
    readString k (cs.flatMap (escapeChar ascii) ++ '"' :: rest) = some (cs, rest) := by
  induction cs generalizing k with
  | nil =>
    cases k with
    | zero => omega
    | succ k => rfl
  | cons c cs ih =>
    cases k with
    | zero => omega
    | succ k =>
      obtain ⟨d, ds, hd, hq⟩ := head_escapeChar ascii c
      have hne : (escapeChar ascii c ++ (cs.flatMap (escapeChar ascii) ++ '"' :: rest)).head? ≠ some '"' := by simp [hd, hq]
      rw [List.flatMap_cons, List.append_assoc, readString, if_neg hne, readChar_escapeChar, Option.bind_some,
        ih (by simpa using h), Option.map_some]

theorem length_le_escaped (ascii : Bool) (cs : List Char) : cs.length ≤ (cs.flatMap (escapeChar ascii)).length := by
  induction cs with
  | nil => exact Nat.le_refl 0
  | cons c cs ih =>
    obtain ⟨d, ds, hd, -⟩ := head_escapeChar ascii c
    simp only [List.flatMap_cons, List.length_append, List.length_cons, hd]
    omega

/-- A string's text, after its opening quote, and whatever follows. -/
theorem readString_text (ascii : Bool) (s : String) (rest : List Char) :
    readString (s.toList.flatMap (escapeChar ascii) ++ '"' :: rest).length (s.toList.flatMap (escapeChar ascii) ++ '"' :: rest) =
      some (s.toList, rest) := by
  have h := length_le_escaped ascii s.toList
  apply readString_escaped ascii s.toList rest
  rw [List.length_append, List.length_cons]
  omega

/-! ## Numbers -/

/-- Digits as JSON has them: some, and no zero before others. -/
structure Digits (ds : List Char) : Prop where
  digits : ∀ c ∈ ds, c.isDigit = true
  ne_nil : ds ≠ []
  zero : ds = ['0'] ∨ ds.head? ≠ some '0'

theorem digitChar_ne_zero : ∀ n < 10, n ≠ 0 → n.digitChar ≠ '0' := by decide

theorem head_toDigits {n : Nat} (h : n ≠ 0) : (Nat.toDigits 10 n).head? ≠ some '0' := by
  induction n using Nat.strongRecOn with
  | ind n ih =>
    rcases Nat.lt_or_ge n 10 with hlt | hge
    · rw [Nat.toDigits_of_lt_base hlt, List.head?_cons, ne_eq, Option.some_inj]
      exact digitChar_ne_zero n hlt h
    · rw [Nat.toDigits_of_base_le (by decide) hge, List.head?_append_of_ne_nil _ Nat.toDigits_ne_nil]
      exact ih (n / 10) (by omega) (by omega)

theorem digits_toDigits (n : Nat) : Digits (Nat.toDigits 10 n) where
  digits c hc := Nat.isDigit_of_mem_toDigits (by decide) (by decide) hc
  ne_nil := Nat.toDigits_ne_nil
  zero := by
    by_cases h : n = 0
    · rw [h]; exact .inl rfl
    · exact .inr (head_toDigits h)

theorem digit_props {c : Char} (h : c.isDigit = true) : isNumberChar c = true ∧ c ≠ '-' ∧ c ≠ '.' ∧ c ≠ 'e' ∧ c ≠ 'E' := by
  refine ⟨by simp [isNumberChar, h], ?_, ?_, ?_, ?_⟩ <;> (rintro rfl; revert h; decide)

namespace Digits

variable {ds : List Char}

theorem head_ne_minus (h : Digits ds) : ds.head? ≠ some '-' := by
  obtain ⟨d, ds', rfl⟩ := List.exists_cons_of_ne_nil h.ne_nil
  rw [List.head?_cons, ne_eq, Option.some_inj]
  exact (digit_props (h.digits d (List.mem_cons_self ..))).2.1

theorem isNumber_whole (h : Digits ds) :
    (!(ds.takeWhile Char.isDigit).isEmpty && (ds.takeWhile Char.isDigit == ['0'] || (ds.takeWhile Char.isDigit).head? != some '0') &&
      isFraction (ds.dropWhile Char.isDigit)) = true := by
  have ht : ds.takeWhile Char.isDigit = ds := List.takeWhile_eq_self_iff.mpr h.digits
  have hd : ds.dropWhile Char.isDigit = [] := List.dropWhile_eq_nil_iff.mpr h.digits
  rw [ht, hd]
  rcases h.zero with hz | hz
  · subst hz; decide
  · simp [h.ne_nil, hz, isFraction, isExponent]

theorem isNumber (h : Digits ds) : isNumber ds = true ∧ Lib.isNumber ('-' :: ds) = true := by
  constructor
  · unfold Lib.isNumber
    rw [if_neg h.head_ne_minus]
    exact h.isNumber_whole
  · exact h.isNumber_whole

theorem not_isFloatText (h : Digits ds) : isFloatText ds = false ∧ isFloatText ('-' :: ds) = false := by
  have hn : (ds.any fun c => c == '.' || c == 'e' || c == 'E') = false := by
    simp only [List.any_eq_false, Bool.not_eq_true, Bool.or_eq_false_iff, beq_eq_false_iff_ne]
    intro c hc
    obtain ⟨-, -, h1, h2, h3⟩ := digit_props (h.digits c hc)
    exact ⟨⟨h1, h2⟩, h3⟩
  simp [isFloatText, hn]

theorem numberChars (h : Digits ds) : ∀ c ∈ ds, isNumberChar c = true := fun c hc => (digit_props (h.digits c hc)).1

end Digits

theorem number?_intText {n : Int} (h : (Nat.toDigits 10 n.natAbs).length ≤ 4300) : number? (intText n) = some (.int n) := by
  have hd := digits_toDigits n.natAbs
  unfold intText
  split
  · have hn : -(n.natAbs : Int) = n := by omega
    rw [number?, if_pos hd.isNumber.2, dif_neg (by rw [hd.not_isFloatText.2]; exact Bool.false_ne_true)]
    simp only [List.head?_cons, if_true, List.tail_cons, if_pos h, Nat.ofDigitChars_ten_toDigits, hn]
  · have hn : (n.natAbs : Int) = n := by omega
    rw [number?, if_pos hd.isNumber.1, dif_neg (by rw [hd.not_isFloatText.1]; exact Bool.false_ne_true)]
    simp only [if_neg hd.head_ne_minus, if_pos h, Nat.ofDigitChars_ten_toDigits, hn]

theorem number?_float (f : FloatText) : number? f.chars = some (.float f) := by
  have hn : Lib.isNumber f.chars = true := by
    have := f.ok
    simp only [isFloatText, Bool.and_eq_true] at this
    exact this.1.1
  rw [number?, if_pos hn, dif_pos f.ok]

/-- No number goes on here. -/
def Stops (rest : List Char) : Prop := ∀ c ∈ rest.head?, isNumberChar c = false

theorem stops_cons {c : Char} {cs : List Char} (h : isNumberChar c = false) : Stops (c :: cs) := by
  intro d hd
  cases hd
  exact h

theorem readNumber_stops {cs rest : List Char} {v : Json} (hc : ∀ c ∈ cs, isNumberChar c = true) (hr : Stops rest)
    (hv : number? cs = some v) : readNumber (cs ++ rest) = some (v, rest) := by
  have ht : (cs ++ rest).takeWhile isNumberChar = cs := by
    rw [List.takeWhile_append_of_pos hc]
    cases rest with
    | nil => simp
    | cons d ds => simp [hr d rfl]
  have hd : (cs ++ rest).dropWhile isNumberChar = rest := by
    rw [List.dropWhile_append_of_pos hc]
    cases rest with
    | nil => rfl
    | cons d ds => simp [hr d rfl]
  rw [readNumber, ht, hd, hv, Option.map_some]

/-! ## Values -/

/-- What a value's text begins with: no white space, and neither bracket that ends a list. -/
def Begins (cs : List Char) : Prop := ∃ c ds, cs = c :: ds ∧ isWhitespace c = false ∧ c ≠ ']' ∧ c ≠ '}'

theorem Begins.append {cs : List Char} (h : Begins cs) (rest : List Char) : Begins (cs ++ rest) := by
  obtain ⟨c, ds, rfl, hc⟩ := h
  exact ⟨c, ds ++ rest, rfl, hc⟩

theorem Begins.skip {cs : List Char} (h : Begins cs) : skip cs = cs := by
  obtain ⟨c, ds, rfl, hw, -⟩ := h
  simp [Json.skip, hw]

theorem numberChar_begins : ∀ c : Char, isNumberChar c = true → isWhitespace c = false ∧ c ≠ ']' ∧ c ≠ '}' ∧
    c ≠ '"' ∧ c ≠ '[' ∧ c ≠ '{' ∧ c ≠ 'n' ∧ c ≠ 't' ∧ c ≠ 'f' := by
  intro c h
  have hne : ∀ d : Char, isNumberChar d = false → c ≠ d := fun d hd e => by rw [e, hd] at h; cases h
  refine ⟨?_, ?_, ?_, ?_, ?_, ?_, ?_, ?_, ?_⟩
  · simp only [isWhitespace, Bool.or_eq_false_iff, beq_eq_false_iff_ne]
    exact ⟨⟨⟨hne _ (by decide), hne _ (by decide)⟩, hne _ (by decide)⟩, hne _ (by decide)⟩
  all_goals exact hne _ (by decide)

theorem intText_chars (n : Int) : intText n ≠ [] ∧ ∀ c ∈ intText n, isNumberChar c = true := by
  have hd := digits_toDigits n.natAbs
  unfold intText
  split
  · refine ⟨List.cons_ne_nil _ _, ?_⟩
    intro c hc
    rcases List.mem_cons.mp hc with rfl | hc
    · rfl
    · exact hd.numberChars c hc
  · exact ⟨hd.ne_nil, hd.numberChars⟩

theorem floatText_chars (f : FloatText) : f.chars ≠ [] ∧ ∀ c ∈ f.chars, isNumberChar c = true := by
  have h := f.ok
  simp only [isFloatText, Bool.and_eq_true, List.all_eq_true] at h
  refine ⟨?_, h.1.2⟩
  intro e
  rw [e] at h
  exact absurd h.2 (by decide)

theorem begins_of_numberChars {cs : List Char} (h : cs ≠ [] ∧ ∀ c ∈ cs, isNumberChar c = true) : Begins cs := by
  obtain ⟨c, ds, rfl⟩ := List.exists_cons_of_ne_nil h.1
  obtain ⟨hw, h1, h2, -⟩ := numberChar_begins c (h.2 c (List.mem_cons_self ..))
  exact ⟨c, ds, rfl, hw, h1, h2⟩

theorem text_begins (ascii : Bool) (v : Json) : Begins (text ascii v) := by
  cases v with
  | null => exact ⟨_, _, rfl, by decide⟩
  | bool b => cases b <;> exact ⟨_, _, rfl, by decide⟩
  | int n => exact begins_of_numberChars (intText_chars n)
  | float f => exact begins_of_numberChars (floatText_chars f)
  | str s => exact ⟨_, _, rfl, by decide⟩
  | arr items => exact ⟨_, _, rfl, by decide⟩
  | obj members => exact ⟨_, _, rfl, by decide⟩

theorem itemsText_begins (ascii : Bool) (v : Json) (vs : List Json) : Begins (itemsText ascii (v :: vs)) := by
  cases vs with
  | nil => exact text_begins ascii v
  | cons w vs => exact (text_begins ascii v).append _

theorem membersText_begins (ascii : Bool) (m : String × Json) (ms : List (String × Json)) :
    Begins (membersText ascii (m :: ms)) := by
  obtain ⟨k, v⟩ := m
  cases ms with
  | nil => exact ⟨_, _, rfl, by decide⟩
  | cons m ms => exact ⟨_, _, rfl, by decide⟩

/-- A number's text is read as one. -/
theorem readValue_number {cs : List Char} (h : cs ≠ [] ∧ ∀ c ∈ cs, isNumberChar c = true) (k : Nat) (rest : List Char) :
    readValue (k + 1) (cs ++ rest) = readNumber (cs ++ rest) := by
  obtain ⟨c, ds, rfl⟩ := List.exists_cons_of_ne_nil h.1
  obtain ⟨-, -, -, h1, h2, h3, h4, h5, h6⟩ := numberChar_begins c (h.2 c (List.mem_cons_self ..))
  rw [List.cons_append, readValue]
  all_goals
    intro ds' e
    have := (List.cons.inj e).1
    contradiction

theorem readValue_arr {cs : List Char} (h : Begins cs) (k : Nat) :
    readValue (k + 1) ('[' :: cs) = (readItems k cs).map fun r => (.arr r.1, r.2) := by
  have hs := h.skip
  obtain ⟨c, ds, rfl, -, hc, -⟩ := h
  simp only [readValue, hs]
  split
  · exact absurd (List.cons.inj ‹_›).1 hc
  · rfl

theorem readValue_obj {cs : List Char} (h : Begins cs) (k : Nat) :
    readValue (k + 1) ('{' :: cs) = (readMembers k cs).map fun r => (.obj (Dict.ofList r.1).entries, r.2) := by
  have hs := h.skip
  obtain ⟨c, ds, rfl, -, -, hc⟩ := h
  simp only [readValue, hs]
  split
  · exact absurd (List.cons.inj ‹_›).1 hc
  · rfl

mutual

theorem readValue_text (ascii : Bool) : ∀ (v : Json) (k : Nat) (rest : List Char), v.Normal → (text ascii v).length < k →
    Stops rest → readValue k (text ascii v ++ rest) = some (v, rest)
  | v, 0, rest, _, hk, _ => by omega
  | .null, k + 1, rest, _, _, _ => rfl
  | .bool true, k + 1, rest, _, _, _ => rfl
  | .bool false, k + 1, rest, _, _, _ => rfl
  | .int n, k + 1, rest, hv, _, hr => by
    rw [text, readValue_number (intText_chars n), readNumber_stops (intText_chars n).2 hr (number?_intText hv)]
  | .float f, k + 1, rest, _, _, hr => by
    rw [text, readValue_number (floatText_chars f), readNumber_stops (floatText_chars f).2 hr (number?_float f)]
  | .str s, k + 1, rest, _, _, _ => by
    simp only [text, stringText, List.cons_append, List.append_assoc, List.nil_append, readValue]
    rw [readString_text, Option.map_some, String.ofList_toList]
  | .arr [], k + 1, rest, _, _, _ => rfl
  | .arr (v :: vs), k + 1, rest, hv, hk, _ => by
    have hlen : (itemsText ascii (v :: vs)).length + 1 < k := by simpa [text] using hk
    simp only [text, List.cons_append, List.append_assoc, List.nil_append]
    rw [readValue_arr ((itemsText_begins ascii v vs).append _), readItems_text ascii (v :: vs) k rest (List.cons_ne_nil v vs) hv hlen,
      Option.map_some]
  | .obj [], k + 1, rest, _, _, _ => rfl
  | .obj (m :: ms), k + 1, rest, hv, hk, _ => by
    have hlen : (membersText ascii (m :: ms)).length + 1 < k := by simpa [text] using hk
    simp only [text, List.cons_append, List.append_assoc, List.nil_append]
    rw [readValue_obj ((membersText_begins ascii m ms).append _),
      readMembers_text ascii (m :: ms) k rest (List.cons_ne_nil m ms) hv.2 hlen, Option.map_some, Dict.entries_ofList hv.1]

theorem readItems_text (ascii : Bool) : ∀ (vs : List Json) (k : Nat) (rest : List Char), vs ≠ [] → NormalItems vs →
    (itemsText ascii vs).length + 1 < k → readItems k (itemsText ascii vs ++ ']' :: rest) = some (vs, rest)
  | [], k, rest, hne, _, _ => absurd rfl hne
  | v :: vs, 0, rest, _, _, hk => by omega
  | [v], k + 1, rest, _, hv, hk => by
    have hlen : (text ascii v).length < k := by simpa [itemsText] using hk
    rw [itemsText, readItems, readValue_text ascii v k _ hv.1 hlen (stops_cons rfl)]
    rfl
  | v :: w :: vs, k + 1, rest, _, hv, hk => by
    have hlen : (text ascii v).length + (itemsText ascii (w :: vs)).length + 2 < k + 1 := by
      simp only [itemsText, List.length_append, List.length_cons] at hk ⊢; omega
    have hs := ((itemsText_begins ascii w vs).append (']' :: rest)).skip
    have hread := readItems_text ascii (w :: vs) k rest (List.cons_ne_nil w vs) hv.2 (by omega)
    simp only [itemsText, List.append_assoc, List.cons_append, readItems]
    rw [readValue_text ascii v k _ hv.1 (by omega) (stops_cons rfl), Option.bind_some]
    show (readItems k (skip (itemsText ascii (w :: vs) ++ ']' :: rest))).map _ = _
    rw [hs, hread, Option.map_some]

theorem readMembers_text (ascii : Bool) : ∀ (ms : List (String × Json)) (k : Nat) (rest : List Char), ms ≠ [] →
    NormalMembers ms → (membersText ascii ms).length + 1 < k →
    readMembers k (membersText ascii ms ++ '}' :: rest) = some (ms, rest)
  | [], k, rest, hne, _, _ => absurd rfl hne
  | m :: ms, 0, rest, _, _, hk => by omega
  | [(key, v)], k + 1, rest, _, hv, hk => by
    have hlen : (text ascii v).length < k := by
      simp only [membersText, stringText, List.length_append, List.length_cons] at hk; omega
    have hs := ((text_begins ascii v).append ('}' :: rest)).skip
    simp only [membersText, stringText, List.cons_append, List.append_assoc, List.nil_append, readMembers, readString_text,
      Option.bind_some]
    show (readValue k (skip (text ascii v ++ '}' :: rest))).bind _ = _
    rw [hs, readValue_text ascii v k _ hv.1 hlen (stops_cons rfl), Option.bind_some]
    show some ([(String.ofList key.toList, v)], rest) = _
    rw [String.ofList_toList]
  | (key, v) :: m :: ms, k + 1, rest, _, hv, hk => by
    have hlen : (text ascii v).length + (membersText ascii (m :: ms)).length + 2 < k + 1 := by
      simp only [membersText, List.length_append, List.length_cons] at hk; omega
    have hs := ((text_begins ascii v).append (',' :: (membersText ascii (m :: ms) ++ '}' :: rest))).skip
    have hs' := ((membersText_begins ascii m ms).append ('}' :: rest)).skip
    have hread := readMembers_text ascii (m :: ms) k rest (List.cons_ne_nil m ms) hv.2 (by omega)
    simp only [membersText, stringText, List.cons_append, List.append_assoc, List.nil_append, readMembers, readString_text,
      Option.bind_some]
    show (readValue k (skip (text ascii v ++ ',' :: (membersText ascii (m :: ms) ++ '}' :: rest)))).bind _ = _
    rw [hs, readValue_text ascii v k _ hv.1 (by omega) (stops_cons rfl), Option.bind_some]
    show (readMembers k (skip (membersText ascii (m :: ms) ++ '}' :: rest))).map _ = _
    rw [hs', hread, Option.map_some, String.ofList_toList]

end

/-! ## The whole text -/

theorem parse_text (ascii : Bool) {v : Json} (h : v.Normal) : parse (text ascii v) = some v := by
  have hread := readValue_text ascii v ((text ascii v).length + 1) [] h (Nat.lt_succ_self _) (fun c hc => nomatch hc)
  rw [List.append_nil] at hread
  rw [parse, (text_begins ascii v).skip, hread]
  rfl

theorem loads_dumps (ascii : Bool) {v : Json} (h : v.Normal) : loads (dumps ascii v) = some v := by
  rw [loads, dumps, ofUtf8_utf8, Option.bind_some, String.toList_ofList, parse_text ascii h]

theorem loads_nil : loads [] = none := by
  have h : ofUtf8 [] = some "" := ofUtf8_utf8 ""
  rw [loads, h]
  rfl

theorem dumps_ne_nil (ascii : Bool) {v : Json} (h : v.Normal) : dumps ascii v ≠ [] := by
  intro e
  have hl := loads_dumps ascii h
  rw [e, loads_nil] at hl
  cases hl

end Json

end PyxelVM.Lib
