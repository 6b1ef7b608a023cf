/-
  PyxelVM.Lib.Text — Python's `str.split`, `str.upper` and `int` on text, and `sorted`.

  `words` splits at white space, `upper` is exact on every character whose upper case
  has an ASCII letter, and `parseInt` is `int(s)`: a sign, Unicode decimal digits, single
  underscores between them, at most 4300 digits, and white space around it other than the
  separators U+001C to U+001F, which `split` takes for white space and `int` refuses.
  `parseInt_toString`: it reads what `str` writes, up to that length.
-/

import Mathlib.Data.List.Sort

namespace PyxelVM.Lib

/-- `c.isspace()`. -/
def isSpace (c : Char) : Bool :=
  let n := c.toNat
  (9 ≤ n && n ≤ 13) || (28 ≤ n && n ≤ 32) || (0x2000 ≤ n && n ≤ 0x200A) ||
    [0x85, 0xA0, 0x1680, 0x2028, 0x2029, 0x202F, 0x205F, 0x3000].contains n

/-- The words of the text, the current one read so far in reverse. -/
def wordsFrom : List Char → List Char → List String
  | [], w => if w = [] then [] else [String.ofList w.reverse]
  | c :: cs, w =>
    if isSpace c then if w = [] then wordsFrom cs [] else String.ofList w.reverse :: wordsFrom cs []
    else wordsFrom cs (c :: w)

/-- `s.split()`. -/
def words (s : String) : List String := wordsFrom s.toList []

/-- `c.upper()`, where that has an ASCII letter. -/
def upperChar (c : Char) : List Char :=
  if 'a' ≤ c ∧ c ≤ 'z' then [Char.ofNat (c.toNat - 32)]
  else
    match c.toNat with
    | 0xDF => ['S', 'S']
    | 0x131 => ['I']
    | 0x149 => [Char.ofNat 0x2BC, 'N']
    | 0x17F => ['S']
    | 0x1F0 => ['J', Char.ofNat 0x30C]
    | 0x1E96 => ['H', Char.ofNat 0x331]
    | 0x1E97 => ['T', Char.ofNat 0x308]
    | 0x1E98 => ['W', Char.ofNat 0x30A]
    | 0x1E99 => ['Y', Char.ofNat 0x30A]
    | 0x1E9A => ['A', Char.ofNat 0x2BE]
    | 0xFB00 => ['F', 'F']
    | 0xFB01 => ['F', 'I']
    | 0xFB02 => ['F', 'L']
    | 0xFB03 => ['F', 'F', 'I']
    | 0xFB04 => ['F', 'F', 'L']
    | 0xFB05 => ['S', 'T']
    | 0xFB06 => ['S', 'T']
    | _ => [c]

/-- `s.upper()`. -/
def upper (s : String) : String := String.ofList (s.toList.flatMap upperChar)

/-- The zeros of the Unicode decimal digits; each starts a run of ten. -/
def digitZeros : List Nat :=
  [0x0030, 0x0660, 0x06F0, 0x07C0, 0x0966, 0x09E6, 0x0A66, 0x0AE6, 0x0B66, 0x0BE6, 0x0C66, 0x0CE6, 0x0D66, 0x0DE6, 0x0E50,
    0x0ED0, 0x0F20, 0x1040, 0x1090, 0x17E0, 0x1810, 0x1946, 0x19D0, 0x1A80, 0x1A90, 0x1B50, 0x1BB0, 0x1C40, 0x1C50, 0xA620,
    0xA8D0, 0xA900, 0xA9D0, 0xA9F0, 0xAA50, 0xABF0, 0xFF10, 0x104A0, 0x10D30, 0x11066, 0x110F0, 0x11136, 0x111D0, 0x112F0,
    0x11450, 0x114D0, 0x11650, 0x116C0, 0x11730, 0x118E0, 0x11950, 0x11C50, 0x11D50, 0x11DA0, 0x16A60, 0x16AC0, 0x16B50,
    0x1D7CE, 0x1D7D8, 0x1D7E2, 0x1D7EC, 0x1D7F6, 0x1E140, 0x1E2F0, 0x1E950, 0x1FBF0]

def digit? (c : Char) : Option Nat :=
  (digitZeros.find? fun z => z ≤ c.toNat && c.toNat < z + 10).map fun z => c.toNat - z

/-- Digits, with single underscores between them. -/
def digits? : List Char → Option (List Nat)
  | [] => none
  | [c] => (digit? c).map fun d => [d]
  | c :: '_' :: cs => (digit? c).bind fun d => (digits? cs).map (d :: ·)
  | c :: cs => (digit? c).bind fun d => (digits? cs).map (d :: ·)

/-- What `int` takes for white space. -/
def isIntSpace (c : Char) : Bool := isSpace c && !(28 ≤ c.toNat && c.toNat ≤ 31)

/-- `int(s)`, and nothing where it raises a ValueError. -/
def parseInt (s : String) : Option Int :=
  let cs := ((s.toList.dropWhile isIntSpace).reverse.dropWhile isIntSpace).reverse
  let sign : Int := if cs.head? = some '-' then -1 else 1
  let ds := if cs.head? = some '-' ∨ cs.head? = some '+' then cs.tail else cs
  (digits? ds).bind fun vs =>
    if vs.length ≤ 4300 then some (sign * (vs.foldl (fun n d => 10 * n + d) 0 : Nat)) else none

/-- `sorted(ks)`, of strings: by code points. -/
def sorted (ks : List String) : List String := ks.insertionSort (· ≤ ·)

theorem mem_sorted {ks : List String} {k : String} : k ∈ sorted ks ↔ k ∈ ks := List.mem_insertionSort _

/-- It depends on which strings there are, not on their order. -/
theorem sorted_perm {ks ls : List String} (h : ks.Perm ls) : sorted ks = sorted ls :=
  (((List.perm_insertionSort _ ks).trans h).trans (List.perm_insertionSort _ ls).symm).eq_of_pairwise
    (fun _ _ _ _ => String.le_antisymm) (List.pairwise_insertionSort _ ks) (List.pairwise_insertionSort _ ls)

example : words " set_a\t 1_0 " = ["set_a", "1_0"] := by decide +kernel
example : upper "set_a" = "SET_A" := by decide +kernel
example : parseInt "-1_0" = some (-10) ∧ parseInt "1__0" = none ∧ parseInt "" = none := by decide +kernel
example : parseInt " 300\n" = some 300 ∧ parseInt "300\x1f" = none := by decide +kernel

/-! ## Reading what was written -/

theorem wordsFrom_word {cs : List Char} (h : ∀ c ∈ cs, isSpace c = false) (rest w : List Char) :
    wordsFrom (cs ++ rest) w = wordsFrom rest (cs.reverse ++ w) := by
  induction cs generalizing w with
  | nil => rfl
  | cons c cs ih =>
    obtain ⟨hc, hcs⟩ := List.forall_mem_cons.mp h
    rw [List.cons_append, wordsFrom, hc, if_neg Bool.false_ne_true, ih hcs]
    simp

/-- Two words with a blank between them. -/
theorem words_pair {a b : String} (ha : ∀ c ∈ a.toList, isSpace c = false) (hb : ∀ c ∈ b.toList, isSpace c = false)
    (hne : a.toList ≠ []) (hne' : b.toList ≠ []) : words (a ++ " " ++ b) = [a, b] := by
  have hblank : isSpace ' ' = true := by decide
  have htext : (a ++ " " ++ b).toList = a.toList ++ (' ' :: (b.toList ++ [])) := by simp [String.toList_append]
  rw [words, htext, wordsFrom_word ha, wordsFrom, if_pos hblank, if_neg (by simpa using hne), wordsFrom_word hb, wordsFrom,
    if_neg (by simpa using hne')]
  simp

theorem isDigit_range {c : Char} (h : c.isDigit = true) : 48 ≤ c.toNat ∧ c.toNat ≤ 57 := by
  simp only [Char.isDigit, Bool.and_eq_true, decide_eq_true_eq, ge_iff_le, UInt32.le_iff_toNat_le] at h
  exact h

theorem digit?_isDigit {c : Char} (h : c.isDigit = true) : digit? c = some (c.toNat - 48) := by
  have hc := isDigit_range h
  have hfind : digitZeros.find? (fun z => z ≤ c.toNat && c.toNat < z + 10) = some 48 := by
    rw [digitZeros, List.find?_cons_of_pos]
    simp
    omega
  rw [digit?, hfind]
  rfl

theorem digits?_isDigit {cs : List Char} (hne : cs ≠ []) (h : ∀ c ∈ cs, c.isDigit = true) :
    digits? cs = some (cs.map fun c => c.toNat - 48) := by
  induction cs with
  | nil => exact absurd rfl hne
  | cons c cs ih =>
    obtain ⟨hc, hcs⟩ := List.forall_mem_cons.mp h
    cases cs with
    | nil => rw [digits?, digit?_isDigit hc]; rfl
    | cons d cs =>
      have hd : d ≠ '_' := by
        intro he
        subst he
        exact absurd (List.forall_mem_cons.mp hcs).1 (by decide)
      have hstep : digits? (c :: d :: cs) = (digit? c).bind fun v => (digits? (d :: cs)).map (v :: ·) := by
        rw [digits?.eq_def]
        split
        · rename_i heq; cases heq
        · rename_i heq; cases heq
        · rename_i heq; cases heq; exact absurd rfl hd
        · rename_i heq; cases heq; rfl
      rw [hstep, digit?_isDigit hc, ih (List.cons_ne_nil _ _) hcs]
      rfl

theorem isSpace_digit {c : Char} (h : c.isDigit = true) : isSpace c = false := by
  have hc := isDigit_range h
  unfold isSpace
  generalize c.toNat = k at hc
  simp only [List.contains_eq_mem, List.mem_cons, List.not_mem_nil, or_false, Bool.or_eq_false_iff, Bool.and_eq_false_iff,
    decide_eq_false_iff_not]
  omega

theorem strip_text {cs : List Char} (h : ∀ c ∈ cs, isSpace c = false) :
    ((cs.dropWhile isIntSpace).reverse.dropWhile isIntSpace).reverse = cs := by
  have hdrop {ds : List Char} (hd : ∀ c ∈ ds, isSpace c = false) : ds.dropWhile isIntSpace = ds := by
    cases ds with
    | nil => rfl
    | cons d ds => rw [List.dropWhile_cons_of_neg (by simp [isIntSpace, hd d (List.mem_cons_self ..)])]
  rw [hdrop h, hdrop fun c hc => h c (List.mem_reverse.mp hc), List.reverse_reverse]

theorem foldl_digits (cs : List Char) (k : Nat) :
    (cs.map fun c => c.toNat - 48).foldl (fun n d => 10 * n + d) k = Nat.ofDigitChars 10 cs k := by
  rw [List.foldl_map, Nat.ofDigitChars_eq_foldl]
  rfl

theorem toList_toString (n : Int) :
    (toString n).toList = if n < 0 then '-' :: Nat.toDigits 10 n.natAbs else Nat.toDigits 10 n.natAbs := by
  rw [Int.toString_eq_repr, Int.repr_eq_if]
  by_cases hn : n < 0
  · have habs : (-n).toNat = n.natAbs := by omega
    rw [if_neg (by omega), if_pos hn, String.toList_append, habs]
    simp
  · have habs : n.toNat = n.natAbs := by omega
    rw [if_pos (by omega), if_neg hn, habs]
    simp

theorem toDigits_injective : Function.Injective (Nat.toDigits 10) := by
  intro a b h
  rw [← Nat.ofDigitChars_ten_toDigits (n := a), h, Nat.ofDigitChars_ten_toDigits]

theorem head_toDigits (n : Nat) : (Nat.toDigits 10 n).head? ≠ some '-' := by
  intro h
  exact absurd (Nat.isDigit_of_mem_toDigits (by decide) (by decide) (List.mem_of_mem_head? h)) (by decide)

theorem toString_int_injective : Function.Injective (toString : Int → String) := by
  intro a b h
  have hlist := congrArg String.toList h
  rw [toList_toString, toList_toString] at hlist
  split at hlist
  · split at hlist
    · have habs := toDigits_injective (List.cons.inj hlist).2
      omega
    · exact absurd (congrArg List.head? hlist).symm (head_toDigits _)
  · split at hlist
    · exact absurd (congrArg List.head? hlist) (head_toDigits _)
    · have habs := toDigits_injective hlist
      omega

/-- A number, up to something that is no digit, and what follows. -/
theorem toString_append_injective {a b : Nat} {c : Char} (hc : c.isDigit = false) {xs ys : List Char}
    (h : (toString a).toList ++ c :: xs = (toString b).toList ++ c :: ys) : a = b ∧ xs = ys := by
  have hdigits (n : Nat) : (toString n).toList = Nat.toDigits 10 n := by simp
  have htake (n : Nat) (zs : List Char) : ((toString n).toList ++ c :: zs).takeWhile Char.isDigit = Nat.toDigits 10 n := by
    rw [hdigits, List.takeWhile_append_of_pos fun d hd => Nat.isDigit_of_mem_toDigits (by decide) (by decide) hd,
      List.takeWhile_cons_of_neg (by simp [hc]), List.append_nil]
  have hab : a = b := by
    apply toDigits_injective
    rw [← htake a xs, h, htake]
  subst hab
  exact ⟨rfl, (List.cons.inj (List.append_cancel_left h)).2⟩

/-- The text of a number holds no white space. -/
theorem isSpace_toString (n : Int) : ∀ c ∈ (toString n).toList, isSpace c = false := by
  have hd (c : Char) (hc : c ∈ Nat.toDigits 10 n.natAbs) : isSpace c = false :=
    isSpace_digit (Nat.isDigit_of_mem_toDigits (by decide) (by decide) hc)
  intro c hc
  rw [toList_toString] at hc
  split at hc
  · rcases List.mem_cons.mp hc with rfl | hc
    · decide
    · exact hd c hc
  · exact hd c hc

theorem toString_ne_nil (n : Int) : (toString n).toList ≠ [] := by
  rw [toList_toString]
  split
  · exact List.cons_ne_nil _ _
  · exact Nat.toDigits_ne_nil

/-- `int(str(n))`, for as many digits as it takes. -/
theorem parseInt_toString (n : Int) :
    parseInt (toString n) = if (Nat.toDigits 10 n.natAbs).length ≤ 4300 then some n else none := by
  have hdigits : digits? (Nat.toDigits 10 n.natAbs) = some ((Nat.toDigits 10 n.natAbs).map fun c => c.toNat - 48) :=
    digits?_isDigit Nat.toDigits_ne_nil fun c hc => Nat.isDigit_of_mem_toDigits (by decide) (by decide) hc
  have hsign : (Nat.toDigits 10 n.natAbs).head? ≠ some '-' ∧ (Nat.toDigits 10 n.natAbs).head? ≠ some '+' := by
    have hd (c : Char) (hc : (Nat.toDigits 10 n.natAbs).head? = some c) : c.isDigit = true :=
      Nat.isDigit_of_mem_toDigits (by decide) (by decide) (List.mem_of_mem_head? hc)
    exact ⟨fun h => absurd (hd _ h) (by decide), fun h => absurd (hd _ h) (by decide)⟩
  simp only [parseInt, strip_text (isSpace_toString n)]
  rw [toList_toString]
  by_cases hn : n < 0
  · simp only [if_pos hn, List.head?_cons, List.tail_cons, true_or, if_true, hdigits, Option.bind_some, List.length_map,
      foldl_digits, Nat.ofDigitChars_ten_toDigits]
    split
    · rw [Option.some_inj]
      omega
    · rfl
  · simp only [if_neg hn, hsign.1, hsign.2, or_false, if_false, hdigits, Option.bind_some, List.length_map,
      foldl_digits, Nat.ofDigitChars_ten_toDigits]
    split
    · rw [Option.some_inj]
      omega
    · rfl

end PyxelVM.Lib
