/-
  PyxelVM.Lib.Bytes — big-endian numbers and slices of byte strings.

  `toBytes` is Python's `n.to_bytes(w, "big")`, `fromBytes` its `int.from_bytes`, and
  `splice` the assignment to a slice that keeps the length. `slice_splice`: what was
  assigned is read back, whatever was there.
-/

import Mathlib.Algebra.Group.Nat.Defs
import Mathlib.Data.List.Basic
import Mathlib.Data.List.Induction

namespace PyxelVM.Lib

/-! ## Numbers -/

/-- The `w` last digits of `n` in base 256, the highest first. -/
def bigEndian : Nat → Nat → List UInt8
  | 0, _ => []
  | w + 1, n => bigEndian w (n / 256) ++ [UInt8.ofNat (n % 256)]

/-- `n.to_bytes(w, "big")`: none where it raises OverflowError. -/
def toBytes (w n : Nat) : Option (List UInt8) := if n < 256 ^ w then some (bigEndian w n) else none

/-- `int.from_bytes(bs, "big")`. -/
def fromBytes (bs : List UInt8) : Nat := bs.foldl (fun n b => 256 * n + b.toNat) 0

@[simp] theorem length_bigEndian (w n : Nat) : (bigEndian w n).length = w := by
  induction w generalizing n with
  | zero => rfl
  | succ w ih => simp [bigEndian, ih]

theorem fromBytes_bigEndian {w n : Nat} (h : n < 256 ^ w) : fromBytes (bigEndian w n) = n := by
  induction w generalizing n with
  | zero =>
    have hn : n = 0 := by simpa using h
    rw [hn]; rfl
  | succ w ih =>
    have hlt : n / 256 < 256 ^ w := Nat.div_lt_of_lt_mul (by rwa [Nat.pow_succ, Nat.mul_comm] at h)
    have hb : (UInt8.ofNat (n % 256)).toNat = n % 256 := UInt8.toNat_ofNat_of_lt' (Nat.mod_lt _ (by decide))
    have ih := ih hlt
    unfold fromBytes at ih ⊢
    rw [bigEndian, List.foldl_append, ih, List.foldl_cons, List.foldl_nil, hb]
    omega

theorem fromBytes_concat (bs : List UInt8) (b : UInt8) : fromBytes (bs ++ [b]) = 256 * fromBytes bs + b.toNat := by
  simp [fromBytes]

theorem fromBytes_lt (bs : List UInt8) : fromBytes bs < 256 ^ bs.length := by
  induction bs using List.reverseRecOn with
  | nil => decide
  | append_singleton bs b ih =>
    have hb := b.toNat_lt
    rw [fromBytes_concat, List.length_append, List.length_singleton, Nat.pow_succ]
    omega

theorem bigEndian_fromBytes (bs : List UInt8) : bigEndian bs.length (fromBytes bs) = bs := by
  induction bs using List.reverseRecOn with
  | nil => rfl
  | append_singleton bs b ih =>
    have hb := b.toNat_lt
    have hdiv : (256 * fromBytes bs + b.toNat) / 256 = fromBytes bs := by omega
    have hmod : (256 * fromBytes bs + b.toNat) % 256 = b.toNat := by omega
    rw [fromBytes_concat, List.length_append, List.length_singleton, bigEndian, hdiv, hmod, ih, UInt8.ofNat_toNat]

/-! ## Slices -/

/-- `bs[i : i + n]`. -/
def slice (bs : List UInt8) (i n : Nat) : List UInt8 := (bs.drop i).take n

/-- `bs[i : i + len(raw)] = raw`. -/
def splice (bs : List UInt8) (i : Nat) (raw : List UInt8) : List UInt8 := bs.take i ++ raw ++ bs.drop (i + raw.length)

variable {bs raw : List UInt8} {i : Nat}

theorem length_slice {n : Nat} (h : i + n ≤ bs.length) : (slice bs i n).length = n := by
  simp only [slice, List.length_take, List.length_drop]
  omega

theorem length_splice (h : i + raw.length ≤ bs.length) : (splice bs i raw).length = bs.length := by
  simp only [splice, List.length_append, List.length_take, List.length_drop]
  omega

theorem slice_splice (h : i + raw.length ≤ bs.length) : slice (splice bs i raw) i raw.length = raw := by
  have hi : (bs.take i).length = i := List.length_take_of_le (by omega)
  rw [slice, splice, List.append_assoc, List.drop_left' hi, List.take_left' rfl]

theorem getElem?_splice (h : i + raw.length ≤ bs.length) (j : Nat) :
    (splice bs i raw)[j]? = if i ≤ j ∧ j < i + raw.length then raw[j - i]? else bs[j]? := by
  have hi : (bs.take i).length = i := List.length_take_of_le (by omega)
  rw [splice, List.append_assoc]
  rcases Nat.lt_or_ge j i with hj | hj
  · rw [List.getElem?_append_left (by omega), List.getElem?_take_of_lt hj, if_neg (by omega)]
  rw [List.getElem?_append_right (by omega), hi]
  rcases Nat.lt_or_ge j (i + raw.length) with hr | hr
  · rw [List.getElem?_append_left (by omega), if_pos ⟨hj, hr⟩]
  · have hsum : i + raw.length + (j - i - raw.length) = j := by omega
    rw [List.getElem?_append_right (by omega), List.getElem?_drop, hsum, if_neg (by omega)]

theorem slice_add (bs : List UInt8) (i j n : Nat) : slice bs i (j + n) = slice bs i j ++ slice bs (i + j) n := by
  rw [slice, slice, slice, List.take_add, List.drop_drop]

end PyxelVM.Lib
