/-
  PyxelVM.Lib.Md5 — the MD5 digest, as `hashlib.md5(bs).hexdigest()`.

  The message is padded to blocks of sixteen little-endian words; a block goes through
  four rounds of sixteen steps over a state of four words.
-/

import PyxelVM.Lib.Hex

namespace PyxelVM.Lib.Md5

structure State where
  a : UInt32
  b : UInt32
  c : UInt32
  d : UInt32

def initial : State := ⟨0x67452301, 0xefcdab89, 0x98badcfe, 0x10325476⟩

/-- The integer parts of `2^32 * |sin(i + 1)|`. -/
def sines : List UInt32 :=
  [0xd76aa478, 0xe8c7b756, 0x242070db, 0xc1bdceee, 0xf57c0faf, 0x4787c62a, 0xa8304613, 0xfd469501,
    0x698098d8, 0x8b44f7af, 0xffff5bb1, 0x895cd7be, 0x6b901122, 0xfd987193, 0xa679438e, 0x49b40821,
    0xf61e2562, 0xc040b340, 0x265e5a51, 0xe9b6c7aa, 0xd62f105d, 0x02441453, 0xd8a1e681, 0xe7d3fbc8,
    0x21e1cde6, 0xc33707d6, 0xf4d50d87, 0x455a14ed, 0xa9e3e905, 0xfcefa3f8, 0x676f02d9, 0x8d2a4c8a,
    0xfffa3942, 0x8771f681, 0x6d9d6122, 0xfde5380c, 0xa4beea44, 0x4bdecfa9, 0xf6bb4b60, 0xbebfbc70,
    0x289b7ec6, 0xeaa127fa, 0xd4ef3085, 0x04881d05, 0xd9d4d039, 0xe6db99e5, 0x1fa27cf8, 0xc4ac5665,
    0xf4292244, 0x432aff97, 0xab9423a7, 0xfc93a039, 0x655b59c3, 0x8f0ccc92, 0xffeff47d, 0x85845dd1,
    0x6fa87e4f, 0xfe2ce6e0, 0xa3014314, 0x4e0811a1, 0xf7537e82, 0xbd3af235, 0x2ad7d2bb, 0xeb86d391]

/-- How far step `i` rotates. -/
def shift (i : Nat) : UInt32 :=
  ([[7, 12, 17, 22], [5, 9, 14, 20], [4, 11, 16, 23], [6, 10, 15, 21]].getD (i / 16) []).getD (i % 4) 0

def rotate (x s : UInt32) : UInt32 := (x <<< s) ||| (x >>> (32 - s))

/-- The function of step `i`, and which word of the block it takes. -/
def mix (i : Nat) (s : State) : UInt32 × Nat :=
  if i < 16 then ((s.b &&& s.c) ||| (~~~s.b &&& s.d), i)
  else if i < 32 then ((s.d &&& s.b) ||| (~~~s.d &&& s.c), (5 * i + 1) % 16)
  else if i < 48 then (s.b ^^^ s.c ^^^ s.d, (3 * i + 5) % 16)
  else (s.c ^^^ (s.b ||| ~~~s.d), 7 * i % 16)

def step (block : List UInt32) (s : State) (i : Nat) : State :=
  let m := mix i s
  ⟨s.d, s.b + rotate (m.1 + s.a + sines.getD i 0 + block.getD m.2 0) (shift i), s.b, s.c⟩

def compress (s : State) (block : List UInt32) : State :=
  let t := (List.range 64).foldl (step block) s
  ⟨s.a + t.a, s.b + t.b, s.c + t.c, s.d + t.d⟩

/-- The `w` lowest bytes of `n`, the lowest first. -/
def littleEndian : Nat → Nat → List UInt8
  | 0, _ => []
  | w + 1, n => UInt8.ofNat (n % 256) :: littleEndian w (n / 256)

/-- The words of the bytes, of four each. -/
def toWords : List UInt8 → List UInt32
  | a :: b :: c :: d :: rest => UInt32.ofNat (a.toNat + 256 * b.toNat + 65536 * c.toNat + 16777216 * d.toNat) :: toWords rest
  | _ => []

def pad (bs : List UInt8) : List UInt8 :=
  bs ++ 0x80 :: List.replicate ((119 - bs.length % 64) % 64) 0 ++ littleEndian 8 (8 * bs.length)

/-- The first `k` blocks of sixteen words. -/
def blocks : Nat → List UInt32 → List (List UInt32)
  | 0, _ => []
  | k + 1, ws => ws.take 16 :: blocks k (ws.drop 16)

def digest (bs : List UInt8) : List UInt8 :=
  let ws := toWords (pad bs)
  let s := (blocks (ws.length / 16) ws).foldl compress initial
  [s.a, s.b, s.c, s.d].flatMap fun w => littleEndian 4 w.toNat

/-- `hashlib.md5(bs).hexdigest()`. -/
def hexdigest (bs : List UInt8) : String := toHex (digest bs)

@[simp] theorem length_littleEndian (w n : Nat) : (littleEndian w n).length = w := by
  induction w generalizing n with
  | zero => rfl
  | succ w ih => simp [littleEndian, ih]

theorem length_digest (bs : List UInt8) : (digest bs).length = 16 := by simp [digest]

theorem length_hexdigest (bs : List UInt8) : (hexdigest bs).toList.length = 32 := by
  rw [hexdigest, length_toHex, length_digest]

example : hexdigest [] = "d41d8cd98f00b204e9800998ecf8427e" := by decide +kernel
example : hexdigest [97] = "0cc175b9c0f1b6a831c399e269772661" := by decide +kernel

end PyxelVM.Lib.Md5
