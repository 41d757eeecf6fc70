/-
# `Lib.Md5` — the message digest of RFC 1321

The text of the standard, section by section:

    3.1, 3.2  padding     0x80, zeros up to 56 bytes modulo 64, the length in bits
    3.3       state       four words a, b, c, d
    3.4       rounds      F, G, H, I, each with sixteen operations [abcd k s i]
    3.5       digest      the four words, low byte first

An operation is `a = b + ((a + f(b,c,d) + X[k] + T[i]) <<< s)`, and the four words take turns as
the one that is set.  The operations stand here in the four tables of the standard, in its order.

A message is a list of bytes, of any length; the length is taken modulo 2^64 bits.
-/
import WsPi5.Lib.Mem

namespace Lib.Md5

abbrev Word := BitVec 32

/-! ## Padding -/

/-- How many zeros lie between the 0x80 and the length. -/
def zeros (n : Nat) : Nat := (119 - n % 64) % 64

def pad (msg : List UInt8) : List UInt8 :=
  msg ++ [0x80] ++ List.replicate (zeros msg.length) 0 ++ leBytes 8 (8 * msg.length)

theorem zeros_least (n : Nat) :
    (n + 1 + zeros n) % 64 = 56 ∧ ∀ z, (n + 1 + z) % 64 = 56 → zeros n ≤ z := by
  have hn : n % 64 < 64 := Nat.mod_lt n (by decide)
  have hz : zeros n = (119 - n % 64) % 64 := rfl
  refine ⟨by omega, fun z hmod => ?_⟩
  omega

theorem pad_length (msg : List UInt8) :
    (pad msg).length = msg.length + 1 + zeros msg.length + 8 := by
  simp [pad]
  omega

theorem pad_blocks (msg : List UInt8) : (pad msg).length % 64 = 0 := by
  have hfill := (zeros_least msg.length).1
  rw [pad_length]
  omega

/-! ## State and operations -/

structure State where
  a : Word
  b : Word
  c : Word
  d : Word
  deriving DecidableEq

def init : State := ⟨0x67452301, 0xefcdab89, 0x98badcfe, 0x10325476⟩

def F (x y z : Word) : Word := (x &&& y) ||| (~~~x &&& z)
def G (x y z : Word) : Word := (x &&& z) ||| (y &&& ~~~z)
def H (x y z : Word) : Word := x ^^^ y ^^^ z
def I (x y z : Word) : Word := y ^^^ (x ||| ~~~z)

/-- `T[1]` to `T[64]`: the whole part of 4294967296 times the absolute value of the sine. -/
def T : List Word :=
  [0xd76aa478, 0xe8c7b756, 0x242070db, 0xc1bdceee, 0xf57c0faf, 0x4787c62a, 0xa8304613, 0xfd469501,
   0x698098d8, 0x8b44f7af, 0xffff5bb1, 0x895cd7be, 0x6b901122, 0xfd987193, 0xa679438e, 0x49b40821,
   0xf61e2562, 0xc040b340, 0x265e5a51, 0xe9b6c7aa, 0xd62f105d, 0x02441453, 0xd8a1e681, 0xe7d3fbc8,
   0x21e1cde6, 0xc33707d6, 0xf4d50d87, 0x455a14ed, 0xa9e3e905, 0xfcefa3f8, 0x676f02d9, 0x8d2a4c8a,
   0xfffa3942, 0x8771f681, 0x6d9d6122, 0xfde5380c, 0xa4beea44, 0x4bdecfa9, 0xf6bb4b60, 0xbebfbc70,
   0x289b7ec6, 0xeaa127fa, 0xd4ef3085, 0x04881d05, 0xd9d4d039, 0xe6db99e5, 0x1fa27cf8, 0xc4ac5665,
   0xf4292244, 0x432aff97, 0xab9423a7, 0xfc93a039, 0x655b59c3, 0x8f0ccc92, 0xffeff47d, 0x85845dd1,
   0x6fa87e4f, 0xfe2ce6e0, 0xa3014314, 0x4e0811a1, 0xf7537e82, 0xbd3af235, 0x2ad7d2bb, 0xeb86d391]

/-- Which word is set, and with it the order of the other three. -/
inductive Turn where
  | abcd
  | dabc
  | cdab
  | bcda
  deriving DecidableEq

/-- `[abcd k s i]`. -/
structure Op where
  turn : Turn
  k : Nat
  s : Nat
  i : Nat
  deriving DecidableEq

open Turn

def round1 : List Op :=
  [⟨abcd, 0, 7, 1⟩, ⟨dabc, 1, 12, 2⟩, ⟨cdab, 2, 17, 3⟩, ⟨bcda, 3, 22, 4⟩,
   ⟨abcd, 4, 7, 5⟩, ⟨dabc, 5, 12, 6⟩, ⟨cdab, 6, 17, 7⟩, ⟨bcda, 7, 22, 8⟩,
   ⟨abcd, 8, 7, 9⟩, ⟨dabc, 9, 12, 10⟩, ⟨cdab, 10, 17, 11⟩, ⟨bcda, 11, 22, 12⟩,
   ⟨abcd, 12, 7, 13⟩, ⟨dabc, 13, 12, 14⟩, ⟨cdab, 14, 17, 15⟩, ⟨bcda, 15, 22, 16⟩]

def round2 : List Op :=
  [⟨abcd, 1, 5, 17⟩, ⟨dabc, 6, 9, 18⟩, ⟨cdab, 11, 14, 19⟩, ⟨bcda, 0, 20, 20⟩,
   ⟨abcd, 5, 5, 21⟩, ⟨dabc, 10, 9, 22⟩, ⟨cdab, 15, 14, 23⟩, ⟨bcda, 4, 20, 24⟩,
   ⟨abcd, 9, 5, 25⟩, ⟨dabc, 14, 9, 26⟩, ⟨cdab, 3, 14, 27⟩, ⟨bcda, 8, 20, 28⟩,
   ⟨abcd, 13, 5, 29⟩, ⟨dabc, 2, 9, 30⟩, ⟨cdab, 7, 14, 31⟩, ⟨bcda, 12, 20, 32⟩]

def round3 : List Op :=
  [⟨abcd, 5, 4, 33⟩, ⟨dabc, 8, 11, 34⟩, ⟨cdab, 11, 16, 35⟩, ⟨bcda, 14, 23, 36⟩,
   ⟨abcd, 1, 4, 37⟩, ⟨dabc, 4, 11, 38⟩, ⟨cdab, 7, 16, 39⟩, ⟨bcda, 10, 23, 40⟩,
   ⟨abcd, 13, 4, 41⟩, ⟨dabc, 0, 11, 42⟩, ⟨cdab, 3, 16, 43⟩, ⟨bcda, 6, 23, 44⟩,
   ⟨abcd, 9, 4, 45⟩, ⟨dabc, 12, 11, 46⟩, ⟨cdab, 15, 16, 47⟩, ⟨bcda, 2, 23, 48⟩]

def round4 : List Op :=
  [⟨abcd, 0, 6, 49⟩, ⟨dabc, 7, 10, 50⟩, ⟨cdab, 14, 15, 51⟩, ⟨bcda, 5, 21, 52⟩,
   ⟨abcd, 12, 6, 53⟩, ⟨dabc, 3, 10, 54⟩, ⟨cdab, 10, 15, 55⟩, ⟨bcda, 1, 21, 56⟩,
   ⟨abcd, 8, 6, 57⟩, ⟨dabc, 15, 10, 58⟩, ⟨cdab, 6, 15, 59⟩, ⟨bcda, 13, 21, 60⟩,
   ⟨abcd, 4, 6, 61⟩, ⟨dabc, 11, 10, 62⟩, ⟨cdab, 2, 15, 63⟩, ⟨bcda, 9, 21, 64⟩]

section
variable (f : Word → Word → Word → Word) (X : List Word)

/-- `b + ((a + f(b,c,d) + X[k] + T[i]) <<< s)`, for words in the order of a turn. -/
def mixed (op : Op) (a b c d : Word) : Word :=
  b + (a + f b c d + X.getD op.k 0 + T.getD (op.i - 1) 0).rotateLeft op.s

def operate (w : State) (op : Op) : State :=
  match op.turn with
  | abcd => { w with a := mixed f X op w.a w.b w.c w.d }
  | dabc => { w with d := mixed f X op w.d w.a w.b w.c }
  | cdab => { w with c := mixed f X op w.c w.d w.a w.b }
  | bcda => { w with b := mixed f X op w.b w.c w.d w.a }

end

/-- The four rounds over the sixteen words of a block, and the addition at their end. -/
def step (w : State) (X : List Word) : State :=
  let w₁ := round1.foldl (operate F X) w
  let w₂ := round2.foldl (operate G X) w₁
  let w₃ := round3.foldl (operate H X) w₂
  let w₄ := round4.foldl (operate I X) w₃
  ⟨w₄.a + w.a, w₄.b + w.b, w₄.c + w.c, w₄.d + w.d⟩

/-! ## The digest -/

/-- The `k`-th word of the block at `off`, low byte first. -/
def word (bytes : List UInt8) (off k : Nat) : Word :=
  BitVec.ofNat 32 (leNat ((bytes.drop (off + 4 * k)).take 4))

/-- The sixteen words of block `n`. -/
def block (bytes : List UInt8) (n : Nat) : List Word := (List.range 16).map (word bytes (64 * n))

def digest (msg : List UInt8) : List UInt8 :=
  let padded := pad msg
  let w := (List.range (padded.length / 64)).foldl (fun w n => step w (block padded n)) init
  leBytes 4 w.a.toNat ++ leBytes 4 w.b.toNat ++ leBytes 4 w.c.toNat ++ leBytes 4 w.d.toNat

/-- The empty message, from the standard's test suite. -/
example : digest [] = [0xd4, 0x1d, 0x8c, 0xd9, 0x8f, 0x00, 0xb2, 0x04, 0xe9, 0x80, 0x09, 0x98, 0xec,
    0xf8, 0x42, 0x7e] := by
  decide +kernel

end Lib.Md5
