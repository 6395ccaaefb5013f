import Mathlib.Algebra.Group.Nat.Defs
import Ripcord.Foundation.Str

namespace Foundation.Md5

def wordSize : Nat := 2 ^ 32

def rotate (x n : Nat) : Nat := ((x <<< n) ||| (x >>> (32 - n))) % wordSize

def sines : List Nat :=
  [0xd76aa478, 0xe8c7b756, 0x242070db, 0xc1bdceee, 0xf57c0faf, 0x4787c62a, 0xa8304613, 0xfd469501,
   0x698098d8, 0x8b44f7af, 0xffff5bb1, 0x895cd7be, 0x6b901122, 0xfd987193, 0xa679438e, 0x49b40821,
   0xf61e2562, 0xc040b340, 0x265e5a51, 0xe9b6c7aa, 0xd62f105d, 0x02441453, 0xd8a1e681, 0xe7d3fbc8,
   0x21e1cde6, 0xc33707d6, 0xf4d50d87, 0x455a14ed, 0xa9e3e905, 0xfcefa3f8, 0x676f02d9, 0x8d2a4c8a,
   0xfffa3942, 0x8771f681, 0x6d9d6122, 0xfde5380c, 0xa4beea44, 0x4bdecfa9, 0xf6bb4b60, 0xbebfbc70,
   0x289b7ec6, 0xeaa127fa, 0xd4ef3085, 0x04881d05, 0xd9d4d039, 0xe6db99e5, 0x1fa27cf8, 0xc4ac5665,
   0xf4292244, 0x432aff97, 0xab9423a7, 0xfc93a039, 0x655b59c3, 0x8f0ccc92, 0xffeff47d, 0x85845dd1,
   0x6fa87e4f, 0xfe2ce6e0, 0xa3014314, 0x4e0811a1, 0xf7537e82, 0xbd3af235, 0x2ad7d2bb, 0xeb86d391]

def shifts : List Nat :=
  [7, 12, 17, 22, 5, 9, 14, 20, 4, 11, 16, 23, 6, 10, 15, 21]

structure Registers where
  a : Nat
  b : Nat
  c : Nat
  d : Nat

def initial : Registers := ⟨0x67452301, 0xefcdab89, 0x98badcfe, 0x10325476⟩

def complement (x : Nat) : Nat := wordSize - 1 - x

/-- The mixing function and the message word of operation `i`. -/
def mix (r : Registers) (i : Nat) : Nat × Nat :=
  if i < 16 then ((r.b &&& r.c) ||| (complement r.b &&& r.d), i)
  else if i < 32 then ((r.d &&& r.b) ||| (complement r.d &&& r.c), (5 * i + 1) % 16)
  else if i < 48 then (r.b ^^^ r.c ^^^ r.d, (3 * i + 5) % 16)
  else (r.c ^^^ (r.b ||| complement r.d), 7 * i % 16)

def operation (message : List Nat) (r : Registers) (i : Nat) : Registers :=
  let (f, g) := mix r i
  let sum := (f + r.a + sines.getD i 0 + message.getD g 0) % wordSize
  ⟨r.d, (r.b + rotate sum (shifts.getD (4 * (i / 16) + i % 4) 0)) % wordSize, r.b, r.c⟩

def block (r : Registers) (message : List Nat) : Registers :=
  let mixed := (List.range 64).foldl (operation message) r
  ⟨(r.a + mixed.a) % wordSize, (r.b + mixed.b) % wordSize,
    (r.c + mixed.c) % wordSize, (r.d + mixed.d) % wordSize⟩

def littleEndian (bytes : List Byte) : Nat := bytes.foldr (fun byte rest => byte.val + 256 * rest) 0

def littleBytes (count value : Nat) : List Byte :=
  (List.range count).map fun i => Fin.ofNat 256 (value / 256 ^ i)

def pad (bytes : List Byte) : List Byte :=
  bytes ++ 0x80 :: List.replicate ((119 - bytes.length % 64) % 64) 0 ++
    littleBytes 8 (8 * bytes.length % 2 ^ 64)

def words (bytes : List Byte) (first : Nat) : List Nat :=
  (List.range 16).map fun i => littleEndian ((bytes.drop (first + 4 * i)).take 4)

def digest (bytes : List Byte) : List Byte :=
  let padded := pad bytes
  let r := (List.range (padded.length / 64)).foldl (fun r i => block r (words padded (64 * i))) initial
  littleBytes 4 r.a ++ littleBytes 4 r.b ++ littleBytes 4 r.c ++ littleBytes 4 r.d

/-- `int(hexdigest[:8], 16)`: the first four bytes of the digest, most significant first. -/
def leadingWord (bytes : List Byte) : Nat :=
  ((digest bytes).take 4).foldl (fun value byte => 256 * value + byte.val) 0

example : leadingWord [97, 98, 99] = 0x90015098 := by decide +kernel

end Foundation.Md5
