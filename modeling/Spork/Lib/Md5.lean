import Mathlib

/-! The MD5 digest. -/
namespace Spork
namespace Md5

/-- How far each turn rotates. -/
def shifts : List (List ℕ) := [[7,12,17,22],[5,9,14,20],[4,11,16,23],[6,10,15,21]]

def sines : List (BitVec 32) :=
  [0xd76aa478,0xe8c7b756,0x242070db,0xc1bdceee,0xf57c0faf,0x4787c62a,
   0xa8304613,0xfd469501,0x698098d8,0x8b44f7af,0xffff5bb1,0x895cd7be,
   0x6b901122,0xfd987193,0xa679438e,0x49b40821,0xf61e2562,0xc040b340,
   0x265e5a51,0xe9b6c7aa,0xd62f105d,0x02441453,0xd8a1e681,0xe7d3fbc8,
   0x21e1cde6,0xc33707d6,0xf4d50d87,0x455a14ed,0xa9e3e905,0xfcefa3f8,
   0x676f02d9,0x8d2a4c8a,0xfffa3942,0x8771f681,0x6d9d6122,0xfde5380c,
   0xa4beea44,0x4bdecfa9,0xf6bb4b60,0xbebfbc70,0x289b7ec6,0xeaa127fa,
   0xd4ef3085,0x04881d05,0xd9d4d039,0xe6db99e5,0x1fa27cf8,0xc4ac5665,
   0xf4292244,0x432aff97,0xab9423a7,0xfc93a039,0x655b59c3,0x8f0ccc92,
   0xffeff47d,0x85845dd1,0x6fa87e4f,0xfe2ce6e0,0xa3014314,0x4e0811a1,
   0xf7537e82,0xbd3af235,0x2ad7d2bb,0xeb86d391]

abbrev Digest := BitVec 32 × BitVec 32 × BitVec 32 × BitVec 32

def start : Digest := (0x67452301,0xefcdab89,0x98badcfe,0x10325476)

/-- One of the 64 turns over a block's words. -/
def turn (words : List (BitVec 32)) (i : ℕ) : Digest → Digest
  | (a,b,c,d) =>
    let (f,g) :=
      match i/16 with
      | 0 => (b &&& c ||| ~~~b &&& d,i)
      | 1 => (d &&& b ||| ~~~d &&& c,5*i+1)
      | 2 => (b ^^^ c ^^^ d,3*i+5)
      | _ => (c ^^^ (b ||| ~~~d),7*i)
    let f := f+a+sines.getD i 0+words.getD (g%16) 0
    (d,b+f.rotateLeft ((shifts.getD (i/16) []).getD (i%4) 0),b,c)

def block (h : Digest) (words : List (BitVec 32)) : Digest :=
  let (a,b,c,d) := (List.range 64).foldl (fun h i => turn words i h) h
  (h.1+a,h.2.1+b,h.2.2.1+c,h.2.2.2+d)

/-- Numbers of so many bytes, the least of them first. -/
def little (n : ℕ) (bytes : List UInt8) : List ℕ :=
  (List.range (bytes.length/n)).map fun i =>
    ((bytes.drop (n*i)).take n).foldr (fun byte m => byte.toNat+256*m) 0

def pad (bytes : List UInt8) : List UInt8 :=
  bytes++0x80 :: List.replicate ((119-bytes.length%64)%64) 0++
    (List.range 8).map fun i => UInt8.ofNat (8*bytes.length/256^i)

def digest (bytes : List UInt8) : Digest :=
  let words := (little 4 (pad bytes)).map (BitVec.ofNat 32)
  (List.range (words.length/16)).foldl (fun h i => block h ((words.drop (16*i)).take 16)) start

/-- The 128 bits of a digest, which its text writes in hexadecimal. -/
def md5 (text : List Char) : BitVec 128 :=
  let (a,b,c,d) := digest (text.flatMap String.utf8EncodeChar)
  let bytes := [a,b,c,d].flatMap fun w => (List.range 4).map fun i => w.toNat/256^i%256
  BitVec.ofNat 128 (bytes.foldl (fun n byte => 256*n+byte) 0)

example : md5 ['a','b','c'] = 0x900150983cd24fb0d6963f7d28e17f72 := by
  decide +kernel

end Md5
end Spork
