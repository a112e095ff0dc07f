import SourceIndex.Bytes
/-!
# SHA-256

The digest that names contents, chunks and directories, as 64 lower-case hexadecimal digits.
-/

namespace SourceIndex.Digest.Sha256

/-! ### Constants -/

def initial : List UInt32 :=
  [0x6a09e667, 0xbb67ae85, 0x3c6ef372, 0xa54ff53a, 0x510e527f, 0x9b05688c, 0x1f83d9ab, 0x5be0cd19]

def roundConstants : List UInt32 :=
  [0x428a2f98, 0x71374491, 0xb5c0fbcf, 0xe9b5dba5, 0x3956c25b, 0x59f111f1, 0x923f82a4, 0xab1c5ed5,
   0xd807aa98, 0x12835b01, 0x243185be, 0x550c7dc3, 0x72be5d74, 0x80deb1fe, 0x9bdc06a7, 0xc19bf174,
   0xe49b69c1, 0xefbe4786, 0x0fc19dc6, 0x240ca1cc, 0x2de92c6f, 0x4a7484aa, 0x5cb0a9dc, 0x76f988da,
   0x983e5152, 0xa831c66d, 0xb00327c8, 0xbf597fc7, 0xc6e00bf3, 0xd5a79147, 0x06ca6351, 0x14292967,
   0x27b70a85, 0x2e1b2138, 0x4d2c6dfc, 0x53380d13, 0x650a7354, 0x766a0abb, 0x81c2c92e, 0x92722c85,
   0xa2bfe8a1, 0xa81a664b, 0xc24b8b70, 0xc76c51a3, 0xd192e819, 0xd6990624, 0xf40e3585, 0x106aa070,
   0x19a4c116, 0x1e376c08, 0x2748774c, 0x34b0bcb5, 0x391c0cb3, 0x4ed8aa4a, 0x5b9cca4f, 0x682e6ff3,
   0x748f82ee, 0x78a5636f, 0x84c87814, 0x8cc70208, 0x90befffa, 0xa4506ceb, 0xbef9a3f7, 0xc67178f2]

/-! ### One block -/

def rotate (x amount : UInt32) : UInt32 := (x >>> amount) ||| (x <<< (32 - amount))

def wordsOf : Bytes → List UInt32
  | a :: b :: c :: d :: rest =>
    ((a.toUInt32 <<< 24) ||| (b.toUInt32 <<< 16) ||| (c.toUInt32 <<< 8) ||| d.toUInt32) ::
      wordsOf rest
  | _ => []

/-- The next word of the schedule, from the sixteen words before it (last one first). -/
def nextWord (recent : List UInt32) : UInt32 :=
  match recent with
  | [_, w2, _, _, _, _, w7, _, _, _, _, _, _, _, w15, w16] =>
    let low := rotate w15 7 ^^^ rotate w15 18 ^^^ (w15 >>> 3)
    let high := rotate w2 17 ^^^ rotate w2 19 ^^^ (w2 >>> 10)
    w16 + low + w7 + high
  | _ => 0

structure Working where
  a : UInt32
  b : UInt32
  c : UInt32
  d : UInt32
  e : UInt32
  f : UInt32
  g : UInt32
  h : UInt32

def round (v : Working) (constant word : UInt32) : Working :=
  let mixE := rotate v.e 6 ^^^ rotate v.e 11 ^^^ rotate v.e 25
  let choice := (v.e &&& v.f) ^^^ ((~~~v.e) &&& v.g)
  let first := v.h + mixE + choice + constant + word
  let mixA := rotate v.a 2 ^^^ rotate v.a 13 ^^^ rotate v.a 22
  let majority := (v.a &&& v.b) ^^^ (v.a &&& v.c) ^^^ (v.b &&& v.c)
  ⟨first + (mixA + majority), v.a, v.b, v.c, v.d + first, v.e, v.f, v.g⟩

/-- The rounds of a block. `coming` holds the words of the block not used yet, and `recent` the
sixteen words used last (last one first), from which the schedule goes on. -/
def rounds (v : Working) (coming recent : List UInt32) : List UInt32 → Working
  | [] => v
  | constant :: constants =>
    match coming with
    | word :: rest => rounds (round v constant word) rest (word :: recent) constants
    | [] =>
      let word := nextWord recent
      rounds (round v constant word) [] (word :: recent.take 15) constants

def compress (chain : List UInt32) (block : Bytes) : List UInt32 :=
  match chain with
  | [a, b, c, d, e, f, g, h] =>
    let v := rounds ⟨a, b, c, d, e, f, g, h⟩ (wordsOf block) [] roundConstants
    [a + v.a, b + v.b, c + v.c, d + v.d, e + v.e, f + v.f, g + v.g, h + v.h]
  | other => other

/-! ### Whole messages -/

def absorb (chain : List UInt32) (data : Bytes) : List UInt32 :=
  if (data.take 64).length < 64 then chain
  else absorb (compress chain (data.take 64)) (data.drop 64)
  termination_by data.length
  decreasing_by simp_all; omega

def lengthBytes (bits : Nat) : Bytes :=
  [56, 48, 40, 32, 24, 16, 8, 0].map fun shift => .ofNat ((bits >>> shift) % 0x100)

/-- What is put after a message of the given length to make it a number of whole blocks. -/
def padding (length : Nat) : Bytes :=
  0x80 :: List.replicate ((119 - length % 64) % 64) 0 ++ lengthBytes (8 * length)

def wordDigits (w : UInt32) : List Char :=
  [28, 24, 20, 16, 12, 8, 4, 0].map fun shift => Nat.digitChar ((w.toNat >>> shift) % 16)

def hash (data : Bytes) : String :=
  String.ofList ((absorb initial (data ++ padding data.length)).flatMap wordDigits)

end SourceIndex.Digest.Sha256
