import SourceIndex.Bytes
import SourceIndex.Text.DecodeError
/-!
# UTF-8

Encoding and decoding of text. Decoding cuts the bytes into characters and faulty pieces; a faulty
piece is the longest start of a character that cannot be completed. Strict decoding stops at the
first faulty piece, lenient decoding puts U+FFFD in its place.
-/

namespace SourceIndex.Text.Utf8

/-! ### Encoding -/

def encodeChar (c : Char) : Bytes :=
  let n := c.toNat
  if n < 0x80 then [.ofNat n]
  else if n < 0x800 then [.ofNat (0xC0 + n / 0x40), .ofNat (0x80 + n % 0x40)]
  else if n < 0x10000 then
    [.ofNat (0xE0 + n / 0x1000), .ofNat (0x80 + n / 0x40 % 0x40), .ofNat (0x80 + n % 0x40)]
  else
    [.ofNat (0xF0 + n / 0x40000), .ofNat (0x80 + n / 0x1000 % 0x40),
      .ofNat (0x80 + n / 0x40 % 0x40), .ofNat (0x80 + n % 0x40)]

def encodeChars (cs : List Char) : Bytes := cs.flatMap encodeChar

def encode (s : String) : Bytes := encodeChars s.toList

def charSize (c : Char) : Nat :=
  if c.toNat < 0x80 then 1 else if c.toNat < 0x800 then 2 else if c.toNat < 0x10000 then 3 else 4

def size (s : String) : Nat := s.toList.foldl (fun total c => total + charSize c) 0

/-! ### Decoding -/

/-- How many bytes follow a lead byte; none if no character starts with the byte. -/
def followers? (lead : Nat) : Option Nat :=
  if lead < 0x80 then some 0
  else if lead < 0xC2 then none
  else if lead < 0xE0 then some 1
  else if lead < 0xF0 then some 2
  else if lead < 0xF5 then some 3
  else none

/-- Whether a byte may stand right after a lead byte. The narrower ranges keep out overlong forms,
surrogates and code points past the last one. -/
def mayFollow (lead next : Nat) : Bool :=
  let low := if lead = 0xE0 then 0xA0 else if lead = 0xF0 then 0x90 else 0x80
  let high := if lead = 0xED then 0x9F else if lead = 0xF4 then 0x8F else 0xBF
  low ≤ next && next ≤ high

def isContinuation (b : Nat) : Bool := 0x80 ≤ b && b < 0xC0

/-- How many of the next `wanted` bytes continue the character that `lead` starts. -/
def continued (lead wanted : Nat) (rest : Bytes) : Nat :=
  match rest.take wanted with
  | [] => 0
  | next :: more =>
    if mayFollow lead next.toNat then 1 + (more.takeWhile (isContinuation ·.toNat)).length else 0

def codePoint (lead : Nat) (follow : List Nat) : Nat :=
  follow.foldl (fun code b => code * 0x40 + (b - 0x80))
    (if lead < 0x80 then lead
     else if lead < 0xE0 then lead - 0xC0
     else if lead < 0xF0 then lead - 0xE0
     else lead - 0xF0)

/-- One piece of the data: a character, or a fault with its offset and its length. -/
inductive Piece
  | char (c : Char)
  | fault (reason : DecodeFault) (offset : Nat) (length : Nat) (first : UInt8)
  deriving DecidableEq, Repr

/-- The piece that starts with `lead`, found at `offset`, and the number of bytes after `lead` that
belong to it. -/
def nextPiece (offset : Nat) (lead : UInt8) (rest : Bytes) : Piece × Nat :=
  match followers? lead.toNat with
  | none => (.fault .invalidStartByte offset 1 lead, 0)
  | some wanted =>
    let found := continued lead.toNat wanted rest
    if found = wanted then
      (.char (Char.ofNat (codePoint lead.toNat ((rest.take wanted).map (·.toNat)))), wanted)
    else if rest.length ≤ found then (.fault .unexpectedEnd offset (1 + found) lead, found)
    else (.fault .invalidContinuationByte offset (1 + found) lead, found)

def scan (found : List Piece) (offset : Nat) : Bytes → List Piece
  | [] => found
  | lead :: rest =>
    let piece := nextPiece offset lead rest
    scan (piece.1 :: found) (offset + 1 + piece.2) (rest.drop piece.2)
  termination_by data => data.length
  decreasing_by simp only [List.length_drop, List.length_cons]; omega

def cut (data : Bytes) : List Piece := (scan [] 0 data).reverse

def strict (found : List Piece) : Except DecodeError (List Char) :=
  found.foldr
    (fun piece rest => match piece with
      | .char c => rest.map (c :: ·)
      | .fault reason offset length first =>
        .error ⟨"utf-8", offset, offset + length - 1, first, reason⟩)
    (.ok [])

def decode (data : Bytes) : Except DecodeError String := (strict (cut data)).map String.ofList

def isValid (data : Bytes) : Bool :=
  (cut data).all fun piece => match piece with
    | .char _ => true
    | .fault .. => false

def decodeLenient (data : Bytes) : String :=
  String.ofList ((cut data).map fun piece => match piece with
    | .char c => c
    | .fault .. => '\ufffd')

end SourceIndex.Text.Utf8
