import SourceIndex.Bytes
import SourceIndex.Text.DecodeError
/-!
# UTF-16

Text as 16-bit units in either byte order. A character past U+FFFF takes a high and a low
surrogate.
-/

namespace SourceIndex.Text.Utf16

/-- Which byte of a unit comes first. -/
inductive Order
  | little
  | big
  deriving DecidableEq, Repr

def Order.codec : Order → String
  | .little => "utf-16-le"
  | .big => "utf-16-be"

/-! ### Encoding -/

def unitBytes (order : Order) (unit : Nat) : Bytes :=
  match order with
  | .little => [.ofNat (unit % 0x100), .ofNat (unit / 0x100)]
  | .big => [.ofNat (unit / 0x100), .ofNat (unit % 0x100)]

def encodeChar (order : Order) (c : Char) : Bytes :=
  let n := c.toNat
  if n < 0x10000 then unitBytes order n
  else
    unitBytes order (0xD800 + (n - 0x10000) / 0x400) ++
      unitBytes order (0xDC00 + (n - 0x10000) % 0x400)

def encode (order : Order) (s : String) : Bytes := s.toList.flatMap (encodeChar order)

/-! ### Decoding -/

def unitOf (order : Order) (a b : UInt8) : Nat :=
  match order with
  | .little => a.toNat + b.toNat * 0x100
  | .big => a.toNat * 0x100 + b.toNat

def isHigh (unit : Nat) : Bool := 0xD800 ≤ unit && unit < 0xDC00

def isLow (unit : Nat) : Bool := 0xDC00 ≤ unit && unit < 0xE000

/-- The characters of the data from `offset` on, after those in `done` (last one first). -/
def decodeFrom (order : Order) (offset : Nat) (done : List Char) :
    Bytes → Except DecodeError (List Char)
  | [] => .ok done.reverse
  | [a] => .error ⟨order.codec, offset, offset, a, .truncatedData⟩
  | a :: b :: rest =>
    let unit := unitOf order a b
    if isLow unit then .error ⟨order.codec, offset, offset + 1, a, .illegalEncoding⟩
    else if isHigh unit then
      match rest with
      | c :: d :: more =>
        let next := unitOf order c d
        if isLow next then
          decodeFrom order (offset + 4)
            (Char.ofNat (0x10000 + (unit - 0xD800) * 0x400 + (next - 0xDC00)) :: done) more
        else .error ⟨order.codec, offset, offset + 1, a, .illegalSurrogate⟩
      | _ => .error ⟨order.codec, offset, offset + 1 + rest.length, a, .unexpectedEnd⟩
    else decodeFrom order (offset + 2) (Char.ofNat unit :: done) rest

def decode (order : Order) (data : Bytes) : Except DecodeError String :=
  (decodeFrom order 0 [] data).map String.ofList

end SourceIndex.Text.Utf16
