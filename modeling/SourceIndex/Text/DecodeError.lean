/-!
# Decoding errors

Why bytes are not text in an encoding: which bytes, and what is wrong with them.
-/

namespace SourceIndex.Text

/-- What is wrong with a piece of data. -/
inductive DecodeFault
  | invalidStartByte
  | invalidContinuationByte
  | unexpectedEnd
  | truncatedData
  | illegalEncoding
  | illegalSurrogate
  | notAscii
  deriving DecidableEq, Repr

def DecodeFault.wording : DecodeFault → String
  | .invalidStartByte => "invalid start byte"
  | .invalidContinuationByte => "invalid continuation byte"
  | .unexpectedEnd => "unexpected end of data"
  | .truncatedData => "truncated data"
  | .illegalEncoding => "illegal encoding"
  | .illegalSurrogate => "illegal UTF-16 surrogate"
  | .notAscii => "ordinal not in range(128)"

/-- The first undecodable piece of some data: the bytes `first` up to `last`, both included. -/
structure DecodeError where
  codec : String
  first : Nat
  last : Nat
  /-- The byte at `first`. -/
  byte : UInt8
  fault : DecodeFault
  deriving DecidableEq, Repr

def byteDigits (n : Nat) : String :=
  String.ofList [Nat.digitChar (n / 16), Nat.digitChar (n % 16)]

def DecodeError.message (e : DecodeError) : String :=
  let place :=
    if e.first = e.last then
      "byte 0x" ++ byteDigits e.byte.toNat ++ " in position " ++ toString e.first
    else "bytes in position " ++ toString e.first ++ "-" ++ toString e.last
  "'" ++ e.codec ++ "' codec can't decode " ++ place ++ ": " ++ e.fault.wording

end SourceIndex.Text
