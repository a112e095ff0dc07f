import SourceIndex.Text.Utf8
import SourceIndex.Text.Utf16
/-!
# Encodings

The encodings that a text file may have. A file can name its encoding itself by the byte order
mark at its start, which is no part of its text.
-/

namespace SourceIndex.Text

inductive Encoding
  | utf8
  | utf16 (order : Utf16.Order)
  | ascii
  deriving DecidableEq, Repr

namespace Encoding

def name : Encoding → String
  | utf8 => "utf-8"
  | utf16 order => order.codec
  | ascii => "ascii"

/-- The encoding with the given name. The name that says that a mark may be there stands for UTF-8,
too. -/
def ofName? : String → Option Encoding
  | "utf-8" | "utf-8-sig" => some utf8
  | "utf-16-le" => some (utf16 .little)
  | "utf-16-be" => some (utf16 .big)
  | "ascii" => some ascii
  | _ => none

def mark : Encoding → Bytes
  | utf8 => [0xEF, 0xBB, 0xBF]
  | utf16 .little => [0xFF, 0xFE]
  | utf16 .big => [0xFE, 0xFF]
  | ascii => []

def marked : List Encoding := [utf8, utf16 .little, utf16 .big]

def ofMark? (data : Bytes) : Option Encoding := marked.find? fun e => data.startsWith e.mark

def encode (e : Encoding) (s : String) : Bytes :=
  match e with
  | utf8 => Utf8.encode s
  | utf16 order => Utf16.encode order s
  | ascii => s.toList.map fun c => UInt8.ofNat c.toNat

/-- The characters of ASCII data from `offset` on, after those in `done` (last one first). -/
def decodeAscii (offset : Nat) (done : List Char) : Bytes → Except DecodeError (List Char)
  | [] => .ok done.reverse
  | b :: rest =>
    if b.toNat < 0x80 then decodeAscii (offset + 1) (Char.ofNat b.toNat :: done) rest
    else .error ⟨"ascii", offset, offset, b, .notAscii⟩

def decodeBare (e : Encoding) (data : Bytes) : Except DecodeError String :=
  match e with
  | utf8 => Utf8.decode data
  | utf16 order => Utf16.decode order data
  | ascii => (decodeAscii 0 [] data).map String.ofList

def withoutMark (e : Encoding) (data : Bytes) : Bytes :=
  if data.startsWith e.mark then data.drop e.mark.length else data

def decode (e : Encoding) (data : Bytes) : Except DecodeError String :=
  decodeBare e (withoutMark e data)

/-- The encoding of the data: the one whose mark it starts with, else the first one of UTF-8 and
ASCII in which it is text. -/
def detect? (data : Bytes) : Option Encoding :=
  match ofMark? data with
  | some e => some e
  | none =>
    if Utf8.isValid data then some utf8
    else if data.all fun b => b.toNat < 0x80 then some ascii
    else none

end Encoding
end SourceIndex.Text
