import SourceIndex.Text.Lines
import SourceIndex.Text.Utf8
/-!
# Text read in blocks

A long file of UTF-8 is read block by block. The bytes of a character that is not complete at the
end of a block are carried over to the next one. The offsets in an error count from the start of
the block in which it is found, the carried bytes before it included; nothing of that block is
read.
-/

namespace SourceIndex.Text.Blocks

def size : Nat := 8192

def upToFault : List Utf8.Piece → List Char × Option Utf8.Piece
  | [] => ([], none)
  | .char c :: rest => (c :: (upToFault rest).1, (upToFault rest).2)
  | piece :: _ => ([], some piece)

/-- Whether a fault at the end of a block is left to the next one, given its bytes: there is the
start of a character, or that of a surrogate, which is refused once it is complete. -/
def isCarried (reason : DecodeFault) : Bytes → Bool
  | [0xED, b] => 0x80 ≤ b && b ≤ 0xBF
  | _ => reason = .unexpectedEnd

/-- Text as far as it could be read, and why it could not be read further. -/
structure Reading where
  chars : List Char
  error : Option DecodeError

def Reading.after (chars : List Char) (r : Reading) : Reading :=
  { r with chars := chars ++ r.chars }

def read (carried data : Bytes) : Reading :=
  if data.isEmpty then
    match Utf8.strict (Utf8.cut carried) with
    | .ok chars => ⟨chars, none⟩
    | .error e => ⟨[], some e⟩
  else
    let block := carried ++ data.take size
    let (chars, fault) := upToFault (Utf8.cut block)
    match fault with
    -- A character that the block cuts off goes before the next block.
    | some (.fault reason offset length first) =>
      if isCarried reason (block.drop offset) then
        (read (block.drop offset) (data.drop size)).after chars
      else ⟨[], some ⟨"utf-8", offset, offset + length - 1, first, reason⟩⟩
    | _ => (read [] (data.drop size)).after chars
  termination_by data.length
  decreasing_by
    all_goals
      cases data with
      | nil => simp_all
      | cons => simp only [size, List.length_drop, List.length_cons]; omega

/-- The lines that could be read whole. When reading broke off, the last line is not whole, and a
carriage return at the end may still get its line feed. -/
def Reading.lines (r : Reading) : List String :=
  let text := universalChars r.chars
  match r.error with
  | none => splitOn '\n' (String.ofList text)
  | some _ =>
    let whole := if r.chars.getLast? = some '\r' then text.dropLast else text
    (splitOn '\n' (String.ofList whole)).dropLast

end SourceIndex.Text.Blocks
