import SourceIndex.Bytes
import SourceIndex.Structure.Grammar
import SourceIndex.Text.Lines
/-!
# The recovery ladder

A source is parsed in up to three stages: without its zero characters, then sanitized, then only
its first lines. The first stage that gives a tree ends the ladder. A sanitized source has no
control characters and plain line ends, and every line is where it was.
-/

/-! ### Sanitizing -/

namespace SourceIndex.Source

/-- Whether a character is a control character other than tab and the line ends. -/
def isControl (c : Char) : Bool :=
  let n := c.toNat
  n ≤ 8 || n = 0x0B || n = 0x0C || 0x0E ≤ n && n ≤ 0x1F || n = 0x7F

/-- Every carriage return with a line feed after it as the line feed alone. -/
def joinLineEnds : List Char → List Char
  | [] => []
  | c :: cs => if c = '\r' && cs.head? = some '\n' then joinLineEnds cs else c :: joinLineEnds cs

def sanitizeChars (cs : List Char) : List Char :=
  (joinLineEnds (cs.filter (!isControl ·))).filter (· ≠ '\r')

/-- A source without control characters and with line feeds as the only line ends. -/
def sanitize (content : String) : String := String.ofList (sanitizeChars content.toList)

def withoutZeros (content : String) : String :=
  String.ofList (content.toList.filter (· ≠ '\x00'))

end SourceIndex.Source

/-! ### The stages -/

namespace SourceIndex.Ladder

inductive Stage
  | withoutZeros
  | sanitized
  | truncated
  deriving DecidableEq, Repr

def Stage.name : Stage → String
  | withoutZeros => "original"
  | sanitized => "sanitized"
  | truncated => "truncated"

/-- The first lines of a text; a negative number leaves so many out at the end. -/
def firstLines (count : Int) (content : String) : String :=
  let all := Text.splitOn '\n' content
  Text.unlines (all.take (clampOffset all.length count))

def stages (retryLines : Int) (content : String) : List (Stage × String) :=
  let stripped := Source.withoutZeros content
  let sanitized := Source.sanitize stripped
  [(.withoutZeros, stripped), (.sanitized, sanitized),
   (.truncated, firstLines retryLines sanitized)]

variable {γ : Type}

/-- The parsed text and its top-level nodes from the first of some stages that gives a tree. -/
def climb (g : Grammars γ) (grammar path : String) (retryLines : Int) :
    List (Stage × String) → Session γ → Option (String × List Node) × Session γ
  | [], s => (none, s.note (.failure ("All parse attempts failed for " ++ path)))
  | (stage, source) :: rest, s =>
    match g.run grammar source s with
    | (.failed reason, s) =>
      climb g grammar path retryLines rest
        (s.note (.warning
          ("Parsing " ++ path ++ " failed at stage '" ++ stage.name ++ "': " ++ reason)))
    | (.noTree, s) =>
      climb g grammar path retryLines rest
        (s.note (.warning
          ("Parsing " ++ path ++ " produced no tree at stage '" ++ stage.name ++ "'")))
    | (.tree children, s) =>
      (some (source, children),
        if stage = .truncated then
          s.note (.warning
            ("Parsed only the first " ++ toString retryLines ++ " lines of " ++ path))
        else s)

end SourceIndex.Ladder
