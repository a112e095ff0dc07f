import SourceIndex.Chunk.Basic
import SourceIndex.Text.Blank
import SourceIndex.Text.Lines
/-!
# Windows of lines

Text without a known structure is cut into windows of consecutive lines. A window is closed when it
has enough lines or enough bytes; one that is too large all the same is halved until its parts
fit or are single lines. Blank lines before the first other one belong to no window, and windows of
blank lines alone make no chunk.
-/

namespace SourceIndex

/-- Consecutive lines, the first of which has the given number. -/
structure Window where
  start : Int
  lines : List String
  deriving DecidableEq, Repr

namespace Window

def content (w : Window) : String := Text.unlines w.lines

def stop (w : Window) : Int := w.start + w.lines.length - 1

def isBlank (w : Window) : Bool := w.lines.all Text.isBlank

/-- The window halved until every part has at most `maxBytes` bytes or is a single line. -/
def bisect (maxBytes : Int) (start : Int) (lines : List String) : List Window :=
  if lines.length ≤ 1 || (Text.Utf8.size (Text.unlines lines) : Int) ≤ maxBytes then
    [⟨start, lines⟩]
  else
    let middle := lines.length / 2
    bisect maxBytes start (lines.take middle) ++
      bisect maxBytes (start + middle) (lines.drop middle)
  termination_by lines.length
  decreasing_by all_goals simp_all; omega

def chunk (path language : String) (kind : ChunkKind) (parser : String) (name : Option String)
    (w : Window) : Chunk :=
  .ofRange path language w.start w.stop w.content kind parser name

end Window

/-! ### Cutting text into windows -/

/-- Why text cannot be cut: a limit is not positive. -/
inductive LimitError
  | linesPerChunk
  | maxChunkBytes
  deriving DecidableEq, Repr

def LimitError.message : LimitError → String
  | linesPerChunk => "lines_per_chunk must be >= 1"
  | maxChunkBytes => "max_chunk_bytes must be >= 1"

namespace Chunk

/-- How many lines and how many bytes close a window. A line counts with its end. -/
structure WindowLimits where
  lines : Nat
  bytes : Nat
  deriving DecidableEq, Repr

/-- A window that is being filled: the number of its first line, its lines so far (last one first),
how many they are and how many bytes they take. -/
structure OpenWindow where
  start : Int
  held : List String
  count : Nat
  bytes : Nat
  deriving DecidableEq, Repr

def OpenWindow.close (w : OpenWindow) : Window := ⟨w.start, w.held.reverse⟩

/-- The windows of some lines, after those in `done` (last one first). -/
def fill (limits : WindowLimits) (done : List Window) (w : OpenWindow) : List String → List Window
  | [] => (if w.count = 0 then done else w.close :: done).reverse
  | line :: rest =>
    let w : OpenWindow :=
      ⟨w.start, line :: w.held, w.count + 1, w.bytes + Text.Utf8.size line + 1⟩
    if limits.lines ≤ w.count || limits.bytes ≤ w.bytes then
      fill limits (w.close :: done) ⟨w.start + w.count, [], 0, 0⟩ rest
    else fill limits done w rest

def windows (limits : WindowLimits) (lines : List String) : List Window :=
  let body := lines.dropWhile Text.isBlank
  -- The blank lines at the start are in no window, but they count for the numbers of the others.
  fill limits [] ⟨(lines.length - body.length : Nat) + 1, [], 0, 0⟩ body

def genericParser : String := "generic"

def defaultLinesPerChunk : Int := 15

def defaultMaxChunkBytes : Int := 9 * 1024

def splitGeneric (path content language : String) (linesPerChunk maxChunkBytes : Int)
    (parser : String) : Except LimitError (List Chunk) :=
  if linesPerChunk < 1 then .error .linesPerChunk
  else if maxChunkBytes < 1 then .error .maxChunkBytes
  else if Text.isBlank content then .ok []
  else
    let found := windows ⟨linesPerChunk.toNat, maxChunkBytes.toNat⟩ (Text.lines content)
    let parts := found.flatMap fun w => Window.bisect maxChunkBytes w.start w.lines
    .ok ((parts.filter (!·.isBlank)).map (Window.chunk path language .plain parser none))

/-! ### The size ceiling -/

/-- The name for each of some parts: the first one has the name of the whole. -/
def partNames (name : Option String) (parts : List Window) : List (Option String) :=
  match parts with
  | [] => []
  | _ :: rest => name :: rest.map fun _ => none

/-- The chunk, cut into parts if it has more than `maxBytes` bytes. -/
def underCeiling (maxBytes : Int) (c : Chunk) : List Chunk :=
  if (Text.Utf8.size c.content : Int) ≤ maxBytes then [c]
  else
    let parts := Window.bisect maxBytes c.startLine (Text.splitOn '\n' c.content)
    (parts.zip (partNames c.name parts)).map fun (w, name) =>
      w.chunk c.path c.language c.kind c.parser name

/-- Chunks of at most `maxBytes` bytes: larger ones are cut into parts, down to single lines. -/
def enforceCeiling (maxBytes : Int) (chunks : List Chunk) : List Chunk :=
  chunks.flatMap (underCeiling maxBytes)

/-! ### Whole files -/

def wholeFileParser : String := "whole_file"

/-- A file as one chunk; none if it is blank. -/
def wholeFile (path content language : String) : List Chunk :=
  if Text.isBlank content then []
  else
    [.ofRange path language 1 (max 1 (Text.lines content).length) content .file wholeFileParser
      none]

end Chunk
end SourceIndex
