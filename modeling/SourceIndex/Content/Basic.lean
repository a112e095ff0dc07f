import SourceIndex.Digest.Sha256
import SourceIndex.Entries
import SourceIndex.Path.Basic
import SourceIndex.Text.Base64
import SourceIndex.Text.Encoding
/-!
# The content of a file

A file holds text or something else, its binary form. The suffix of its name decides first, then
the first bytes and the share of control characters, and last whether the bytes are UTF-8. Text is
decoded; in place of a binary file stands a marker.
-/

namespace SourceIndex

inductive Content
  | binary
  | text (encoding : Text.Encoding) (content : String)
  deriving DecidableEq, Repr

/-- What is known of a file's bytes: their digest, their number, and what they are. -/
structure Classified where
  hash : String
  size : Nat
  content : Content
  deriving DecidableEq, Repr

namespace Content

/-! ### Tables -/

/-- Suffixes of files that are binary whatever they hold. -/
def binarySuffixes : List String :=
  [".exe", ".dll", ".so", ".dylib", ".app",
   ".jpg", ".jpeg", ".png", ".gif", ".bmp", ".ico", ".svg", ".webp",
   ".mp3", ".wav", ".mp4", ".avi", ".mov", ".mkv", ".flv",
   ".zip", ".rar", ".7z", ".tar", ".gz", ".bz2", ".xz",
   ".pdf", ".doc", ".docx", ".xls", ".xlsx", ".ppt", ".pptx",
   ".bin", ".dat", ".db", ".sqlite", ".mdb",
   ".ttf", ".otf", ".woff", ".woff2",
   ".class", ".jar", ".pyc", ".o", ".obj"]

/-- Suffixes of files that are text whatever they hold. -/
def textSuffixes : List String :=
  [".txt", ".md", ".json", ".xml", ".html", ".htm", ".css", ".js", ".ts",
   ".py", ".java", ".c", ".cpp", ".h", ".hpp", ".cs", ".php", ".rb",
   ".go", ".rs", ".swift", ".kt", ".scala", ".sh", ".bat", ".ps1",
   ".yaml", ".yml", ".toml", ".ini", ".cfg", ".conf", ".log",
   ".sql", ".r", ".m", ".pl", ".lua", ".vim", ".dockerfile"]

/-- What binary files of known formats start with. -/
def signatures : List Bytes :=
  [[0x89, 0x50, 0x4E, 0x47],
   [0xFF, 0xD8, 0xFF],
   [0x47, 0x49, 0x46, 0x38],
   [0x25, 0x50, 0x44, 0x46],
   [0x50, 0x4B, 0x03, 0x04],
   [0x50, 0x4B, 0x05, 0x06],
   [0x50, 0x4B, 0x07, 0x08],
   [0x52, 0x61, 0x72, 0x21],
   [0x7F, 0x45, 0x4C, 0x46],
   [0x4D, 0x5A],
   [0xCA, 0xFE, 0xBA, 0xBE]]

def categories : List (String × String) :=
  [(".jpg", "image"), (".jpeg", "image"), (".png", "image"), (".gif", "image"), (".bmp", "image"),
   (".mp3", "audio"), (".wav", "audio"), (".mp4", "video"), (".avi", "video"),
   (".zip", "archive"), (".rar", "archive"), (".7z", "archive"), (".tar", "archive"),
   (".pdf", "document"), (".doc", "document"), (".docx", "document"),
   (".exe", "executable"), (".dll", "executable"), (".so", "executable")]

/-! ### Binary or text -/

/-- Whether the data starts like a file of a known binary format. Less than four bytes start like
none. -/
def hasSignature (data : Bytes) : Bool :=
  (data.take 4).length = 4 && signatures.any fun start => data.startsWith start

/-- Whether a byte is a control character other than tab and the line ends. -/
def isControl (b : UInt8) : Bool := b < 9 || 13 < b && b < 32 || b = 127

/-- How many bytes at the start are looked at. -/
def sampleSize : Nat := 8192

/-- Whether the start of the data holds a zero byte or control characters for more than three
tenths. -/
def looksBinary (data : Bytes) : Bool :=
  let sample := data.take sampleSize
  sample.contains 0 || 3 * sample.length < 10 * sample.countP isControl

def isBinary (data : Bytes) (path : String) : Bool :=
  let suffix := Path.lowerSuffix path
  if binarySuffixes.contains suffix then true
  else if textSuffixes.contains suffix then false
  else hasSignature data || looksBinary data || !Text.Utf8.isValid data

/-! ### Classification -/

def ofBytes (data : Bytes) (path : String) : Except Text.DecodeError Content :=
  if isBinary data path then .ok .binary
  else
    let encoding := (Text.Encoding.detect? data).getD .utf8
    (encoding.decode data).map (.text encoding)

def classify (data : Bytes) (path : String) : Except Text.DecodeError Classified :=
  (ofBytes data path).map fun content => ⟨Digest.Sha256.hash data, data.length, content⟩

/-! ### Markers for binary files -/

def category (path : String) : String :=
  (Entries.get? (Path.lowerSuffix path) categories).getD "binary"

/-- The marker that tells size and kind of a binary file. -/
def placeholder (path : String) (size : Nat) : String :=
  "[BINARY FILE: " ++ toString size ++ " bytes, type: " ++ category path ++ "]"

/-- The marker that holds the bytes of a binary file. -/
def payload (data : Bytes) : String := "[BINARY:" ++ Text.Base64.encode data ++ "]"

end Content
end SourceIndex
