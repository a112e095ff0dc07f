import SourceIndex.Path.Basic
import SourceIndex.Select.Glob
/-!
# Exclusion by name

Files that no index wants, told from their names alone: metadata that desktops leave behind,
minified and bundled sources, generated graphics code, and whatever the ignore patterns and the
ignored directory names of the settings say.
-/

namespace SourceIndex.Policy

def occursIn (part : List Char) : List Char → Bool
  | [] => part.isEmpty
  | c :: cs => part.isPrefixOf (c :: cs) || occursIn part cs

def metadataNames : List String := [".ds_store", "thumbs.db", "desktop.ini"]

def generatedMarks : List String := [".min.", ".bundle.", ".chunk."]

def gpuMarks : List String :=
  [".cubin.", "_cubin.", ".ptx.", "_ptx.", ".fatbin.", "_fatbin.", "cubin.cpp", "ptx.cpp"]

def hasMark (marks : List String) (name : String) : Bool :=
  marks.any fun mark => occursIn mark.toList name.toList

def isGpuArtifact (path : String) : Bool := hasMark gpuMarks (Path.lowerName path)

def isJunk (path : String) : Bool :=
  let name := Path.lowerName path
  metadataNames.contains name || hasMark generatedMarks name || isGpuArtifact path

/-- Whether a path is matched by one of the patterns, as it stands or with a slash before it. -/
def isExcluded (path : String) (patterns : List String) : Bool :=
  patterns.any fun pattern => Glob.covers pattern path || Glob.covers pattern ("/" ++ path)

/-- Whether a segment before the last one is an ignored name. -/
def hasIgnoredSegment (path : String) (ignored : List String) : Bool :=
  (Text.splitOn '/' path).dropLast.any ignored.contains

end SourceIndex.Policy
