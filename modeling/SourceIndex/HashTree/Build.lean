import SourceIndex.Digest.Sha256
import SourceIndex.HashTree.Basic
import SourceIndex.Log
import SourceIndex.Path.Key
import SourceIndex.Path.Basic
import SourceIndex.Text.Utf8
/-!
# Building hash trees

The tree of some records: every directory on the way from a file up to the root gets a node, the
deepest directories first, so that the digest of a directory is made of digests that are known. The
order in which the records come does not matter.
-/

namespace SourceIndex

/-! ### Digests -/

/-- The digest of digests one after the other; none if they are not ASCII. -/
def rootHash? (hashes : List String) : Option String :=
  let text := hashes.flatMap String.toList
  if text.all fun c => c.toNat < 0x80 then some (Digest.Sha256.hash (Text.Utf8.encodeChars text))
  else none

def sortTexts (items : List String) : List String := items.mergeSort fun a b => !(b < a)

/-- The digest of a directory: of the digests of what it holds, in order. -/
def directoryHash? (hashes : List String) : Option String := rootHash? (sortTexts hashes)

namespace HashTree

/-! ### Classes -/

def smallFileSize : Int := 10 * 1024

def mediumFileSize : Int := 100 * 1024

def sizeClass (size : Int) : String :=
  if size < smallFileSize then "small" else if size < mediumFileSize then "medium" else "large"

def emptyBySize : Entries (List Json) := [("small", []), ("medium", []), ("large", [])]

def noSuffix : String := "no_extension"

def suffixLabel (path : String) : String :=
  let suffix := Path.lowerSuffix path
  if suffix = "" then noSuffix else suffix

def addTo {α : Type} (key : String) (item : α) (entries : Entries (List α)) : Entries (List α) :=
  Entries.put key ((Entries.get? key entries).getD [] ++ [item]) entries

def total (items : List Int) : Int := items.foldr (· + ·) 0

/-! ### Directories -/

/-- The first `steps` directories on the way from a directory up to the root, without the root. -/
def climb : Nat → String → List String
  | 0, _ => []
  | steps + 1, key => if Key.isRoot key then [] else key :: climb steps (Key.parent key)

/-- The directories on the way from a file up to the root, without the root. -/
def ancestors (path : String) : List String :=
  let start := Key.ofFile path
  climb (Key.depth start + 1) start

def sortRecords (records : List FileRecord) : List FileRecord :=
  records.mergeSort fun a b => !(b.path < a.path)

def fileNode (r : FileRecord) : FileNode :=
  ⟨r.hash, r.size, r.modified, r.path, Key.ofFile r.path, r.isBinary, r.encoding⟩

/-- The directories that hold a file, at any depth, each once. -/
def directoryKeys (records : List FileRecord) : List String :=
  (records.flatMap fun r => ancestors r.path).eraseDups

/-- Paths of files or keys of directories, each after the key of the directory that it lies in. -/
abbrev Located := List (String × String)

def locateFiles (records : List FileRecord) : Located :=
  records.map fun r => (Key.ofFile r.path, r.path)

def locateDirectories (keys : List String) : Located := keys.map fun key => (Key.parent key, key)

def Located.lyingIn (key : String) (located : Located) : List String :=
  (located.filter fun entry => entry.1 = key).map (·.2)

/-- Directories with the deepest ones first, equally deep ones in the order of their keys. -/
def deepestFirst (keys : List String) : List String :=
  ((keys.map fun key => (Key.depth key, key)).mergeSort fun a b =>
    b.1 < a.1 || a.1 = b.1 && !(b.2 < a.2)).map (·.2)

/-- The digests of the children of a directory, given the nodes that are made already. A child
without a node counts with its key. -/
def childHashes (files : Entries FileNode) (made : Entries DirectoryNode)
    (own : List String) (below : List String) : List String :=
  own.filterMap (fun path => (Entries.get? path files).map (·.hash)) ++
    below.map fun key => ((Entries.get? key made).map (·.hash)).getD key

/-- The node of a directory that holds the files `own` and the directories `below`, given the nodes
that are made already. -/
def directoryNode? (files : Entries FileNode) (made : Entries DirectoryNode)
    (own below : List String) : Option DirectoryNode :=
  (directoryHash? (childHashes files made own below)).map fun hash =>
    { hash
      fileCount := own.length +
        total (below.filterMap fun key => (Entries.get? key made).map (·.fileCount))
      children := (sortTexts (own ++ below)).map .text
      files := own.map .text
      subdirectories := below.map .text }

/-- The nodes of some directories, and the children that had none when they were needed. -/
structure Nodes where
  made : Entries DirectoryNode
  absent : List String

/-- The nodes with the one of a further directory, given what lies where. -/
def Nodes.add? (files : Entries FileNode) (paths keys : Located) (nodes : Nodes) (key : String) :
    Option Nodes :=
  let below := sortTexts (keys.lyingIn key)
  (directoryNode? files nodes.made (paths.lyingIn key) below).map fun node =>
    ⟨Entries.put key node nodes.made,
      nodes.absent ++ below.filter fun child => !Entries.has child nodes.made⟩

def directories? (files : Entries FileNode) (records : List FileRecord) : Option Nodes :=
  let keys := directoryKeys records
  (deepestFirst keys).foldlM
    (Nodes.add? files (locateFiles records) (locateDirectories keys)) ⟨[], []⟩

/-! ### Trees -/

def currentVersion : String := "2.0"

/-- A tree together with the directories that had no node when their parent needed one. -/
structure Built where
  tree : HashTree
  absent : List String

/-- The warning about a directory that had no node when its parent needed one. -/
def absentWarning (key : String) : LogLine :=
  .warning ("Missing hash for directory " ++ key ++ "; using its key")

/-- The tree of some records; none if a digest is not ASCII. -/
def build? (records : List FileRecord) (workspace : String) (now : Int) : Option Built := do
  let ordered := sortRecords records
  let files := Entries.ofList (ordered.map fun r => (r.path, fileNode r))
  let nodes ← directories? files ordered
  let hash ← rootHash? (files.map (·.2.hash))
  let directories := Entries.sort nodes.made
  return {
    tree := {
      rootHash := hash
      timestamp := now
      fileCount := files.length
      files
      directories
      bySuffix := ordered.foldl (fun found r => addTo (suffixLabel r.path) (.text r.path) found) []
      bySize := ordered.foldl (fun found r => addTo (sizeClass r.size) (.text r.path) found)
        emptyBySize
      version := currentVersion
      createdAt := now
      workspace
      totalSize := total (ordered.map (·.size))
      depth := ((directories.map fun entry => Key.depth entry.1).foldl max 0 : Nat) }
    absent := nodes.absent }

end HashTree
end SourceIndex
