import SourceIndex.Entries
import SourceIndex.Json.Basic
/-!
# Hash trees

A hash tree holds a digest for every file of a workspace and one for every directory, which is made
of the digests of what the directory holds. Two states of a workspace are compared by their trees.
-/

namespace SourceIndex

/-- What is recorded of a scanned file. -/
structure FileRecord where
  path : String
  hash : String
  size : Int
  /-- When the file was last modified, in nanoseconds. -/
  modified : Int
  isBinary : Bool := false
  encoding : Option String := none
  deriving DecidableEq, Repr

structure FileNode where
  hash : String
  size : Int
  modified : Int
  path : String
  /-- The key of the directory that holds the file. -/
  parent : String
  isBinary : Bool
  encoding : Option String
  deriving DecidableEq, Repr

/-- A directory of a hash tree. The lists hold the paths of its files and the keys of its
subdirectories; a tree that was read back may hold other values in them. -/
structure DirectoryNode where
  hash : String
  /-- How many files lie in the directory and below it. -/
  fileCount : Int
  children : List Json
  files : List Json
  subdirectories : List Json
  deriving Repr

structure HashTree where
  rootHash : String
  /-- When the tree was made, in milliseconds. -/
  timestamp : Int
  fileCount : Int
  files : Entries FileNode
  directories : Entries DirectoryNode
  /-- The files by suffix. -/
  bySuffix : Entries (List Json)
  /-- The files by class of size. -/
  bySize : Entries (List Json)
  version : String
  createdAt : Int
  workspace : String
  totalSize : Int
  depth : Int
  deriving Repr

end SourceIndex
