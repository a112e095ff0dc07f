import SourceIndex.HashTree.Build
/-!
# Changes between trees

What happened to the files between two trees: files that are new or have another digest, in the
order of their paths, and then those that are gone.
-/

namespace SourceIndex

inductive ChangeKind
  | added
  | modified
  | deleted
  deriving DecidableEq, Repr

def ChangeKind.name : ChangeKind → String
  | added => "added"
  | modified => "modified"
  | deleted => "deleted"

/-- A change of one file, with its digests before and after. -/
structure FileChange where
  path : String
  kind : ChangeKind
  oldHash : Option String
  newHash : Option String
  deriving DecidableEq, Repr

namespace HashTree

def present? (old : Entries FileNode) (path hash : String) : Option FileChange :=
  match Entries.get? path old with
  | none => some ⟨path, .added, none, some hash⟩
  | some before =>
    if before.hash = hash then none else some ⟨path, .modified, some before.hash, some hash⟩

def changes (old new : Entries FileNode) : List FileChange :=
  (Entries.sort new).filterMap (fun (path, node) => present? old path node.hash) ++
    ((Entries.sort old).filter fun (path, _) => !Entries.has path new).map fun (path, node) =>
      ⟨path, .deleted, some node.hash, none⟩

def diff (old : Option HashTree) (new : HashTree) : List FileChange :=
  changes ((old.map (·.files)).getD []) new.files

end HashTree

def FileChange.toJson (c : FileChange) : Json :=
  .object
    [("path", .text c.path), ("kind", .text c.kind.name),
     ("old_hash", .optionalText c.oldHash), ("new_hash", .optionalText c.newHash)]

def ChangeKind.count (kind : ChangeKind) (changes : List FileChange) : Nat :=
  changes.countP fun change => change.kind = kind

end SourceIndex
