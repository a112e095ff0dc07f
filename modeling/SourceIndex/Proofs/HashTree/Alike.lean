import SourceIndex.Proofs.HashTree.Diff
import SourceIndex.Proofs.HashTree.Directories
import Mathlib.Data.List.Nodup
/-!
# Trees without changes between them

The digests and the directories of a tree depend on the paths of the files and their digests alone.
So two trees without a change between them are alike in these, whatever else was recorded of the
files. And the order in which the records come does not matter at all.
-/

namespace SourceIndex.HashTree

/-! ### The order of records -/

theorem sortRecords_of_perm {first second : List FileRecord}
    (distinct : (first.map (·.path)).Nodup) (same : first.Perm second) :
    sortRecords first = sortRecords second := by
  have perm := (sortRecords_perm first).trans (same.trans (sortRecords_perm second).symm)
  refine List.Perm.eq_of_pairwise (fun a b inFirst inSecond le ge => ?_)
    (pairwise_sortRecords first) (pairwise_sortRecords second) perm
  have inFirst' := (sortRecords_perm first).mem_iff.mp inFirst
  have inSecond' := (sortRecords_perm first).mem_iff.mp (perm.mem_iff.mpr inSecond)
  exact List.inj_on_of_nodup_map distinct inFirst' inSecond' (String.le_antisymm le ge)

/-! ### Directories of files with the same digests -/

section Congruence
variable {files other : Entries FileNode}

theorem childHashes_congr (same : ∀ path, hashOf? path files = hashOf? path other)
    (made : Entries DirectoryNode) (own below : List String) :
    childHashes files made own below = childHashes other made own below := by
  unfold childHashes
  refine congrArg (· ++ _) (List.filterMap_congr fun path _ => ?_)
  exact same path

theorem add?_congr (same : ∀ path, hashOf? path files = hashOf? path other) :
    Nodes.add? files = Nodes.add? other := by
  funext paths keys nodes key
  unfold Nodes.add? directoryNode?
  simp only [childHashes_congr same]

theorem directories?_congr {first second : List FileRecord}
    (paths : first.map (·.path) = second.map (·.path))
    (same : ∀ path, hashOf? path files = hashOf? path other) :
    directories? files first = directories? other second := by
  have keys : directoryKeys first = directoryKeys second := by
    have ways := congrArg (List.flatMap ancestors) paths
    rw [List.flatMap_map, List.flatMap_map] at ways
    rw [directoryKeys, directoryKeys, ways]
  have located : locateFiles first = locateFiles second := by
    have places := congrArg (List.map fun path => (Key.ofFile path, path)) paths
    rwa [List.map_map, List.map_map] at places
  rw [directories?, directories?, keys, located, add?_congr same]

end Congruence

/-! ### No changes -/

section Changes
variable {old new : Entries FileNode}

theorem hashOf?_eq_of_changes_eq_nil (distinct : (Entries.keys new).Nodup)
    (nothing : changes old new = []) (path : String) : hashOf? path old = hashOf? path new := by
  cases there : Entries.get? path new with
  | some node =>
    have unchanged := (mem_paths_changes distinct there).not.mp (by rw [nothing]; simp)
    rw [not_not.mp unchanged, hashOf?, there]
    rfl
  | none =>
    rw [hashOf?, hashOf?, there, Option.map_none, Option.map_eq_none_iff,
      Entries.get?_eq_none_iff]
    intro before
    obtain ⟨entry, member, rfl⟩ := List.mem_map.mp before
    have kept := List.map_eq_nil_iff.mp (List.append_eq_nil_iff.mp nothing).2
    rw [List.filter_eq_nil_iff] at kept
    refine kept entry ((Entries.sort_perm old).mem_iff.mpr member) ?_
    show (!Entries.has entry.1 new) = true
    rw [Entries.has_eq_isSome, there]
    rfl

end Changes

/-! ### Trees -/

/-- The files of some records with their digests, in the order of their paths. -/
def hashes (records : List FileRecord) : Entries String :=
  (sortRecords records).map fun r => (r.path, r.hash)

theorem get?_hashes (records : List FileRecord) (path : String) :
    Entries.get? path (hashes records) =
      hashOf? path ((sortRecords records).map fun r => (r.path, fileNode r)) := by
  have values : hashes records =
      Entries.mapValues (·.hash) ((sortRecords records).map fun r => (r.path, fileNode r)) := by
    rw [hashes, Entries.mapValues, List.map_map]
    rfl
  rw [values, Entries.get?_mapValues, hashOf?]

section Trees
variable {first second : List FileRecord} {workspace workspace' : String} {now now' : Int}
  {a b : Built}

theorem keys_hashes_nodup (distinct : (first.map (·.path)).Nodup) :
    (Entries.keys (hashes first)).Nodup := by
  rw [Entries.keys, hashes, List.map_map]
  exact ((sortRecords_perm first).map _).nodup_iff.mpr distinct

theorem pairwise_hashes (records : List FileRecord) :
    (hashes records).Pairwise fun a b => a.1 ≤ b.1 := by
  rw [hashes, List.pairwise_map]
  exact pairwise_sortRecords records

theorem hashes_eq_of_diff_eq_nil (distinctFirst : (first.map (·.path)).Nodup)
    (distinctSecond : (second.map (·.path)).Nodup) (madeFirst : build? first workspace now = some a)
    (madeSecond : build? second workspace' now' = some b)
    (nothing : diff (some a.tree) b.tree = []) : hashes first = hashes second := by
  refine Entries.eq_of_get?_eq (keys_hashes_nodup distinctFirst) (keys_hashes_nodup distinctSecond)
    (pairwise_hashes first) (pairwise_hashes second) fun path => ?_
  have same := hashOf?_eq_of_changes_eq_nil (isRegular_of_build? madeSecond).files nothing path
  rw [Option.map_some, Option.getD_some, files_of_build? distinctFirst madeFirst,
    files_of_build? distinctSecond madeSecond] at same
  rw [get?_hashes, get?_hashes, same]

theorem eq_of_hashes_eq (distinctFirst : (first.map (·.path)).Nodup)
    (distinctSecond : (second.map (·.path)).Nodup) (madeFirst : build? first workspace now = some a)
    (madeSecond : build? second workspace' now' = some b) (same : hashes first = hashes second) :
    a.tree.rootHash = b.tree.rootHash ∧ a.tree.directories = b.tree.directories := by
  have paths := congrArg (List.map Prod.fst) same
  rw [hashes, hashes, List.map_map, List.map_map] at paths
  have values := congrArg (List.map Prod.snd) same
  rw [hashes, hashes, List.map_map, List.map_map] at values
  have found (path : String) :
      hashOf? path ((sortRecords first).map fun r => (r.path, fileNode r)) =
        hashOf? path ((sortRecords second).map fun r => (r.path, fileNode r)) := by
    rw [← get?_hashes, ← get?_hashes, same]
  unfold build? at madeFirst madeSecond
  simp only [ofList_sortRecords distinctFirst, ofList_sortRecords distinctSecond,
    Option.bind_eq_bind, Option.bind_eq_some_iff, Option.pure_def, Option.some.injEq, List.map_map]
    at madeFirst madeSecond
  obtain ⟨nodes, isNodes, hash, isHash, rfl⟩ := madeFirst
  obtain ⟨nodes', isNodes', hash', isHash', rfl⟩ := madeSecond
  constructor
  · have equal : some hash = some hash' := by
      rw [← isHash, ← isHash']
      exact congrArg rootHash? values
    exact Option.some.inj equal
  · have equal : some nodes = some nodes' := by
      rw [← isNodes, ← isNodes']
      exact directories?_congr paths found
    rw [Option.some.inj equal]

/-- Trees without a change between them have the same digest and the same directories. Records in
another order have the same tree. -/
theorem eq_of_diff_eq_nil (distinctFirst : (first.map (·.path)).Nodup)
    (distinctSecond : (second.map (·.path)).Nodup) :
    (∀ workspace workspace' now now' a b, build? first workspace now = some a →
      build? second workspace' now' = some b → diff (some a.tree) b.tree = [] →
        a.tree.rootHash = b.tree.rootHash ∧ a.tree.directories = b.tree.directories) ∧
      (first.Perm second → ∀ workspace now,
        build? first workspace now = build? second workspace now) := by
  constructor
  · intro workspace workspace' now now' a b madeFirst madeSecond nothing
    exact eq_of_hashes_eq distinctFirst distinctSecond madeFirst madeSecond
      (hashes_eq_of_diff_eq_nil distinctFirst distinctSecond madeFirst madeSecond nothing)
  · intro same workspace now
    unfold build?
    rw [sortRecords_of_perm distinctFirst same]

end Trees

def smallRecords (size : Int) (isBinary : Bool) : List FileRecord :=
  ["a/x", "a/y"].map fun path => { path, hash := "0f", size, modified := size, isBinary }

theorem eq_of_diff_eq_nil_small :
    (∃ a b, build? ((smallRecords 1 false).take 1) "/ws" 1 = some a ∧
      build? ((smallRecords 20000 true).take 1) "/other" 2 = some b ∧
        a.tree.rootHash = b.tree.rootHash ∧ a.tree.directories = b.tree.directories) ∧
      build? (smallRecords 1 false) "/ws" 1 = build? (smallRecords 1 false).reverse "/ws" 1 := by
  constructor
  · have made : (build? ((smallRecords 1 false).take 1) "/ws" 1).isSome = true := by decide +kernel
    have made' : (build? ((smallRecords 20000 true).take 1) "/other" 2).isSome = true := by
      decide +kernel
    obtain ⟨a, isA⟩ := Option.isSome_iff_exists.mp made
    obtain ⟨b, isB⟩ := Option.isSome_iff_exists.mp made'
    have nothing : ∀ a ∈ build? ((smallRecords 1 false).take 1) "/ws" 1,
        ∀ b ∈ build? ((smallRecords 20000 true).take 1) "/other" 2,
          diff (some a.tree) b.tree = [] := by decide +kernel
    exact ⟨a, b, isA, isB, (eq_of_diff_eq_nil (by decide) (by decide)).1 _ _ _ _ a b isA isB
      (nothing a isA b isB)⟩
  · exact (eq_of_diff_eq_nil (by decide) (by decide)).2 (List.reverse_perm _).symm _ _

end SourceIndex.HashTree
