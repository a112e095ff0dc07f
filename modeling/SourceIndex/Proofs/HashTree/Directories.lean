import SourceIndex.Proofs.Digest.Sha256
import SourceIndex.Proofs.FileSystem.Listing
import SourceIndex.Proofs.HashTree.Ancestors
import SourceIndex.Proofs.HashTree.Build
import Mathlib.Algebra.Order.BigOperators.Group.List
import Mathlib.Algebra.Order.Group.Nat
/-!
# Making the nodes of directories

The deepest directories come first, so every directory has its node before its parent needs it. In
the end the node of a directory is the one that is made of the nodes of its children, as they stand
in the finished tree.
-/

namespace SourceIndex

open Digest (IsDigest)

/-! ### Digests of digests -/

/-- Digests one after the other, as they are digested again. -/
def message (hashes : List String) : Bytes := Text.Utf8.encodeChars (hashes.flatMap String.toList)

variable {hashes first second : List String}

theorem rootHash?_of_isAscii (ascii : ∀ hash ∈ hashes, Text.IsAscii hash.toList) :
    rootHash? hashes = some (Digest.Sha256.hash (message hashes)) := by
  have all : (hashes.flatMap String.toList).all (fun c => c.toNat < 0x80) = true := by
    rw [List.all_eq_true]
    intro c member
    obtain ⟨hash, among, inside⟩ := List.mem_flatMap.mp member
    exact decide_eq_true (ascii hash among c inside)
  rw [rootHash?, if_pos all]
  rfl

theorem isAscii_of_rootHash? {digest : String} (made : rootHash? hashes = some digest) :
    ∀ hash ∈ hashes, Text.IsAscii hash.toList := by
  unfold rootHash? at made
  simp only at made
  split at made
  · rename_i all
    intro hash among c member
    exact of_decide_eq_true (List.all_eq_true.mp all c (List.mem_flatMap.mpr ⟨hash, among, member⟩))
  · cases made

theorem isDigest_of_rootHash? {hash : String} (made : rootHash? hashes = some hash) :
    IsDigest hash := by
  unfold rootHash? at made
  simp only at made
  split at made
  · rw [← Option.some.inj made]
    exact Digest.Sha256.isDigest_hash _
  · cases made

/-! ### Texts in order -/

theorem sortTexts_perm (items : List String) : (sortTexts items).Perm items :=
  List.mergeSort_perm ..

theorem pairwise_sortTexts (items : List String) : (sortTexts items).Pairwise (· ≤ ·) := by
  have before (a b : String) : (!decide (b < a)) = true ↔ a ≤ b := by
    rw [Bool.not_eq_true', decide_eq_false_iff_not, String.not_lt]
  have sorted : (sortTexts items).Pairwise fun a b => (!decide (b < a)) = true :=
    List.pairwise_mergeSort
      (fun a b c first second => (before a c).mpr
        (String.le_trans ((before a b).mp first) ((before b c).mp second)))
      (fun a b => by
        rw [Bool.or_eq_true, before, before]
        exact String.le_total ..) items
  exact sorted.imp (before _ _).mp

theorem eq_of_perm_of_pairwise_le (firstSorted : first.Pairwise (· ≤ ·))
    (secondSorted : second.Pairwise (· ≤ ·)) (same : first.Perm second) : first = second :=
  List.Perm.eq_of_pairwise (fun _ _ _ _ => String.le_antisymm) firstSorted secondSorted same

theorem sortTexts_of_perm (same : first.Perm second) : sortTexts first = sortTexts second :=
  eq_of_perm_of_pairwise_le (pairwise_sortTexts first) (pairwise_sortTexts second)
    ((sortTexts_perm first).trans (same.trans (sortTexts_perm second).symm))

theorem directoryHash?_of_isAscii (ascii : ∀ hash ∈ hashes, Text.IsAscii hash.toList) :
    directoryHash? hashes = some (Digest.Sha256.hash (message (sortTexts hashes))) :=
  rootHash?_of_isAscii fun hash member => ascii hash ((sortTexts_perm hashes).mem_iff.mp member)

namespace HashTree

open Key (isRoot)

variable {records : List FileRecord} {key child : String}

/-! ### The directories of a tree -/

theorem mem_directoryKeys : key ∈ directoryKeys records ↔ ∃ r ∈ records, IsAncestor r.path key := by
  rw [directoryKeys, List.mem_eraseDups, List.mem_flatMap]
  simp only [mem_ancestors_iff]

theorem nodup_directoryKeys (records : List FileRecord) : (directoryKeys records).Nodup :=
  nodup_eraseDups _

theorem depth_of_mem_directoryKeys (member : child ∈ directoryKeys records)
    (parent : Key.parent child = key) (inside : isRoot key ≠ true) :
    Key.depth child = Key.depth key + 1 := by
  obtain ⟨r, -, is⟩ := mem_directoryKeys.mp member
  exact is.depth_parent parent inside

/-- What holds of a directory whenever it holds of its children holds of all directories. -/
theorem directoryKeys_induction (records : List FileRecord) {motive : String → Prop}
    (step : ∀ key, isRoot key ≠ true →
      (∀ child ∈ directoryKeys records, Key.parent child = key → motive child) → motive key)
    (inside : isRoot key ≠ true) : motive key := by
  have bounded : ∀ child ∈ directoryKeys records,
      Key.depth child ≤ ((directoryKeys records).map Key.depth).sum := fun child member =>
    List.le_sum_of_mem (List.mem_map_of_mem member)
  generalize ((directoryKeys records).map Key.depth).sum = bound at bounded
  -- the deeper a directory is, the fewer levels are left below it
  generalize left : bound - Key.depth key = levels
  induction levels using Nat.strongRecOn generalizing key with
  | ind levels ih =>
    refine step key inside fun child member parent => ?_
    have deeper := depth_of_mem_directoryKeys member parent inside
    have most := bounded child member
    obtain ⟨r, -, is⟩ := mem_directoryKeys.mp member
    exact ih (bound - Key.depth child) (by omega) is.inside rfl

/-! ### What lies where -/

theorem lyingIn_locateFiles (records : List FileRecord) (key : String) :
    (locateFiles records).lyingIn key =
      (records.filter fun r => Key.ofFile r.path = key).map (·.path) := by
  rw [Located.lyingIn, locateFiles, List.filter_map, List.map_map]
  rfl

theorem lyingIn_locateDirectories (keys : List String) (key : String) :
    (locateDirectories keys).lyingIn key = keys.filter fun child => Key.parent child = key := by
  rw [Located.lyingIn, locateDirectories, List.filter_map, List.map_map]
  exact List.map_id _

theorem mem_lyingIn_locateDirectories {keys : List String} :
    child ∈ (locateDirectories keys).lyingIn key ↔ child ∈ keys ∧ Key.parent child = key := by
  rw [lyingIn_locateDirectories, List.mem_filter, decide_eq_true_eq]

/-! ### The order -/

theorem deepestFirst_perm (keys : List String) : (deepestFirst keys).Perm keys := by
  refine ((List.mergeSort_perm _ _).map _).trans ?_
  rw [List.map_map]
  exact .of_eq (List.map_id _)

theorem pairwise_deepestFirst (keys : List String) :
    (deepestFirst keys).Pairwise fun a b => Key.depth b ≤ Key.depth a := by
  let before (a b : Nat × String) : Bool := b.1 < a.1 || a.1 = b.1 && !(b.2 < a.2)
  have before_iff (a b : Nat × String) :
      before a b = true ↔ b.1 < a.1 ∨ a.1 = b.1 ∧ a.2 ≤ b.2 := by
    simp only [before, Bool.or_eq_true, Bool.and_eq_true, Bool.not_eq_true', decide_eq_true_eq,
      decide_eq_false_iff_not, String.not_lt]
  have sorted : ((keys.map fun key => (Key.depth key, key)).mergeSort before).Pairwise
      fun a b => before a b = true := by
    refine List.pairwise_mergeSort (fun a b c first second => ?_) (fun a b => ?_) _
    · rw [before_iff] at first second ⊢
      rcases first with first | ⟨level, first⟩ <;> rcases second with second | ⟨level', second⟩
      · exact .inl (by omega)
      · exact .inl (by omega)
      · exact .inl (by omega)
      · exact .inr ⟨by omega, String.le_trans first second⟩
    · rw [Bool.or_eq_true, before_iff, before_iff]
      rcases Nat.lt_trichotomy a.1 b.1 with below | same | above
      · exact .inr (.inl below)
      · exact (String.le_total a.2 b.2).imp (fun le => .inr ⟨same, le⟩)
          fun le => .inr ⟨same.symm, le⟩
      · exact .inl (.inl above)
  have levels : ∀ entry ∈ (keys.map fun key => (Key.depth key, key)).mergeSort before,
      entry.1 = Key.depth entry.2 := by
    intro entry member
    obtain ⟨key, -, rfl⟩ := List.mem_map.mp ((List.mergeSort_perm _ _).mem_iff.mp member)
    rfl
  rw [deepestFirst, List.pairwise_map]
  refine sorted.imp_of_mem fun {a b} inA inB first => ?_
  have deeper := (before_iff a b).mp first
  rw [← levels a inA, ← levels b inB]
  omega

theorem mem_of_deepestFirst {front back : List String}
    (order : deepestFirst (directoryKeys records) = front ++ key :: back)
    (member : child ∈ directoryKeys records) (parent : Key.parent child = key) : child ∈ front := by
  have among : key ∈ directoryKeys records := by
    rw [← (deepestFirst_perm _).mem_iff, order]
    simp
  obtain ⟨r, -, is⟩ := mem_directoryKeys.mp among
  have deeper := depth_of_mem_directoryKeys member parent is.inside
  rw [← (deepestFirst_perm _).mem_iff, order] at member
  have sorted := pairwise_deepestFirst (directoryKeys records)
  rw [order, List.pairwise_append, List.pairwise_cons] at sorted
  rcases List.mem_append.mp member with before | after
  · exact before
  · rcases List.mem_cons.mp after with same | later
    · rw [same] at deeper
      omega
    · have level := sorted.2.1.1 child later
      omega

/-! ### One node after the other -/

/-- Nodes of directories that are made of the nodes of their children. -/
structure AreMade (files : Entries FileNode) (paths located : Located) (done : List String)
    (made : Entries DirectoryNode) : Prop where
  keys : Entries.keys made = done
  children : ∀ key ∈ done, ∀ child ∈ located.lyingIn key, child ∈ done
  digests : ∀ entry ∈ made, IsDigest entry.2.hash
  nodes : ∀ key node, Entries.get? key made = some node →
    directoryNode? files made (paths.lyingIn key) (sortTexts (located.lyingIn key)) = some node

variable {files : Entries FileNode} {paths located : Located} {done : List String}
  {made : Entries DirectoryNode}

/-- A node depends on the nodes of the children only. -/
theorem directoryNode?_congr {other : Entries DirectoryNode} {own below : List String}
    (same : ∀ child ∈ below, Entries.get? child made = Entries.get? child other) :
    directoryNode? files made own below = directoryNode? files other own below := by
  have hashes : childHashes files made own below = childHashes files other own below := by
    unfold childHashes
    refine congrArg _ (List.map_congr_left fun child member => ?_)
    rw [same child member]
  have counts : (below.filterMap fun key => (Entries.get? key made).map (·.fileCount)) =
      below.filterMap fun key => (Entries.get? key other).map (·.fileCount) := by
    refine List.filterMap_congr fun child member => ?_
    rw [same child member]
  rw [directoryNode?, directoryNode?, hashes, counts]

theorem isAscii_childHashes {own below : List String}
    (ascii : ∀ entry ∈ files, Text.IsAscii entry.2.hash.toList)
    (digests : ∀ entry ∈ made, IsDigest entry.2.hash)
    (there : ∀ child ∈ below, child ∈ Entries.keys made) :
    ∀ hash ∈ childHashes files made own below, Text.IsAscii hash.toList := by
  intro hash member
  rcases List.mem_append.mp member with file | directory
  · obtain ⟨path, -, found⟩ := List.mem_filterMap.mp file
    obtain ⟨node, isNode, rfl⟩ := Option.map_eq_some_iff.mp found
    exact ascii _ (Entries.mem_of_get?_eq_some isNode)
  · obtain ⟨child, among, rfl⟩ := List.mem_map.mp directory
    obtain ⟨node, found⟩ := Entries.exists_of_has (Entries.has_eq_true_iff.mpr (there child among))
    rw [found]
    exact (digests _ (Entries.mem_of_get?_eq_some found)).isAscii

theorem exists_directoryNode? {own below : List String}
    (ascii : ∀ entry ∈ files, Text.IsAscii entry.2.hash.toList)
    (digests : ∀ entry ∈ made, IsDigest entry.2.hash)
    (there : ∀ child ∈ below, child ∈ Entries.keys made) :
    ∃ node, directoryNode? files made own below = some node ∧ IsDigest node.hash := by
  rw [directoryNode?, directoryHash?_of_isAscii (isAscii_childHashes ascii digests there)]
  exact ⟨_, rfl, Digest.Sha256.isDigest_hash _⟩

theorem AreMade.put (before : AreMade files paths located done made) (new : key ∉ done)
    (there : ∀ child ∈ located.lyingIn key, child ∈ done) {node : DirectoryNode}
    (isNode : directoryNode? files made (paths.lyingIn key) (sortTexts (located.lyingIn key)) =
      some node) (digest : IsDigest node.hash) :
    AreMade files paths located (done ++ [key]) (Entries.put key node made) := by
  have keys : Entries.keys (Entries.put key node made) = done ++ [key] := by
    rw [Entries.keys_put, if_neg (before.keys ▸ new), before.keys]
  have among {other child : String} (member : other ∈ done ++ [key])
      (below : child ∈ located.lyingIn other) : child ∈ done := by
    rcases List.mem_append.mp member with old | last
    · exact before.children other old child below
    · rw [List.mem_singleton.mp last] at below
      exact there child below
  refine ⟨keys, fun other member child below => List.mem_append_left _ (among member below),
    fun entry member => ?_, fun other otherNode found => ?_⟩
  · rcases Entries.mem_put member with rfl | old
    · exact digest
    · exact before.digests entry old
  · have isKey : other ∈ done ++ [key] :=
      keys ▸ List.mem_map_of_mem (Entries.mem_of_get?_eq_some found)
    -- The new node is no child of any directory so far, so that no node changes.
    have earlier : ∀ child ∈ sortTexts (located.lyingIn other),
        Entries.get? child made = Entries.get? child (Entries.put key node made) := by
      intro child member
      have old := among isKey ((sortTexts_perm _).mem_iff.mp member)
      rw [Entries.get?_put, if_neg]
      rintro rfl
      exact new old
    rw [← directoryNode?_congr earlier]
    rw [Entries.get?_put] at found
    split at found
    · rename_i same
      rw [← same, isNode, found]
    · exact before.nodes other otherNode found

theorem AreMade.add? (before : AreMade files paths located done made)
    (ascii : ∀ entry ∈ files, Text.IsAscii entry.2.hash.toList) (new : key ∉ done)
    (there : ∀ child ∈ located.lyingIn key, child ∈ done) (absent : List String) :
    ∃ next, Nodes.add? files paths located ⟨made, absent⟩ key = some ⟨next, absent⟩ ∧
      AreMade files paths located (done ++ [key]) next := by
  have isThere : ∀ child ∈ sortTexts (located.lyingIn key), child ∈ Entries.keys made := by
    intro child member
    rw [before.keys]
    exact there child ((sortTexts_perm _).mem_iff.mp member)
  have known : (sortTexts (located.lyingIn key)).filter
      (fun child => !Entries.has child made) = [] := by
    rw [List.filter_eq_nil_iff]
    intro child member
    rw [Entries.has_eq_true_iff.mpr (isThere child member)]
    exact Bool.false_ne_true
  obtain ⟨node, isNode, digest⟩ := exists_directoryNode? ascii before.digests isThere
  refine ⟨Entries.put key node made, ?_, before.put new there isNode digest⟩
  unfold Nodes.add?
  simp only [isNode, known, Option.map_some, List.append_nil]

/-- Directories in an order in which their children come before them all get their nodes. -/
theorem AreMade.foldlM {rest : List String} (before : AreMade files paths located done made)
    (ascii : ∀ entry ∈ files, Text.IsAscii entry.2.hash.toList) (distinct : (done ++ rest).Nodup)
    (order : ∀ front key back, rest = front ++ key :: back →
      ∀ child ∈ located.lyingIn key, child ∈ done ++ front) (absent : List String) :
    ∃ last, rest.foldlM (Nodes.add? files paths located) ⟨made, absent⟩ = some ⟨last, absent⟩ ∧
      AreMade files paths located (done ++ rest) last := by
  induction rest generalizing done made with
  | nil => exact ⟨made, rfl, by rwa [List.append_nil]⟩
  | cons key rest ih =>
    have new : key ∉ done := fun old =>
      (List.nodup_append.mp distinct).2.2 key old key (List.mem_cons_self ..) rfl
    have there : ∀ child ∈ located.lyingIn key, child ∈ done := fun child member => by
      simpa using order [] key rest rfl child member
    obtain ⟨next, added, after⟩ := before.add? ascii new there absent
    rw [List.append_cons] at distinct
    obtain ⟨last, later, all⟩ := ih after distinct fun front other back shape child member => by
      simpa using order (key :: front) other back (by rw [shape, List.cons_append]) child member
    refine ⟨last, ?_, by rwa [List.append_cons]⟩
    rw [List.foldlM_cons, added]
    exact later

theorem areMade_nil (files : Entries FileNode) (paths located : Located) :
    AreMade files paths located [] [] :=
  ⟨rfl, by simp, by simp, fun key node found => by cases found⟩

/-- All directories of a tree get their nodes, and every child has one when its parent needs it. -/
theorem exists_directories? (ascii : ∀ entry ∈ files, Text.IsAscii entry.2.hash.toList)
    (records : List FileRecord) :
    ∃ made, directories? files records = some ⟨made, []⟩ ∧
      AreMade files (locateFiles records) (locateDirectories (directoryKeys records))
        (deepestFirst (directoryKeys records)) made := by
  have distinct : (deepestFirst (directoryKeys records)).Nodup :=
    (deepestFirst_perm _).nodup_iff.mpr (nodup_directoryKeys records)
  refine (areMade_nil files _ _).foldlM ascii distinct
    (fun front key back shape child member => ?_) []
  obtain ⟨among, parent⟩ := mem_lyingIn_locateDirectories.mp member
  exact mem_of_deepestFirst shape among parent

end HashTree
end SourceIndex
