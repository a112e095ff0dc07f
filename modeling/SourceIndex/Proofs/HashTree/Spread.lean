import SourceIndex.Proofs.HashTree.Structure
/-!
# Where a change shows

When one file is changed, added or removed, the digest of the tree changes and so do those of the
directories above the file, while all other directories keep theirs. This rests on the digest
telling apart the messages of the two trees, and on nothing else about it.
-/

namespace SourceIndex.HashTree

open Digest (IsDigest)
open Key (isRoot)

/-! ### Messages -/

/-- The messages that are digested for a tree: one for the whole and one for each directory. -/
def messages (records : List FileRecord) (t : HashTree) : List Bytes :=
  message ((sortRecords records).map (·.hash)) ::
    t.directories.map fun entry => message (sortTexts (heldHashes records t.directories entry.1))

def AreApart (messages : List Bytes) : Prop :=
  ∀ first ∈ messages, ∀ second ∈ messages,
    Digest.Sha256.hash first = Digest.Sha256.hash second → first = second

instance (messages : List Bytes) : Decidable (AreApart messages) :=
  inferInstanceAs (Decidable (∀ first ∈ messages, ∀ second ∈ messages,
    Digest.Sha256.hash first = Digest.Sha256.hash second → first = second))

theorem eq_of_rootHash?_eq {all : List Bytes} {first second : List String} {digest : String}
    (apart : AreApart all) (inFirst : message first ∈ all) (inSecond : message second ∈ all)
    (isFirst : ∀ hash ∈ first, IsDigest hash) (isSecond : ∀ hash ∈ second, IsDigest hash)
    (made : rootHash? first = some digest) (also : rootHash? second = some digest) :
    first = second := by
  rw [rootHash?_of_isAscii fun hash member => (isFirst hash member).isAscii,
    Option.some.injEq] at made
  rw [rootHash?_of_isAscii fun hash member => (isSecond hash member).isAscii,
    Option.some.injEq] at also
  have same := apart _ inFirst _ inSecond (made.trans also.symm)
  exact Digest.eq_of_flatMap_toList isFirst isSecond (Text.Utf8.encodeChars_injective same)

/-! ### Directories with their digests -/

def directoryHashOf? (key : String) (directories : Entries DirectoryNode) : Option String :=
  (Entries.get? key directories).map (·.hash)

theorem directoryHashOf?_eq_none_iff {key : String} {directories : Entries DirectoryNode} :
    directoryHashOf? key directories = none ↔ key ∉ Entries.keys directories := by
  rw [directoryHashOf?, Option.map_eq_none_iff, Entries.get?_eq_none_iff]

section Tree
variable {records : List FileRecord} {t : HashTree} {key : String}

/-- What a directory holds: the digests of its files and those of the directories in it, which are
found among any list that holds them all. -/
theorem IsHashTreeOf.heldHashes_perm (is : IsHashTreeOf records t) {all : List String}
    (distinct : all.Nodup) (covers : ∀ key ∈ Entries.keys t.directories, key ∈ all) (key : String) :
    (heldHashes records t.directories key).Perm
      ((records.filter fun r => Key.ofFile r.path = key).map (·.hash) ++
        (all.filter fun child => Key.parent child = key).filterMap fun child =>
          directoryHashOf? child t.directories) := by
  refine List.Perm.append (((sortRecords_perm records).filter _).map _) ?_
  have there : (all.filter fun child => child ∈ Entries.keys t.directories).Perm
      (Entries.keys t.directories) := by
    refine (List.perm_ext_iff_of_nodup (distinct.filter _) is.distinct).mpr fun child => ?_
    rw [List.mem_filter, decide_eq_true_eq]
    exact and_iff_right_of_imp (covers child)
  have absent : (all.filter fun child => Key.parent child = key).filterMap
        (fun child => directoryHashOf? child t.directories) =
      ((all.filter fun child => child ∈ Entries.keys t.directories).filter
        fun child => Key.parent child = key).filterMap
          fun child => directoryHashOf? child t.directories := by
    rw [List.filter_filter, List.filterMap_filter, List.filterMap_filter]
    refine List.filterMap_congr fun child _ => ?_
    by_cases isKey : child ∈ Entries.keys t.directories
    · simp [isKey]
    · simp [isKey, directoryHashOf?_eq_none_iff.mpr isKey]
  have found : ((Entries.keys t.directories).filter fun child => Key.parent child = key).filterMap
        (fun child => directoryHashOf? child t.directories) =
      (directoriesIn t.directories key).map (·.2.hash) := by
    rw [Entries.keys, List.filter_map, List.filterMap_map, ← List.filterMap_eq_map]
    refine List.filterMap_congr fun entry member => ?_
    have among := (List.mem_filter.mp member).1
    simp only [Function.comp_apply, directoryHashOf?]
    rw [Entries.get?_of_mem is.distinct among]
    rfl
  rw [absent, ← found]
  exact ((there.filter _).filterMap _).symm

variable (is : IsHashTreeOf records t)
include is

theorem IsHashTreeOf.mem_keys_iff (inside : isRoot key ≠ true) :
    key ∈ Entries.keys t.directories ↔ heldHashes records t.directories key ≠ [] := by
  rw [is.keys]
  constructor
  · rintro ⟨r, member, isAncestor⟩
    rcases (isAncestor_iff inside).mp isAncestor with holds | ⟨child, below, parent⟩
    · have file : r ∈ filesIn records key :=
        List.mem_filter.mpr ⟨(sortRecords_perm records).mem_iff.mpr member, decide_eq_true holds⟩
      exact List.ne_nil_of_mem (List.mem_append_left _ (List.mem_map_of_mem file))
    · obtain ⟨entry, among, rfl⟩ := List.mem_map.mp ((is.keys child).mpr ⟨r, member, below⟩)
      have directory : entry ∈ directoriesIn t.directories key :=
        List.mem_filter.mpr ⟨among, decide_eq_true parent⟩
      exact List.ne_nil_of_mem (List.mem_append_right _ (List.mem_map_of_mem directory))
  · intro something
    obtain ⟨hash, held⟩ := List.exists_mem_of_ne_nil _ something
    rcases List.mem_append.mp held with file | directory
    · obtain ⟨r, among, -⟩ := List.mem_map.mp file
      obtain ⟨member, holds⟩ := List.mem_filter.mp among
      exact ⟨r, (sortRecords_perm records).mem_iff.mp member,
        (isAncestor_iff inside).mpr (.inl (of_decide_eq_true holds))⟩
    · obtain ⟨entry, among, -⟩ := List.mem_map.mp directory
      obtain ⟨member, parent⟩ := List.mem_filter.mp among
      obtain ⟨r, isRecord, below⟩ := (is.keys entry.1).mp (List.mem_map_of_mem member)
      exact ⟨r, isRecord, below.up (of_decide_eq_true parent) inside⟩

/-- The digest of a directory is that of what it holds, if it holds something. -/
theorem IsHashTreeOf.directoryHashOf?_eq (inside : isRoot key ≠ true) :
    directoryHashOf? key t.directories =
      if heldHashes records t.directories key = [] then none
      else directoryHash? (heldHashes records t.directories key) := by
  split
  · rename_i nothing
    have absent := (is.mem_keys_iff inside).not.mpr (not_not_intro nothing)
    exact directoryHashOf?_eq_none_iff.mpr absent
  · rename_i something
    obtain ⟨node, found⟩ := Entries.exists_of_has
      (Entries.has_eq_true_iff.mpr ((is.mem_keys_iff inside).mpr something))
    rw [directoryHashOf?, found, (is.directories key node found).hash]
    rfl

theorem IsHashTreeOf.isDigest_heldHashes (digests : ∀ r ∈ records, IsDigest r.hash) (key : String) :
    ∀ hash ∈ heldHashes records t.directories key, IsDigest hash := by
  intro hash member
  rcases List.mem_append.mp member with file | directory
  · obtain ⟨r, among, rfl⟩ := List.mem_map.mp file
    exact digests r ((sortRecords_perm records).mem_iff.mp (List.mem_filter.mp among).1)
  · obtain ⟨entry, among, rfl⟩ := List.mem_map.mp directory
    have found := Entries.get?_of_mem is.distinct (List.mem_filter.mp among).1
    exact isDigest_of_rootHash? (is.directories entry.1 entry.2 found).hash

omit is in
theorem mem_messages (records : List FileRecord) (isKey : key ∈ Entries.keys t.directories) :
    message (sortTexts (heldHashes records t.directories key)) ∈ messages records t := by
  obtain ⟨entry, member, rfl⟩ := List.mem_map.mp isKey
  exact List.mem_cons_of_mem _ (List.mem_map_of_mem member)

end Tree

/-! ### Two trees -/

section Trees
variable {before after : List FileRecord} {t u : HashTree} {key : String}

theorem directoryHashOf?_eq_iff_perm (isBefore : IsHashTreeOf before t)
    (isAfter : IsHashTreeOf after u) (digests : ∀ r ∈ before ++ after, IsDigest r.hash)
    (apart : AreApart (messages before t ++ messages after u)) (inside : isRoot key ≠ true) :
    directoryHashOf? key t.directories = directoryHashOf? key u.directories ↔
      (heldHashes before t.directories key).Perm (heldHashes after u.directories key) := by
  have isFirst := isBefore.isDigest_heldHashes
    (fun r member => digests r (List.mem_append_left _ member)) key
  have isSecond := isAfter.isDigest_heldHashes
    (fun r member => digests r (List.mem_append_right _ member)) key
  rw [isBefore.directoryHashOf?_eq inside, isAfter.directoryHashOf?_eq inside,
    directoryHash?_of_isAscii fun hash member => (isFirst hash member).isAscii,
    directoryHash?_of_isAscii fun hash member => (isSecond hash member).isAscii]
  constructor
  · intro same
    by_cases nothing : heldHashes before t.directories key = []
    · by_cases also : heldHashes after u.directories key = []
      · rw [nothing, also]
      · rw [if_pos nothing, if_neg also] at same
        cases same
    · by_cases also : heldHashes after u.directories key = []
      · rw [if_neg nothing, if_pos also] at same
        cases same
      · rw [if_neg nothing, if_neg also, Option.some.injEq] at same
        have inFirst := List.mem_append_left (messages after u)
          (mem_messages before ((isBefore.mem_keys_iff inside).mpr nothing))
        have inSecond := List.mem_append_right (messages before t)
          (mem_messages after ((isAfter.mem_keys_iff inside).mpr also))
        have sorted := Text.Utf8.encodeChars_injective (apart _ inFirst _ inSecond same)
        have same := Digest.eq_of_flatMap_toList
          (fun hash member => isFirst hash ((sortTexts_perm _).mem_iff.mp member))
          (fun hash member => isSecond hash ((sortTexts_perm _).mem_iff.mp member)) sorted
        exact (sortTexts_perm _).symm.trans ((List.Perm.of_eq same).trans (sortTexts_perm _))
  · intro same
    have empty : heldHashes before t.directories key = [] ↔
        heldHashes after u.directories key = [] :=
      ⟨fun nothing => List.perm_nil.mp (nothing ▸ same).symm,
        fun nothing => List.perm_nil.mp (nothing ▸ same)⟩
    rw [sortTexts_of_perm same]
    exact if_congr empty rfl rfl

end Trees

/-! ### Changes of one file -/

/-- The record of a file is replaced by one with another digest, added or removed. -/
inductive IsChanged (path : String) : List FileRecord → List FileRecord → Prop
  | replaced (front back : List FileRecord) {old new : FileRecord} (oldPath : old.path = path)
    (newPath : new.path = path) (other : old.hash ≠ new.hash) :
    IsChanged path (front ++ old :: back) (front ++ new :: back)
  | added (front back : List FileRecord) {new : FileRecord} (newPath : new.path = path) :
    IsChanged path (front ++ back) (front ++ new :: back)
  | removed (front back : List FileRecord) {old : FileRecord} (oldPath : old.path = path) :
    IsChanged path (front ++ old :: back) (front ++ back)

/-- Records are those of other files and that of one file, if it is there. -/
structure IsSplit (path : String) (records : List FileRecord) (one : Option FileRecord)
    (rest : List FileRecord) : Prop where
  path : ∀ r ∈ one, r.path = path
  perm : records.Perm (one.toList ++ rest)

section Change
variable {path key : String} {records before after rest : List FileRecord}
  {one old new : Option FileRecord}

theorem IsChanged.split (changed : IsChanged path before after) :
    ∃ old new rest, IsSplit path before old rest ∧ IsSplit path after new rest ∧
      old.map (·.hash) ≠ new.map (·.hash) := by
  cases changed with
  | @replaced front back old new oldPath newPath other =>
    refine ⟨some old, some new, front ++ back, ⟨?_, List.perm_middle⟩, ⟨?_, List.perm_middle⟩, ?_⟩
    · simpa using oldPath
    · simpa using newPath
    · simpa using other
  | @added front back new newPath =>
    refine ⟨none, some new, front ++ back, ⟨?_, .refl _⟩, ⟨?_, List.perm_middle⟩, ?_⟩
    · simp
    · simpa using newPath
    · simp
  | @removed front back old oldPath =>
    refine ⟨some old, none, front ++ back, ⟨?_, List.perm_middle⟩, ⟨?_, .refl _⟩, ?_⟩
    · simpa using oldPath
    · simp
    · simp

theorem perm_toList_append_iff {α : Type} {first second : Option α} (rest : List α) :
    (first.toList ++ rest).Perm (second.toList ++ rest) ↔ first = second := by
  rw [List.perm_append_right_iff]
  cases first <;> cases second <;> simp

theorem filterMap_cons_eq {α β : Type} (f : α → Option β) (a : α) (rest : List α) :
    (a :: rest).filterMap f = (f a).toList ++ rest.filterMap f := by
  rw [List.filterMap_cons]
  cases f a <;> rfl

theorem IsSplit.hashes_perm (split : IsSplit path records one rest) :
    (records.map (·.hash)).Perm ((one.map (·.hash)).toList ++ rest.map (·.hash)) := by
  have hashes := split.perm.map (·.hash)
  rw [List.map_append] at hashes
  cases one <;> exact hashes

theorem IsSplit.files_perm (split : IsSplit path records one rest) (key : String) :
    ((records.filter fun r => Key.ofFile r.path = key).map (·.hash)).Perm
      ((if Key.ofFile path = key then one.map (·.hash) else none).toList ++
        (rest.filter fun r => Key.ofFile r.path = key).map (·.hash)) := by
  have files := (split.perm.filter fun r => Key.ofFile r.path = key).map (·.hash)
  rw [List.filter_append, List.map_append] at files
  cases one with
  | none => simpa using files
  | some r =>
    rw [Option.toList_some, List.filter_singleton, split.path r rfl] at files
    split
    · rename_i holds
      simpa [holds] using files
    · rename_i other
      simpa [other] using files

/-- The directories above the files that lie in a directory. -/
def childKeys (records : List FileRecord) (key : String) : List String :=
  (directoryKeys records).filter fun child => Key.parent child = key

theorem mem_childKeys {child : String} : child ∈ childKeys records key ↔
    child ∈ directoryKeys records ∧ Key.parent child = key := by
  rw [childKeys, List.mem_filter, decide_eq_true_eq]

theorem nodup_childKeys (records : List FileRecord) (key : String) :
    (childKeys records key).Nodup :=
  (nodup_directoryKeys records).filter _

/-- What a directory holds: the digest of the file in question, if it lies there, those of the other
files, and those of the directories in it. -/
theorem IsHashTreeOf.heldHashes_split {t : HashTree} (is : IsHashTreeOf records t)
    (split : IsSplit path records one rest) {all : List FileRecord} (among : records ⊆ all)
    (key : String) :
    (heldHashes records t.directories key).Perm
      ((if Key.ofFile path = key then one.map (·.hash) else none).toList ++
        (rest.filter fun r => Key.ofFile r.path = key).map (·.hash) ++
          (childKeys all key).filterMap fun child => directoryHashOf? child t.directories) := by
  have held := is.heldHashes_perm (nodup_directoryKeys all) (fun child isKey => by
    obtain ⟨r, member, above⟩ := (is.keys child).mp isKey
    exact mem_directoryKeys.mpr ⟨r, among member, above⟩) key
  exact held.trans ((split.files_perm key).append_right _)

theorem IsSplit.exists_mem (splitBefore : IsSplit path before old rest)
    (splitAfter : IsSplit path after new rest) (other : old.map (·.hash) ≠ new.map (·.hash)) :
    ∃ r ∈ before ++ after, r.path = path := by
  cases old with
  | some r =>
    have member : r ∈ before := splitBefore.perm.mem_iff.mpr (List.mem_cons_self ..)
    exact ⟨r, List.mem_append_left _ member, splitBefore.path r rfl⟩
  | none =>
    cases new with
    | none => exact absurd rfl other
    | some r =>
      have member : r ∈ after := splitAfter.perm.mem_iff.mpr (List.mem_cons_self ..)
      exact ⟨r, List.mem_append_right _ member, splitAfter.path r rfl⟩

variable {t u : HashTree} (isBefore : IsHashTreeOf before t) (isAfter : IsHashTreeOf after u)
  (splitBefore : IsSplit path before old rest) (splitAfter : IsSplit path after new rest)
  (other : old.map (·.hash) ≠ new.map (·.hash))
include isBefore isAfter splitBefore splitAfter other

/-- Two trees hold the same in a directory but for one digest, which is not the same if the changed
file lies below the directory: that of the file itself or that of the child which it lies below. -/
theorem exists_heldHashes_perm (inside : isRoot key ≠ true)
    (below : ∀ child ∈ directoryKeys (before ++ after), Key.parent child = key →
      (directoryHashOf? child t.directories = directoryHashOf? child u.directories ↔
        ¬ IsAncestor path child)) :
    ∃ first second shared,
      (heldHashes before t.directories key).Perm (Option.toList first ++ shared) ∧
      (heldHashes after u.directories key).Perm (second.toList ++ shared) ∧
      (first = second ↔ ¬ IsAncestor path key) := by
  have heldBefore := isBefore.heldHashes_split splitBefore
    (List.subset_append_left before after) key
  have heldAfter := isAfter.heldHashes_split splitAfter
    (List.subset_append_right before after) key
  generalize (rest.filter fun r => Key.ofFile r.path = key).map (·.hash) = files
    at heldBefore heldAfter
  have same (some : List String) (among : ∀ child ∈ some, child ∈ childKeys (before ++ after) key)
      (aside : ∀ child ∈ some, ¬ IsAncestor path child) :
      some.filterMap (fun child => directoryHashOf? child t.directories) =
        some.filterMap fun child => directoryHashOf? child u.directories := by
    refine List.filterMap_congr fun child isSome => ?_
    obtain ⟨isKey, parent⟩ := mem_childKeys.mp (among child isSome)
    exact (below child isKey parent).mpr (aside child isSome)
  by_cases holds : Key.ofFile path = key
  · -- the file lies here, so it does not lie below a child
    rw [if_pos holds, List.append_assoc] at heldBefore heldAfter
    rw [same _ (fun child => id) fun child isChild is =>
      is.ne_ofFile (mem_childKeys.mp isChild).2 inside holds] at heldBefore
    exact ⟨_, _, _, heldBefore, heldAfter,
      iff_of_false other (not_not_intro ((isAncestor_iff inside).mpr (.inl holds)))⟩
  rw [if_neg holds, Option.toList_none, List.nil_append] at heldBefore heldAfter
  by_cases lies : ∃ child, IsAncestor path child ∧ Key.parent child = key
  · obtain ⟨child, is, parent⟩ := lies
    obtain ⟨r, isRecord, rfl⟩ := splitBefore.exists_mem splitAfter other
    have isKey : child ∈ directoryKeys (before ++ after) := mem_directoryKeys.mpr ⟨r, isRecord, is⟩
    have first := List.perm_cons_erase (mem_childKeys.mpr ⟨isKey, parent⟩)
    have others := same ((childKeys (before ++ after) key).erase child)
      (fun _ => List.mem_of_mem_erase) fun sibling among is' => by
        have parent' := (mem_childKeys.mp (List.mem_of_mem_erase among)).2
        exact ((nodup_childKeys _ key).mem_erase_iff.mp among).1
          (is'.eq_child parent' is parent inside)
    have heldBefore := heldBefore.trans ((first.filterMap _).append_left files)
    have heldAfter := heldAfter.trans ((first.filterMap _).append_left files)
    rw [filterMap_cons_eq] at heldBefore heldAfter
    rw [others] at heldBefore
    exact ⟨_, _, _, heldBefore.trans (List.perm_append_comm_assoc ..),
      heldAfter.trans (List.perm_append_comm_assoc ..),
      iff_of_false (fun equal => (below child isKey parent).mp equal is)
        (not_not_intro (is.up parent inside))⟩
  · rw [same _ (fun child => id) fun child isChild is =>
      lies ⟨child, is, (mem_childKeys.mp isChild).2⟩] at heldBefore
    exact ⟨none, none, _, heldBefore, heldAfter,
      iff_of_true rfl fun is => ((isAncestor_iff inside).mp is).elim holds lies⟩

variable (digests : ∀ r ∈ before ++ after, IsDigest r.hash)
  (apart : AreApart (messages before t ++ messages after u))
include digests apart

/-- The digest of a directory changes, or the directory comes or goes, just if the file lies below
it. -/
theorem directoryHashOf?_eq_iff (inside : isRoot key ≠ true) :
    directoryHashOf? key t.directories = directoryHashOf? key u.directories ↔
      ¬ IsAncestor path key := by
  refine directoryKeys_induction (before ++ after) (motive := fun key =>
    directoryHashOf? key t.directories = directoryHashOf? key u.directories ↔
      ¬ IsAncestor path key) (fun key inside below => ?_) inside
  obtain ⟨first, second, shared, heldBefore, heldAfter, same⟩ :=
    exists_heldHashes_perm isBefore isAfter splitBefore splitAfter other inside below
  rw [directoryHashOf?_eq_iff_perm isBefore isAfter digests apart inside, heldBefore.congr_left,
    heldAfter.congr_right, perm_toList_append_iff, same]

theorem rootHash_ne : t.rootHash ≠ u.rootHash := by
  intro equal
  have isFirst : ∀ hash ∈ (sortRecords before).map (·.hash), IsDigest hash := by
    intro hash member
    obtain ⟨r, among, rfl⟩ := List.mem_map.mp member
    exact digests r (List.mem_append_left _ ((sortRecords_perm before).mem_iff.mp among))
  have isSecond : ∀ hash ∈ (sortRecords after).map (·.hash), IsDigest hash := by
    intro hash member
    obtain ⟨r, among, rfl⟩ := List.mem_map.mp member
    exact digests r (List.mem_append_right _ ((sortRecords_perm after).mem_iff.mp among))
  have same := eq_of_rootHash?_eq apart (List.mem_append_left _ (List.mem_cons_self ..))
    (List.mem_append_right _ (List.mem_cons_self ..)) isFirst isSecond isBefore.rootHash
    (equal ▸ isAfter.rootHash)
  have hashes := (((sortRecords_perm before).map (·.hash)).symm.trans (.of_eq same)).trans
    ((sortRecords_perm after).map (·.hash))
  rw [splitBefore.hashes_perm.congr_left, splitAfter.hashes_perm.congr_right,
    perm_toList_append_iff] at hashes
  exact other hashes

end Change

/-- When one file is changed, added or removed, the digest of the tree changes; a directory that
stays changes its digest just if it is above the file, and so is every directory that comes or
goes. -/
theorem change_spreads_upwards {path : String} {before after : List FileRecord}
    (changed : IsChanged path before after) (distinctBefore : (before.map (·.path)).Nodup)
    (distinctAfter : (after.map (·.path)).Nodup) (digests : ∀ r ∈ before ++ after, IsDigest r.hash)
    (workspace workspace' : String) (now now' : Int) :
    ∃ old new, build? before workspace now = some old ∧ build? after workspace' now' = some new ∧
      (AreApart (messages before old.tree ++ messages after new.tree) →
        old.tree.rootHash ≠ new.tree.rootHash ∧
        (∀ key oldNode newNode, Entries.get? key old.tree.directories = some oldNode →
          Entries.get? key new.tree.directories = some newNode →
            (oldNode.hash ≠ newNode.hash ↔ IsAncestor path key)) ∧
        ∀ key, (key ∈ Entries.keys old.tree.directories ↔
            key ∉ Entries.keys new.tree.directories) → IsAncestor path key) := by
  obtain ⟨old, madeOld⟩ := exists_build? distinctBefore
    (fun r member => (digests r (List.mem_append_left _ member)).isAscii) workspace now
  obtain ⟨new, madeNew⟩ := exists_build? distinctAfter
    (fun r member => (digests r (List.mem_append_right _ member)).isAscii) workspace' now'
  refine ⟨old, new, madeOld, madeNew, fun apart => ?_⟩
  have isBefore := isHashTreeOf_of_build? distinctBefore madeOld
  have isAfter := isHashTreeOf_of_build? distinctAfter madeNew
  obtain ⟨first, second, rest, splitBefore, splitAfter, other⟩ := changed.split
  have same {key : String} (inside : isRoot key ≠ true) :=
    directoryHashOf?_eq_iff isBefore isAfter splitBefore splitAfter other digests apart inside
  refine ⟨rootHash_ne isBefore isAfter splitBefore splitAfter other digests apart,
    fun key oldNode newNode foundOld foundNew => ?_, fun key only => ?_⟩
  · have isKey : key ∈ Entries.keys old.tree.directories :=
      List.mem_map_of_mem (Entries.mem_of_get?_eq_some foundOld)
    obtain ⟨r, -, is⟩ := (isBefore.keys key).mp isKey
    have iff := same is.inside
    rw [directoryHashOf?, directoryHashOf?, foundOld, foundNew, Option.map_some, Option.map_some,
      Option.some.injEq] at iff
    rw [ne_eq, iff, not_not]
  · have inside : isRoot key ≠ true := by
      by_cases isKey : key ∈ Entries.keys old.tree.directories
      · obtain ⟨r, -, is⟩ := (isBefore.keys key).mp isKey
        exact is.inside
      · obtain ⟨r, -, is⟩ := (isAfter.keys key).mp (not_not.mp (only.not.mp isKey))
        exact is.inside
    by_contra aside
    have equal := (same inside).mpr aside
    have both : key ∈ Entries.keys old.tree.directories ↔
        key ∈ Entries.keys new.tree.directories := by
      rw [← not_iff_not, ← directoryHashOf?_eq_none_iff, ← directoryHashOf?_eq_none_iff, equal]
    exact iff_not_self (both.symm.trans only)

def oneRecord (digit : Char) : List FileRecord :=
  [{ path := "a/x", hash := String.ofList (List.replicate 64 digit), size := 1, modified := 0 }]

theorem change_spreads_upwards_one : ∃ old new, build? (oneRecord '1') "/ws" 1 = some old ∧
    build? (oneRecord '2') "/ws" 2 = some new ∧
      AreApart (messages (oneRecord '1') old.tree ++ messages (oneRecord '2') new.tree) ∧
        old.tree.rootHash ≠ new.tree.rootHash ∧
        (∀ key oldNode newNode, Entries.get? key old.tree.directories = some oldNode →
          Entries.get? key new.tree.directories = some newNode →
            (oldNode.hash ≠ newNode.hash ↔ IsAncestor "a/x" key)) ∧
        ∀ key, (key ∈ Entries.keys old.tree.directories ↔
            key ∉ Entries.keys new.tree.directories) → IsAncestor "a/x" key := by
  have changed : IsChanged "a/x" (oneRecord '1') (oneRecord '2') :=
    .replaced [] [] rfl rfl (by decide)
  obtain ⟨old, new, isOld, isNew, spreads⟩ := change_spreads_upwards changed (by decide) (by decide)
    (by decide +kernel) "/ws" "/ws" 1 2
  have apart : ∀ old ∈ build? (oneRecord '1') "/ws" 1, ∀ new ∈ build? (oneRecord '2') "/ws" 2,
      AreApart (messages (oneRecord '1') old.tree ++ messages (oneRecord '2') new.tree) := by
    decide +kernel
  exact ⟨old, new, isOld, isNew, apart old isOld new isNew, spreads (apart old isOld new isNew)⟩

end SourceIndex.HashTree
