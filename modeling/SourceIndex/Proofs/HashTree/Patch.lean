import SourceIndex.Proofs.HashTree.Diff
/-!
# Changes as a patch

The changes from some files to others are a patch: applied to the digests before, they give the
digests after. Which change a path has, if any, is told by its two digests alone, so that the
changes back are the same ones turned around.
-/

namespace SourceIndex

/-! ### Single changes -/

def ChangeKind.opposite : ChangeKind → ChangeKind
  | added => deleted
  | modified => modified
  | deleted => added

namespace FileChange

def apply (digests : Entries String) (c : FileChange) : Entries String :=
  match c.kind, c.newHash with
  | .deleted, _ => Entries.remove c.path digests
  | _, some hash => Entries.put c.path hash digests
  | _, none => digests

def inverse (c : FileChange) : FileChange := ⟨c.path, c.kind.opposite, c.newHash, c.oldHash⟩

/-- The change of a file with the given digests before and after; none if they are the same. -/
def between? (path : String) : Option String → Option String → Option FileChange
  | none, none => none
  | none, some hash => some ⟨path, .added, none, some hash⟩
  | some before, none => some ⟨path, .deleted, some before, none⟩
  | some before, some hash =>
    if before = hash then none else some ⟨path, .modified, some before, some hash⟩

/-- The digests of a change differ, and they tell its kind. -/
structure IsReal (c : FileChange) : Prop where
  differs : c.oldHash ≠ c.newHash
  added : c.kind = .added ↔ c.oldHash = none
  deleted : c.kind = .deleted ↔ c.newHash = none

variable {path : String} {before after : Option String} {c : FileChange}

theorem between?_eq_none_iff : between? path before after = none ↔ before = after := by
  cases before with
  | none => cases after <;> simp [between?]
  | some old => cases after <;> simp [between?]

theorem of_between? (changed : between? path before after = some c) :
    c.path = path ∧ c.oldHash = before ∧ c.newHash = after ∧ c.IsReal := by
  have differ : before ≠ after := fun same => by
    rw [between?_eq_none_iff.mpr same] at changed
    cases changed
  cases before with
  | none =>
    cases after with
    | none => cases changed
    | some hash =>
      cases changed
      exact ⟨rfl, rfl, rfl, differ, by simp, by simp⟩
  | some old =>
    cases after with
    | none =>
      cases changed
      exact ⟨rfl, rfl, rfl, differ, by simp, by simp⟩
    | some hash =>
      rw [between?, if_neg fun same => differ (congrArg some same)] at changed
      cases changed
      exact ⟨rfl, rfl, rfl, differ, by simp, by simp⟩

theorem between?_swap (path : String) (before after : Option String) :
    between? path after before = (between? path before after).map inverse := by
  cases before with
  | none => cases after <;> rfl
  | some old =>
    cases after with
    | none => rfl
    | some hash =>
      by_cases same : old = hash
      · simp [between?, same]
      · simp [between?, same, Ne.symm same, inverse, ChangeKind.opposite]

/-! ### Applying changes -/

theorem IsReal.get?_apply (real : c.IsReal) (digests : Entries String) (path : String) :
    Entries.get? path (apply digests c) =
      if c.path = path then c.newHash else Entries.get? path digests := by
  unfold apply
  split
  · rename_i deleted
    rw [real.deleted.mp deleted, Entries.get?_remove]
  · rename_i hash shown _
    rw [shown, Entries.get?_put]
  · rename_i shown notDeleted
    exact absurd (real.deleted.mpr shown) notDeleted

theorem nodup_keys_apply {digests : Entries String} (distinct : (Entries.keys digests).Nodup)
    (c : FileChange) : (Entries.keys (apply digests c)).Nodup := by
  unfold apply
  split
  · exact Entries.nodup_keys_remove distinct _
  · exact Entries.nodup_keys_put distinct _
  · exact distinct

theorem nodup_keys_foldl_apply (cs : List FileChange) {digests : Entries String}
    (distinct : (Entries.keys digests).Nodup) : (Entries.keys (cs.foldl apply digests)).Nodup := by
  induction cs generalizing digests with
  | nil => exact distinct
  | cons c rest ih => exact ih (nodup_keys_apply distinct c)

theorem get?_foldl_apply {cs : List FileChange} (real : ∀ c ∈ cs, c.IsReal)
    (distinct : (cs.map (·.path)).Nodup) (digests : Entries String) :
    (∀ c ∈ cs, Entries.get? c.path (cs.foldl apply digests) = c.newHash) ∧
      ∀ path ∉ cs.map (·.path),
        Entries.get? path (cs.foldl apply digests) = Entries.get? path digests := by
  induction cs generalizing digests with
  | nil => exact ⟨by simp, fun _ _ => rfl⟩
  | cons c rest ih =>
    rw [List.map_cons, List.nodup_cons] at distinct
    have first := (real c (List.mem_cons_self ..)).get?_apply digests
    obtain ⟨marks, others⟩ := ih (fun other member => real other (List.mem_cons_of_mem _ member))
      distinct.2 (apply digests c)
    rw [List.foldl_cons]
    constructor
    · intro other member
      rcases List.mem_cons.mp member with rfl | later
      · rw [others other.path distinct.1, first, if_pos rfl]
      · exact marks other later
    · intro path absent
      rw [List.map_cons, List.mem_cons, not_or] at absent
      rw [others path absent.2, first, if_neg (Ne.symm absent.1)]

end FileChange

namespace HashTree
variable {old new : Entries FileNode} {path : String} {c : FileChange}

/-! ### Which change a path has -/

theorem present?_eq_between? (old : Entries FileNode) (path hash : String) :
    present? old path hash = FileChange.between? path (hashOf? path old) (some hash) := by
  unfold present? hashOf?
  cases Entries.get? path old <;> rfl

def presentChanges (old new : Entries FileNode) : List FileChange :=
  (Entries.sort new).filterMap fun entry => present? old entry.1 entry.2.hash

def goneChanges (old new : Entries FileNode) : List FileChange :=
  ((Entries.sort old).filter fun entry => !Entries.has entry.1 new).map fun entry =>
    ⟨entry.1, .deleted, some entry.2.hash, none⟩

theorem changes_eq (old new : Entries FileNode) :
    changes old new = presentChanges old new ++ goneChanges old new := rfl

theorem hashOf?_of_mem (distinct : (Entries.keys new).Nodup) {node : FileNode}
    (member : (path, node) ∈ Entries.sort new) : hashOf? path new = some node.hash := by
  rw [hashOf?, Entries.get?_of_mem distinct ((Entries.sort_perm new).mem_iff.mp member),
    Option.map_some]

theorem mem_presentChanges_iff (distinct : (Entries.keys new).Nodup) :
    c ∈ presentChanges old new ↔ c.newHash ≠ none ∧
      FileChange.between? c.path (hashOf? c.path old) (hashOf? c.path new) = some c := by
  constructor
  · intro member
    obtain ⟨⟨path, node⟩, among, made⟩ := List.mem_filterMap.mp member
    rw [present?_eq_between?, ← hashOf?_of_mem distinct among] at made
    obtain ⟨rfl, -, shown, -⟩ := FileChange.of_between? made
    refine ⟨?_, made⟩
    rw [shown, hashOf?_of_mem distinct among]
    simp
  · rintro ⟨there, made⟩
    obtain ⟨-, -, shown, -⟩ := FileChange.of_between? made
    rw [shown, hashOf?, ne_eq, Option.map_eq_none_iff] at there
    obtain ⟨node, found⟩ := Option.ne_none_iff_exists'.mp there
    refine List.mem_filterMap.mpr ⟨(c.path, node), ?_, ?_⟩
    · exact (Entries.sort_perm new).mem_iff.mpr (Entries.mem_of_get?_eq_some found)
    · rwa [present?_eq_between?, show some node.hash = hashOf? c.path new by rw [hashOf?, found]; rfl]

theorem mem_goneChanges_iff (distinct : (Entries.keys old).Nodup) :
    c ∈ goneChanges old new ↔ c.newHash = none ∧
      FileChange.between? c.path (hashOf? c.path old) (hashOf? c.path new) = some c := by
  constructor
  · intro member
    obtain ⟨⟨path, node⟩, among, rfl⟩ := List.mem_map.mp member
    obtain ⟨before, absent⟩ := List.mem_filter.mp among
    rw [Bool.not_eq_true', Entries.has_eq_isSome, Option.isSome_eq_false_iff,
      Option.isNone_iff_eq_none] at absent
    refine ⟨rfl, ?_⟩
    rw [hashOf?_of_mem distinct before, hashOf?, absent]
    rfl
  · rintro ⟨gone, made⟩
    obtain ⟨-, was, shown, real⟩ := FileChange.of_between? made
    have there : hashOf? c.path old ≠ none := fun nothing =>
      real.differs (by rw [was, nothing, gone])
    rw [hashOf?, ne_eq, Option.map_eq_none_iff] at there
    obtain ⟨node, found⟩ := Option.ne_none_iff_exists'.mp there
    have absent : Entries.get? c.path new = none := by
      rw [shown, hashOf?, Option.map_eq_none_iff] at gone
      exact gone
    rw [hashOf?, hashOf?, found, absent] at made
    refine List.mem_map.mpr ⟨(c.path, node), List.mem_filter.mpr ⟨?_, ?_⟩, Option.some.inj made⟩
    · exact (Entries.sort_perm old).mem_iff.mpr (Entries.mem_of_get?_eq_some found)
    · rw [Entries.has_eq_isSome, absent]
      rfl

/-- A change is among those of two states just if it is the one of its path. -/
theorem mem_changes_iff (distinctOld : (Entries.keys old).Nodup)
    (distinctNew : (Entries.keys new).Nodup) : c ∈ changes old new ↔
      FileChange.between? c.path (hashOf? c.path old) (hashOf? c.path new) = some c := by
  rw [changes_eq, List.mem_append, mem_presentChanges_iff distinctNew,
    mem_goneChanges_iff distinctOld, ← or_and_right, or_comm]
  exact and_iff_right (em _)

/-! ### The order of changes -/

theorem pairwise_presentChanges (distinct : (Entries.keys new).Nodup) :
    (presentChanges old new).Pairwise fun a b => a.path < b.path := by
  refine List.pairwise_filterMap.mpr ?_
  refine (Entries.pairwise_lt_sort distinct).imp fun {a b} before c made c' made' => ?_
  rwa [(present?_eq_some made).1, (present?_eq_some made').1]

theorem pairwise_goneChanges (distinct : (Entries.keys old).Nodup) :
    (goneChanges old new).Pairwise fun a b => a.path < b.path :=
  List.pairwise_map.mpr ((Entries.pairwise_lt_sort distinct).sublist List.filter_sublist)

theorem nodup_paths_changes (distinctOld : (Entries.keys old).Nodup)
    (distinctNew : (Entries.keys new).Nodup) : ((changes old new).map (·.path)).Nodup := by
  have apart {cs : List FileChange} (ordered : cs.Pairwise fun a b => a.path < b.path) :
      (cs.map (·.path)).Nodup :=
    List.pairwise_map.mpr (ordered.imp fun before => String.ne_of_lt before)
  rw [changes_eq, List.map_append, List.nodup_append]
  refine ⟨apart (pairwise_presentChanges distinctNew), apart (pairwise_goneChanges distinctOld), ?_⟩
  intro path present other gone same
  subst same
  obtain ⟨c, member, rfl⟩ := List.mem_map.mp present
  obtain ⟨c', member', path⟩ := List.mem_map.mp gone
  obtain ⟨there, made⟩ := (mem_presentChanges_iff distinctNew).mp member
  obtain ⟨nothing, made'⟩ := (mem_goneChanges_iff distinctOld).mp member'
  rw [path, made, Option.some.injEq] at made'
  exact there (made' ▸ nothing)

/-! ### The patch -/

def digests (files : Entries FileNode) : Entries String := Entries.mapValues (·.hash) files

def filesOf (tree : Option HashTree) : Entries FileNode := (tree.map (·.files)).getD []

theorem get?_digests (path : String) (files : Entries FileNode) :
    Entries.get? path (digests files) = hashOf? path files :=
  Entries.get?_mapValues FileNode.hash files path

theorem nodup_keys_digests {files : Entries FileNode} (distinct : (Entries.keys files).Nodup) :
    (Entries.keys (digests files)).Nodup := by
  rwa [digests, Entries.keys_mapValues]

/-- Applied to the digests before, the changes give those after. -/
theorem foldl_apply_changes_perm (distinctOld : (Entries.keys old).Nodup)
    (distinctNew : (Entries.keys new).Nodup) :
    ((changes old new).foldl FileChange.apply (digests old)).Perm (digests new) := by
  refine Entries.perm_of_get?_eq
    (FileChange.nodup_keys_foldl_apply _ (nodup_keys_digests distinctOld))
    (nodup_keys_digests distinctNew) fun path => ?_
  have made {c : FileChange} := mem_changes_iff (c := c) distinctOld distinctNew
  obtain ⟨marks, others⟩ := FileChange.get?_foldl_apply
    (fun c member => (FileChange.of_between? (made.mp member)).2.2.2)
    (nodup_paths_changes distinctOld distinctNew) (digests old)
  rw [get?_digests]
  -- A path has a change of its own, or the same digest before and after.
  cases change : FileChange.between? path (hashOf? path old) (hashOf? path new) with
  | none =>
    rw [others, get?_digests, FileChange.between?_eq_none_iff.mp change]
    intro member
    obtain ⟨c, among, rfl⟩ := List.mem_map.mp member
    rw [made.mp among] at change
    cases change
  | some c =>
    obtain ⟨rfl, -, shown, -⟩ := FileChange.of_between? change
    rw [marks c (made.mpr change), shown]

theorem changes_swap_perm (distinctOld : (Entries.keys old).Nodup)
    (distinctNew : (Entries.keys new).Nodup) :
    (changes new old).Perm ((changes old new).map FileChange.inverse) := by
  have paths : ((changes old new).map FileChange.inverse).map (·.path) =
      (changes old new).map (·.path) := by
    rw [List.map_map]
    rfl
  have distinct := nodup_paths_changes distinctOld distinctNew
  refine (List.perm_ext_iff_of_nodup (.of_map _ (nodup_paths_changes distinctNew distinctOld))
    (.of_map (·.path) (paths ▸ distinct))).mpr fun c => ?_
  rw [mem_changes_iff distinctNew distinctOld, FileChange.between?_swap, Option.map_eq_some_iff,
    List.mem_map]
  constructor
  · rintro ⟨d, made, rfl⟩
    exact ⟨d, (mem_changes_iff distinctOld distinctNew).mpr made, rfl⟩
  · rintro ⟨d, member, rfl⟩
    exact ⟨d, (mem_changes_iff distinctOld distinctNew).mp member, rfl⟩

/-- The changes from one tree, or from nothing, to another are the whole patch and no more: applied
to the digests before they give those after, no path changes twice or to what it was, digests are
told as they are in the two trees, files that are there come before those that are gone, each part
in the order of the paths, and the changes back are these ones taken back. -/
theorem diff_is_patch {old : Option HashTree} {new : HashTree}
    (distinctOld : (Entries.keys (filesOf old)).Nodup)
    (distinctNew : (Entries.keys new.files).Nodup) :
    ((diff old new).foldl FileChange.apply (digests (filesOf old))).Perm (digests new.files) ∧
    ((diff old new).map (·.path)).Nodup ∧
    (∀ c ∈ diff old new, c.oldHash = Entries.get? c.path (digests (filesOf old)) ∧
      c.newHash = Entries.get? c.path (digests new.files) ∧ c.IsReal) ∧
    (∃ present gone, diff old new = present ++ gone ∧
      (∀ c ∈ present, c.kind = .added ∨ c.kind = .modified) ∧ (∀ c ∈ gone, c.kind = .deleted) ∧
      present.Pairwise (fun a b => a.path < b.path) ∧
      gone.Pairwise (fun a b => a.path < b.path)) ∧
    ∀ tree, old = some tree →
      (diff (some new) tree).Perm ((diff old new).map FileChange.inverse) := by
  refine ⟨foldl_apply_changes_perm distinctOld distinctNew,
    nodup_paths_changes distinctOld distinctNew, fun c member => ?_,
    ⟨_, _, rfl, fun c member => ?_, fun c member => ?_, pairwise_presentChanges distinctNew,
      pairwise_goneChanges distinctOld⟩, fun tree same => ?_⟩
  · obtain ⟨-, was, shown, real⟩ :=
      FileChange.of_between? ((mem_changes_iff distinctOld distinctNew).mp member)
    rw [get?_digests, get?_digests]
    exact ⟨was, shown, real⟩
  · have there := (List.mem_filterMap.mp member).choose_spec.2
    have notGone := (present?_eq_some there).2
    cases kind : c.kind with
    | added => exact .inl rfl
    | modified => exact .inr rfl
    | deleted => exact absurd kind notGone
  · obtain ⟨entry, -, rfl⟩ := List.mem_map.mp member
    rfl
  · subst same
    exact changes_swap_perm distinctOld distinctNew

def ofDigests (files : Entries String) : HashTree where
  rootHash := ""
  timestamp := 0
  fileCount := files.length
  files := Entries.mapValues (fun hash => ⟨hash, 0, 0, "", "./", false, none⟩) files
  directories := []
  bySuffix := []
  bySize := []
  version := "2.0"
  createdAt := 0
  workspace := "/ws"
  totalSize := 0
  depth := 0

/-- One file has changed, one is new, one is gone and one is as it was. -/
theorem diff_is_patch_four_files :
    let old := ofDigests [("a", "1"), ("b", "1"), ("c", "1")]
    let new := ofDigests [("a", "2"), ("c", "1"), ("d", "1")]
    (diff (some old) new).map (fun c => (c.path, c.kind)) =
        [("a", .modified), ("d", .added), ("b", .deleted)] ∧
      ((diff (some old) new).foldl FileChange.apply (digests old.files)).Perm
        (digests new.files) ∧
      (diff (some new) old).Perm ((diff (some old) new).map FileChange.inverse) := by
  intro old new
  have sorted : Entries.sort old.files = old.files ∧ Entries.sort new.files = new.files :=
    ⟨Entries.sort_of_pairwise (by decide +kernel), Entries.sort_of_pairwise (by decide +kernel)⟩
  have shown : (diff (some old) new).map (fun c => (c.path, c.kind)) =
      [("a", .modified), ("d", .added), ("b", .deleted)] := by
    rw [diff, changes, Option.map_some, Option.getD_some, sorted.1, sorted.2]
    decide +kernel
  obtain ⟨applied, -, -, -, back⟩ :=
    @diff_is_patch (some old) new (by decide +kernel) (by decide +kernel)
  exact ⟨shown, applied, back old rfl⟩

end HashTree
end SourceIndex
