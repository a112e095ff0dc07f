import SourceIndex.HashTree.Diff
import SourceIndex.Proofs.Entries
/-!
# Changes between trees

A file that is there now is among the changes if it had no digest before or another one.
-/

namespace SourceIndex.HashTree
variable {old new : Entries FileNode} {path : String} {node : FileNode}

def hashOf? (path : String) (files : Entries FileNode) : Option String :=
  (Entries.get? path files).map (·.hash)

theorem present?_eq_none_iff {hash : String} :
    present? old path hash = none ↔ hashOf? path old = some hash := by
  unfold present? hashOf?
  cases Entries.get? path old with
  | none => simp
  | some before => simp

theorem present?_eq_some {hash : String} {change : FileChange}
    (found : present? old path hash = some change) :
    change.path = path ∧ change.kind ≠ .deleted := by
  unfold present? at found
  split at found
  · rw [Option.some.injEq] at found
    subst found
    simp
  · split at found
    · cases found
    · rw [Option.some.injEq] at found
      subst found
      simp

theorem mem_paths_present (distinct : (Entries.keys new).Nodup)
    (there : Entries.get? path new = some node) :
    path ∈ ((Entries.sort new).filterMap fun entry =>
      present? old entry.1 entry.2.hash).map (·.path) ↔ hashOf? path old ≠ some node.hash := by
  have sorted : (path, node) ∈ Entries.sort new :=
    (Entries.sort_perm new).mem_iff.mpr (Entries.mem_of_get?_eq_some there)
  constructor
  · intro member unchanged
    obtain ⟨change, found, rfl⟩ := List.mem_map.mp member
    obtain ⟨⟨key, other⟩, among, made⟩ := List.mem_filterMap.mp found
    have same := (present?_eq_some made).1
    simp only at same made
    rw [same] at unchanged there
    have value := Entries.get?_of_mem distinct ((Entries.sort_perm new).mem_iff.mp among)
    rw [there, Option.some.injEq] at value
    subst value
    rw [present?_eq_none_iff.mpr unchanged] at made
    cases made
  · intro changed
    have made : present? old path node.hash ≠ none := fun nothing =>
      changed (present?_eq_none_iff.mp nothing)
    obtain ⟨change, found⟩ := Option.ne_none_iff_exists'.mp made
    refine List.mem_map.mpr ⟨change, List.mem_filterMap.mpr ⟨_, sorted, found⟩, ?_⟩
    exact (present?_eq_some found).1

theorem mem_paths_changes (distinct : (Entries.keys new).Nodup)
    (there : Entries.get? path new = some node) :
    path ∈ (changes old new).map (·.path) ↔ hashOf? path old ≠ some node.hash := by
  have gone : path ∉ ((((Entries.sort old).filter fun entry => !Entries.has entry.1 new).map
      fun entry => (⟨entry.1, .deleted, some entry.2.hash, none⟩ : FileChange)).map (·.path)) := by
    intro member
    rw [List.map_map] at member
    obtain ⟨entry, among, rfl⟩ := List.mem_map.mp member
    have absent := (List.mem_filter.mp among).2
    rw [Entries.has_eq_isSome, show Entries.get? entry.1 new = some node from there] at absent
    cases absent
  unfold changes
  rw [List.map_append, List.mem_append]
  constructor
  · rintro (present | deleted)
    · exact (mem_paths_present distinct there).mp present
    · exact absurd deleted gone
  · intro changed
    exact .inl ((mem_paths_present distinct there).mpr changed)

theorem mem_paths_kept_changes (distinct : (Entries.keys new).Nodup)
    (there : Entries.get? path new = some node) :
    path ∈ ((changes old new).filter fun change => change.kind ≠ .deleted).map (·.path) ↔
      hashOf? path old ≠ some node.hash := by
  have gone : ((((Entries.sort old).filter fun entry => !Entries.has entry.1 new).map
      fun entry => (⟨entry.1, .deleted, some entry.2.hash, none⟩ : FileChange)).filter
        fun change => change.kind ≠ .deleted) = [] := by
    rw [List.filter_eq_nil_iff]
    intro change member
    obtain ⟨entry, -, rfl⟩ := List.mem_map.mp member
    simp
  have kept : (((Entries.sort new).filterMap fun entry =>
      present? old entry.1 entry.2.hash).filter fun change => change.kind ≠ .deleted) =
        (Entries.sort new).filterMap fun entry => present? old entry.1 entry.2.hash := by
    rw [List.filter_eq_self]
    intro change member
    obtain ⟨entry, -, made⟩ := List.mem_filterMap.mp member
    exact decide_eq_true (present?_eq_some made).2
  unfold changes
  rw [List.filter_append, gone, kept, List.append_nil]
  exact mem_paths_present distinct there

end SourceIndex.HashTree
