import SourceIndex.Proofs.Chunk.Order
import SourceIndex.Proofs.Store.Survey
import SourceIndex.Store.Refresh
/-!
# Old and new chunks together

A refresh takes over the chunks of files that have not changed and chunks the others again. Path by
path, that is what chunking everything gives, if the chunks that are taken over are right.
-/

namespace SourceIndex

open Chunk (withPath normal sortByAddress)

variable {γ : Type} {engine : Engine γ} {s other : Session γ}

/-! ### Chunks of files -/

namespace Engine

def chunksOfFile (engine : Engine γ) (s : Session γ) (found : ScannedFile) : List Chunk :=
  (engine.chunk found.file.path found.content none found.file.isBinary s).1

def chunksOfFiles (engine : Engine γ) (s : Session γ) (files : List ScannedFile) : List Chunk :=
  files.flatMap (engine.chunksOfFile s)

theorem path_of_mem_chunksOfFile {found : ScannedFile} {c : Chunk}
    (member : c ∈ engine.chunksOfFile s found) : c.path = found.file.path :=
  path_of_mem_chunk member

theorem chunksOfFiles_eq (pure : engine.grammars.IsPure) (honest : s.IsHonest engine.grammars)
    (honest' : other.IsHonest engine.grammars) (files : List ScannedFile) :
    engine.chunksOfFiles s files = engine.chunksOfFiles other files := by
  have same : engine.chunksOfFile s = engine.chunksOfFile other := by
    funext found
    exact fst_chunk pure honest honest'
  rw [chunksOfFiles, chunksOfFiles, same]

theorem flatMap_tasks (engine : Engine γ) (w : World γ) (survey : Survey)
    (wanted : String → Bool) :
    (survey.tasks wanted).flatMap (engine.chunksOf w) = engine.chunksOfFiles w.session
      (survey.scan.files.filter fun found => wanted found.file.path) := by
  rw [Survey.tasks, List.flatMap_map]
  rfl

theorem withPath_chunksOfFile_of_ne {path : String} {found : ScannedFile}
    (ne : found.file.path ≠ path) : withPath path (engine.chunksOfFile s found) = [] := by
  refine Chunk.withPath_of_forall_ne fun c member => ?_
  rw [path_of_mem_chunksOfFile member]
  exact ne

theorem withPath_chunksOfFiles_filter (path : String) (files : List ScannedFile)
    (wanted : String → Bool) :
    withPath path (engine.chunksOfFiles s (files.filter fun found => wanted found.file.path)) =
      if wanted path then withPath path (engine.chunksOfFiles s files) else [] := by
  induction files with
  | nil => split <;> rfl
  | cons found rest ih =>
    unfold chunksOfFiles at ih ⊢
    by_cases here : found.file.path = path
    · subst here
      cases chosen : wanted found.file.path with
      | true =>
        simp only [List.filter_cons, chosen, if_true, List.flatMap_cons, Chunk.withPath_append]
          at ih ⊢
        rw [ih]
      | false =>
        simp only [List.filter_cons, chosen, Bool.false_eq_true, if_false] at ih ⊢
        exact ih
    · have nothing : withPath path (engine.chunksOfFile s found) = [] :=
        withPath_chunksOfFile_of_ne here
      rw [List.flatMap_cons, Chunk.withPath_append, nothing, List.nil_append, ← ih,
        List.filter_cons]
      split
      · rw [List.flatMap_cons, Chunk.withPath_append, nothing, List.nil_append]
      · rfl

theorem withPath_chunksOfFiles_of_not_mem {path : String} {files : List ScannedFile}
    (absent : ∀ found ∈ files, found.file.path ≠ path) :
    withPath path (engine.chunksOfFiles s files) = [] := by
  refine Chunk.withPath_of_forall_ne fun c member => ?_
  obtain ⟨found, among, inside⟩ := List.mem_flatMap.mp member
  rw [path_of_mem_chunksOfFile inside]
  exact absent found among

theorem withPath_chunksOfFiles_of_mem {files : List ScannedFile}
    (distinct : (files.map (·.file.path)).Nodup) {found : ScannedFile} (member : found ∈ files) :
    withPath found.file.path (engine.chunksOfFiles s files) = engine.chunksOfFile s found := by
  induction files with
  | nil => cases member
  | cons first rest ih =>
    rw [List.map_cons, List.nodup_cons] at distinct
    rw [chunksOfFiles, List.flatMap_cons, Chunk.withPath_append]
    rcases List.mem_cons.mp member with rfl | later
    · have others : withPath found.file.path (engine.chunksOfFiles s rest) = [] := by
        refine withPath_chunksOfFiles_of_not_mem fun f among same => distinct.1 ?_
        rw [← same]
        exact List.mem_map_of_mem (f := fun f : ScannedFile => f.file.path) among
      rw [← chunksOfFiles, others, List.append_nil]
      exact Chunk.withPath_of_forall fun c inside => path_of_mem_chunksOfFile inside
    · have ne : first.file.path ≠ found.file.path := fun same => distinct.1 <| by
        rw [same]
        exact List.mem_map_of_mem (f := fun f : ScannedFile => f.file.path) later
      rw [withPath_chunksOfFile_of_ne ne, List.nil_append]
      exact ih distinct.2 later

theorem pairwise_withPath_chunksOfFiles {files : List ScannedFile}
    (distinct : (files.map (·.file.path)).Nodup) (path : String) :
    (withPath path (engine.chunksOfFiles s files)).Pairwise
      fun a b => a.startsNoLater b = true := by
  by_cases there : ∃ found ∈ files, found.file.path = path
  · obtain ⟨found, among, rfl⟩ := there
    rw [withPath_chunksOfFiles_of_mem distinct among]
    exact pairwise_chunk ..
  · rw [withPath_chunksOfFiles_of_not_mem fun found among same => there ⟨found, among, same⟩]
    exact List.Pairwise.nil

theorem pairwise_path_chunksOfFiles {files : List ScannedFile}
    (sorted : files.Pairwise fun a b => a.file.path ≤ b.file.path) :
    (engine.chunksOfFiles s files).Pairwise fun a b => a.path ≤ b.path := by
  unfold chunksOfFiles
  rw [List.pairwise_flatMap]
  constructor
  · intro found _
    refine List.pairwise_of_forall_mem_list fun a first b second => ?_
    have same : a.path = b.path :=
      (path_of_mem_chunksOfFile first).trans (path_of_mem_chunksOfFile second).symm
    exact same ▸ String.le_refl _
  · refine sorted.imp fun {a b} le c first c' second => ?_
    rw [path_of_mem_chunksOfFile first, path_of_mem_chunksOfFile second]
    exact le

end Engine

/-! ### What is chunked again -/

namespace Store
variable {config : Config} {reuse : Entries FileNode} {before : Option HashTree} {d : Disk}
  {rules : Scan.Rules} {full : ScanResult} {survey : Survey} {force : Bool} {path : String}
  {node : FileNode}

def filesOf (tree : Option HashTree) : Entries FileNode := (tree.map (·.files)).getD []

theorem mem_rechunked (force : Bool) (right : survey.IsRight config reuse before d rules full)
    (there : Entries.get? path survey.tree.files = some node) :
    path ∈ rechunked force survey ↔
      force = true ∨ HashTree.hashOf? path (filesOf before) ≠ some node.hash := by
  unfold rechunked
  cases force with
  | true =>
    rw [if_pos rfl]
    refine ⟨fun _ => .inl rfl, fun _ => ?_⟩
    exact List.mem_map.mpr ⟨_, Entries.mem_of_get?_eq_some there, rfl⟩
  | false =>
    rw [if_neg Bool.false_ne_true, right.changes]
    rw [show HashTree.diff before survey.tree =
      HashTree.changes (filesOf before) survey.tree.files from rfl,
      HashTree.mem_paths_kept_changes right.tree.isRegular.files there]
    exact ⟨.inr, fun either => either.resolve_left Bool.false_ne_true⟩

theorem withPath_kept (right : survey.IsRight config reuse before d rules full)
    (chunks : List Chunk) (there : Entries.get? path survey.tree.files = some node) :
    withPath path (kept survey chunks) =
      if HashTree.hashOf? path (filesOf before) = some node.hash then withPath path chunks
      else [] := by
  have stale : path ∈ survey.changes.map (·.path) ↔
      HashTree.hashOf? path (filesOf before) ≠ some node.hash := by
    rw [right.changes]
    exact HashTree.mem_paths_changes right.tree.isRegular.files there
  have has : Entries.has path survey.tree.files = true := by
    rw [Entries.has_eq_isSome, there]
    rfl
  unfold withPath kept
  rw [List.filter_filter]
  by_cases same : HashTree.hashOf? path (filesOf before) = some node.hash
  · rw [if_pos same]
    refine List.filter_congr fun c _ => ?_
    by_cases here : c.path = path
    · simp [here, has, stale, same]
    · simp [here]
  · rw [if_neg same, List.filter_eq_nil_iff]
    intro c _
    by_cases here : c.path = path
    · simp [here, stale, same]
    · simp [here]

theorem withPath_kept_of_absent (survey : Survey) (chunks : List Chunk)
    (absent : Entries.has path survey.tree.files = false) :
    withPath path (kept survey chunks) = [] := by
  refine Chunk.withPath_of_forall_ne fun c member same => ?_
  have there := (List.mem_filter.mp member).2
  rw [same, absent, Bool.and_false] at there
  cases there

def merged (engine : Engine γ) (s : Session γ) (force : Bool) (survey : Survey)
    (full : ScanResult) (old : List Chunk) : List Chunk :=
  sortByAddress (kept survey old ++ engine.chunksOfFiles s
    (full.files.filter fun found => (rechunked force survey).contains found.file.path))

theorem contains_rechunked (force : Bool)
    (right : survey.IsRight config reuse before d rules full) (all : force = true ∨ before = none)
    (there : Entries.get? path survey.tree.files = some node) :
    (rechunked force survey).contains path = true := by
  rw [List.contains_iff_mem, mem_rechunked force right there]
  apply all.imp_right
  rintro rfl
  simp [filesOf, HashTree.hashOf?, Entries.get?]

def isTakenOver (force : Bool) (survey : Survey) (path : String) : Bool :=
  Entries.has path survey.tree.files && !(rechunked force survey).contains path

/-- The chunks of a file are taken over if it had the same digest before and nothing is forced. -/
theorem isTakenOver_iff (right : survey.IsRight config reuse before d rules full) :
    isTakenOver force survey path = true ↔ force = false ∧
      ∃ node, Entries.get? path survey.tree.files = some node ∧
        HashTree.hashOf? path (filesOf before) = some node.hash := by
  unfold isTakenOver
  cases there : Entries.has path survey.tree.files with
  | false =>
    have absent := Entries.get?_eq_none_iff.mpr fun member =>
      Bool.eq_false_iff.mp there (Entries.has_eq_true_iff.mpr member)
    simp [absent]
  | true =>
    obtain ⟨node, found⟩ := Entries.exists_of_has there
    have again := mem_rechunked force right found
    rw [Bool.true_and, Bool.not_eq_true', ← Bool.not_eq_true, List.contains_iff_mem, again]
    simp [found]

theorem isTakenOver_of_files_eq {tree : HashTree}
    (right : survey.IsRight config reuse (some tree) d rules full)
    (same : tree.files = survey.tree.files) :
    isTakenOver false survey path = Entries.has path survey.tree.files := by
  rw [Bool.eq_iff_iff, isTakenOver_iff right, Entries.has_eq_isSome, Option.isSome_iff_exists,
    show filesOf (some tree) = survey.tree.files from same]
  constructor
  · rintro ⟨-, node, found, -⟩
    exact ⟨node, found⟩
  · rintro ⟨node, found⟩
    exact ⟨rfl, node, found, by rw [HashTree.hashOf?, found, Option.map_some]⟩

variable {old : List Chunk}

theorem pairwise_path_merged : (merged engine s force survey full old).Pairwise
    fun a b => a.path ≤ b.path :=
  Chunk.pairwise_path_sortByAddress _

/-- Path by path, what is put together for a refresh is what was kept where chunks are taken over,
and what was chunked anew elsewhere. -/
theorem withPath_gathered (engine : Engine γ) (s : Session γ)
    (right : survey.IsRight config reuse before d rules full) (forced : force = true → old = [])
    (path : String) :
    withPath path (kept survey old ++ engine.chunksOfFiles s
      (full.files.filter fun found => (rechunked force survey).contains found.file.path)) =
        if isTakenOver force survey path then withPath path old
        else withPath path (engine.chunksOfFiles s full.files) := by
  rw [Chunk.withPath_append, Engine.withPath_chunksOfFiles_filter path full.files
    fun path => (rechunked force survey).contains path]
  cases there : Entries.has path survey.tree.files with
  | false =>
    have absent : withPath path (engine.chunksOfFiles s full.files) = [] := by
      refine Engine.withPath_chunksOfFiles_of_not_mem fun found among same => ?_
      rw [(right.tree.has_iff right.whole.result).mpr ⟨found, among, same⟩] at there
      cases there
    rw [withPath_kept_of_absent survey old there, absent, isTakenOver, there, ite_self]
    rfl
  | true =>
    obtain ⟨node, found⟩ := Entries.exists_of_has there
    have again := mem_rechunked force right found
    rw [withPath_kept right old found, isTakenOver, there, Bool.true_and]
    by_cases same : HashTree.hashOf? path (filesOf before) = some node.hash
    · rw [if_pos same]
      cases force with
      | true =>
        have chosen := List.contains_iff_mem.mpr (again.mpr (.inl rfl))
        rw [forced rfl, chosen]
        rfl
      | false =>
        have left : (rechunked false survey).contains path = false := by
          rw [← Bool.not_eq_true, List.contains_iff_mem, again]
          simp [same]
        rw [left]
        exact List.append_nil _
    · have chosen := List.contains_iff_mem.mpr (again.mpr (.inr same))
      rw [if_neg same, chosen]
      rfl

/-- Path by path, chunks are the old ones where they are taken over, and the new ones elsewhere. -/
theorem withPath_merged (right : survey.IsRight config reuse before d rules full)
    (sorted : old.Pairwise fun a b => a.isNoLater b = true) (forced : force = true → old = [])
    (path : String) :
    withPath path (merged engine s force survey full old) =
      if isTakenOver force survey path then withPath path old
      else withPath path (engine.chunksOfFiles s full.files) := by
  have gathered := withPath_gathered engine s right forced path
  have ordered : (withPath path (engine.chunksOfFiles s full.files)).Pairwise
      fun a b => a.startsNoLater b = true :=
    Engine.pairwise_withPath_chunksOfFiles right.whole.result.distinct path
  have oldOrdered : (withPath path old).Pairwise fun a b => a.startsNoLater b = true := by
    refine (sorted.filter _).imp_of_mem fun {a b} first second le => ?_
    rw [← Chunk.isNoLater_of_path_eq
      ((Chunk.mem_withPath.mp first).2.trans (Chunk.mem_withPath.mp second).2.symm)]
    exact le
  rw [merged, Chunk.withPath_sortByAddress, gathered]
  rw [gathered]
  split
  · exact oldOrdered
  · exact ordered

theorem map_normal_eq_iff {first second : List Chunk}
    (ordered : first.Pairwise fun a b => a.path ≤ b.path)
    (ordered' : second.Pairwise fun a b => a.path ≤ b.path) :
    first.map normal = second.map normal ↔
      ∀ path, (withPath path first).map normal = (withPath path second).map normal := by
  constructor
  · intro same path
    rw [← Chunk.withPath_map_normal, same, Chunk.withPath_map_normal]
  · intro same
    refine Chunk.eq_of_withPath_eq ?_ ?_ fun path => ?_
    · rw [List.pairwise_map]
      exact ordered
    · rw [List.pairwise_map]
      exact ordered'
    · rw [Chunk.withPath_map_normal, same, Chunk.withPath_map_normal]

/-- A refresh stores the chunks of a full pass just if the chunks are right that it takes over. -/
theorem merged_eq_iff (right : survey.IsRight config reuse before d rules full)
    (sorted : old.Pairwise fun a b => a.isNoLater b = true) (forced : force = true → old = []) :
    (merged engine s force survey full old).map normal =
        (engine.chunksOfFiles s full.files).map normal ↔
      ∀ path, isTakenOver force survey path = true → (withPath path old).map normal =
        (withPath path (engine.chunksOfFiles s full.files)).map normal := by
  rw [map_normal_eq_iff pairwise_path_merged
    (Engine.pairwise_path_chunksOfFiles right.whole.result.sorted)]
  refine forall_congr' fun path => ?_
  rw [withPath_merged right sorted forced path]
  cases isTakenOver force survey path with
  | true => simp
  | false => simp

end Store
end SourceIndex
