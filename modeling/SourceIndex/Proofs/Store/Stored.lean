import SourceIndex.Proofs.Store.Load
import SourceIndex.Proofs.Store.Save
import SourceIndex.Store.Refresh
/-!
# Stored indexes

Saving leaves a whole index behind: its tree, its chunks and a manifest, each in its own file. What
is stored is what the next refresh starts from.
-/

namespace SourceIndex.Store
variable {γ : Type} {s : Store} {d next : Disk} {w after : World γ} {now : Moment}
  {tree : HashTree} {chunks : List Chunk}

open Chunk (normal sortByAddress)

/-! ### Stored indexes -/

def fileNames : List String := ["merkle.json", "chunks.jsonl", "manifest.json"]

/-- A tree and chunks are stored on a disk, under a manifest. -/
structure IsStored (s : Store) (d : Disk) (tree : HashTree) (chunks : List Chunk) : Prop where
  regular : tree.IsRegular
  treeFile : HasLines d s.treePath [tree.toJson]
  chunksFile : HasLines d s.chunksPath (chunks.map Chunk.toJson)
  manifestFile : ∃ manifest : Manifest, HasLines d s.manifestPath [manifest.toJson]

namespace IsStored

theorem requireSchema (is : IsStored s d tree chunks) : s.requireSchema d = .ok () := by
  obtain ⟨manifest, has⟩ := is.manifestFile
  exact requireSchema_of_hasLines has

theorem loadTree (is : IsStored s d tree chunks) : s.loadTree d = .ok (some tree.normal) :=
  loadTree_of_hasLines is.regular is.treeFile

theorem loadChunks (is : IsStored s d tree chunks) :
    s.loadChunks d = .ok (sortByAddress (chunks.map normal)) :=
  loadChunks_of_hasLines is.requireSchema is.chunksFile

/-- A forced refresh does not start from the chunks that are stored. -/
theorem loadBefore (is : IsStored s w.disk tree chunks) (force : Bool) :
    s.loadBefore force w = (.ok ⟨some tree.normal,
      if force then [] else sortByAddress (chunks.map normal)⟩, w) := by
  obtain ⟨manifest, has⟩ := is.manifestFile
  unfold Store.loadBefore
  rw [readManifest_of_hasLines has]
  cases force with
  | true =>
    simp only [if_true]
    unfold loadTreeIfReadable
    rw [is.loadTree]
  | false =>
    simp only [Bool.false_eq_true, if_false]
    unfold loadBoth
    rw [is.requireSchema]
    simp only
    rw [is.loadTree]
    simp only
    rw [is.loadChunks]
    rfl

end IsStored

theorem IsStored.of_lookUp (is : IsStored s d tree chunks)
    (told : ∀ name ∈ fileNames, Disk.defect? (s.directory.child name) next.defects.stat = none)
    (files : ∀ name ∈ fileNames, ∀ item, d.lookUp (s.directory.child name) = .ok item →
      next.lookUp (s.directory.child name) = .ok item) :
    IsStored s next tree chunks := by
  have same {name : String} {values : List Json} (member : name ∈ fileNames)
      (has : HasLines d (s.directory.child name) values) :
      HasLines next (s.directory.child name) values := by
    obtain ⟨modified, file⟩ := has.file
    exact ⟨told name member, has.writable, modified, files name member _ file⟩
  obtain ⟨manifest, manifestFile⟩ := is.manifestFile
  exact ⟨is.regular, same (by decide) is.treeFile, same (by decide) is.chunksFile, manifest,
    same (by decide) manifestFile⟩

theorem loadBefore_of_readManifest (none : s.readManifest w.disk = .ok none) (force : Bool) :
    s.loadBefore force w = (.ok .nothing, w) := by
  unfold loadBefore
  rw [none]

/-! ### Saving -/

/-- Nothing is in the way of storing an index: the index directory has no link or special file where
a file of the index is written, and these files can be asked for. -/
structure IsTidy (s : Store) (d : Disk) : Prop where
  told : ∀ name ∈ fileNames, Disk.defect? (s.directory.child name) d.defects.stat = none
  ordinary : ∀ made place, d.makeDirectories s.directory = .ok made →
    made.Reaches s.directory place → ∀ name ∈ fileNames,
      made.IsOrdinary (place ++ [name]) ∧ made.IsOrdinary (place ++ [temporaryName name])

def placesIn (place : Place) : List Place := fileNames.map fun name => place ++ [name]

/-- Nothing keeps an index from being read back once it is stored: its files can be asked for, the
index directory is reached without links that stand in it where a file of the index comes to stand,
and in it no link or special file has a name under which a file is written until it is moved. -/
structure IsClear (s : Store) (d : Disk) : Prop where
  told : ∀ name ∈ fileNames, Disk.defect? (s.directory.child name) d.defects.stat = none
  around : ∀ made place, d.makeDirectories s.directory = .ok made →
    made.Reaches s.directory place →
      (made.withoutLinks (placesIn place)).Reaches s.directory place
  temporary : ∀ made place, d.makeDirectories s.directory = .ok made →
    made.Reaches s.directory place → ∀ name ∈ fileNames,
      made.IsOrdinary (place ++ [temporaryName name])

theorem IsTidy.isClear (tidy : IsTidy s d) : IsClear s d where
  told := tidy.told
  around made place done reaches := by
    refine reaches.of_keeps (Disk.keeps_withoutLinks_of_noLink fun other among => ?_) rfl
    obtain ⟨name, member, rfl⟩ := List.mem_map.mp among
    exact (tidy.ordinary made place done reaches name member).1.noLink
  temporary made place done reaches name member :=
    (tidy.ordinary made place done reaches name member).2

def isPlain : Item → Bool
  | .file .. | .directory => true
  | .link _ | .special => false

theorem isOrdinary_of_isPlain (plain : ∀ entry ∈ d.items, isPlain entry.2 = true)
    (place : Place) : d.IsOrdinary place := by
  intro item there
  unfold Disk.item? at there
  split at there
  · cases there
    simp
  · obtain ⟨entry, found, rfl⟩ := Option.map_eq_some_iff.mp there
    have isPlain := plain entry (List.mem_of_find?_eq_some found)
    cases kind : entry.2 with
    | file data modified => simp
    | directory => simp
    | link target => simp [kind, Store.isPlain] at isPlain
    | special => simp [kind, Store.isPlain] at isPlain

/-- A disk that has files and directories only is tidy, if the files of the index can be asked
for. -/
theorem isTidy_of_isPlain
    (told : ∀ name ∈ fileNames, Disk.defect? (s.directory.child name) d.defects.stat = none)
    (plain : ∀ made, d.makeDirectories s.directory = .ok made →
      ∀ entry ∈ made.items, isPlain entry.2 = true) : IsTidy s d := by
  refine ⟨told, fun made place done _ name _ => ?_⟩
  have ordinary := isOrdinary_of_isPlain (plain made done)
  exact ⟨ordinary _, ordinary _⟩

theorem isIndexName_of_mem {name : String} (member : name ∈ fileNames) : IsIndexName name := by
  simp only [fileNames, List.mem_cons, List.not_mem_nil, or_false] at member
  rcases member with rfl | rfl | rfl
  all_goals exact ⟨⟨by decide, by decide, by decide⟩, ⟨by decide, by decide, by decide⟩⟩

theorem names_apart {name other : String} (member : name ∈ fileNames)
    (among : other ∈ fileNames) (differs : name ≠ other) :
    name ≠ temporaryName other ∧ temporaryName name ≠ temporaryName other := by
  simp only [fileNames, List.mem_cons, List.not_mem_nil, or_false] at member among
  rcases member with rfl | rfl | rfl <;> rcases among with rfl | rfl | rfl
  all_goals first
    | exact absurd rfl differs
    | exact ⟨by decide, by decide⟩

/-! ### The index directory -/

/-- The index directory is in reach, and nothing in it is in the way. -/
structure IsReady (s : Store) (d : Disk) (place : Place) : Prop where
  tree : d.IsTree
  around : (d.withoutLinks (placesIn place)).Reaches s.directory place
  temporary : ∀ name ∈ fileNames, d.IsOrdinary (place ++ [temporaryName name])

structure Holds (s : Store) (place : Place) (d : Disk) (name : String) (values : List Json) :
    Prop where
  noZero : Disk.hasZero (s.directory.child name) = false
  short : ¬ Disk.maxPathBytes ≤ Text.Utf8.size (s.directory.child name).text
  writable : ∀ value ∈ values, value.isWritable = true
  file : ∃ modified, d.item? (place ++ [name]) =
    some (.file (Text.Utf8.encode (Write.linesOf values)) modified)

variable {place : Place} {name other : String} {values : List Json}

theorem subset_placesIn (member : name ∈ fileNames) : [place ++ [name]] ⊆ placesIn place :=
  List.cons_subset.mpr ⟨List.mem_map_of_mem member, List.nil_subset _⟩

theorem IsClear.isReady {made : Disk} (clear : IsClear s d) (tree : d.IsTree)
    (done : d.makeDirectories s.directory = .ok made) : ∃ place, IsReady s made place := by
  have isMade := Disk.made_makeDirectory tree done
  obtain ⟨place, reaches⟩ := isMade.reaches
  exact ⟨place, isMade.tree, clear.around made place done reaches,
    clear.temporary made place done reaches⟩

theorem IsReady.opens (ready : IsReady s d place) : d.Opens s.directory place :=
  ⟨ready.tree, ready.around.of_keeps (d.keeps_withoutLinks _) rfl⟩

theorem IsReady.around_file (ready : IsReady s d place) (member : name ∈ fileNames) :
    (d.withoutLinks [place ++ [name]]).Reaches s.directory place :=
  ready.around.of_keeps (d.keeps_withoutLinks_of_subset (subset_placesIn member)) rfl

theorem Holds.hasLines (holds : Holds s place d name values) (opens : d.Opens s.directory place)
    (member : name ∈ fileNames)
    (told : Disk.defect? (s.directory.child name) d.defects.stat = none) :
    HasLines d (s.directory.child name) values := by
  obtain ⟨modified, file⟩ := holds.file
  exact ⟨told, holds.writable, modified, lookUp_child opens
    (isIndexName_of_mem member).final holds.noZero holds.short file (by simp)⟩

theorem holds_of_placed (placed : Placed now d s.directory place name values next) :
    Holds s place next name values :=
  ⟨placed.noZero, placed.short, placed.writable, _, placed.file⟩

theorem item?_of_placed (member : name ∈ fileNames) (among : other ∈ fileNames)
    (differs : other ≠ name) (placed : Placed now d s.directory place name values next) :
    next.item? (place ++ [other]) = d.item? (place ++ [other]) ∧
      next.item? (place ++ [temporaryName other]) = d.item? (place ++ [temporaryName other]) := by
  have apart := names_apart among member differs
  have apart' := names_apart member among differs.symm
  constructor
  · exact placed.others _ (by simpa using differs) (by simpa using apart.1)
  · exact placed.others _ (by simpa using apart'.1.symm) (by simpa using apart.2)

theorem Holds.of_placed {items : List Json} (holds : Holds s place d other items)
    (member : name ∈ fileNames) (among : other ∈ fileNames) (differs : other ≠ name)
    (placed : Placed now d s.directory place name values next) :
    Holds s place next other items := by
  obtain ⟨modified, file⟩ := holds.file
  refine ⟨holds.noZero, holds.short, holds.writable, modified, ?_⟩
  rw [(item?_of_placed member among differs placed).1, file]

theorem IsReady.of_placed (ready : IsReady s d place) (member : name ∈ fileNames)
    (placed : Placed now d s.directory place name values next) : IsReady s next place := by
  have around := ready.around.of_keeps (placed.keeps.withoutLinks (subset_placesIn member))
    placed.here
  refine ⟨placed.opens.tree, around, fun other others => ?_⟩
  by_cases same : other = name
  · subst same
    intro item there
    rw [placed.gone] at there
    cases there
  · unfold Disk.IsOrdinary
    rw [(item?_of_placed member others same placed).2]
    exact ready.temporary other others

/-! ### Saving -/

theorem placed_of_ready {rest : List Write} (ready : IsReady s d place) (member : name ∈ fileNames)
    (done : Write.applyAll now (Write.atOnce (s.directory.child name) values ++ rest) d =
      (none, next)) :
    ∃ between, Placed now d s.directory place name values between ∧ IsReady s between place ∧
      Write.applyAll now rest between = (none, next) := by
  obtain ⟨between, placed, later⟩ := placed_of_applyAll ready.opens (isIndexName_of_mem member)
    (ready.around_file member) (ready.temporary name member) done
  exact ⟨between, placed, ready.of_placed member placed, later⟩

theorem isStored_of_save (clear : IsClear s w.disk) (isTree : w.disk.IsTree) {survey : Survey}
    (regular : survey.tree.IsRegular)
    (done : s.save now survey chunks w = (.ok (), after)) :
    IsStored s after.disk survey.tree chunks ∧
      HasLines after.disk s.manifestPath [(manifestOf now survey chunks).toJson] ∧
      after.session = w.session := by
  unfold save at done
  split at done
  · rename_i last applied
    rw [Prod.mk.injEq] at done
    rw [← done.2, ← and_assoc]
    refine ⟨?_, rfl⟩
    unfold writes at applied
    rw [List.cons_append, List.cons_append] at applied
    obtain ⟨made, directory, applied⟩ := Write.applyAll_cons applied
    have directory := Write.ofResult_eq_ok directory
    obtain ⟨place, ready⟩ := clear.isReady isTree directory
    rw [List.append_assoc] at applied
    obtain ⟨first, placed, ready, applied⟩ := placed_of_ready ready (by decide) applied
    obtain ⟨second, placed', ready, applied⟩ := placed_of_ready ready (by decide) applied
    rw [← List.append_nil (Write.atOnce s.manifestPath _)] at applied
    obtain ⟨third, placed'', ready, applied⟩ := placed_of_ready ready (by decide) applied
    rw [Write.applyAll, Prod.mk.injEq] at applied
    obtain ⟨-, rfl⟩ := applied
    have defects : third.defects = w.disk.defects := by
      rw [placed''.defects, placed'.defects, placed.defects,
        (Disk.made_makeDirectory isTree directory).defects]
    have told (name : String) (member : name ∈ fileNames) :
        Disk.defect? (s.directory.child name) third.defects.stat = none := by
      rw [defects]
      exact clear.told name member
    have treeFile := (holds_of_placed placed).of_placed (by decide) (by decide) (by decide) placed'
    have treeFile := treeFile.of_placed (by decide) (by decide) (by decide) placed''
    have chunksFile :=
      (holds_of_placed placed').of_placed (by decide) (by decide) (by decide) placed''
    have manifestFile :=
      (holds_of_placed placed'').hasLines ready.opens (by decide) (told _ (by decide))
    exact ⟨⟨regular, treeFile.hasLines ready.opens (by decide) (told _ (by decide)),
      chunksFile.hasLines ready.opens (by decide) (told _ (by decide)), _, manifestFile⟩,
      manifestFile⟩
  · cases done

end SourceIndex.Store
