import SourceIndex.Proofs.FileSystem.Usable
import SourceIndex.Proofs.Store.Stored
/-!
# Room for an index

Saving an index can fail for the paths of its files, for the values in them and for what is in the
way on the disk. The first two do not depend on the disk: they are fine everywhere if an index was
saved once.
-/

namespace SourceIndex

open Disk (IsUsable)

variable {now : Moment} {d after : Disk} {writes : List Write}

/-! ### Runs of changes -/

theorem Write.exists_apply (done : Write.applyAll now writes d = (none, after)) :
    ∀ write ∈ writes, ∃ before next, write.apply now before = (none, next) := by
  induction writes generalizing d with
  | nil => simp
  | cons write rest ih =>
    obtain ⟨next, applied, later⟩ := Write.applyAll_cons done
    intro other member
    rcases List.mem_cons.mp member with rfl | among
    · exact ⟨d, next, applied⟩
    · exact ih later other among

theorem Write.applyAll_append {between : Disk}
    (done : Write.applyAll now writes d = (none, between)) (rest : List Write) :
    Write.applyAll now (writes ++ rest) d = Write.applyAll now rest between := by
  induction writes generalizing d with
  | nil => rw [List.nil_append, (Prod.mk.inj done).2]
  | cons write others ih =>
    obtain ⟨next, applied, later⟩ := Write.applyAll_cons done
    rw [List.cons_append, Write.applyAll, applied]
    exact ih later

theorem Write.applyAll_atOnce {p : Path} {values : List Json} {written : Disk}
    (writable : ∀ value ∈ values, value.isWritable = true)
    (first : d.writeFile (Write.temporary p) (Text.Utf8.encode (Write.linesOf values)) now.nanos =
      .ok written) (second : written.replaceFile (Write.temporary p) p = .ok after) :
    Write.applyAll now (Write.atOnce p values) d = (none, after) := by
  have kept : values.takeWhile Json.isWritable = values := List.takeWhile_eq_self_iff.mpr writable
  have all : values.all Json.isWritable = true := List.all_eq_true.mpr writable
  have wrote : Write.writeValues d (Write.temporary p) values now.nanos = (none, written) := by
    unfold Write.writeValues
    simp only [kept, first, all, if_true]
  rw [Write.atOnce, Write.applyAll, Write.apply, wrote]
  simp only [Write.applyAll, Write.apply, second, Write.Effect.ofResult]

namespace Store
variable {γ : Type} {s : Store} {place : Place} {made : Disk} {manifest : Manifest}
  {tree : HashTree} {chunks : List Chunk} {name : String} {values : List Json}

/-! ### The files of an index -/

def contentsOf (manifest : Manifest) (tree : HashTree) (chunks : List Chunk) :
    List (String × List Json) :=
  [("merkle.json", [tree.toJson]), ("chunks.jsonl", chunks.map Chunk.toJson),
   ("manifest.json", [manifest.toJson])]

def putAll (s : Store) (files : List (String × List Json)) : List Write :=
  files.flatMap fun file => Write.atOnce (s.directory.child file.1) file.2

theorem writes_eq (s : Store) (manifest : Manifest) (tree : HashTree) (chunks : List Chunk) :
    s.writes manifest tree chunks =
      .directory s.directory :: s.putAll (contentsOf manifest tree chunks) := rfl

theorem keys_contentsOf (manifest : Manifest) (tree : HashTree) (chunks : List Chunk) :
    (contentsOf manifest tree chunks).map Prod.fst = fileNames := rfl

/-- The paths that are used when an index is saved. -/
structure IsUsable (s : Store) : Prop where
  directory : Disk.IsUsable s.directory
  file : ∀ name ∈ fileNames, Disk.IsUsable (s.directory.child name)
  temporary : ∀ name ∈ fileNames, Disk.IsUsable (s.directory.child (temporaryName name))

def AreWritable (files : List (String × List Json)) : Prop :=
  ∀ file ∈ files, ∀ value ∈ file.2, value.isWritable = true

theorem isUsable_of_atOnce
    (done : ∀ write ∈ Write.atOnce (s.directory.child name) values, ∃ before next,
      write.apply now before = (none, next)) :
    Disk.IsUsable (s.directory.child name) ∧
      Disk.IsUsable (s.directory.child (temporaryName name)) ∧
      ∀ value ∈ values, value.isWritable = true := by
  unfold Write.atOnce at done
  rw [temporary_child] at done
  obtain ⟨before, next, written⟩ := done _ (List.mem_cons_self ..)
  obtain ⟨between, last, moved⟩ := done _ (List.mem_cons_of_mem _ (List.mem_cons_self ..))
  obtain ⟨writable, written⟩ := Write.writeValues_eq_ok written
  have temporary := Disk.isUsable_of_writeFile written
  exact ⟨Disk.isUsable_of_replaceFile (hasZero_of_temporary temporary.noZero)
    (Write.ofResult_eq_ok moved), temporary, writable⟩

/-- An index that was saved once can be saved on every other disk that has room for it. -/
theorem isUsable_of_applyAll (isTree : d.IsTree)
    (done : Write.applyAll now (s.writes manifest tree chunks) d = (none, after)) :
    s.IsUsable ∧ AreWritable (contentsOf manifest tree chunks) := by
  rw [writes_eq] at done
  obtain ⟨made, directory, later⟩ := Write.applyAll_cons done
  have isMade := Disk.made_makeDirectory isTree (Write.ofResult_eq_ok directory)
  have each (file : String × List Json) (member : file ∈ contentsOf manifest tree chunks) :
      Disk.IsUsable (s.directory.child file.1) ∧
        Disk.IsUsable (s.directory.child (temporaryName file.1)) ∧
        ∀ value ∈ file.2, value.isWritable = true :=
    isUsable_of_atOnce fun write among =>
      Write.exists_apply later write (List.mem_flatMap.mpr ⟨file, member, among⟩)
  have named (name : String) (member : name ∈ fileNames) :
      Disk.IsUsable (s.directory.child name) ∧
        Disk.IsUsable (s.directory.child (temporaryName name)) := by
    rw [← keys_contentsOf manifest tree chunks] at member
    obtain ⟨file, among, rfl⟩ := List.mem_map.mp member
    exact ⟨(each file among).1, (each file among).2.1⟩
  exact ⟨⟨isMade.usable, fun name member => (named name member).1,
    fun name member => (named name member).2⟩, fun file among => (each file among).2.2⟩

/-! ### Saving -/

/-- The index directory is in reach, and only files are in the way in it. -/
structure HasRoom (s : Store) (place : Place) (d : Disk) : Prop where
  opens : d.Opens s.directory place
  file : ∀ name ∈ fileNames, d.IsFree (place ++ [name])
  temporary : ∀ name ∈ fileNames, d.IsFree (place ++ [temporaryName name])

namespace HasRoom

theorem isReady (room : HasRoom s place d) : IsReady s d place where
  tree := room.opens.tree
  around := by
    refine room.opens.reaches.of_keeps (Disk.keeps_withoutLinks_of_noLink fun other among => ?_) rfl
    obtain ⟨name, member, rfl⟩ := List.mem_map.mp among
    exact (room.file name member).isOrdinary.noLink
  temporary name member := (room.temporary name member).isOrdinary

theorem isTidy (room : HasRoom s place made)
    (told : ∀ name ∈ fileNames, Disk.defect? (s.directory.child name) d.defects.stat = none)
    (done : d.makeDirectories s.directory = .ok made) : IsTidy s d := by
  refine ⟨told, fun made' place' done' reaches name member => ?_⟩
  have same := done.symm.trans done'
  rw [Except.ok.injEq] at same
  subst same
  have goal := room.opens.reaches.symm.trans reaches
  rw [Except.ok.injEq, Prod.mk.injEq] at goal
  rw [← goal.1]
  exact ⟨(room.file name member).isOrdinary, (room.temporary name member).isOrdinary⟩

theorem of_placed {next : Disk} (room : HasRoom s place d) (member : name ∈ fileNames)
    (placed : Placed now d s.directory place name values next) : HasRoom s place next := by
  refine ⟨placed.opens, fun other among => ?_, fun other among => ?_⟩
  all_goals by_cases same : other = name
  · intro item there
    rw [same, placed.file, Option.some.injEq] at there
    exact ⟨_, _, there.symm⟩
  · exact Disk.isFree_of_item? (room.file other among)
      (item?_of_placed member among same placed).1
  · intro item there
    rw [same, placed.gone] at there
    cases there
  · exact Disk.isFree_of_item? (room.temporary other among)
      (item?_of_placed member among same placed).2

theorem put (room : HasRoom s place d) (usable : s.IsUsable) (member : name ∈ fileNames)
    (writable : ∀ value ∈ values, value.isWritable = true) (now : Moment) :
    ∃ next, Write.applyAll now (Write.atOnce (s.directory.child name) values) d = (none, next) ∧
      HasRoom s place next := by
  have isName := isIndexName_of_mem member
  obtain ⟨written, wrote⟩ := Disk.writeFile_succeeds (usable.temporary name member)
    room.opens.reaches isName.temporary (room.temporary name member)
    (Text.Utf8.encode (Write.linesOf values)) now.nanos
  have stands := Disk.wrote_writeFile room.opens isName.temporary
    (room.temporary name member).isOrdinary wrote
  have onto : written.IsFree (place ++ [name]) :=
    Disk.isFree_of_item? (room.file name member)
      (stands.others _ (by simpa using (temporaryName_ne name).symm))
  have moves : written.IsFree (place ++ [temporaryName name]) := by
    intro item there
    rw [stands.file, Option.some.injEq] at there
    exact ⟨_, _, there.symm⟩
  obtain ⟨next, replaced⟩ := Disk.replaceFile_succeeds (usable.temporary name member)
    (usable.file name member) stands.opens.reaches isName.temporary isName.final
    (by simp [stands.file]) moves onto
  have placed := placed_of_moved isName (room.isReady.around_file member) writable stands replaced
  rw [← temporary_child] at wrote replaced
  exact ⟨next, Write.applyAll_atOnce writable wrote replaced, room.of_placed member placed⟩

theorem putAll {files : List (String × List Json)} (room : HasRoom s place d)
    (usable : s.IsUsable) (members : ∀ file ∈ files, file.1 ∈ fileNames)
    (writable : AreWritable files) (now : Moment) :
    ∃ next, Write.applyAll now (s.putAll files) d = (none, next) := by
  induction files generalizing d with
  | nil => exact ⟨d, rfl⟩
  | cons file rest ih =>
    obtain ⟨next, first, room⟩ := room.put usable (members file (List.mem_cons_self ..))
      (writable file (List.mem_cons_self ..)) now
    obtain ⟨last, later⟩ := ih room (fun f among => members f (List.mem_cons_of_mem _ among))
      fun f among => writable f (List.mem_cons_of_mem _ among)
    refine ⟨last, ?_⟩
    rw [Store.putAll, List.flatMap_cons, Write.applyAll_append first]
    exact later

theorem save {survey : Survey} {w : World γ} (room : HasRoom s place made) (usable : s.IsUsable)
    (done : w.disk.makeDirectories s.directory = .ok made)
    (writable : AreWritable (contentsOf (manifestOf now survey chunks) survey.tree chunks)) :
    ∃ after, s.save now survey chunks w = (.ok (), after) := by
  have members : ∀ file ∈ contentsOf (manifestOf now survey chunks) survey.tree chunks,
      file.1 ∈ fileNames := fun file member => by
    rw [← keys_contentsOf (manifestOf now survey chunks) survey.tree chunks]
    exact List.mem_map_of_mem member
  obtain ⟨last, put⟩ := room.putAll usable members writable now
  refine ⟨{ w with disk := last }, ?_⟩
  unfold Store.save
  rw [writes_eq, Write.applyAll, Write.apply, done]
  simp only [Write.Effect.ofResult, put]

end HasRoom
end Store
end SourceIndex
