import SourceIndex.Proofs.HashTree.Build
import SourceIndex.Proofs.HashTree.Diff
import SourceIndex.Proofs.Scan.Walk
/-!
# What surveys find

A survey that takes digests over makes the same tree as one that reads every file. Where it leaves
a content out, the digest is the one that it was given, so the file is not among the changes.
-/

namespace SourceIndex

open Scan (IsResult IsScanned Reads Rules rulesFor rulesFor_eq_ok)

variable {γ : Type} {config : Config} {d : Disk}

/-! ### Full scans -/

/-- What a scan that reads every file finds. -/
structure IsFullScan (config : Config) (d : Disk) (rules : Rules) (full : ScanResult) : Prop where
  started : rulesFor config [] d = .ok rules
  done : (Scan.scan config [] d).result = .ok full
  disk : (Scan.scan config [] d).disk = d
  result : IsResult rules d full

theorem areRight_of_nil {rules : Rules} (found : rulesFor config [] d = .ok rules) :
    rules.AreRight d := by
  intro relative node data modified known
  rw [(rulesFor_eq_ok found).2.1] at known
  cases known

namespace IsFullScan
variable {rules : Rules} {full : ScanResult}

theorem reads (is : IsFullScan config d rules full) {found : ScannedFile}
    (member : found ∈ full.files) :
    ∃ content, Reads rules d found.file.path found.file content ∧
      found.content = some content := by
  obtain ⟨content, reads, filled | ⟨-, node, known, -⟩⟩ := is.result.files found member
  · exact ⟨content, reads, filled⟩
  · rw [(rulesFor_eq_ok is.started).2.1] at known
    cases known

theorem unique {rules' : Rules} {full' : ScanResult} (is : IsFullScan config d rules full)
    (other : IsFullScan config d rules' full') : rules = rules' ∧ full = full' := by
  have sameRules := is.started.symm.trans other.started
  have sameScan := is.done.symm.trans other.done
  rw [Except.ok.injEq] at sameRules sameScan
  exact ⟨sameRules, sameScan⟩

end IsFullScan

/-- A scan that takes digests over has the same files where it has their contents. -/
theorem filter_eq_filter {rules : Rules} {files full : List ScannedFile}
    (same : files.map (·.file) = full.map (·.file))
    (scanned : ∀ found ∈ files, IsScanned rules d found)
    (reads : ∀ found ∈ full, ∃ content, Reads rules d found.file.path found.file content ∧
      found.content = some content) {wanted : String → Bool}
    (filled : ∀ found ∈ files, wanted found.file.path = true → found.content ≠ none) :
    (files.filter fun found => wanted found.file.path) =
      full.filter fun found => wanted found.file.path := by
  induction files generalizing full with
  | nil =>
    cases full with
    | nil => rfl
    | cons other rest => cases same
  | cons found rest ih =>
    cases full with
    | nil => cases same
    | cons other others =>
      rw [List.map_cons, List.map_cons, List.cons.injEq] at same
      obtain ⟨file, same⟩ := same
      have later := ih same (fun f member => scanned f (List.mem_cons_of_mem _ member))
        (fun f member => reads f (List.mem_cons_of_mem _ member))
        (fun f member => filled f (List.mem_cons_of_mem _ member))
      rw [List.filter_cons, List.filter_cons, file, later]
      cases chosen : wanted other.file.path with
      | false => rfl
      | true =>
        obtain ⟨content, one, here | ⟨absent, -⟩⟩ := scanned found (List.mem_cons_self ..)
        · obtain ⟨text, two, there⟩ := reads other (List.mem_cons_self ..)
          rw [file] at one
          have content := (one.unique two).2
          have equal : found = other := by
            cases found
            cases other
            simp only at file here there
            rw [file, here, there, content]
          rw [equal]
        · exact absurd absent (filled found (List.mem_cons_self ..) (file ▸ chosen))

/-! ### Trees of scans -/

theorem Scan.IsResult.nodup_records {rules : Rules} {r : ScanResult} (is : IsResult rules d r) :
    (r.records.map (·.path)).Nodup := by
  rw [ScanResult.records, List.map_map]
  exact is.distinct

/-- A tree that is made of what a scan found, at any time. -/
def IsTreeOf (r : ScanResult) (tree : HashTree) : Prop :=
  ∃ now built, HashTree.build? r.records r.root now = some built ∧ built.tree = tree

namespace IsTreeOf
variable {rules : Rules} {r : ScanResult} {tree other : HashTree} {path : String}

theorem isRegular (is : IsTreeOf r tree) : tree.IsRegular := by
  obtain ⟨now, built, made, rfl⟩ := is
  exact HashTree.isRegular_of_build? made

theorem get?_iff (is : IsTreeOf r tree) (result : IsResult rules d r) {node : FileNode} :
    Entries.get? path tree.files = some node ↔
      ∃ found ∈ r.files, found.file.path = path ∧ HashTree.fileNode found.file = node := by
  obtain ⟨now, built, made, rfl⟩ := is
  rw [HashTree.get?_files_of_build? result.nodup_records made]
  constructor
  · rintro ⟨record, member, same, node⟩
    obtain ⟨found, among, rfl⟩ := List.mem_map.mp member
    exact ⟨found, among, same, node⟩
  · rintro ⟨found, among, same, node⟩
    exact ⟨found.file, List.mem_map_of_mem among, same, node⟩

theorem has_iff (is : IsTreeOf r tree) (result : IsResult rules d r) :
    Entries.has path tree.files = true ↔ ∃ found ∈ r.files, found.file.path = path := by
  rw [Entries.has_eq_isSome, Option.isSome_iff_exists]
  constructor
  · rintro ⟨node, there⟩
    obtain ⟨found, among, same, -⟩ := (is.get?_iff result).mp there
    exact ⟨found, among, same⟩
  · rintro ⟨found, among, same⟩
    exact ⟨_, (is.get?_iff result).mpr ⟨found, among, same, rfl⟩⟩

theorem files_eq_nil (is : IsTreeOf r tree) (result : IsResult rules d r) (empty : r.files = []) :
    tree.files = [] := by
  rw [List.eq_nil_iff_forall_not_mem]
  intro entry member
  obtain ⟨found, among, -⟩ := (is.has_iff result).mp
    (Entries.has_eq_true_iff.mpr (List.mem_map_of_mem member))
  rw [empty] at among
  cases among

theorem normal_eq (is : IsTreeOf r tree) (result : IsResult rules d r) :
    tree.normal.files = tree.files ∧ tree.normal.directories = tree.directories := by
  obtain ⟨now, built, made, rfl⟩ := is
  exact HashTree.normal_of_build? result.nodup_records made

theorem eq_of_isTreeOf (is : IsTreeOf r tree) (also : IsTreeOf r other) :
    tree.files = other.files ∧ tree.directories = other.directories := by
  obtain ⟨now, built, made, rfl⟩ := is
  obtain ⟨later, built', made', rfl⟩ := also
  rw [HashTree.build?_at r.records r.root now later, made] at made'
  cases made'
  exact ⟨rfl, rfl⟩

end IsTreeOf

/-! ### Surveys -/

/-- What a survey of a disk found, beside what a full scan finds. -/
structure Survey.IsRight (config : Config) (reuse : Entries FileNode) (before : Option HashTree)
    (d : Disk) (rules : Rules) (full : ScanResult) (survey : Survey) : Prop where
  started : rulesFor config reuse d = .ok rules
  result : IsResult rules d survey.scan
  whole : IsFullScan config d rules.fresh full
  records : full.records = survey.scan.records
  tree : IsTreeOf full survey.tree
  changes : survey.changes = HashTree.diff before survey.tree

namespace Survey
variable {reuse : Entries FileNode} {before : Option HashTree} {now : Moment} {w after : World γ}
  {survey : Survey}

theorem run_eq_ok (proper : d.IsProper) (still : d.IsStill)
    (right : ∀ rules, rulesFor config reuse d = .ok rules → rules.AreRight d)
    (disk : w.disk = d) (done : run config reuse before now w = (.ok survey, after)) :
    after.disk = d ∧ after.session.loaded = w.session.loaded ∧
      ∃ rules full, survey.IsRight config reuse before d rules full := by
  subst disk
  unfold run at done
  simp only at done
  split at done
  · cases done
  rename_i scan scanned
  split at done
  · cases done
  rename_i built made
  rw [Prod.mk.injEq, Except.ok.injEq] at done
  obtain ⟨rfl, rfl⟩ := done
  obtain ⟨rules, found, disk, result, full, all, alone, whole, records⟩ :=
    Scan.scan_eq_ok proper still right scanned
  refine ⟨?_, ?_, rules, full, found, result, ⟨Scan.rulesFor_fresh found, all, alone, whole⟩,
    records, ?_, rfl⟩
  · rw [World.disk_notes, World.disk_notes]
    exact disk
  · rw [World.loaded_notes, World.loaded_notes]
  · refine ⟨now.millis, built, ?_, rfl⟩
    rw [records, whole.root, ← made, result.root]
    rfl

namespace IsRight
variable {rules : Rules} {full : ScanResult} {path : String} {found : ScannedFile}

theorem files_eq (right : survey.IsRight config reuse before d rules full) :
    full.files.map (·.file) = survey.scan.files.map (·.file) := right.records

theorem get?_tree (right : survey.IsRight config reuse before d rules full)
    (member : found ∈ survey.scan.files) :
    Entries.get? found.file.path survey.tree.files = some (HashTree.fileNode found.file) := by
  have among : found.file ∈ full.files.map (·.file) := by
    rw [right.files_eq]
    exact List.mem_map_of_mem member
  obtain ⟨other, there, same⟩ := List.mem_map.mp among
  exact (right.tree.get?_iff right.whole.result).mpr ⟨other, there, by rw [same], by rw [same]⟩

theorem hashOf?_reuse (right : survey.IsRight config reuse before d rules full)
    (member : found ∈ survey.scan.files) (absent : found.content = none) :
    HashTree.hashOf? found.file.path reuse = some found.file.hash := by
  obtain ⟨content, -, filled | ⟨-, node, known, same⟩⟩ := right.result.files found member
  · rw [absent] at filled
    cases filled
  · rw [(rulesFor_eq_ok right.started).2.1] at known
    rw [HashTree.hashOf?, known, Option.map_some, same]

theorem filter_files (right : survey.IsRight config reuse before d rules full)
    (wanted : String → Bool)
    (filled : ∀ found ∈ survey.scan.files, wanted found.file.path = true → found.content ≠ none) :
    (survey.scan.files.filter fun found => wanted found.file.path) =
      full.files.filter fun found => wanted found.file.path := by
  have reads : ∀ found ∈ full.files, ∃ content,
      Reads rules d found.file.path found.file content ∧ found.content = some content :=
    fun found member => right.whole.reads member
  exact filter_eq_filter right.files_eq.symm right.result.files reads filled

end IsRight
end Survey
end SourceIndex
