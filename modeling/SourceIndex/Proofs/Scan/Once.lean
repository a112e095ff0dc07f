import SourceIndex.Proofs.Scan.Walk
/-!
# Every file is listed once

No two files of a scan have the same path or the same real path, however links lead through the
workspace. For paths, this is since a walk visits no place twice; for real paths, since a walk
remembers those that it has seen.
-/

namespace SourceIndex.Scan
variable {rules : Rules} {d : Disk}

/-- The real path of a scanned file in a workspace with a given root. -/
def realOf (d : Disk) (root : Path) (found : ScannedFile) : Except FileError Path :=
  d.resolve false (root.below found.file.path)

/-! ### Real paths that were seen -/

/-- All files of a tally have real paths, which were seen, and no two have the same one. -/
structure Tally.IsDistinct (rules : Rules) (d : Disk) (t : Tally) : Prop where
  bare : t.disk.bare = d.bare
  seen : ∀ found ∈ t.files, ∃ real ∈ t.seen, realOf d rules.root found = .ok real
  distinct : t.files.Pairwise fun a b => realOf d rules.root a ≠ realOf d rules.root b

variable {t after : Tally}

theorem Tally.IsDistinct.of_eq (distinct : t.IsDistinct rules d)
    (bare : after.disk.bare = t.disk.bare) (seen : t.seen ⊆ after.seen)
    (files : after.files = t.files) : after.IsDistinct rules d := by
  refine ⟨bare.trans distinct.bare, ?_, files ▸ distinct.distinct⟩
  intro found member
  rw [files] at member
  obtain ⟨real, known, resolved⟩ := distinct.seen found member
  exact ⟨real, seen known, resolved⟩

theorem Tally.IsDistinct.add (distinct : t.IsDistinct rules d)
    (bare : after.disk.bare = t.disk.bare) {real : Path} (unseen : real ∉ t.seen)
    (seen : after.seen = real :: t.seen) {found : ScannedFile}
    (files : after.files = t.files ++ [found]) (resolved : realOf d rules.root found = .ok real) :
    after.IsDistinct rules d := by
  refine ⟨bare.trans distinct.bare, ?_, ?_⟩
  · intro other member
    rw [files] at member
    rw [seen]
    rcases List.mem_append.mp member with before | here
    · obtain ⟨real, known, resolved⟩ := distinct.seen other before
      exact ⟨real, List.mem_cons_of_mem _ known, resolved⟩
    · rw [List.mem_singleton.mp here]
      exact ⟨real, List.mem_cons_self .., resolved⟩
  · rw [files, List.pairwise_append]
    refine ⟨distinct.distinct, List.pairwise_singleton .., ?_⟩
    intro other before last here same
    rw [List.mem_singleton.mp here, resolved] at same
    obtain ⟨real', known, resolved'⟩ := distinct.seen other before
    rw [resolved', Except.ok.injEq] at same
    exact unseen (same ▸ known)

theorem isKept_distinct (rules : Rules) (d : Disk) :
    IsKept rules d (Tally.IsDistinct rules d) where
  bare _ distinct := distinct.bare
  same _ _ distinct seen files disk :=
    distinct.of_eq (congrArg Disk.bare disk) (by rw [seen]; exact List.Subset.refl _) files
  -- The only step that adds a file, which checks and remembers the real path first.
  visit t path relative realPath distinct below _ resolved := by
    rcases gains_visitFile rules path relative realPath t with
      ⟨gains, files⟩ | ⟨unseen, gains⟩
    · exact distinct.of_eq gains.bare (by rw [gains.seen]; exact List.Subset.refl _) files
    · obtain ⟨bare, seen, same | ⟨found, files, here⟩⟩ := gains
      · refine distinct.of_eq bare ?_ same
        rw [seen]
        exact List.subset_cons_self ..
      · refine distinct.add bare unseen seen files ?_
        rw [realOf, here, ← below]
        exact resolved

/-! ### Scans -/

theorem pairwise_lt_sortFiles {files : List ScannedFile}
    (distinct : (files.map (·.file.path)).Nodup) :
    (sortFiles files).Pairwise fun a b => a.file.path < b.file.path := by
  have apart : ((sortFiles files).map (·.file.path)).Nodup :=
    ((sortFiles_perm files).map _).nodup_iff.mpr distinct
  rw [List.Nodup, List.pairwise_map] at apart
  refine ((pairwise_sortFiles files).and apart).imp fun {a b} both => ?_
  obtain ⟨before, differ⟩ := both
  by_contra notBefore
  exact differ (String.le_antisymm before (String.not_lt.mp notBefore))

/-- The files of a scan are in the strict order of their paths, and each has a real path that no
other one has, whatever links there are. -/
theorem files_listed_once {config : Config} {previous : Entries FileNode} (proper : d.IsProper)
    {r : ScanResult} (done : (scan config previous d).result = .ok r) :
    r.files.Pairwise (fun a b => a.file.path < b.file.path) ∧
    ∃ root, resolveRoot d config.root.text = .ok root ∧
      (∀ found ∈ r.files, ∃ real, realOf d root found = .ok real) ∧
      r.files.Pairwise fun a b => realOf d root a ≠ realOf d root b := by
  unfold scan at done
  cases found : rulesFor config previous d with
  | error e =>
    rw [found] at done
    cases done
  | ok rules =>
    have nothing : Tally.IsDistinct rules d { disk := d } := ⟨rfl, by simp, List.Pairwise.nil⟩
    have fine :=
      Walk.isFine_finish proper (isKept_distinct rules d) (Walk.isFine_start rules nothing)
    rw [found] at done
    simp only at done
    generalize (Walk.start rules d).finish rules = w at done fine
    unfold Walk.result at done
    split at done
    · cases done
    · rename_i whole
      cases done
      have same := sortFiles_perm w.tally.files
      refine ⟨pairwise_lt_sortFiles (fine.sound whole).nodup_paths, rules.root,
        (rulesFor_eq_ok found).2.2.1, fun found member => ?_, ?_⟩
      · obtain ⟨real, -, resolved⟩ := fine.holds.seen found (same.mem_iff.mp member)
        exact ⟨real, resolved⟩
      · exact (same.pairwise_iff fun differ => differ.symm).mpr fine.holds.distinct

/-- A workspace with two files, a link to one of them and a link back to the workspace. -/
def linkedDisk : Disk where
  items := [(["ws"], .directory), (["ws", "a.txt"], .file [0x61] 1),
    (["ws", "b.txt"], .link "a.txt"), (["ws", "c.txt"], .file [0x63] 1), (["ws", "d"], .link ".")]

def linkedConfig : Config where
  root := .ofText "/ws"
  dataDir := .ofText "/data"
  scan := { extensions := [".txt"], filterByValue := false }

/-- Of two files and two links, the files are listed. -/
theorem files_listed_once_linked :
    linkedDisk.IsProper ∧ ∃ r, (scan linkedConfig [] linkedDisk).result = .ok r ∧
      r.files.length = 2 ∧ r.files.Pairwise (fun a b => a.file.path < b.file.path) ∧
      r.files.Pairwise fun a b =>
        realOf linkedDisk ⟨1, ["ws"]⟩ a ≠ realOf linkedDisk ⟨1, ["ws"]⟩ b := by
  have proper : linkedDisk.IsProper := by decide +kernel
  have listed : linkedDisk.list ⟨1, ["ws"]⟩ = .ok [("a.txt", .file [0x61] 1),
      ("b.txt", .link "a.txt"), ("c.txt", .file [0x63] 1), ("d", .link ".")] := by
    have names : linkedDisk.names ["ws"] = ["a.txt", "b.txt", "c.txt", "d"] :=
      Disk.names_of_sorted (by decide +kernel) (by decide +kernel)
    have found : linkedDisk.find true ⟨1, ["ws"]⟩ = .ok (["ws"], some .directory) := by rfl
    rw [Disk.list_of_find rfl (by decide +kernel) found, names]
    rfl
  let rules : Rules := { root := ⟨1, ["ws"]⟩, dataDir := linkedConfig.dataDir,
                         settings := linkedConfig.scan, extensions := [".txt"], previous := [] }
  have ruled : rulesFor linkedConfig [] linkedDisk = .ok rules := by
    have extensions : linkedConfig.scan.requiredExtensions = .ok [".txt"] := by decide +kernel
    have root : resolveRoot linkedDisk linkedConfig.root.text = .ok ⟨1, ["ws"]⟩ := by
      decide +kernel
    rw [rulesFor, extensions, root]
    rfl
  obtain ⟨r, done, same⟩ := scan_of_list ruled listed (by decide +kernel)
  obtain ⟨sorted, root, resolved, -, distinct⟩ := files_listed_once proper done
  refine ⟨proper, r, done, same.length_eq.trans (by decide +kernel), sorted, ?_⟩
  have same := resolved.symm.trans (rulesFor_eq_ok ruled).2.2.1
  rw [Except.ok.injEq] at same
  rw [same] at distinct
  exact distinct

end SourceIndex.Scan
