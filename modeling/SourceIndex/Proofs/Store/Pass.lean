import SourceIndex.Proofs.Dispatch.Alike
import SourceIndex.Proofs.Scan.Inside
import SourceIndex.Proofs.Scan.Reread
import SourceIndex.Proofs.Store.State
/-!
# Passes that take digests over

A full pass that starts from the tree of an earlier state comes to the same as one that starts from
nothing. The scan leaves out the contents of files whose digests it takes over, and the tasks for
these read what the scan did not: each stands for a task that has its content.
-/

namespace SourceIndex
variable {γ : Type}

/-! ### Tasks with and without content -/

namespace Task
variable {engine : Engine γ} {scan : ScanSettings} {d : Disk} {w : World γ}

/-- A task with the content that it comes to on a disk, if it comes to any. -/
def fill (scan : ScanSettings) (d : Disk) (task : Task) : Task :=
  match task.refusal?, (task.load scan d).1 with
  | none, .ok (some content, isBinary) => { task with content := some content, isBinary }
  | _, _ => task

theorem fill_of_load {task : Task} {content : String} {isBinary : Bool}
    (tried : task.refusal? = none) (loaded : (task.load scan d).1 = .ok (some content, isBinary)) :
    task.fill scan d = { task with content := some content, isBinary } := by
  simp only [fill, tried, loaded]

theorem fill_cases (scan : ScanSettings) (d : Disk) (task : Task) :
    task.fill scan d = task ∨ ∃ content isBinary, task.refusal? = none ∧
      (task.load scan d).1 = .ok (some content, isBinary) ∧
      task.fill scan d = { task with content := some content, isBinary } := by
  unfold fill
  split
  · rename_i content isBinary tried loaded
    exact .inr ⟨content, isBinary, tried, loaded, rfl⟩
  · exact .inl rfl

theorem path_fill (task : Task) : (task.fill scan d).path = task.path := by
  rcases fill_cases scan d task with same | ⟨_, _, -, -, filled⟩
  · rw [same]
  · rw [filled]

theorem refusal?_fill (task : Task) : (task.fill scan d).refusal? = task.refusal? := by
  rcases fill_cases scan d task with same | ⟨_, _, tried, -, filled⟩
  · rw [same]
  · rw [filled, tried, refusal?]
    rfl

theorem load_fill (still : d.IsStill) (task : Task) :
    (task.fill scan d).load scan d = task.load scan d := by
  rcases fill_cases scan d task with same | ⟨_, _, -, loaded, filled⟩
  · rw [same]
  · rw [filled]
    exact Prod.ext loaded.symm (snd_load still task).symm

theorem chunkLoaded_fill (task : Task) (loaded : Except ReadError (Option String × Bool)) :
    (task.fill scan d).chunkLoaded engine loaded w = task.chunkLoaded engine loaded w := by
  rcases fill_cases scan d task with same | ⟨_, _, -, -, filled⟩
  · rw [same]
  · rw [filled]
    cases loaded with
    | error e => rfl
    | ok result =>
      obtain ⟨content, isBinary⟩ := result
      simp only [chunkLoaded]

theorem run_fill (still : d.IsStill) (task : Task) (disk : w.disk = d) :
    (task.fill scan d).run engine scan w = task.run engine scan w := by
  simp only [run, refusal?_fill, disk, load_fill still, chunkLoaded_fill]

theorem runAlone_fill (still : d.IsStill) (task : Task) (disk : w.disk = d) :
    (task.fill scan d).runAlone engine scan w = task.runAlone engine scan w := by
  simp only [runAlone, refusal?_fill, disk, load_fill still, chunkLoaded_fill]

end Task

theorem Crew.ofEngine_ignores (engine : Engine γ) (scan : ScanSettings) {d : Disk}
    (still : d.IsStill) (share : Number) :
    (ofEngine engine scan share).Ignores (fun world => world.disk = d) (Task.fill scan d) where
  path := Task.path_fill
  run task _ disk := Task.run_fill still task disk
  submit _ task _ disk := by
    simp only [ofEngine, Task.runAlone_fill still task disk]
  arrange _ := rfl

theorem Engine.chunkTasks_fill (engine : Engine γ) (config : Config) (tasks : List Task)
    {w : World γ} (still : w.disk.IsStill) :
    engine.chunkTasks config (tasks.map (Task.fill config.scan w.disk)) w =
      engine.chunkTasks config tasks w := by
  have same := Dispatch.process_map
    (Crew.ofEngine_keeps (Disk.keptByReading_eq still) engine config.scan (.real .zero))
    (Crew.ofEngine_ignores engine config.scan still (.real .zero)) config.dispatch tasks 0 w rfl
  rw [chunkTasks, same, chunkTasks]

theorem ScannedFile.fill_task {config : Config} {previous : Entries FileNode} {d : Disk}
    {r full : ScanResult} (proper : d.IsProper) (still : d.IsStill)
    (right : ∀ rules, Scan.rulesFor config previous d = .ok rules → rules.AreRight d)
    (done : (Scan.scan config previous d).result = .ok r)
    (whole : (Scan.scan config [] d).result = .ok full) {found twin : ScannedFile}
    (member : found ∈ r.files) (among : twin ∈ full.files) (same : found.file = twin.file) :
    (found.task r.root).fill config.scan d = twin.task r.root := by
  obtain ⟨rules, ruled, -, result, -⟩ := Scan.scan_eq_ok proper still right done
  obtain ⟨fresh, ruled', alone, result', -⟩ := Scan.scan_eq_ok proper still
    (fun _ ruled => areRight_of_nil ruled) whole
  have one : fresh = rules.fresh := by
    rw [Scan.rulesFor_fresh ruled, Except.ok.injEq] at ruled'
    exact ruled'.symm
  subst one
  have is : IsFullScan config d rules.fresh full := ⟨ruled', whole, alone, result'⟩
  obtain ⟨tried, content, reads, loaded⟩ := found.load_task proper still ruled done member
    (result.files found member)
  obtain ⟨text, reads', filled⟩ := is.reads among
  rw [← same] at reads'
  have content : content = text := (Scan.Reads.unique reads reads').2
  rw [Task.fill_of_load tried (congrArg Prod.fst loaded), ScannedFile.task, ScannedFile.task,
    filled, same, content]

/-! ### Surveys side by side -/

namespace Survey
variable {config : Config} {reuse : Entries FileNode} {before : Option HashTree} {now : Moment}
  {w : World γ}

/-- Surveys that found the same, but for the contents of files. -/
structure Alike (survey full : Survey) : Prop where
  scan : survey.scan.bare = full.scan.bare
  tree : survey.tree = full.tree

theorem run_alike (before other : Option HashTree) (now : Moment) (proper : w.disk.IsProper)
    (still : w.disk.IsStill)
    (right : ∀ rules, Scan.rulesFor config reuse w.disk = .ok rules → rules.AreRight w.disk) :
    (run config reuse before now w).2 = (run config [] other now w).2 ∧
      ((∃ e, (run config reuse before now w).1 = .error e ∧
          (run config [] other now w).1 = .error e) ∨
        ∃ survey full, (run config reuse before now w).1 = .ok survey ∧
          (run config [] other now w).1 = .ok full ∧ survey.Alike full) := by
  obtain ⟨results, logs, disks⟩ := Scan.scan_alike proper still right
  unfold run
  simp only
  rw [← logs, ← disks]
  generalize (Scan.scan config reuse w.disk).result = result at results
  generalize (Scan.scan config [] w.disk).result = result' at results
  cases result with
  | error e =>
    cases result' with
    | error e' =>
      cases results
      exact ⟨rfl, .inl ⟨_, rfl, rfl⟩⟩
    | ok full => cases results
  | ok scan =>
    cases result' with
    | error e' => cases results
    | ok full =>
      have bare : scan.bare = full.bare := Except.ok.inj results
      have records : scan.records = full.records := by
        rw [← scan.records_bare, bare, full.records_bare]
      have root : scan.root = full.root := congrArg (·.root) bare
      simp only [records, root]
      cases HashTree.build? full.records full.root now.millis with
      | none => exact ⟨rfl, .inl ⟨_, rfl, rfl⟩⟩
      | some built => exact ⟨rfl, .inr ⟨_, _, rfl, rfl, bare, rfl⟩⟩

theorem result_of_run {survey : Survey} (done : (run config reuse before now w).1 = .ok survey) :
    (Scan.scan config reuse w.disk).result = .ok survey.scan := by
  unfold run at done
  simp only at done
  split at done
  · cases done
  rename_i scan scanned
  split at done
  · cases done
  · cases done
    exact scanned

theorem isTreeOf_of_run {survey : Survey} (done : (run config reuse before now w).1 = .ok survey) :
    IsTreeOf survey.scan survey.tree := by
  unfold run at done
  simp only at done
  split at done
  · cases done
  split at done
  · cases done
  · rename_i built made
    cases done
    exact ⟨_, built, made, rfl⟩

/-- Where surveys found the same, the tasks of the one that read every file are those of the other
one with their contents. -/
theorem Alike.tasks {survey full : Survey} (alike : survey.Alike full) (config : Config) (d : Disk)
    (filled : ∀ found ∈ survey.scan.files, ∀ other ∈ full.scan.files, found.file = other.file →
      (found.task survey.scan.root).fill config.scan d = other.task survey.scan.root) :
    full.tasks (fun _ => true) =
      (survey.tasks fun _ => true).map (Task.fill config.scan d) := by
  have root : survey.scan.root = full.scan.root := congrArg (·.root) alike.scan
  have records : survey.scan.records = full.scan.records := by
    rw [← survey.scan.records_bare, alike.scan, full.scan.records_bare]
  have listed (s : Survey) : (s.tasks fun _ => true) =
      s.scan.files.map (ScannedFile.task s.scan.root) := by
    rw [Survey.tasks, List.filter_true]
    rfl
  rw [listed, listed, ← root, List.map_map]
  rw [ScanResult.records, ScanResult.records] at records
  generalize survey.scan.root = text at filled
  generalize survey.scan.files = files at filled records
  generalize full.scan.files = others at filled records
  -- File by file, since both have the same records in the same order.
  induction files generalizing others with
  | nil => rw [List.map_eq_nil_iff.mp records.symm, List.map_nil, List.map_nil]
  | cons found rest ih =>
    cases others with
    | nil => cases records
    | cons other more =>
      rw [List.map_cons, List.map_cons, List.cons.injEq] at records
      have here := filled found (List.mem_cons_self ..) other (List.mem_cons_self ..) records.1
      have later := ih more (fun found member other among => filled found
        (List.mem_cons_of_mem _ member) other (List.mem_cons_of_mem _ among)) records.2
      rw [List.map_cons, List.map_cons, later, Function.comp_apply, here]

end Survey

namespace Store
variable {config : Config} {d : Disk} {tree : HashTree}

/-- A tree that was made of a scan of a state of the workspace. The scan may itself have started
from a tree of a state before that. -/
inductive IsPreviousTree (config : Config) : Disk → HashTree → Prop
  | first {d : Disk} {r : ScanResult} {tree : HashTree} (proper : d.IsProper) (still : d.IsStill)
    (done : (Scan.scan config [] d).result = .ok r) (made : IsTreeOf r tree) :
    IsPreviousTree config d tree
  | next {d later : Disk} {r : ScanResult} {before tree : HashTree}
    (previous : IsPreviousTree config d before) (steady : IsSteady config d later)
    (proper : later.IsProper) (still : later.IsStill)
    (done : (Scan.scan config before.files later).result = .ok r) (made : IsTreeOf r tree) :
    IsPreviousTree config later tree

theorem IsPreviousTree.isTreeOf (previous : IsPreviousTree config d tree) :
    ∃ rules full, IsFullScan config d rules full ∧ IsTreeOf full tree := by
  induction previous with
  | first proper still done made =>
    obtain ⟨rules, ruled, disk, result, -⟩ := Scan.scan_eq_ok proper still
      (fun rules ruled => areRight_of_nil ruled) done
    exact ⟨rules, _, ⟨ruled, done, disk, result⟩, made⟩
  | next _ steady proper still done made ih =>
    obtain ⟨before, full, is, madeBefore⟩ := ih
    obtain ⟨rules, ruled, -, result, whole, all, alone, right, records⟩ :=
      Scan.scan_eq_ok proper still (fun rules ruled => steady.areRight is madeBefore ruled) done
    obtain ⟨now, built, made, same⟩ := made
    have full : IsFullScan config _ rules.fresh whole :=
      ⟨Scan.rulesFor_fresh ruled, all, alone, right⟩
    refine ⟨rules.fresh, whole, full, now, built, ?_, same⟩
    rw [records, ← made, right.root, result.root]
    rfl

end Store

/-! ### Passes side by side -/

/-- What a pass finds out, apart from the contents of files and from what has changed since. -/
structure Findings where
  scan : ScanResult
  tree : HashTree
  chunks : List Chunk
  dispatch : DispatchStats

namespace Pass
variable {config : Config} {d : Disk} {tree : HashTree} {w : World γ}

def findings (p : Pass) : Findings := ⟨p.survey.scan.bare, p.survey.tree, p.chunks, p.dispatch⟩

/-- A pass that starts from the tree of an earlier state of the workspace finds out what one finds
out that starts from nothing, with the same messages. -/
theorem findings_of_previous (previous : Store.IsPreviousTree config d tree)
    (steady : Store.IsSteady config d w.disk) (proper : w.disk.IsProper) (still : w.disk.IsStill)
    (grammars : Grammars γ) (now : Moment) :
    let again := run config grammars (some tree) now w
    let anew := run config grammars none now w
    again.1.map findings = anew.1.map findings ∧ again.2 = anew.2 := by
  obtain ⟨rules, full, is, made⟩ := previous.isTreeOf
  have right : ∀ rules, Scan.rulesFor config tree.files w.disk = .ok rules →
      rules.AreRight w.disk := fun rules ruled => steady.areRight is made ruled
  obtain ⟨worlds, surveys⟩ := Survey.run_alike (some tree) none now proper still right
  simp only [run, Option.map_some, Option.map_none, Option.getD_some, Option.getD_none, worlds]
  rcases surveys with ⟨e, again, anew⟩ | ⟨survey, full, again, anew, alike⟩
  · rw [again, anew]
    exact ⟨rfl, rfl⟩
  rw [again, anew]
  simp only
  have disk : (Survey.run config [] none now w).2.disk = w.disk :=
    (Survey.run_eq_ok proper still (fun _ ruled => areRight_of_nil ruled) rfl
      (Prod.ext anew rfl)).1
  -- From here on the passes differ in their tasks only.
  generalize (Survey.run config [] none now w).2 = after at disk
  have engineDisk :=
    (World.isFit_withEngine after (Engine.ofSettings config.chunking grammars)).disk
  rw [disk] at engineDisk
  have tasks := alike.tasks config w.disk fun found member twin among same =>
    ScannedFile.fill_task proper still right (Survey.result_of_run again)
      (Survey.result_of_run anew) member among same
  rw [tasks, ← engineDisk, Engine.chunkTasks_fill _ _ _ (engineDisk ▸ still)]
  generalize Engine.chunkTasks _ config _ _ = step
  obtain ⟨result, last⟩ := step
  refine ⟨?_, rfl⟩
  cases result with
  | error e => rfl
  | ok chunked =>
    simp only [Except.map, findings, alike.scan, alike.tree]

theorem survey_of_run {grammars : Grammars γ} {before : Option HashTree} {now : Moment} {p : Pass}
    (done : (run config grammars before now w).1 = .ok p) :
    (Survey.run config ((before.map (·.files)).getD []) before now w).1 = .ok p.survey := by
  unfold run at done
  simp only at done
  split at done
  · cases done
  · rename_i survey surveyed
    generalize Engine.chunkTasks _ _ _ _ = step at done
    obtain ⟨result, last⟩ := step
    cases result with
    | error e => cases done
    | ok chunked =>
      cases done
      exact surveyed

theorem isPreviousTree_of_run {grammars : Grammars γ} {before : Option HashTree} {now : Moment}
    {p : Pass} (earlier : ∀ tree ∈ before, ∃ d, Store.IsPreviousTree config d tree ∧
      Store.IsSteady config d w.disk) (proper : w.disk.IsProper) (still : w.disk.IsStill)
    (done : (run config grammars before now w).1 = .ok p) :
    Store.IsPreviousTree config w.disk p.survey.tree := by
  have surveyed := survey_of_run done
  have scanned := Survey.result_of_run surveyed
  have made := Survey.isTreeOf_of_run surveyed
  cases before with
  | none => exact .first proper still scanned made
  | some tree =>
    obtain ⟨d, previous, steady⟩ := earlier tree rfl
    exact .next previous steady proper still scanned made

def oneFile : World Unit where
  disk := { items := [(["ws"], .directory), (["ws", "a.txt"], .file [0x68, 0x69, 0x0A] 5)] }
  session := ⟨(), [], []⟩

/-- The second pass over a workspace reads its file for the chunks only, and finds the same. -/
theorem findings_of_previous_second :
    ∃ first again last,
      run Scan.fencedConfig Grammars.absent none ⟨1000⟩ oneFile = (.ok first, last) ∧
      run Scan.fencedConfig Grammars.absent (some first.survey.tree) ⟨1000⟩ oneFile =
        (.ok again, last) ∧
      again.survey.scan.files.map (·.content) = [none] ∧ again.chunks.length = 1 ∧
      again.findings = first.findings := by
  have proper : oneFile.disk.IsProper := by decide +kernel
  have runs : ((run Scan.fencedConfig Grammars.absent none ⟨1000⟩ oneFile).1.toOption.bind
      fun first => (run Scan.fencedConfig Grammars.absent (some first.survey.tree) ⟨1000⟩
        oneFile).1.toOption.map fun again =>
          (again.survey.scan.files.map (·.content), again.chunks.length)) = some ([none], 1) := by
    decide +kernel
  cases anew : (run Scan.fencedConfig Grammars.absent none ⟨1000⟩ oneFile).1 with
  | error e =>
    rw [anew] at runs
    cases runs
  | ok first =>
    have previous := isPreviousTree_of_run (by simp) proper rfl anew
    obtain ⟨same, worlds⟩ := findings_of_previous previous
      (Store.Precedes.refl Scan.fencedConfig oneFile.disk).steady proper rfl Grammars.absent ⟨1000⟩
    rw [anew] at runs same
    cases later : (run Scan.fencedConfig Grammars.absent (some first.survey.tree) ⟨1000⟩
        oneFile).1 with
    | error e =>
      rw [later] at same
      cases same
    | ok again =>
      rw [later] at same
      simp only [Except.toOption, Option.bind_some, later, Option.map_some, Option.some.injEq,
        Prod.mk.injEq] at runs
      exact ⟨first, again, _, Prod.ext anew rfl, Prod.ext later worlds, runs.1, runs.2,
        Except.ok.inj same⟩

end Pass
end SourceIndex
