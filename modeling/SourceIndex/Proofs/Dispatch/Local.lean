import SourceIndex.Dispatch.Crew
import SourceIndex.Proofs.Dispatch.Process
import SourceIndex.Proofs.Engine.Pure
import SourceIndex.Store.Survey
/-!
# Chunking with one engine

The crew of an engine with pure grammars answers every task as the engine does, as long as nothing
is added to the files while they are read. So the chunks of some tasks are those of one task after
the other.
-/

namespace SourceIndex
variable {γ : Type}

/-! ### Worlds -/

/-- Nothing is added to the files of a disk while they are read. -/
def Disk.IsStill (d : Disk) : Prop := d.defects.growth = []

instance (d : Disk) : Decidable d.IsStill := inferInstanceAs (Decidable (d.defects.growth = []))

theorem Disk.snd_readBounded {d : Disk} (still : d.IsStill) (p : Path) (limit : Int) :
    (d.readBounded p limit).2 = d := by
  unfold readBounded beforeReading
  rw [show d.defects.growth = [] from still]
  rfl

def Disk.KeptByReading (keeps : Disk → Prop) : Prop :=
  ∀ d p limit, keeps d → keeps (d.readBounded p limit).2

theorem Disk.keptByReading_eq {d : Disk} (still : d.IsStill) : KeptByReading (· = d) := by
  rintro other p limit rfl
  exact snd_readBounded still p limit

theorem World.disk_notes (w : World γ) (lines : List LogLine) : (w.notes lines).disk = w.disk := by
  unfold notes
  induction lines generalizing w with
  | nil => rfl
  | cons line rest ih => exact ih (w.note line)

theorem World.loaded_notes (w : World γ) (lines : List LogLine) :
    (w.notes lines).session.loaded = w.session.loaded := by
  unfold notes
  induction lines generalizing w with
  | nil => rfl
  | cons line rest ih => exact ih (w.note line)

/-- A world with a given disk in which only grammars count as loaded that can be loaded. -/
structure World.IsFit (grammars : Grammars γ) (d : Disk) (w : World γ) : Prop where
  disk : w.disk = d
  honest : w.session.IsHonest grammars

variable {engine : Engine γ} {scan : ScanSettings} {d : Disk} {w other : World γ}
  {keeps : Disk → Prop}

theorem World.IsFit.note (fit : w.IsFit engine.grammars d) (line : LogLine) :
    (w.note line).IsFit engine.grammars d :=
  ⟨fit.disk, Engine.isHonest_of_loaded_eq fit.honest rfl⟩

theorem World.isFit_withEngine (w : World γ) (engine : Engine γ) :
    (w.withEngine engine).IsFit engine.grammars w.disk := by
  unfold withEngine
  refine ⟨World.disk_notes _ _, ?_⟩
  intro name member
  rw [World.loaded_notes] at member
  cases member

/-! ### Tasks -/

namespace Task

theorem keeps_load (kept : Disk.KeptByReading keeps) (task : Task) (holds : keeps d) :
    keeps (task.load scan d).2 := by
  unfold load
  split
  · exact holds
  · exact kept d task.file scan.maxFileBytes holds

theorem snd_load (still : d.IsStill) (task : Task) : (task.load scan d).2 = d :=
  keeps_load (Disk.keptByReading_eq still) task rfl

theorem fst_chunkLoaded (pure : engine.grammars.IsPure) (task : Task)
    (loaded : Except ReadError (Option String × Bool))
    (honest : w.session.IsHonest engine.grammars)
    (honest' : other.session.IsHonest engine.grammars) :
    (task.chunkLoaded engine loaded w).1 = (task.chunkLoaded engine loaded other).1 := by
  unfold chunkLoaded
  split
  · rfl
  · simp only
    rw [Engine.fst_chunk pure honest honest']

theorem isFit_chunkLoaded (pure : engine.grammars.IsPure) (task : Task)
    (loaded : Except ReadError (Option String × Bool)) (fit : w.IsFit engine.grammars d) :
    (task.chunkLoaded engine loaded w).2.IsFit engine.grammars d := by
  unfold chunkLoaded
  split
  · exact fit.note _
  · exact ⟨fit.disk, Engine.isHonest_chunk pure fit.honest⟩

theorem fst_run (pure : engine.grammars.IsPure) (task : Task)
    (fit : w.IsFit engine.grammars d) (fit' : other.IsFit engine.grammars d) :
    (task.run engine scan w).1 = (task.run engine scan other).1 := by
  unfold run
  split
  · rfl
  · simp only
    rw [fit.disk, fit'.disk]
    exact congrArg Except.ok (fst_chunkLoaded pure task _ fit.honest fit'.honest)

theorem isFit_run (pure : engine.grammars.IsPure) (still : d.IsStill) (task : Task)
    (fit : w.IsFit engine.grammars d) :
    (task.run engine scan w).2.IsFit engine.grammars d := by
  unfold run
  split
  · exact fit
  · simp only
    rw [fit.disk, snd_load still]
    exact isFit_chunkLoaded pure task _ ⟨rfl, fit.honest⟩

theorem isFit_fresh (loaded : Except ReadError (Option String × Bool))
    (fit : w.IsFit engine.grammars d) :
    (if loaded.isOk then w.withEngine engine else w).IsFit engine.grammars d := by
  split
  · have fresh := World.isFit_withEngine w engine
    rwa [fit.disk] at fresh
  · exact fit

theorem fst_runAlone (pure : engine.grammars.IsPure) (still : d.IsStill) (task : Task)
    (fit : w.IsFit engine.grammars d) (fit' : other.IsFit engine.grammars d) :
    (task.runAlone engine scan w).1 = (task.run engine scan other).1 := by
  unfold runAlone run
  split
  · rfl
  · simp only
    rw [fit.disk, fit'.disk, snd_load still]
    have fresh := isFit_fresh (task.load scan d).1 (w := { w with disk := d }) ⟨rfl, fit.honest⟩
    exact congrArg Except.ok (fst_chunkLoaded pure task _ fresh.honest fit'.honest)

theorem disk_chunkLoaded (engine : Engine γ) (task : Task)
    (loaded : Except ReadError (Option String × Bool)) (w : World γ) :
    (task.chunkLoaded engine loaded w).2.disk = w.disk := by
  unfold chunkLoaded
  split
  · rfl
  · rfl

theorem keeps_run (kept : Disk.KeptByReading keeps) (task : Task) (holds : keeps w.disk) :
    keeps (task.run engine scan w).2.disk := by
  unfold run
  split
  · exact holds
  · simp only [disk_chunkLoaded]
    exact keeps_load kept task holds

theorem keeps_runAlone (kept : Disk.KeptByReading keeps) (task : Task) (holds : keeps w.disk) :
    keeps (task.runAlone engine scan w).2.disk := by
  have fresh (loaded : Bool) (w : World γ) :
      (if loaded then w.withEngine engine else w).disk = w.disk := by
    cases loaded with
    | true => exact World.disk_notes _ _
    | false => rfl
  unfold runAlone
  split
  · exact holds
  · simp only [disk_chunkLoaded, fresh]
    exact keeps_load kept task holds

end Task

/-! ### The crew of an engine -/

namespace Crew

theorem ofEngine_keeps (kept : Disk.KeptByReading keeps) (engine : Engine γ) (scan : ScanSettings)
    (share : Number) : (ofEngine engine scan share).Keeps fun world => keeps world.disk where
  run task _ holds := Task.keeps_run kept task holds
  openPool _ _ holds := holds
  submit _ task _ holds := Task.keeps_runAlone kept task holds
  memory _ holds := holds
  tell _ _ holds := holds

theorem ofEngine_follows (scan : ScanSettings) (pure : engine.grammars.IsPure)
    (still : d.IsStill) (fit : w.IsFit engine.grammars d) (share : Binary64) :
    (ofEngine engine scan (.real share)).Follows (fun task => (task.run engine scan w).1)
      fun world => world.IsFit engine.grammars d where
  run task world fit' := ⟨Task.fst_run pure task fit' fit, Task.isFit_run pure still task fit'⟩
  openPool _ _ fit' := fit'
  submit _ task world fit' :=
    ⟨Task.keeps_runAlone (Disk.keptByReading_eq still) task fit'.disk, fit'.honest⟩
  succeeded _ task world outcome fit' taken _ := by
    rw [← Task.fst_runAlone pure still task fit' fit]
    simp only [ofEngine, Submission.taken.injEq] at taken
    unfold Reply.ofResult at taken
    split at taken
    · rename_i found result
      rw [Reply.answered.injEq] at taken
      rw [result, taken]
    · cases taken
  arrange _ := List.Perm.refl _
  memory _ fit' := ⟨⟨share, rfl⟩, fit'⟩
  tell line _ fit' := fit'.note line

theorem ofEngine_isPrompt (share : Number) :
    (ofEngine engine scan share).IsPrompt fun world => world.IsFit engine.grammars d := by
  intro index task world _ silent
  simp only [ofEngine, Submission.taken.injEq] at silent
  unfold Reply.ofResult at silent
  split at silent <;> cases silent

end Crew

/-! ### Chunking tasks -/

def Engine.chunksOf (engine : Engine γ) (w : World γ) (task : Task) : List Chunk :=
  (engine.chunk task.path task.content task.language task.isBinary w.session).1

theorem Task.fst_run_of_content {task : Task} (filled : task.content ≠ none) :
    (task.run engine scan w).1 =
      .ok ⟨task.path, .succeeded, engine.chunksOf w task, none⟩ := by
  obtain ⟨content, found⟩ := Option.ne_none_iff_exists'.mp filled
  have tried : task.refusal? = none := by simp [refusal?, found]
  unfold run load
  rw [tried]
  simp only [found]
  simp only [chunkLoaded, Engine.chunksOf, found]

open Dispatch in
theorem areChunksOf_iff {tasks : List Task} (filled : ∀ task ∈ tasks, task.content ≠ none)
    {chunks : List Chunk} :
    AreChunksOf (fun task => (task.run engine scan w).1) tasks chunks ↔
      chunks = tasks.flatMap (engine.chunksOf w) := by
  have answers : tasks.map (fun task => (task.run engine scan w).1) =
      (tasks.map fun task => (⟨task.path, .succeeded, engine.chunksOf w task, none⟩ : Outcome)).map
        .ok := by
    rw [List.map_map]
    exact List.map_congr_left fun task member => Task.fst_run_of_content (filled task member)
  have given : AreChunksOf (fun task => (task.run engine scan w).1) tasks
      (tasks.flatMap (engine.chunksOf w)) := by
    refine ⟨_, answers, ?_⟩
    rw [List.flatMap_map]
  constructor
  · intro areChunks
    exact areChunks.unique given
  · rintro rfl
    exact given

namespace Engine
variable {config : Config} {tasks : List Task}

theorem chunkTasks_eq_ok (pure : engine.grammars.IsPure) (still : d.IsStill)
    (fit : w.IsFit engine.grammars d) (batch : 0 < config.dispatch.batchSize)
    (workers : 0 < config.dispatch.maxWorkers)
    (filled : ∀ task ∈ tasks, task.content ≠ none) {after : World γ} {chunks : List Chunk}
    {stats : DispatchStats}
    (done : engine.chunkTasks config tasks w = (.ok (chunks, stats), after)) :
    chunks = tasks.flatMap (engine.chunksOf w) ∧ after.IsFit engine.grammars d := by
  have follows := Crew.ofEngine_follows config.scan pure still fit .zero
  unfold chunkTasks at done
  simp only [Prod.mk.injEq] at done
  obtain ⟨result, rfl⟩ := done
  cases run : (Dispatch.process (Crew.ofEngine engine config.scan (.real .zero)) config.dispatch
      tasks 0 w).1 with
  | error e =>
    rw [run] at result
    cases result
  | ok found =>
    obtain ⟨areChunks, fit'⟩ := Dispatch.areChunksOf_of_process follows config.dispatch batch
      workers tasks 0 w fit run
    rw [run] at result
    simp only [Except.map, Except.mapError, Except.ok.injEq, Prod.mk.injEq] at result
    rw [← result.1]
    exact ⟨(areChunksOf_iff filled).mp areChunks, fit'⟩

theorem chunkTasks_succeeds_iff (pure : engine.grammars.IsPure) (still : d.IsStill)
    (fit : w.IsFit engine.grammars d) (batch : 0 < config.dispatch.batchSize)
    (workers : 0 < config.dispatch.maxWorkers)
    (threshold : (Number.real .zero).le config.dispatch.memoryThreshold = true)
    (filled : ∀ task ∈ tasks, task.content ≠ none) :
    (∃ chunks stats, (engine.chunkTasks config tasks w).1 = .ok (chunks, stats)) ↔
      ¬ Dispatch.StopsAtPause (Crew.ofEngine engine config.scan (.real .zero)) config.dispatch
        tasks := by
  have follows := Crew.ofEngine_follows config.scan pure still fit .zero
  have workable : Dispatch.Workable (Crew.ofEngine engine config.scan (.real .zero))
      (fun world => world.IsFit engine.grammars d) config.dispatch :=
    ⟨.inr (Crew.ofEngine_isPrompt _), .inr fun _ _ => threshold⟩
  have ends := Dispatch.process_eq_ok_iff follows config.dispatch batch workers tasks 0 w fit
    (.inr (.inr workable))
  constructor
  · rintro ⟨chunks, stats, done⟩
    unfold chunkTasks at done
    cases run : (Dispatch.process (Crew.ofEngine engine config.scan (.real .zero))
        config.dispatch tasks 0 w).1 with
    | error e =>
      simp only [run] at done
      cases done
    | ok found => exact ((ends found).mp run).1
  · intro goesOn
    have run := (ends _).mpr ⟨goesOn, (areChunksOf_iff filled).mpr rfl⟩
    unfold chunkTasks
    simp only [run]
    exact ⟨_, _, rfl⟩

end Engine
end SourceIndex
