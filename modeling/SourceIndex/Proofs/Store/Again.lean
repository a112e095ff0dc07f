import SourceIndex.Proofs.Scan.Below
import SourceIndex.Proofs.Store.Pass
import SourceIndex.Proofs.Store.Room
/-!
# The same workspace again

A refresh finds the same on two disks that differ in what the data directory holds. Where one of
them could be surveyed and chunked, so can the other one, at any other time.
-/

namespace SourceIndex
variable {γ : Type} {engine : Engine γ} {config : Config} {w other after : World γ}
  {now later : Moment} {d d' : Disk}

/-! ### Trees at other times -/

namespace HashTree

def atTime (t : HashTree) (now : Int) : HashTree := { t with timestamp := now, createdAt := now }

theorem isRegular_atTime {t : HashTree} (regular : t.IsRegular) (now : Int) :
    (t.atTime now).IsRegular := { regular with }

theorem isWritable_atTime {t : HashTree} (writable : t.toJson.isWritable = true) {now : Int}
    (short : Json.isShort now = true) : (t.atTime now).toJson.isWritable = true := by
  simp only [toJson, atTime, Json.int, Json.isWritable, Json.areFieldsWritable, Bool.and_eq_true]
    at writable ⊢
  simp only [short, writable, and_self]

end HashTree

/-! ### Surveys -/

namespace Survey
variable {survey : Survey}

theorem run_again (same : Scan.scan config [] other.disk =
      { Scan.scan config [] w.disk with disk := other.disk })
    (done : (run config [] none now w).1 = .ok survey) (before : Option HashTree)
    (later : Moment) :
    ∃ survey', (run config [] before later other).1 = .ok survey' ∧
      survey'.scan = survey.scan ∧ survey'.tree = survey.tree.atTime later.millis := by
  unfold run at done ⊢
  rw [same]
  simp only at done ⊢
  split at done
  · cases done
  rename_i scan scanned
  split at done
  · cases done
  rename_i built made
  cases done
  have again := HashTree.build?_at scan.records scan.root now.millis later.millis
  rw [made] at again
  simp only [again, Option.map_some]
  exact ⟨_, rfl, rfl, rfl⟩

theorem tasks_eq_of_all {wanted : String → Bool}
    (all : ∀ found ∈ survey.scan.files, wanted found.file.path = true) :
    survey.tasks wanted = survey.tasks fun _ => true := by
  rw [tasks, tasks, List.filter_true, List.filter_eq_self.mpr all]

end Survey

/-! ### Chunking -/

namespace Engine
variable {tasks : List Task} {chunks : List Chunk} {stats : DispatchStats}

theorem chunksOf_eq (pure : engine.grammars.IsPure) (honest : w.session.IsHonest engine.grammars)
    (honest' : other.session.IsHonest engine.grammars) :
    engine.chunksOf other = engine.chunksOf w := by
  funext task
  exact fst_chunk pure honest' honest

theorem chunkTasks_again (pure : engine.grammars.IsPure) (still : d.IsStill) (still' : d'.IsStill)
    (fit : w.IsFit engine.grammars d) (fit' : other.IsFit engine.grammars d')
    (batch : 0 < config.dispatch.batchSize) (workers : 0 < config.dispatch.maxWorkers)
    (threshold : (Number.real .zero).le config.dispatch.memoryThreshold = true)
    (filled : ∀ task ∈ tasks, task.content ≠ none)
    (done : engine.chunkTasks config tasks w = (.ok (chunks, stats), after)) :
    ∃ stats' after', engine.chunkTasks config tasks other = (.ok (chunks, stats'), after') ∧
      after'.IsFit engine.grammars d' := by
  have goesOn := (chunkTasks_succeeds_iff pure still fit batch workers threshold filled).mp
    ⟨chunks, stats, congrArg Prod.fst done⟩
  obtain ⟨chunks', stats', again⟩ :=
    (chunkTasks_succeeds_iff pure still' fit' batch workers threshold filled).mpr goesOn
  cases run : engine.chunkTasks config tasks other with
  | mk result after' =>
    rw [run] at again
    simp only at again
    subst again
    obtain ⟨given, -⟩ := chunkTasks_eq_ok pure still fit batch workers filled done
    obtain ⟨given', rests⟩ := chunkTasks_eq_ok pure still' fit' batch workers filled run
    rw [chunksOf_eq pure fit.honest fit'.honest, ← given] at given'
    subst given'
    exact ⟨stats', after', rfl, rests⟩

end Engine

/-! ### Refreshes -/

namespace Store
variable {s : Store} {survey : Survey} {chunks : List Chunk} {tree : Option HashTree}

/-- What a refresh has found that started from nothing, a forced one finds as well, where the scan is
the same. -/
theorem prepares_again (pure : engine.grammars.IsPure) (batch : 0 < config.dispatch.batchSize)
    (workers : 0 < config.dispatch.maxWorkers)
    (threshold : (Number.real .zero).le config.dispatch.memoryThreshold = true)
    (proper : w.disk.IsProper) (proper' : other.disk.IsProper) (still : w.disk.IsStill)
    (still' : other.disk.IsStill) (honest : w.session.IsHonest engine.grammars)
    (honest' : other.session.IsHonest engine.grammars)
    (same : Scan.scan config [] other.disk =
      { Scan.scan config [] w.disk with disk := other.disk })
    (prepares : Prepares engine config false now .nothing w survey chunks after)
    (tree : Option HashTree) (later : Moment) :
    ∃ survey' after', Prepares engine config true later ⟨tree, []⟩ other survey' chunks after' ∧
      after'.disk = other.disk ∧ survey'.tree = survey.tree.atTime later.millis := by
  obtain ⟨between, fresh, stats, surveyed, chunked, rfl⟩ := prepares
  obtain ⟨survey', surveyed', scan, tree'⟩ :=
    Survey.run_again same (congrArg Prod.fst surveyed) tree later
  cases run : Survey.run config [] tree later other with
  | mk result between' =>
    rw [run] at surveyed'
    simp only at surveyed'
    subst surveyed'
    obtain ⟨disk, loaded, rules, full, right⟩ :=
      Survey.run_eq_ok proper still (fun _ found => areRight_of_nil found) rfl surveyed
    obtain ⟨disk', loaded', rules', full', right'⟩ :=
      Survey.run_eq_ok proper' still' (fun _ found => areRight_of_nil found) rfl run
    have fit : between.IsFit engine.grammars w.disk :=
      ⟨disk, Engine.isHonest_of_loaded_eq honest loaded⟩
    have fit' : between'.IsFit engine.grammars other.disk :=
      ⟨disk', Engine.isHonest_of_loaded_eq honest' loaded'⟩
    have every := Survey.tasks_eq_of_all fun found member =>
      contains_rechunked false right (.inr rfl) (right.get?_tree member)
    have every' := Survey.tasks_eq_of_all fun found member =>
      contains_rechunked true right' (.inl rfl) (right'.get?_tree member)
    have tasks : (survey'.tasks fun _ => true) = survey.tasks fun _ => true := by
      rw [Survey.tasks, Survey.tasks, scan]
    have filled : ∀ task ∈ survey.tasks fun _ => true, task.content ≠ none := by
      intro task member
      obtain ⟨found, among, rfl⟩ := List.mem_map.mp member
      exact content_of_fresh right (List.mem_filter.mp among).1
    rw [every] at chunked
    obtain ⟨stats', after', again, rests⟩ := Engine.chunkTasks_again pure still still' fit fit' batch
      workers threshold filled chunked
    refine ⟨survey', after', ⟨between', fresh, stats', run, ?_, rfl⟩, rests.disk, tree'⟩
    rw [every', tasks]
    exact again

/-! ### Saving at another time -/

theorem areWritable_again {survey' : Survey} (tree : survey'.tree = survey.tree.atTime later.millis)
    (short : Json.isShort later.millis = true)
    (writable : AreWritable (contentsOf (manifestOf now survey chunks) survey.tree chunks)) :
    AreWritable (contentsOf (manifestOf later survey' chunks) survey'.tree chunks) := by
  intro file member
  simp only [contentsOf, List.mem_cons, List.not_mem_nil, or_false] at member
  rcases member with rfl | rfl | rfl
  · intro value among
    rw [List.mem_singleton.mp among, tree]
    exact HashTree.isWritable_atTime (writable _ (List.mem_cons_self ..) _
      (List.mem_singleton_self _)) short
  · exact writable _ (List.mem_cons_of_mem _ (List.mem_cons_self ..))
  · intro value among
    have before := writable _ (List.mem_cons_of_mem _ (List.mem_cons_of_mem _
      (List.mem_cons_self ..))) _ (List.mem_singleton_self _)
    rw [List.mem_singleton.mp among]
    simp only [manifestOf, tree, HashTree.atTime, Manifest.toJson, Json.isWritable,
      Json.areFieldsWritable] at before ⊢
    exact before

theorem applyAll_of_save (saved : s.save now survey chunks w = (.ok (), after)) :
    Write.applyAll now (s.writes (manifestOf now survey chunks) survey.tree chunks) w.disk =
      (none, after.disk) := by
  unfold save at saved
  split at saved
  · rename_i last applied
    rw [applied, ← (Prod.mk.inj saved).2]
  · cases saved

end Store
end SourceIndex
