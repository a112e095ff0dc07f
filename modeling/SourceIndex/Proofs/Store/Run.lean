import SourceIndex.Proofs.Store.State
/-!
# Runs of refreshes

After every refresh of a run, whatever changed in between and whether it was forced, the stored
index is the one that a full pass gives over the disk that was refreshed.
-/

namespace SourceIndex.Store
variable {γ : Type} {grammars : Grammars γ} {config : Config}

/-! ### Runs -/

/-- A refresh in a run, with the worlds before and after it. -/
structure Round (γ : Type) where
  force : Bool
  now : Moment
  before : World γ
  after : World γ

/-- The conditions on a refresh by itself: it succeeds, and while it runs nothing else changes the
disk or is in the way. -/
structure Round.IsFair (grammars : Grammars γ) (config : Config) (r : Round γ) : Prop where
  proper : r.before.disk.IsProper
  still : r.before.disk.IsStill
  tidy : IsTidy (ofConfig config) r.before.disk
  done : ∃ summary, (ofConfig config).refresh (Engine.ofSettings config.chunking grammars) config
    r.force r.now r.before = (.ok summary, r.after)

/-- What stays between two refreshes: the files of the index, and in the workspace what has the same
size and time. The engine is the same one or a new one. -/
structure Round.LeadsTo (config : Config) (r next : Round γ) : Prop where
  files : ∀ name ∈ fileNames, ∀ item,
    r.after.disk.lookUp ((ofConfig config).directory.child name) = .ok item →
      next.before.disk.lookUp ((ofConfig config).directory.child name) = .ok item
  loaded : next.before.session.loaded ⊆ r.after.session.loaded
  precedes : Precedes config r.before.disk next.before.disk

/-- A run of refreshes on one data directory, the last one first. At its start there is no index and
no grammar is loaded. -/
inductive IsRun (grammars : Grammars γ) (config : Config) : List (Round γ) → Prop
  | start {r : Round γ} (fair : r.IsFair grammars config)
    (noIndex : (ofConfig config).readManifest r.before.disk = .ok none)
    (noGrammar : r.before.session.loaded = []) : IsRun grammars config [r]
  | next {r next : Round γ} {earlier : List (Round γ)} (run : IsRun grammars config (r :: earlier))
    (leads : r.LeadsTo config next) (fair : next.IsFair grammars config) :
    IsRun grammars config (next :: r :: earlier)

/-- A refresh has left the index of a full pass. -/
structure Round.IsUpToDate (grammars : Grammars γ) (config : Config) (r : Round γ) : Prop where
  index : ∃ tree chunks, IsStored (ofConfig config) r.after.disk tree chunks ∧
    IsIndexOf (Engine.ofSettings config.chunking grammars) config r.before.disk tree chunks
  honest : r.after.session.IsHonest grammars

namespace Round
variable {r next : Round γ}

theorem isUpToDate_start (pure : grammars.IsPure) (batch : 0 < config.dispatch.batchSize)
    (workers : 0 < config.dispatch.maxWorkers) (fair : r.IsFair grammars config)
    (noIndex : (ofConfig config).readManifest r.before.disk = .ok none)
    (noGrammar : r.before.session.loaded = []) : r.IsUpToDate grammars config := by
  obtain ⟨summary, done⟩ := fair.done
  have honest : r.before.session.IsHonest grammars := by
    intro name member
    rw [noGrammar] at member
    cases member
  have nothing : reusable r.force .nothing = [] := by
    rw [reusable_eq]
    exact ite_self _
  obtain ⟨survey, rules, full, refreshed⟩ := refreshed_of_refresh pure batch workers
    ⟨fair.proper, fair.still, fair.tidy, honest⟩ (loadBefore_of_readManifest noIndex r.force)
    (fun rules found => areRight_of_nil (nothing ▸ found)) done
  exact ⟨⟨_, _, refreshed.stored, isIndexOf_merged_nothing pure honest refreshed.right⟩,
    refreshed.honest⟩

/-- A refresh leaves the index of a full pass if the one before it did. -/
theorem isUpToDate_next (pure : grammars.IsPure) (batch : 0 < config.dispatch.batchSize)
    (workers : 0 < config.dispatch.maxWorkers) (before : r.IsUpToDate grammars config)
    (leads : r.LeadsTo config next) (fair : next.IsFair grammars config) :
    next.IsUpToDate grammars config := by
  obtain ⟨summary, done⟩ := fair.done
  obtain ⟨tree, chunks, stored, index⟩ := before.index
  have stored := stored.of_lookUp fair.tidy.told leads.files
  have honest : next.before.session.IsHonest grammars :=
    fun name member => before.honest name (leads.loaded member)
  obtain ⟨_, _, is, made, _⟩ := id index
  obtain ⟨survey, rules, full, refreshed⟩ := refreshed_of_isStored pure batch workers
    ⟨fair.proper, fair.still, fair.tidy, honest⟩ stored is made leads.precedes done
  exact ⟨⟨_, _, refreshed.stored,
    leads.precedes.isIndexOf_merged index pure honest refreshed.right⟩, refreshed.honest⟩

end Round

theorem IsRun.isUpToDate {rounds : List (Round γ)} (run : IsRun grammars config rounds)
    (pure : grammars.IsPure) (batch : 0 < config.dispatch.batchSize)
    (workers : 0 < config.dispatch.maxWorkers) :
    ∀ r ∈ rounds, r.IsUpToDate grammars config := by
  induction run with
  | start fair noIndex noGrammar =>
    intro r member
    rw [List.mem_singleton.mp member]
    exact Round.isUpToDate_start pure batch workers fair noIndex noGrammar
  | next run leads fair ih =>
    intro r member
    rcases List.mem_cons.mp member with rfl | earlier
    · exact Round.isUpToDate_next pure batch workers (ih _ (List.mem_cons_self ..)) leads fair
    · exact ih r earlier

/-- The round of a refresh that is not forced, without grammars. -/
def Round.ofRefresh (config : Config) (now : Moment) (before : World Unit) : Round Unit :=
  ⟨false, now, before, ((ofConfig config).refresh
    (Engine.ofSettings config.chunking Grammars.absent) config false now before).2⟩

theorem Round.isFair_ofRefresh {now : Moment} {before : World Unit}
    (proper : before.disk.IsProper) (still : before.disk.IsStill)
    (tidy : IsTidy (ofConfig config) before.disk)
    (succeeds : ((ofConfig config).refresh (Engine.ofSettings config.chunking Grammars.absent)
      config false now before).1.isOk = true) :
    (Round.ofRefresh config now before).IsFair Grammars.absent config := by
  refine ⟨proper, still, tidy, ?_⟩
  show ∃ summary, _ = (_, ((ofConfig config).refresh _ config false now before).2)
  cases result : ((ofConfig config).refresh (Engine.ofSettings config.chunking Grammars.absent)
      config false now before).1 with
  | error e =>
    rw [result] at succeeds
    cases succeeds
  | ok summary => exact ⟨summary, Prod.ext result rfl⟩

def besideConfig : Config :=
  { root := .ofText "/ws", dataDir := .ofText "/data", scan := { extensions := [".txt"] } }

def emptyRound : Round Unit :=
  .ofRefresh besideConfig ⟨1000⟩ ⟨{ items := [(["ws"], .directory)] }, ⟨(), [], []⟩⟩

def addedRound : Round Unit :=
  .ofRefresh besideConfig ⟨2000⟩
    { emptyRound.after with
      disk := emptyRound.after.disk.put ["ws", "a.txt"] (.file [0x68, 0x69, 0x0A] 5) }

theorem isTidy_of_all {d : Disk}
    (told : ∀ name ∈ fileNames,
      Disk.defect? ((ofConfig config).directory.child name) d.defects.stat = none)
    (plain : (d.makeDirectories (ofConfig config).directory).toOption.all
      (fun made => made.items.all fun entry => isPlain entry.2) = true) :
    IsTidy (ofConfig config) d := by
  refine isTidy_of_isPlain told fun made done entry member => ?_
  rw [done] at plain
  exact List.all_eq_true.mp plain entry member

theorem emptyRound_isFair : emptyRound.IsFair Grammars.absent besideConfig :=
  Round.isFair_ofRefresh (by decide +kernel) rfl
    (isTidy_of_all (by decide +kernel) (by decide +kernel)) (by decide +kernel)

theorem isRun_emptyRound : IsRun Grammars.absent besideConfig [emptyRound] := by
  refine .start emptyRound_isFair ?_ rfl
  have absent : emptyRound.before.disk.hasAnything (ofConfig besideConfig).manifestPath =
      .ok false := by rfl
  unfold readManifest
  rw [absent]

theorem grammarsAbsent_isPure : Grammars.absent.IsPure := ⟨fun _ _ _ => rfl, fun _ _ _ _ => rfl⟩

theorem scan_emptyRound : ∃ full,
    (Scan.scan besideConfig [] emptyRound.before.disk).result = .ok full ∧ full.files = [] := by
  have empty : (Scan.scan besideConfig [] emptyRound.before.disk).result.toOption.map (·.files) =
      some [] := by decide +kernel
  cases scanned : (Scan.scan besideConfig [] emptyRound.before.disk).result with
  | error e =>
    rw [scanned] at empty
    cases empty
  | ok full =>
    rw [scanned] at empty
    exact ⟨full, rfl, Option.some.inj empty⟩

theorem index_emptyRound : ∃ tree, tree.normal.files = [] ∧
    IsStored (ofConfig besideConfig) emptyRound.after.disk tree [] ∧
    IsIndexOf (Engine.ofSettings besideConfig.chunking Grammars.absent) besideConfig
      emptyRound.before.disk tree [] := by
  have upToDate := isRun_emptyRound.isUpToDate grammarsAbsent_isPure (by decide) (by decide)
    emptyRound (List.mem_singleton_self _)
  obtain ⟨tree, chunks, stored, index⟩ := upToDate.index
  obtain ⟨rules, full, is, made, same⟩ := id index
  obtain ⟨full', scanned, empty⟩ := scan_emptyRound
  have same' := is.done.symm.trans scanned
  rw [Except.ok.injEq] at same'
  subst same'
  have noChunks : chunks = [] := by
    have nothing := same _ upToDate.honest
    rw [empty] at nothing
    exact List.map_eq_nil_iff.mp nothing
  subst noChunks
  refine ⟨tree, ?_, stored, index⟩
  rw [(made.normal_eq is.result).1]
  exact made.files_eq_nil is.result empty

theorem lookUp_addedRound (p : Path) (item : Item)
    (there : emptyRound.after.disk.lookUp p = .ok item) :
    addedRound.before.disk.lookUp p = .ok item := by
  have absent : emptyRound.after.disk.item? ["ws", "a.txt"] = none := by decide +kernel
  have here : addedRound.before.disk.here = emptyRound.after.disk.here := rfl
  refine Disk.lookUp_of_stays (fun place something => ?_) here there
  show (emptyRound.after.disk.put _ _).item? place = _
  rw [Disk.item?_put _ (by decide), if_neg]
  rintro rfl
  exact something absent

theorem refresh_addedRound (force : Bool) : ∃ summary after,
    (ofConfig besideConfig).refresh (Engine.ofSettings besideConfig.chunking Grammars.absent)
      besideConfig force ⟨2000⟩ addedRound.before = (.ok summary, after) := by
  obtain ⟨tree, empty, stored, -⟩ := index_emptyRound
  have stored := stored.of_lookUp (by decide +kernel) fun name _ item there =>
    lookUp_addedRound _ item there
  rw [refresh_of_loadBefore (stored.loadBefore force), ← Before.ofStored,
    refreshFrom_of_files_eq_nil empty]
  have succeeds : ∀ force, ((ofConfig besideConfig).refreshFrom
      (Engine.ofSettings besideConfig.chunking Grammars.absent) besideConfig force ⟨2000⟩
      .nothing addedRound.before).1.isOk = true := by decide +kernel
  specialize succeeds force
  cases result : (ofConfig besideConfig).refreshFrom
      (Engine.ofSettings besideConfig.chunking Grammars.absent) besideConfig force ⟨2000⟩
      .nothing addedRound.before with
  | mk outcome after =>
    rw [result] at succeeds
    cases outcome with
    | error e => cases succeeds
    | ok summary => exact ⟨summary, after, rfl⟩

theorem precedes_emptyRound (later : Disk) :
    Precedes besideConfig emptyRound.before.disk later := by
  obtain ⟨full, scanned, empty⟩ := scan_emptyRound
  exact precedes_of_files_eq_nil scanned empty later

theorem addedRound_isUndisturbed : addedRound.before.disk.IsProper ∧
    addedRound.before.disk.IsStill ∧ IsTidy (ofConfig besideConfig) addedRound.before.disk := by
  have checks : (addedRound.before.disk.IsProper ∧ addedRound.before.disk.IsStill) ∧
      (∀ name ∈ fileNames, Disk.defect? ((ofConfig besideConfig).directory.child name)
        addedRound.before.disk.defects.stat = none) ∧
      (addedRound.before.disk.makeDirectories (ofConfig besideConfig).directory).toOption.all
        (fun made => made.items.all fun entry => isPlain entry.2) = true := by decide +kernel
  exact ⟨checks.1.1, checks.1.2, isTidy_of_all checks.2.1 checks.2.2⟩

end SourceIndex.Store
