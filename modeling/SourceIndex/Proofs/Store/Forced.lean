import SourceIndex.Proofs.Store.Again
import SourceIndex.Proofs.Store.ReadBack
/-!
# Forced refreshes

A forced refresh starts from what the stored tree tells, if it tells anything. Whatever the files of
the index hold, it comes to the index that a first refresh would have stored, with one exception:
some trees are neither read nor left out.
-/

namespace SourceIndex.Store
variable {γ : Type} {engine : Engine γ} {config : Config} {s : Store} {d other : Disk}
  {base data : Place} {w : World γ} {bytes : Bytes} {modified : Int}

/-! ### Stored trees that are not left out -/

/-- Whether a refresh that reads a stored tree fails even if it is forced: the values are nested too
deeply, an infinite number stands for an integer, or something else than an object for the lists of
files. -/
def stopsForced (bytes : Bytes) : Bool :=
  match Text.Utf8.decode bytes with
  | .error _ => false
  | .ok text =>
    match Json.read text with
    | .error .tooDeep => true
    | .ok (.object fields) =>
      match HashTree.ofFields fields with
      | .error .infinite | .error .noFields => true
      | _ => false
    | _ => false

/-- Whether reading fails on a ground that is not left out. -/
def givesUp {α : Type} : Except IndexError α → Bool
  | .ok _ => false
  | .error e => !isIgnored e.ground

theorem givesUp_loadTree (told : Disk.defect? s.treePath d.defects.stat = none)
    (there : d.lookUp s.treePath = .ok (.file bytes modified)) :
    givesUp (s.loadTree d) = stopsForced bytes := by
  have something : d.hasAnything s.treePath = .ok true := by
    unfold Disk.hasAnything Disk.stat
    rw [told]
    simp only [there]
  have all : d.readAll s.treePath = .ok bytes := by
    unfold Disk.readAll
    rw [there]
  unfold loadTree HashTree.load Disk.readDocument stopsForced
  simp only [something, all]
  cases Text.Utf8.decode bytes with
  | error e => rfl
  | ok text =>
    simp only
    cases Json.read text with
    | error fault => cases fault <;> rfl
    | ok value =>
      cases value with
      | object fields =>
        simp only [Except.mapError]
        cases HashTree.ofFields fields with
        | ok tree => rfl
        | error fault => cases fault <;> rfl
      | _ => rfl

theorem loadTree_of_absent (told : Disk.defect? s.treePath d.defects.stat = none)
    (absent : d.lookUp s.treePath = .error (.system FileError.noEntry s.treePath.text)) :
    s.loadTree d = .ok none := by
  have nothing : d.hasAnything s.treePath = .ok false := by
    unfold Disk.hasAnything Disk.stat
    rw [told]
    simp only [absent]
    rfl
  unfold loadTree
  rw [nothing]

theorem loadBefore_of_givesUp {fields : Entries Json}
    (manifest : s.readManifest w.disk = .ok (some fields))
    (up : givesUp (s.loadTree w.disk) = true) : ∃ e, s.loadBefore true w = (.error e, w) := by
  unfold loadBefore loadTreeIfReadable
  rw [manifest]
  cases loaded : s.loadTree w.disk with
  | ok tree =>
    rw [loaded] at up
    cases up
  | error e =>
    rw [loaded] at up
    have kept : isIgnored e.ground = false := by simpa [givesUp] using up
    simp only [kept, if_true, Bool.false_eq_true, if_false]
    exact ⟨e, rfl⟩

/-- A forced refresh starts from the stored tree or from nothing, unless reading gives up on it. -/
theorem loadBefore_forced {fields : Entries Json}
    (manifest : s.readManifest w.disk = .ok (some fields))
    (goesOn : givesUp (s.loadTree w.disk) = false) :
    ∃ tree started, s.loadBefore true w = (.ok ⟨tree, []⟩, started) ∧
      started.disk = w.disk ∧ started.session.loaded = w.session.loaded := by
  unfold loadBefore loadTreeIfReadable
  rw [manifest]
  cases loaded : s.loadTree w.disk with
  | ok tree => exact ⟨tree, w, rfl, rfl, rfl⟩
  | error e =>
    rw [loaded] at goesOn
    have ignored : isIgnored e.ground = true := by simpa [givesUp] using goesOn
    simp only [ignored, if_true]
    exact ⟨none, _, rfl, rfl, rfl⟩

/-! ### A workspace before and after it was indexed -/

/-- A workspace without links into its data directory, which is there. The index directory and the
files in it can be asked for. -/
structure IsVacant (config : Config) (base data : Place) (d : Disk) : Prop where
  proper : d.IsProper
  still : d.IsStill
  root : d.resolve true (.ofText config.root.text) = .ok (Disk.pathTo base)
  dataDir : config.dataDir = Disk.pathTo data
  apart : base ≠ data
  noLinks : Scan.HasNoLinksInto d base data
  directory : d.item? data = some .directory
  toldDirectory : Disk.defect? (ofConfig config).directory d.defects.stat = none ∧
    Disk.defect? (ofConfig config).directory d.defects.isDirectory = none
  told : ∀ name ∈ fileNames,
    Disk.defect? ((ofConfig config).directory.child name) d.defects.stat = none

/-- A disk that has an index in the data directory where another one has nothing. The manifest is an
object, the other files of the index hold anything if they are there. -/
structure HoldsIndex (config : Config) (data : Place) (d other : Disk) : Prop where
  fills : Disk.Fills data d other
  proper : other.IsProper
  directory : other.item? (data ++ ["index"]) = some .directory
  file : ∀ name ∈ fileNames, other.IsFree (data ++ ["index"] ++ [name])
  temporary : ∀ name ∈ fileNames, other.IsFree (data ++ ["index"] ++ [temporaryName name])
  manifest : ∃ fields, (ofConfig config).readManifest other = .ok (some fields)

theorem isEntryName_index : Disk.IsEntryName "index" := ⟨by decide, by decide, by decide⟩

namespace IsVacant

theorem directory_eq (vacant : IsVacant config base data d) :
    (ofConfig config).directory = (Disk.pathTo data).child "index" := by
  rw [ofConfig, vacant.dataDir]

theorem reaches_data (vacant : IsVacant config base data d) (usable : (ofConfig config).IsUsable)
    (proper : other.IsProper) (directory : other.item? data = some .directory) :
    other.Reaches (Disk.pathTo data) data := by
  have names := usable.directory.names
  rw [vacant.directory_eq] at names
  exact Disk.reaches_pathTo proper directory fun name member =>
    names name (List.mem_append_left _ member)

theorem hasRoom (vacant : IsVacant config base data d) (usable : (ofConfig config).IsUsable)
    (empty : ∀ place, Disk.IsBelow data place → d.item? place = none) :
    ∃ made, d.makeDirectories (ofConfig config).directory = .ok made ∧
      HasRoom (ofConfig config) (data ++ ["index"]) made := by
  have reaches := vacant.reaches_data usable vacant.proper vacant.directory
  have nothing : d.item? (data ++ ["index"]) = none :=
    empty _ (Disk.isBelow_concat.mpr (List.prefix_refl _))
  have isUsable := usable.directory
  rw [vacant.directory_eq] at isUsable
  have made := Disk.makeDirectory_of_none isUsable reaches isEntryName_index nothing
    Disk.maxMadeAbove
  refine ⟨_, by rw [vacant.directory_eq]; exact made, ?_⟩
  have keeps : d.Keeps (d.put (data ++ ["index"]) .directory) :=
    Disk.keeps_put (by simp) (by simp [nothing]) (by simp [nothing])
  have stands : (d.put (data ++ ["index"]) .directory).item? (data ++ ["index"]) =
      some .directory := by
    rw [Disk.item?_put d (by simp), if_pos rfl]
  have free (name : String) :
      (d.put (data ++ ["index"]) .directory).IsFree (data ++ ["index"] ++ [name]) := by
    intro item there
    rw [Disk.item?_put d (by simp), if_neg (by simp),
      empty _ (Disk.isBelow_concat.mpr (List.prefix_append ..))] at there
    cases there
  have opens : (d.put (data ++ ["index"]) .directory).Opens (ofConfig config).directory
      (data ++ ["index"]) := by
    rw [vacant.directory_eq]
    exact ⟨vacant.proper.tree.put vacant.directory fun _ => rfl,
      Disk.reaches_child (reaches.of_keeps keeps rfl) isEntryName_index stands⟩
  exact ⟨opens, fun name _ => free name, fun name _ => free (temporaryName name)⟩

theorem readManifest_ne (vacant : IsVacant config base data d)
    (empty : ∀ place, Disk.IsBelow data place → d.item? place = none) (fields : Entries Json) :
    (ofConfig config).readManifest d ≠ .ok (some fields) := by
  intro read
  have something : d.hasAnything (ofConfig config).manifestPath = .ok true := by
    unfold readManifest at read
    split at read
    · cases read
    · cases read
    · assumption
  obtain ⟨item, told⟩ := Disk.stat_of_hasAnything something
  obtain ⟨-, goal, found⟩ := Disk.lookUp_eq_ok (Disk.stat_eq_ok told).2
  have walks := Disk.walks_of_walk (Disk.find_eq_ok found)
  have shape : (ofConfig config).manifestPath =
      ((Disk.pathTo data).child "index").child "manifest.json" := by
    rw [manifestPath, vacant.directory_eq]
  rw [shape] at walks
  have segments : (((Disk.pathTo data).child "index").child "manifest.json").segments =
      data ++ ["index", "manifest.json"] := by
    simp [Path.child, Disk.pathTo]
  rw [segments] at walks
  have directory : d.item? ([] ++ data) = some .directory := vacant.directory
  have later : Disk.Walks d true Disk.maxLinks data ["index", "manifest.json"] goal (some item) :=
    Disk.Walks.of_place vacant.proper directory walks
  refine Disk.not_walks_through_none ⟨by decide, by decide, by decide, by decide⟩ ?_ (by simp) later
  exact empty _ (Disk.isBelow_concat.mpr (List.prefix_refl _))

end IsVacant

namespace HoldsIndex

theorem still (holds : HoldsIndex config data d other) (vacant : IsVacant config base data d) :
    other.IsStill := by
  unfold Disk.IsStill
  rw [holds.fills.defects]
  exact vacant.still

theorem told (holds : HoldsIndex config data d other) (vacant : IsVacant config base data d) :
    ∀ name ∈ fileNames,
      Disk.defect? ((ofConfig config).directory.child name) other.defects.stat = none := by
  rw [holds.fills.defects]
  exact vacant.told

theorem item?_data (holds : HoldsIndex config data d other) :
    other.item? data = some .directory :=
  holds.proper.tree.under data "index" (by simp [holds.directory])

theorem hasRoom (holds : HoldsIndex config data d other) (vacant : IsVacant config base data d)
    (usable : (ofConfig config).IsUsable) :
    other.makeDirectories (ofConfig config).directory = .ok other ∧
      HasRoom (ofConfig config) (data ++ ["index"]) other := by
  have reaches := vacant.reaches_data usable holds.proper holds.item?_data
  have isUsable := usable.directory
  have told := vacant.toldDirectory
  rw [← holds.fills.defects] at told
  rw [vacant.directory_eq] at isUsable told ⊢
  refine ⟨Disk.makeDirectory_of_directory isUsable reaches isEntryName_index holds.directory told.1
    told.2 _, ⟨holds.proper.tree, ?_⟩, holds.file, holds.temporary⟩
  rw [vacant.directory_eq]
  exact Disk.reaches_child reaches isEntryName_index holds.directory

end HoldsIndex

theorem HasRoom.givesUp_loadTree {place : Place} (room : HasRoom s place d) (usable : s.IsUsable)
    (told : Disk.defect? s.treePath d.defects.stat = none) :
    givesUp (s.loadTree d) = true ↔ ∃ bytes modified,
      d.item? (place ++ ["merkle.json"]) = some (.file bytes modified) ∧
        stopsForced bytes = true := by
  have free := room.file "merkle.json" (by decide)
  have looked : d.lookUp s.treePath = _ := Disk.lookUp_of_isUsable (usable.file "merkle.json"
    (by decide)) room.opens.reaches (isIndexName_of_mem (by decide)).final free.isOrdinary.noLink
  cases there : d.item? (place ++ ["merkle.json"]) with
  | none =>
    rw [there] at looked
    rw [loadTree_of_absent told looked]
    simp [givesUp]
  | some item =>
    obtain ⟨bytes, modified, rfl⟩ := free item there
    rw [there] at looked
    rw [Store.givesUp_loadTree told looked]
    simp

/-! ### Forced refreshes -/

/-- The indexes on two disks are the same, apart from the time that is noted in the tree. -/
def SameIndex (s : Store) (d other : Disk) : Prop :=
  ∃ tree chunks time, s.loadTree d = .ok (some tree) ∧ s.loadChunks d = .ok chunks ∧
    s.loadTree other = .ok (some (tree.atTime time)) ∧ s.loadChunks other = .ok chunks

section
variable {first forced started after : World γ} {now later : Moment} {summary : Summary}

theorem loadBefore_vacant (vacant : IsVacant config base data first.disk)
    (empty : ∀ place, Disk.IsBelow data place → first.disk.item? place = none)
    (done : (ofConfig config).refresh engine config false now first = (.ok summary, after)) :
    (ofConfig config).loadBefore false first = (.ok .nothing, first) := by
  cases read : (ofConfig config).readManifest first.disk with
  | ok manifest =>
    cases manifest with
    | none => exact loadBefore_of_readManifest read false
    | some fields => exact absurd read (vacant.readManifest_ne empty fields)
  | error e =>
    unfold refresh loadBefore at done
    rw [read] at done
    cases done

/-- Where a first refresh succeeded, one succeeds as well that starts from a tree and no chunks. -/
theorem refreshFrom_again (pure : engine.grammars.IsPure)
    (batch : 0 < config.dispatch.batchSize) (workers : 0 < config.dispatch.maxWorkers)
    (threshold : (Number.real .zero).le config.dispatch.memoryThreshold = true)
    (honest : first.session.IsHonest engine.grammars)
    (honest' : started.session.IsHonest engine.grammars)
    (vacant : IsVacant config base data first.disk)
    (holds : HoldsIndex config data first.disk started.disk)
    (short : Json.isShort later.millis = true)
    (done : (ofConfig config).refreshFrom engine config false now .nothing first =
      (.ok summary, after)) (tree : Option HashTree) :
    (ofConfig config).IsUsable ∧ ∃ summary' after', (ofConfig config).refreshFrom engine config true
        later ⟨tree, []⟩ started = (.ok summary', after') ∧
      SameIndex (ofConfig config) after.disk after'.disk := by
  obtain ⟨chunks, last, prepares, saved⟩ := saves_of_refreshFrom done
  have bare := keeps_of_prepares (Disk.keptByReading_bare first.disk) prepares rfl
  have isTree := (vacant.proper.of_bare bare).tree
  obtain ⟨usable, writable⟩ := isUsable_of_applyAll isTree (applyAll_of_save saved)
  refine ⟨usable, ?_⟩
  obtain ⟨made, making, room⟩ := vacant.hasRoom usable holds.fills.empty
  obtain ⟨making', room'⟩ := holds.hasRoom vacant usable
  obtain ⟨between, fresh, stats, surveyed, chunked, sorted⟩ := id prepares
  obtain ⟨-, -, rules, full, right⟩ := Survey.run_eq_ok vacant.proper vacant.still
    (fun _ found => areRight_of_nil found) rfl surveyed
  obtain ⟨same, -⟩ := Scan.scan_of_fills vacant.proper holds.proper vacant.still holds.fills
    vacant.root vacant.dataDir vacant.apart vacant.noLinks right.started
  obtain ⟨survey', last', prepares', disk', tree'⟩ := prepares_again pure batch workers threshold
    vacant.proper holds.proper vacant.still (holds.still vacant) honest honest' same prepares tree
    later
  obtain ⟨after', saved'⟩ := room'.save usable (by rw [disk']; exact making')
    (areWritable_again tree' short writable)
  obtain ⟨summary', done'⟩ := refreshFrom_of_prepares prepares' saved'
  refine ⟨summary', after', done', ?_⟩
  have regular := right.tree.isRegular
  have regular' : survey'.tree.IsRegular := by
    rw [tree']
    exact HashTree.isRegular_atTime regular _
  have stored := (isStored_of_save ((room.isTidy vacant.told making).isClear.of_bare bare) isTree
    regular saved).1
  have stored' := (isStored_of_save (disk'.symm ▸ room'.isTidy (holds.told vacant) making').isClear
    (disk'.symm ▸ holds.proper.tree) regular' saved').1
  have loaded' := stored'.loadTree
  rw [tree'] at loaded'
  exact ⟨_, _, later.millis, stored.loadTree, stored.loadChunks, loaded', stored'.loadChunks⟩

end

/-- Where a first refresh succeeds with an empty data directory, a forced refresh succeeds from
every index that has a manifest and stores the same, unless the stored tree is one that is neither
read nor left out. -/
theorem forced_refresh_iff (engine : Engine γ) (config : Config) (base data : Place)
    (first forced after : World γ) (now later : Moment) (summary : Summary)
    (pure : engine.grammars.IsPure) (batch : 0 < config.dispatch.batchSize)
    (workers : 0 < config.dispatch.maxWorkers)
    (threshold : (Number.real .zero).le config.dispatch.memoryThreshold = true)
    (honest : first.session.IsHonest engine.grammars)
    (honest' : forced.session.IsHonest engine.grammars)
    (vacant : IsVacant config base data first.disk)
    (holds : HoldsIndex config data first.disk forced.disk)
    (short : Json.isShort later.millis = true)
    (done : (ofConfig config).refresh engine config false now first = (.ok summary, after)) :
    (∃ summary' after',
        (ofConfig config).refresh engine config true later forced = (.ok summary', after') ∧
        SameIndex (ofConfig config) after.disk after'.disk) ↔
      ∀ bytes modified,
        forced.disk.item? (data ++ ["index", "merkle.json"]) = some (.file bytes modified) →
          stopsForced bytes = false := by
  rw [refresh_of_loadBefore (loadBefore_vacant vacant holds.fills.empty done)] at done
  obtain ⟨fields, manifest⟩ := holds.manifest
  have usable : (ofConfig config).IsUsable :=
    (refreshFrom_again pure batch workers threshold honest honest' vacant holds short done none).1
  have gives := (holds.hasRoom vacant usable).2.givesUp_loadTree usable
    (holds.told vacant "merkle.json" (by decide))
  have shape : data ++ ["index"] ++ ["merkle.json"] = data ++ ["index", "merkle.json"] := by simp
  rw [shape] at gives
  cases up : givesUp ((ofConfig config).loadTree forced.disk) with
  | true =>
    obtain ⟨bytes, modified, there, stops⟩ := gives.mp up
    obtain ⟨e, failed⟩ := loadBefore_of_givesUp manifest up
    refine iff_of_false ?_ fun all => ?_
    · rintro ⟨summary', after', done', -⟩
      unfold refresh at done'
      rw [failed] at done'
      cases done'
    · rw [all bytes modified there] at stops
      cases stops
  | false =>
    obtain ⟨tree, started, loaded, disk, session⟩ := loadBefore_forced manifest up
    refine iff_of_true ?_ fun bytes modified there => ?_
    · obtain ⟨-, summary', after', done', same⟩ := refreshFrom_again pure batch workers threshold
        honest (Engine.isHonest_of_loaded_eq honest' session) vacant (disk.symm ▸ holds) short done
        tree
      refine ⟨summary', after', ?_, same⟩
      unfold refresh
      rw [loaded]
      exact done'
    · rw [← Bool.not_eq_true]
      intro stops
      have also := gives.mpr ⟨bytes, modified, there, stops⟩
      rw [up] at also
      cases also

/-! ### Damaged indexes -/

def vacantDisk : Disk where
  items := [(["ws"], .directory), (["ws", "a.txt"], .file [0x68, 0x69, 0x0A] 5),
    (["data"], .directory)]

/-- The workspace with an index of which the manifest is empty and no other file is in order. -/
def damagedDisk (tree : Bytes) : Disk :=
  { vacantDisk with
    items := vacantDisk.items ++
      [(["data", "index"], .directory),
       (["data", "index", "manifest.json"], .file (Text.Utf8.encode "\x7b\x7d") 7),
       (["data", "index", "merkle.json"], .file tree 7),
       (["data", "index", "chunks.jsonl"], .file [0xFF] 7)] }

/-- A stored tree in which there is nothing where the files are listed by suffix. -/
def unlistedTree : Bytes :=
  Text.Utf8.encode <|
    "\x7b\"root\":\x7b\"hash\":\"\",\"timestamp\":0,\"file_count\":0\x7d," ++
      "\"files\":\x7b\x7d,\"directories\":\x7b\x7d," ++
      "\"index\":\x7b\"by_extension\":null\x7d,\"metadata\":\x7b\x7d\x7d"

theorem isVacant_vacantDisk : IsVacant besideConfig ["ws"] ["data"] vacantDisk where
  proper := by decide +kernel
  still := rfl
  root := by decide +kernel
  dataDir := by decide +kernel
  apart := by decide
  noLinks place name target _ isLink :=
    absurd isLink ((isOrdinary_of_isPlain (by decide +kernel) _).noLink target)
  directory := by decide +kernel
  toldDirectory := by decide +kernel
  told := by decide +kernel

theorem holdsIndex_damagedDisk {tree : Bytes}
    (checks : (damagedDisk tree).IsProper ∧
      (∀ name ∈ fileNames, (damagedDisk tree).IsFree (["data", "index"] ++ [name]) ∧
        (damagedDisk tree).IsFree (["data", "index"] ++ [temporaryName name])) ∧
      ((ofConfig besideConfig).readManifest (damagedDisk tree)).toOption.join.isSome = true) :
    HoldsIndex besideConfig ["data"] vacantDisk (damagedDisk tree) where
  fills := Disk.fills_append (by decide +kernel) (by simp [Disk.IsBelow])
  proper := checks.1
  directory := rfl
  file name member := (checks.2.1 name member).1
  temporary name member := (checks.2.1 name member).2
  manifest := by
    have some := checks.2.2
    cases read : (ofConfig besideConfig).readManifest (damagedDisk tree) with
    | error e =>
      rw [read] at some
      cases some
    | ok manifest =>
      rw [read] at some
      cases manifest with
      | none => cases some
      | some fields => exact ⟨fields, rfl⟩

theorem item?_damagedDisk (tree : Bytes) :
    (damagedDisk tree).item? ["data", "index", "merkle.json"] = some (.file tree 7) := rfl

/-- A forced refresh comes to the first index from a tree that breaks off, but not from one in which
files are not listed. -/
theorem forced_refresh_iff_damaged : ∃ summary after,
    refreshBeside vacantDisk = (.ok summary, after) ∧
    ∀ tree ∈ [[0x5B], unlistedTree],
      (∃ summary' after', (ofConfig besideConfig).refresh
          (Engine.ofSettings besideConfig.chunking Grammars.absent) besideConfig true ⟨2000⟩
          ⟨damagedDisk tree, ⟨(), [], []⟩⟩ = (.ok summary', after') ∧
        SameIndex (ofConfig besideConfig) after.disk after'.disk) ↔ tree = [0x5B] := by
  have succeeds : (refreshBeside vacantDisk).1.isOk = true := by decide +kernel
  cases result : refreshBeside vacantDisk with
  | mk outcome after =>
    rw [result] at succeeds
    cases outcome with
    | error e => cases succeeds
    | ok summary =>
      refine ⟨summary, after, rfl, fun tree member => ?_⟩
      have holds : HoldsIndex besideConfig ["data"] vacantDisk (damagedDisk tree) := by
        rcases List.mem_pair.mp member with breaksOff | unlisted
        · rw [breaksOff]
          exact holdsIndex_damagedDisk (by decide +kernel)
        · rw [unlisted]
          exact holdsIndex_damagedDisk (by decide +kernel)
      have honest : (⟨(), [], []⟩ : Session Unit).IsHonest Grammars.absent := by
        intro name loaded
        cases loaded
      rw [forced_refresh_iff _ besideConfig ["ws"] ["data"] ⟨vacantDisk, ⟨(), [], []⟩⟩
        ⟨damagedDisk tree, ⟨(), [], []⟩⟩ after ⟨1000⟩ ⟨2000⟩ summary grammarsAbsent_isPure
        (by decide) (by decide) (by decide +kernel) honest honest isVacant_vacantDisk holds
        (by decide +kernel) result]
      have only : (∀ bytes modified, (damagedDisk tree).item? ["data", "index", "merkle.json"] =
          some (.file bytes modified) → stopsForced bytes = false) ↔ stopsForced tree = false := by
        rw [item?_damagedDisk]
        simp
      refine only.trans ?_
      rcases List.mem_pair.mp member with breaksOff | unlisted
      · rw [breaksOff]
        exact iff_of_true (by decide +kernel) rfl
      · rw [unlisted]
        exact iff_of_false (by decide +kernel) (by decide +kernel)

end SourceIndex.Store
