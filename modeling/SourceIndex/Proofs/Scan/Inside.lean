import SourceIndex.Proofs.Scan.Carry
import SourceIndex.Proofs.Scan.Once
/-!
# Walks stay inside

However links lead, a walk goes into no directory outside of the workspace and reads no file there,
and the relative paths that it gives keep to the limits on directories and links. Limits below zero
count as zero, since what stands in the root itself is always visited.

On two disks that differ only in what files hold, and not in the directory that the root leads to
or anywhere below it, walks take the same steps. So nothing outside of the workspace finds its way
into a scan, whatever links lead there.
-/

namespace SourceIndex.Scan

/-! ### What lies outside is not read -/

section

/-- Two disks hold the same from the directory down that a root leads to, and elsewhere differ in
what files hold at most. -/
structure AgreeInside (root : Path) (d other : Disk) : Prop where
  bare : other.bare = d.bare
  inside : ∀ base place, d.find true root = .ok (base, some .directory) → base <+: place →
    other.item? place = d.item? place

variable {rules : Rules} {d other : Disk} {goal : Place} {links : Nat}

theorem AgreeInside.of_trail (agree : AgreeInside rules.root d other) (proper : d.IsProper)
    {names : List String} (trail : Trail rules d names goal links) :
    other.item? goal = d.item? goal := by
  obtain ⟨base, found, below⟩ := trail.inside proper
  exact agree.inside base goal found below

theorem AgreeInside.of_found (agree : AgreeInside rules.root d other) (proper : d.IsProper)
    {names : List String} (trail : Trail rules d names goal links) (last : Place) (item : Item)
    (found : d.find true (rules.root.under names) = .ok (last, some item)) :
    other.item? last = d.item? last := by
  rw [trail.leads proper found]
  exact agree.of_trail proper trail

/-- Nothing outside is asked for but where things are. -/
theorem AgreeInside.answersAlike (agree : AgreeInside rules.root d other) (proper : d.IsProper)
    (still : d.IsStill) : AnswersAlike rules d other where
  lists frame tracked := by
    refine Disk.list_eq_of_agree agree.bare fun place name opened => ?_
    obtain ⟨base, found, below⟩ := (tracked.trail place opened).inside proper
    exact agree.inside base _ found (below.trans (List.prefix_append ..))
  resolves _ _ _ _ _ := Disk.resolve_of_bare agree.bare _ _
  links _ _ := Disk.followed_of_bare agree.bare _
  stats _ _ _ comes := Disk.stat_eq_of_agree agree.bare (agree.of_found proper comes.trail)
  reads _ _ _ limit comes :=
    Disk.readBounded_eq_of_agree agree.bare (agree.of_found proper comes.trail) still limit

theorem resolveRoot_of_bare (same : other.bare = d.bare) (root : String) :
    resolveRoot other root = resolveRoot d root := by
  have directory (p : Path) : other.hasDirectory p = d.hasDirectory p := by
    rw [← Disk.hasDirectory_bare, same, Disk.hasDirectory_bare]
  have anything (p : Path) : other.hasAnything p = d.hasAnything p := by
    rw [← Disk.hasAnything_bare, same, Disk.hasAnything_bare]
  have readable (p : Path) : other.mayRead p = d.mayRead p := by
    rw [← Disk.mayRead_bare, same, Disk.mayRead_bare]
  unfold resolveRoot
  simp only [directory, anything, readable, Disk.resolve_of_bare same]

theorem scan_of_agree {config : Config} {previous : Entries FileNode} (proper : d.IsProper)
    (still : d.IsStill) (ruled : rulesFor config previous d = .ok rules)
    (agree : AgreeInside rules.root d other) :
    scan config previous other =
      { scan config previous d with disk := other } ∧ (scan config previous d).disk = d := by
  have ruled' : rulesFor config previous other = .ok rules := by
    rw [← ruled]
    unfold rulesFor
    simp only [resolveRoot_of_bare agree.bare]
  exact scan_of_answersAlike proper ruled ruled' (agree.answersAlike proper still)

end

/-! ### Where a walk goes -/

variable {rules : Rules} {d : Disk}

/-- A path leads to something in the directory that a root leads to. -/
def IsInside (d : Disk) (root p : Path) : Prop :=
  ∃ base place item, d.find true root = .ok (base, some .directory) ∧
    d.find true p = .ok (place, some item) ∧ base <+: place

/-- A relative path goes down no more directories and over no more links than it may. -/
structure IsWithinLimits (settings : ScanSettings) (d : Disk) (root : Path) (relative : String) :
    Prop where
  depth : ((Path.ofText relative).segments.dropLast.length : Int) ≤ max 0 settings.maxDepth
  links : (d.linksAlong root (Path.ofText relative).segments : Int) ≤ max 0 settings.maxLinkDepth

variable {relative : String} {goal : Place} {links : Nat}

theorem Comes.isInside (proper : d.IsProper) (comes : Comes rules d relative goal links)
    {place : Place} {item : Item}
    (found : d.find true (rules.root.below relative) = .ok (place, some item)) :
    IsInside d rules.root (rules.root.below relative) := by
  obtain ⟨base, opened, below⟩ := comes.trail.inside proper
  have same := comes.trail.leads proper found
  exact ⟨base, place, item, opened, found, same ▸ below⟩

theorem Comes.isWithinLimits (proper : d.IsProper) (comes : Comes rules d relative goal links) :
    IsWithinLimits rules.settings d rules.root relative := by
  have shallow := comes.shallow
  have few := Nat.le_trans (comes.trail.linksAlong_le proper) comes.few
  constructor
  · omega
  · omega

theorem Frame.IsTracked.isInside (proper : d.IsProper) {frame : Frame}
    (tracked : frame.IsTracked rules d) {other : Disk} (same : other.bare = d.bare)
    {entries : List (String × Item)} (listed : other.list frame.directory = .ok entries) :
    IsInside d rules.root frame.directory := by
  obtain ⟨place, found, -⟩ := Disk.list_eq_ok listed
  have opened := Disk.find_directory_of_bare same found
  obtain ⟨base, root, below⟩ := (tracked.trail place opened).inside proper
  exact ⟨base, place, _, root, opened, below⟩

/-- Where all of the root is there, it is the path to where it leads. -/
theorem root_eq_pathTo (proper : d.IsProper) {config : Config} {previous : Entries FileNode}
    (ruled : rulesFor config previous d = .ok rules) {real : Path}
    (resolved : d.resolve true (.ofText config.root.text) = .ok real) {base : Place} {item : Item}
    (found : d.find true rules.root = .ok (base, some item)) : rules.root = Disk.pathTo base := by
  have lenient := resolve_of_resolveRoot (rulesFor_eq_ok ruled).2.2.1
  have same := Disk.resolve_unique resolved lenient
  obtain ⟨goal, shape, solid, -⟩ := Disk.solid_of_resolve proper resolved
  rw [same, shape] at found
  rw [same, shape, solid.find_pathTo proper found]

/-- A walk stays in the workspace and within its limits: every directory that it lists is in the
directory that the root leads to, as is every file that it looks at if that is there at all, and
what files outside hold changes nothing; all paths of files and errors are within the limits. -/
theorem walk_stays_inside {config : Config} {previous : Entries FileNode} (proper : d.IsProper)
    (still : d.IsStill) (ruled : rulesFor config previous d = .ok rules) :
    (∀ real base item, d.resolve true (.ofText config.root.text) = .ok real →
      d.find true rules.root = .ok (base, some item) → rules.root = Disk.pathTo base) ∧
    (∀ steps w, Walk.Leads rules steps (Walk.start rules d) w →
      (∀ frame rest entries, w.stack = frame :: rest →
        w.tally.disk.list frame.directory = .ok entries →
        IsInside d rules.root frame.directory) ∧
      ∀ real ∈ w.tally.seen, ∃ relative, d.resolve false (rules.root.below relative) = .ok real ∧
        ∀ item, d.stat (rules.root.below relative) = .ok item →
          IsInside d rules.root (rules.root.below relative)) ∧
    (∀ other, AgreeInside rules.root d other →
      (scan config previous other).result = (scan config previous d).result ∧
      (scan config previous other).log = (scan config previous d).log) ∧
    ∀ r, (scan config previous d).result = .ok r →
      (∀ found ∈ r.files, IsInside d rules.root (rules.root.below found.file.path) ∧
        IsWithinLimits config.scan d rules.root found.file.path) ∧
      ∀ e ∈ r.errors, IsWithinLimits config.scan d rules.root e.path := by
  have settings : rules.settings = config.scan := (rulesFor_eq_ok ruled).1
  refine ⟨fun real base item resolved => root_eq_pathTo proper ruled resolved,
    fun steps w leads => ?_, fun other agree => ?_, fun r done => ?_⟩
  · have tracked := Walk.isTracked_of_leads proper leads
    constructor
    · intro frame rest entries stack listed
      have member : frame ∈ w.stack := by
        rw [stack]
        exact List.mem_cons_self ..
      exact (tracked.frames frame member).isInside proper tracked.tally.bare listed
    · intro real member
      obtain ⟨relative, goal, links, comes, resolved⟩ := tracked.tally.seen real member
      refine ⟨relative, resolved, fun item told => ?_⟩
      obtain ⟨place, found, -⟩ := Disk.find_of_stat told
      exact comes.isInside proper found
  · rw [(scan_of_agree proper still ruled agree).1]
    exact ⟨rfl, rfl⟩
  · obtain ⟨steps, leads, -⟩ := Walk.leads_finish rules (Walk.start rules d)
    have tracked := (Walk.isTracked_of_leads proper leads).tally
    obtain ⟨files, errors, -⟩ := result_eq_ok ruled done
    rw [files, errors, ← settings]
    constructor
    · intro found member
      obtain ⟨goal, links, data, modified, real, comes, there, -⟩ :=
        tracked.files found ((sortFiles_perm _).mem_iff.mp member)
      exact ⟨comes.isInside proper there, comes.isWithinLimits proper⟩
    · intro e member
      obtain ⟨goal, links, comes⟩ := tracked.errors e member
      exact comes.isWithinLimits proper

/-- A workspace with a file and a link that leads out of it, to a directory with another file. -/
def fencedDisk (outside : Bytes) : Disk where
  items := [(["ws"], .directory), (["ws", "a.txt"], .file [0x61] 1),
    (["ws", "out"], .link "../etc"), (["etc"], .directory), (["etc", "b.txt"], .file outside 1)]

def fencedConfig : Config where
  root := .ofText "/ws"
  dataDir := .ofText "/data"
  scan := { extensions := [".txt"], filterByValue := false }

theorem agreeInside_fenced (data other : Bytes) :
    AgreeInside ⟨1, ["ws"]⟩ (fencedDisk data) (fencedDisk other) := by
  refine ⟨rfl, fun base place found below => ?_⟩
  have root : (fencedDisk data).find true ⟨1, ["ws"]⟩ = .ok (["ws"], some .directory) := by rfl
  rw [root] at found
  cases found
  obtain ⟨rest, rfl⟩ := below
  have apart : ((["etc", "b.txt"] : Place) == ["ws"] ++ rest) = false := by simp
  simp only [Disk.item?, fencedDisk, List.find?_cons, apart]

/-- The file outside is not among those of the scan, whatever it holds. -/
theorem walk_stays_inside_fenced :
    (fencedDisk [0x62]).IsProper ∧ (fencedDisk [0x62]).IsStill ∧
      (scan fencedConfig [] (fencedDisk [])).result =
        (scan fencedConfig [] (fencedDisk [0x62])).result ∧
      ∃ r, (scan fencedConfig [] (fencedDisk [0x62])).result = .ok r ∧ r.files.length = 1 ∧
        ∀ found ∈ r.files,
          IsInside (fencedDisk [0x62]) ⟨1, ["ws"]⟩ (Path.below ⟨1, ["ws"]⟩ found.file.path) := by
  have proper : (fencedDisk [0x62]).IsProper := by decide +kernel
  have still : (fencedDisk [0x62]).IsStill := rfl
  have listed : (fencedDisk [0x62]).list ⟨1, ["ws"]⟩ =
      .ok [("a.txt", .file [0x61] 1), ("out", .link "../etc")] := by
    have names : (fencedDisk [0x62]).names ["ws"] = ["a.txt", "out"] :=
      Disk.names_of_sorted (by decide +kernel) (by decide +kernel)
    have found : (fencedDisk [0x62]).find true ⟨1, ["ws"]⟩ = .ok (["ws"], some .directory) := by rfl
    rw [Disk.list_of_find rfl (by decide +kernel) found, names]
    rfl
  let rules : Rules := { root := ⟨1, ["ws"]⟩, dataDir := fencedConfig.dataDir,
                         settings := fencedConfig.scan, extensions := [".txt"], previous := [] }
  have ruled : rulesFor fencedConfig [] (fencedDisk [0x62]) = .ok rules := by
    have extensions : fencedConfig.scan.requiredExtensions = .ok [".txt"] := by decide +kernel
    have root : resolveRoot (fencedDisk [0x62]) fencedConfig.root.text = .ok ⟨1, ["ws"]⟩ := by
      decide +kernel
    rw [rulesFor, extensions, root]
    rfl
  obtain ⟨r, done, same⟩ := scan_of_list ruled listed (by decide +kernel)
  obtain ⟨-, -, outside, results⟩ := walk_stays_inside proper still ruled
  refine ⟨proper, still, (outside _ (agreeInside_fenced _ _)).1, r, done,
    same.length_eq.trans (by decide +kernel), ?_⟩
  intro found member
  exact ((results _ done).1 found member).1

def negativeConfig : Config :=
  { fencedConfig with scan := { fencedConfig.scan with maxDepth := -1 } }

/-- Limits below zero do not keep the files of the root out. -/
theorem negative_depth_lists_root :
    ∃ r, (scan negativeConfig []
        { items := [(["ws"], .directory), (["ws", "a.txt"], .file [0x61] 1)] }).result = .ok r ∧
      ∃ found ∈ r.files, ¬ ((Path.ofText found.file.path).segments.dropLast.length : Int) ≤
        negativeConfig.scan.maxDepth := by
  have lists : ((scan negativeConfig []
      { items := [(["ws"], .directory), (["ws", "a.txt"], .file [0x61] 1)] }).result.toOption.any
        fun r => !r.files.isEmpty) = true := by
    decide +kernel
  obtain ⟨r, done, filled⟩ := (Option.any_eq_true _ _).mp lists
  have done : (scan negativeConfig []
      { items := [(["ws"], .directory), (["ws", "a.txt"], .file [0x61] 1)] }).result = .ok r := by
    generalize (scan negativeConfig [] _).result = result at done
    cases result with
    | error e => cases done
    | ok other => exact congrArg Except.ok (Option.some.inj done)
  obtain ⟨found, rest, shape⟩ := List.exists_cons_of_ne_nil
    (show r.files ≠ [] by simpa using filled)
  have below : negativeConfig.scan.maxDepth = -1 := rfl
  refine ⟨r, done, found, by rw [shape]; exact List.mem_cons_self .., ?_⟩
  omega

end SourceIndex.Scan
