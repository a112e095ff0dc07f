import SourceIndex.Proofs.Scan.Inside
/-!
# The data directory

A walk never lists the data directory itself, since its real path is asked for before any directory
is gone into. But only this one path is asked for: what lies below the data directory is left out
just because the way there leads through it. A link that leads below it is another way in.
-/

namespace SourceIndex.Scan
variable {rules : Rules} {d : Disk} {names : List String} {place base data : Place} {links : Nat}

/-! ### Real paths of trails -/

theorem Trail.resolves (proper : d.IsProper) (root : rules.root = Disk.pathTo base)
    (directory : d.item? base = some .directory) (trail : Trail rules d names place links) :
    ∃ met, d.resolvePieces false Disk.maxNestedLinks [] (d.startOf (rules.root.under names))
      (rules.root.under names).segments = .at place met := by
  have start (names : List String) : d.startOf (rules.root.under names) = [] := by
    rw [root]
    rfl
  have segments (names : List String) : (rules.root.under names).segments = base ++ names := by
    rw [root]
    rfl
  obtain ⟨onLink, shape⟩ := Disk.exists_resolveFrom d false Disk.maxNestedLinks
  rw [start, segments, shape]
  -- Entries are taken as they are after those before them; a link is resolved as a whole.
  induction trail with
  | root found =>
    rw [root] at found
    have same := (Disk.isSolid_of_directory directory).find_pathTo proper found
    subst same
    rw [List.append_nil]
    exact ⟨[], Disk.resolveFrom_directory proper directory⟩
  | @step names place goal name links more trail enters meets ih =>
    have isName := meets.isName proper
    cases meets with
    | entry there =>
      obtain ⟨met, ends⟩ := ih
      rw [← List.append_assoc, Disk.resolveFrom_append [name] ends]
      exact ⟨met, Disk.resolveFrom_name isName there.noLink⟩
    | link _ resolved _ =>
      obtain ⟨goal', met, ends, same, -⟩ := Disk.resolve_eq_ok resolved
      cases same
      have lenient := Disk.resolvePieces_of_strict ends
      rw [start, segments, shape] at lenient
      exact ⟨met, lenient⟩

/-- Where the root is real, a trail ends at the real path of its names. -/
theorem Trail.real (proper : d.IsProper) (root : rules.root = Disk.pathTo base)
    (directory : d.item? base = some .directory) (trail : Trail rules d names place links)
    {real : Path} (resolved : d.resolve false (rules.root.under names) = .ok real) :
    real = Disk.pathTo place := by
  obtain ⟨met, ends⟩ := trail.resolves proper root directory
  exact Disk.eq_pathTo_of_at ends resolved

theorem Trail.ne_of_enters (proper : d.IsProper) (root : rules.root = Disk.pathTo base)
    (directory : d.item? base = some .directory) (placed : rules.dataDir = Disk.pathTo data)
    (apart : rules.dataDir ≠ rules.root) (trail : Trail rules d names place links)
    (enters : Enters rules d names place) : place ≠ data := by
  rintro rfl
  by_cases first : names = []
  · have opened := enters.opened
    rw [first, under_nil, root] at opened
    have same := (Disk.isSolid_of_directory directory).find_pathTo proper opened
    exact apart (by rw [placed, root, same])
  · obtain ⟨real, resolved, differs⟩ := enters.accepted first
    exact differs (by rw [trail.real proper root directory resolved, placed])

/-! ### Ways into the data directory -/

/-- The data directory lies below the root. -/
structure IsKeptApart (rules : Rules) (data : Place) : Prop where
  placed : rules.dataDir = Disk.pathTo data
  below : rules.root.isWithin rules.dataDir = true
  apart : rules.dataDir ≠ rules.root

/-- Names lead to a place over a link that leads below the data directory. -/
def LinksInto (d : Disk) (root : Path) (data : Place) (names : List String) (place : Place) :
    Prop :=
  ∃ lead name rest above target goal, names = lead ++ name :: rest ∧
    d.find true (root.under lead) = .ok (above, some .directory) ∧
    d.item? (above ++ [name]) = some (.link target) ∧
    d.resolve true (root.under (lead ++ [name])) = .ok (Disk.pathTo goal) ∧
    data <+: goal ∧ goal ≠ data ∧ place = goal ++ rest

theorem LinksInto.below {root : Path} (into : LinksInto d root data names place) :
    data <+: place := by
  obtain ⟨-, -, rest, -, -, goal, -, -, -, -, below, -, rfl⟩ := into
  exact below.trans (List.prefix_append ..)

theorem LinksInto.entry {root : Path} (into : LinksInto d root data names place) (name : String) :
    LinksInto d root data (names ++ [name]) (place ++ [name]) := by
  obtain ⟨lead, link, rest, above, target, goal, rfl, opened, isLink, resolved, below, inner,
    rfl⟩ := into
  exact ⟨lead, link, rest ++ [name], above, target, goal, by simp, opened, isLink, resolved, below,
    inner, by simp⟩

theorem IsKeptApart.root_eq (proper : d.IsProper) (apart : IsKeptApart rules data)
    (trail : Trail rules d names place links) {goal : Place} (solid : d.IsSolid goal)
    (below : data <+: goal) :
    ∃ base, rules.root = Disk.pathTo base ∧ d.item? base = some .directory := by
  obtain ⟨base, found, -⟩ := trail.inside proper
  have within := apart.below
  rw [apart.placed, Path.isWithin, Bool.and_eq_true, List.isPrefixOf_iff_prefix] at within
  have inside : rules.root.isWithin (Disk.pathTo goal) = true := by
    rw [Path.isWithin, Bool.and_eq_true, List.isPrefixOf_iff_prefix]
    exact ⟨within.1, within.2.trans below⟩
  exact ⟨base, (eq_root_of_isWithin proper found solid inside).1,
    ((Disk.walks_of_walk (Disk.find_eq_ok found)).item_eq).symm⟩

theorem IsKeptApart.ne_of_enters (proper : d.IsProper) (apart : IsKeptApart rules data)
    (trail : Trail rules d names place links) (enters : Enters rules d names place) :
    place ≠ data := by
  rintro rfl
  have there : d.item? place = some .directory :=
    ((Disk.walks_of_walk (Disk.find_eq_ok enters.opened)).item_eq).symm
  obtain ⟨base, root, directory⟩ := apart.root_eq proper trail
    (Disk.isSolid_of_directory there) (List.prefix_refl _)
  exact trail.ne_of_enters proper root directory apart.placed apart.apart enters rfl

/-- A trail gets below the data directory over links only. -/
theorem IsKeptApart.eq_or_linksInto (proper : d.IsProper) (apart : IsKeptApart rules data)
    (trail : Trail rules d names place links) (below : data <+: place) :
    place = data ∨ LinksInto d rules.root data names place := by
  -- The last name is in a directory that is inside already, or it is a link that leads there.
  induction trail with
  | @root base found =>
    have there : d.IsSolid base := Disk.isSolid_of_directory
      ((Disk.walks_of_walk (Disk.find_eq_ok found)).item_eq).symm
    obtain ⟨base', root, directory⟩ := apart.root_eq proper (.root found) there below
    have same := (Disk.isSolid_of_directory directory).find_pathTo proper (root ▸ found)
    have within := apart.below
    rw [apart.placed, root, ← same, Path.isWithin, Bool.and_eq_true,
      List.isPrefixOf_iff_prefix] at within
    exact .inl (within.2.eq_of_length_le below.length_le)
  | @step names place goal name links more trail enters meets ih =>
    cases meets with
    | entry there =>
      rcases List.prefix_concat_iff.mp below with here | inner
      · exact .inl here.symm
      · have into := (ih inner).resolve_left (apart.ne_of_enters proper trail enters)
        exact .inr (into.entry name)
    | @link target goal isLink resolved inside =>
      by_cases same : goal = data
      · exact .inl same
      · exact .inr ⟨names, name, [], place, target, goal, rfl, enters.opened, isLink, resolved,
          below, same, (List.append_nil _).symm⟩

/-! ### Scans -/

/-- The data directory is never listed itself, and a file of a scan stands in it or below it
exactly if the data directory is that file, or a link on the way leads below the data directory. -/
theorem in_data_directory_iff {config : Config} {previous : Entries FileNode}
    {root : Path} (proper : d.IsProper)
    (resolved : resolveRoot d config.root.text = .ok root)
    (placed : config.dataDir = Disk.pathTo data) (below : root.isWithin config.dataDir = true)
    (apart : config.dataDir ≠ root) {r : ScanResult}
    (done : (scan config previous d).result = .ok r) :
    (∀ rules steps w frame rest entries, rulesFor config previous d = .ok rules →
      Walk.Leads rules steps (Walk.start rules d) w → w.stack = frame :: rest →
      w.tally.disk.list frame.directory = .ok entries →
      d.find true frame.directory ≠ .ok (data, some .directory)) ∧
    ∀ found ∈ r.files, ∃ place bytes modified,
      d.find true (root.below found.file.path) = .ok (place, some (.file bytes modified)) ∧
      (data <+: place → d.resolve false (root.below found.file.path) = .ok (Disk.pathTo place)) ∧
      (data <+: place ↔ place = data ∨
        LinksInto d root data (Path.ofText found.file.path).segments place) := by
  have kept {rules : Rules} (ruled : rulesFor config previous d = .ok rules) :
      rules.root = root ∧ IsKeptApart rules data := by
    obtain ⟨-, -, root', dataDir⟩ := rulesFor_eq_ok ruled
    have same : rules.root = root := Except.ok.inj (root'.symm.trans resolved)
    exact ⟨same, by rw [dataDir, placed], by rw [dataDir, same, below], by rwa [dataDir, same]⟩
  constructor
  · intro rules steps w frame rest entries ruled leads stack listed found
    have member : frame ∈ w.stack := by
      rw [stack]
      exact List.mem_cons_self ..
    have tracked := (Walk.isTracked_of_leads proper leads).frames frame member
    have entered : frame.IsEntered rules d data := ⟨tracked, found⟩
    exact (kept ruled).2.ne_of_enters proper entered.trail entered.enters rfl
  · intro found member
    cases ruled : rulesFor config previous d with
    | error e =>
      rw [scan, ruled] at done
      cases done
    | ok rules =>
      obtain ⟨rfl, isApart⟩ := kept ruled
      obtain ⟨steps, leads, -⟩ := Walk.leads_finish rules (Walk.start rules d)
      have tracked := (Walk.isTracked_of_leads proper leads).tally
      rw [(result_eq_ok ruled done).1] at member
      obtain ⟨place, links, bytes, modified, real, comes, there, resolves⟩ :=
        tracked.files found ((sortFiles_perm _).mem_iff.mp member)
      have solid : d.IsSolid place := by
        have here := (Disk.walks_of_walk (Disk.find_eq_ok there)).item_eq
        exact ⟨by simp [← here], by simp [← here]⟩
      refine ⟨place, bytes, modified, there, fun inner => ?_, fun inner => ?_, ?_⟩
      · obtain ⟨base, root, directory⟩ := isApart.root_eq proper comes.trail solid inner
        rw [resolves, comes.trail.real proper root directory resolves]
      · exact isApart.eq_or_linksInto proper comes.trail inner
      · rintro (rfl | into)
        · exact List.prefix_refl _
        · exact into.below

/-- A workspace with its data directory and a link to a file in that. -/
def stateDisk : Disk where
  items := [(["ws"], .directory), (["ws", "l.txt"], .link "state/c.txt"),
    (["ws", "state"], .directory), (["ws", "state", "c.txt"], .file [0x63] 1)]

def stateConfig : Config where
  root := .ofText "/ws"
  dataDir := .ofText "/ws/state"
  scan := { extensions := [".txt"], filterByValue := false }

/-- The file that the link leads to is listed, though it stands in the data directory. -/
theorem in_data_directory_linked :
    stateDisk.IsProper ∧ resolveRoot stateDisk stateConfig.root.text = .ok ⟨1, ["ws"]⟩ ∧
      stateConfig.dataDir = Disk.pathTo ["ws", "state"] ∧
      Path.isWithin ⟨1, ["ws"]⟩ stateConfig.dataDir = true ∧ stateConfig.dataDir ≠ ⟨1, ["ws"]⟩ ∧
      ∃ r, (scan stateConfig [] stateDisk).result = .ok r ∧ r.files ≠ [] ∧
        ∀ found ∈ r.files, ∃ place, ["ws", "state"] <+: place ∧
          stateDisk.resolve false (Path.below ⟨1, ["ws"]⟩ found.file.path) =
            .ok (Disk.pathTo place) := by
  have proper : stateDisk.IsProper := by decide +kernel
  have root : resolveRoot stateDisk stateConfig.root.text = .ok ⟨1, ["ws"]⟩ := by decide +kernel
  have placed : stateConfig.dataDir = Disk.pathTo ["ws", "state"] := by decide +kernel
  have below : Path.isWithin ⟨1, ["ws"]⟩ stateConfig.dataDir = true := by decide +kernel
  have apart : stateConfig.dataDir ≠ ⟨1, ["ws"]⟩ := by decide +kernel
  have listed : stateDisk.list ⟨1, ["ws"]⟩ =
      .ok [("l.txt", .link "state/c.txt"), ("state", .directory)] := by
    have names : stateDisk.names ["ws"] = ["l.txt", "state"] :=
      Disk.names_of_sorted (by decide +kernel) (by decide +kernel)
    have found : stateDisk.find true ⟨1, ["ws"]⟩ = .ok (["ws"], some .directory) := by rfl
    rw [Disk.list_of_find rfl (by decide +kernel) found, names]
    rfl
  let rules : Rules := { root := ⟨1, ["ws"]⟩, dataDir := stateConfig.dataDir,
                         settings := stateConfig.scan, extensions := [".txt"], previous := [] }
  have ruled : rulesFor stateConfig [] stateDisk = .ok rules := by
    have extensions : stateConfig.scan.requiredExtensions = .ok [".txt"] := by decide +kernel
    rw [rulesFor, extensions, root]
    rfl
  obtain ⟨r, done, same⟩ := scan_of_list ruled listed (by decide +kernel)
  have files := (in_data_directory_iff proper root placed below apart done).2
  refine ⟨proper, root, placed, below, apart, r, done, ?_, fun found member => ?_⟩
  · intro empty
    rw [empty] at same
    exact absurd same.length_eq (by decide +kernel)
  · obtain ⟨place, bytes, modified, there, resolves, -⟩ := files found member
    have path : found.file.path = "l.txt" := by
      have all : ∀ found ∈ ((Walk.afterRoot rules stateDisk
          [("l.txt", .link "state/c.txt"), ("state", .directory)]).finish rules).tally.files,
          found.file.path = "l.txt" := by
        decide +kernel
      exact all found (same.mem_iff.mp member)
    have ends : stateDisk.find true (Path.below ⟨1, ["ws"]⟩ "l.txt") =
        .ok (["ws", "state", "c.txt"], some (.file [0x63] 1)) := by
      rfl
    rw [path, ends] at there
    cases there
    have inner : ["ws", "state"] <+: ["ws", "state", "c.txt"] := by decide
    exact ⟨_, inner, resolves inner⟩

end SourceIndex.Scan
