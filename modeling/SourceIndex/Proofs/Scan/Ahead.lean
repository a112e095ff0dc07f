import SourceIndex.Proofs.Scan.DataDirectory
import SourceIndex.Proofs.Scan.Direct
/-!
# Directories before links

A walk takes up no link before it has been through all directories that are reached without one. So
it has seen the real path of a file that stands in them by the time it comes upon a link that leads
there, and does not list the file again. This takes that the directories on the way to the file can
be listed: what stands in one that cannot is not found, unless over a link.
-/

namespace SourceIndex.Scan
variable {rules : Rules} {d : Disk} {folder last : Folder} {name relative : String}
  {base place : Place} {names : List String} {real : Path}

/-! ### Tallies that have seen a file -/

/-- A real path was seen, and no file has it but such as are reached through directories alone. -/
structure Tally.HasSeen (rules : Rules) (d : Disk) (real : Path) (t : Tally) : Prop where
  bare : t.disk.bare = d.bare
  seen : real ∈ t.seen
  files : ∀ found ∈ t.files,
    realOf d rules.root found ≠ .ok real ∨ ∃ place, IsDirect rules d found.file.path place

theorem isKept_hasSeen (rules : Rules) (d : Disk) (real : Path) :
    IsKept rules d (Tally.HasSeen rules d real) where
  bare _ has := has.bare
  same t after has seen files disk :=
    ⟨(congrArg Disk.bare disk).trans has.bare, seen ▸ has.seen, files ▸ has.files⟩
  visit t path relative realPath has below _ resolved := by
    -- A file is added only with a real path that was not seen, so not with this one.
    rcases gains_visitFile rules path relative realPath t with ⟨gains, files⟩ | ⟨unseen, gains⟩
    · exact ⟨gains.bare.trans has.bare, gains.seen ▸ has.seen, files ▸ has.files⟩
    · refine ⟨gains.bare.trans has.bare, ?_, fun found member => ?_⟩
      · rw [gains.seen]
        exact List.mem_cons_of_mem _ has.seen
      · rcases gains.files with same | ⟨new, added, here⟩
        · exact has.files found (same ▸ member)
        · rw [added] at member
          rcases List.mem_append.mp member with before | last
          · exact has.files found before
          · rw [List.mem_singleton.mp last, realOf, here, ← below, resolved]
            exact .inl fun same => unseen (Except.ok.inj same ▸ has.seen)

theorem Walk.keeps_next (proper : d.IsProper) {keeps : Tally → Prop} (kept : IsKept rules d keeps)
    {w next : Walk} (tracked : w.IsTracked rules d) (holds : keeps w.tally)
    (step : w.next? rules = some next) : keeps next.tally := by
  have ends {frame : Frame} {rest : List Frame} {result : Finding × Tally}
      (stack : w.stack = frame :: rest) (scanned : scanDirectory rules frame w.tally = result) :
      keeps result.2 := by
    have placed : frame.IsPlaced rules :=
      (tracked.frames frame (by rw [stack]; exact List.mem_cons_self ..)).placed
    obtain ⟨names, -, after, -⟩ := stays_scanDirectory proper kept placed holds
    exact scanned ▸ after
  cases Walk.step_of_next? step with
  | broken stack scanned => exact ends stack scanned
  | scanned stack scanned => exact ends stack scanned
  | @followed link rest stack pending =>
    obtain ⟨place, name, text, entered, isName, path, relative, -⟩ :=
      (tracked.links link (by rw [pending]; exact List.mem_cons_self ..)).stands
    have below : link.path = rules.root.below link.relative := by
      rw [path, relative, Frame.IsEntered.child_eq entered.tracked isName]
    exact (stays_visitLink proper kept below holds).1

/-! ### On the way to a file -/

/-- The directories of a stack are all reached without links, and a folder is from one of them. All
files were found in such directories. -/
structure IsAhead (rules : Rules) (d : Disk) (last : Folder) (stack : List Frame)
    (files : List ScannedFile) : Prop where
  plain : ∀ frame ∈ stack, ∃ folder, frame.IsOf rules folder ∧ folder.IsReached rules d
  onWay : ∃ frame ∈ stack, ∃ folder, frame.IsOf rules folder ∧ folder.IsReached rules d ∧
    Descends rules d folder last
  files : ∀ found ∈ files, ∃ place, IsDirect rules d found.file.path place

/-- How a walk stands to a file in a folder: it is still to come there, it has seen the file, or it
broke off. -/
inductive Walk.Seeks (rules : Rules) (d : Disk) (last : Folder) (real : Path) (w : Walk) : Prop
  | ahead (ahead : IsAhead rules d last w.stack w.tally.files)
  | behind (has : w.tally.HasSeen rules d real)
  | stopped (broken : w.broken ≠ none) (stack : w.stack = []) (pending : w.pending = [])

theorem isAhead_start (reached : last.IsReached rules d) :
    IsAhead rules d last [rootFrame rules.root] [] := by
  obtain ⟨base, found, descends⟩ := reached
  have isOf : (rootFrame rules.root).IsOf rules (.top base) := ⟨(Path.below_empty _).symm, rfl, rfl⟩
  have top : (Folder.top base).IsReached rules d := ⟨base, found, .refl⟩
  refine ⟨fun frame member => ?_, ⟨_, List.mem_singleton_self _, _, isOf, top, descends⟩, by simp⟩
  exact ⟨_, List.mem_singleton.mp member ▸ isOf, top⟩

theorem Takes.plain (reached : folder.IsReached rules d) {t after : Tally} {finds : Finds}
    (takes : Takes rules d folder names finds t after) {rest : List Frame}
    (plain : ∀ frame ∈ rest, ∃ folder, frame.IsOf rules folder ∧ folder.IsReached rules d) :
    ∀ frame ∈ finds.frames ++ rest, ∃ folder, frame.IsOf rules folder ∧
      folder.IsReached rules d := by
  intro frame member
  rcases List.mem_append.mp member with new | old
  · obtain ⟨name, admits, isOf⟩ := takes.frames frame new
    exact ⟨_, isOf, reached.child admits⟩
  · exact plain frame old

section
variable (proper : d.IsProper) (wants : last.Wants rules d name)
  (told : d.resolve false (rules.root.below (last.lead ++ name)) = .ok real)
  (listed : ∀ folder, folder.IsReached rules d → Descends rules d folder last →
    folder.IsListed rules d)
include proper wants told listed

theorem Walk.seeks_scan {frame : Frame} {rest : List Frame} {pending : List Pending}
    {t after : Tally} {finds : Finds} (bare : t.disk.bare = d.bare)
    (ahead : IsAhead rules d last (frame :: rest) t.files)
    (step : scanDirectory rules frame t = (.ok finds, after)) :
    Walk.Seeks rules d last real { stack := finds.frames ++ rest, pending, tally := after } := by
  have others := fun other among => ahead.plain other (List.mem_cons_of_mem _ among)
  obtain ⟨way, member, folder, isOf, reached, descends⟩ := ahead.onWay
  -- The directory is on the way to the file, or one that is lies further down.
  rcases List.mem_cons.mp member with rfl | later
  · obtain ⟨names, takes, all⟩ := takes_scanDirectory proper isOf reached bare step
    have all := all (listed folder reached descends)
    have files (found : ScannedFile) (among : found ∈ after.files) :
        ∃ place, IsDirect rules d found.file.path place :=
      (takes.files found among).elim (ahead.files found) id
    rcases descends.cases_head with rfl | ⟨_, ⟨admits⟩, onward⟩
    · obtain ⟨data, modified, stands⟩ := wants.stands
      have seen := takes.marks name (all name (by simp [stands])) wants real told
      exact .behind ⟨takes.bare.trans bare, seen, fun found among => .inr (files found among)⟩
    · rename_i next
      obtain ⟨child, found, isChild⟩ := takes.into next (all next (by simp [admits.stands])) admits
      exact .ahead ⟨takes.plain reached others, ⟨child, List.mem_append_left _ found, _, isChild,
        reached.child admits, onward⟩, files⟩
  · obtain ⟨before, isOf', reached'⟩ := ahead.plain frame (List.mem_cons_self ..)
    obtain ⟨names, takes, -⟩ := takes_scanDirectory proper isOf' reached' bare step
    exact .ahead ⟨takes.plain reached' others, ⟨way, List.mem_append_right _ later, folder, isOf,
      reached, descends⟩, fun found among => (takes.files found among).elim (ahead.files found) id⟩

theorem Walk.seeks_next {w next : Walk} (tracked : w.IsTracked rules d)
    (seeks : w.Seeks rules d last real) (step : w.next? rules = some next) :
    next.Seeks rules d last real := by
  cases seeks with
  | behind has =>
    exact .behind (Walk.keeps_next proper (isKept_hasSeen rules d real) tracked has step)
  | stopped _ stack pending =>
    rw [Walk.next?, stack, pending] at step
    cases step
  | ahead ahead =>
    cases Walk.step_of_next? step with
    | broken => exact .stopped (by simp) rfl rfl
    | scanned stack scanned =>
      rw [stack] at ahead
      exact Walk.seeks_scan proper wants told listed tracked.tally.bare ahead scanned
    | followed stack =>
      obtain ⟨frame, member, -⟩ := ahead.onWay
      rw [stack] at member
      cases member

theorem Walk.hasSeen_of_ended (reached : last.IsReached rules d) {steps : Nat} {w : Walk}
    (leads : Walk.Leads rules steps (Walk.start rules d) w) (ended : w.next? rules = none)
    (whole : w.broken = none) : w.tally.HasSeen rules d real := by
  have start : (Walk.start rules d).IsTracked rules d ∧
      (Walk.start rules d).Seeks rules d last real :=
    ⟨Walk.isTracked_start rules d, .ahead (isAhead_start reached)⟩
  have keeps (w next : Walk) (both : w.IsTracked rules d ∧ w.Seeks rules d last real)
      (step : w.next? rules = some next) :
      next.IsTracked rules d ∧ next.Seeks rules d last real :=
    ⟨Walk.isTracked_next proper both.1 step,
      Walk.seeks_next proper wants told listed both.1 both.2 step⟩
  cases (leads.keeps keeps start).2 with
  | behind has => exact has
  | stopped broken => exact absurd whole broken
  | ahead ahead =>
    obtain ⟨frame, member, -⟩ := ahead.onWay
    unfold Walk.next? at ended
    split at ended
    · split at ended
      · cases ended
      · cases ended
    · rename_i stack
      rw [stack] at member
      cases member

end

/-! ### Trails with and without links -/

theorem Trail.place_eq {links : Nat} (trail : Trail rules d names place links)
    (none : links = 0) :
    ∃ base, d.find true rules.root = .ok (base, some .directory) ∧ place = base ++ names := by
  induction trail with
  | root found => exact ⟨_, found, (List.append_nil _).symm⟩
  | step _ _ meets ih =>
    cases meets with
    | entry =>
      obtain ⟨base, found, rfl⟩ := ih none
      exact ⟨base, found, List.append_assoc ..⟩
    | link => cases none

theorem Trail.root_eq (proper : d.IsProper) {links : Nat}
    (trail : Trail rules d names place links) (some : links ≠ 0) :
    ∃ base, rules.root = Disk.pathTo base ∧ d.item? base = Option.some .directory := by
  induction trail with
  | root => exact absurd rfl some
  | step trail _ meets ih =>
    have solid := meets.solid proper
    cases meets with
    | entry => exact ih some
    | link _ _ inside =>
      obtain ⟨base, found, -⟩ := trail.inside proper
      exact ⟨base, (eq_root_of_isWithin proper found solid inside).1,
        ((Disk.walks_of_walk (Disk.find_eq_ok found)).item_eq).symm⟩

theorem IsDirect.realOf_eq (proper : d.IsProper) (direct : IsDirect rules d relative place)
    (told : d.resolve false (rules.root.below relative) = .ok real) {found : ScannedFile}
    {links : Nat} (comes : Comes rules d found.file.path place links) {other : Path}
    (resolves : realOf d rules.root found = .ok other) : other = real := by
  -- Over no link the names are the same. Over a link the root is real, and so are both real paths.
  by_cases none : links = 0
  · obtain ⟨base, opened, here⟩ := comes.trail.place_eq none
    obtain ⟨base', opened', there⟩ := direct.place_eq proper
    rw [opened] at opened'
    cases opened'
    have same : (Path.ofText found.file.path).segments = (Path.ofText relative).segments :=
      List.append_cancel_left (here.symm.trans there)
    rw [realOf, Path.below, same] at resolves
    exact Except.ok.inj (resolves.symm.trans told)
  · obtain ⟨base, root, directory⟩ := comes.trail.root_eq proper none
    rw [direct.real_eq proper root directory told,
      comes.trail.real proper root directory resolves]

/-! ### Scans -/

theorem broken_eq_none {config : Config} {previous : Entries FileNode}
    (ruled : rulesFor config previous d = .ok rules) {r : ScanResult}
    (done : (scan config previous d).result = .ok r) :
    ((Walk.start rules d).finish rules).broken = none :=
  (eq_of_result_eq_ok ruled done).1

theorem Walk.hasSeen_of_direct (proper : d.IsProper) (direct : IsDirect rules d relative place)
    (listed : ∀ above, above <+: (Path.ofText relative).segments.dropLast →
      ∃ entries, d.list (rules.root.under above) = .ok entries)
    (told : d.resolve false (rules.root.below relative) = .ok real) {steps : Nat} {w : Walk}
    (leads : Walk.Leads rules steps (Walk.start rules d) w) (ended : w.next? rules = none)
    (whole : w.broken = none) : w.tally.HasSeen rules d real := by
  have there := direct.solid.there
  cases direct with
  | @file last name reached wants =>
    obtain ⟨base, names, opened, lies⟩ := reached.lies proper
    rw [lies.opens name (proper.named _ name there), List.dropLast_concat, lies.segments] at listed
    refine Walk.hasSeen_of_ended proper wants told (fun folder before descends => ?_) reached leads
      ended whole
    obtain ⟨base', above, opened', lies'⟩ := before.lies proper
    rw [opened] at opened'
    cases opened'
    have within := descends.prefix
    rw [lies.place, lies'.place, List.prefix_append_right_inj] at within
    obtain ⟨entries, found⟩ := listed above within
    exact ⟨entries, by rw [Path.below, lies'.segments]; exact found⟩

/-- A wanted file that is reached through directories alone is listed under its own relative path
only, whatever links lead to it, if the directories on the way can be listed and its real path can
be told. -/
theorem direct_file_listed_as_itself {config : Config} {previous : Entries FileNode}
    (proper : d.IsProper) (ruled : rulesFor config previous d = .ok rules) {r : ScanResult}
    (done : (scan config previous d).result = .ok r) (direct : IsDirect rules d relative place)
    (listed : ∀ above, above <+: (Path.ofText relative).segments.dropLast →
      ∃ entries, d.list (rules.root.under above) = .ok entries)
    (told : d.resolve false (rules.root.below relative) = .ok real) :
    ∀ found ∈ r.files,
      (∀ item, d.find true (rules.root.below found.file.path) = .ok (place, some item) →
        found.file.path = relative) ∧
      ∀ base, rules.root = Disk.pathTo base → d.item? base = some .directory →
        real = Disk.pathTo place ∧
          (realOf d rules.root found = .ok real → found.file.path = relative) := by
  intro found member
  obtain ⟨steps, leads, ended⟩ := Walk.leads_finish rules (Walk.start rules d)
  have tracked := (Walk.isTracked_of_leads proper leads).tally
  have has := Walk.hasSeen_of_direct proper direct listed told leads ended
    (broken_eq_none ruled done)
  rw [(result_eq_ok ruled done).1] at member
  have member := (sortFiles_perm _).mem_iff.mp member
  obtain ⟨goal, links, data, modified, other, comes, stands, resolves⟩ :=
    tracked.files found member
  have whereItStands (same : goal = place) : found.file.path = relative := by
    subst same
    rcases has.files found member with apart | ⟨goal', direct'⟩
    · obtain rfl := direct.realOf_eq proper told comes resolves
      exact absurd resolves apart
    · obtain rfl := direct'.leads proper stands
      exact direct'.path_eq proper direct
  refine ⟨fun item there => ?_, fun base root directory => ?_⟩
  · rw [stands] at there
    cases there
    exact whereItStands rfl
  · have here := direct.real_eq proper root directory told
    refine ⟨here, fun same => whereItStands ?_⟩
    have there := comes.trail.real proper root directory same
    rw [here] at there
    exact congrArg Path.segments there.symm

/-- A workspace with a file in a directory, and a link to the file with a name before that of the
directory. -/
def nestedDisk (defects : Defects) : Disk where
  items := [(["ws"], .directory), (["ws", "b.txt"], .link "d/a.txt"), (["ws", "d"], .directory),
    (["ws", "d", "a.txt"], .file [0x61] 1)]
  defects

def nestedRules : Rules where
  root := ⟨1, ["ws"]⟩
  dataDir := linkedConfig.dataDir
  settings := linkedConfig.scan
  extensions := [".txt"]
  previous := []

section
variable {defects : Defects}

theorem rulesFor_nested
    (resolved : resolveRoot (nestedDisk defects) linkedConfig.root.text = .ok ⟨1, ["ws"]⟩) :
    rulesFor linkedConfig [] (nestedDisk defects) = .ok nestedRules := by
  have extensions : linkedConfig.scan.requiredExtensions = .ok [".txt"] := by decide +kernel
  rw [rulesFor, extensions, resolved]
  rfl

theorem list_nested (noDefect : Disk.defect? ⟨1, ["ws"]⟩ defects.list = none) :
    (nestedDisk defects).list ⟨1, ["ws"]⟩ =
      .ok [("b.txt", .link "d/a.txt"), ("d", .directory)] := by
  have names : (nestedDisk defects).names ["ws"] = ["b.txt", "d"] :=
    Disk.names_of_sorted (d := nestedDisk {}) (by decide +kernel) (by decide +kernel)
  have found : (nestedDisk defects).find true ⟨1, ["ws"]⟩ = .ok (["ws"], some .directory) := by rfl
  rw [Disk.list_of_find noDefect (by decide +kernel) found, names]
  rfl

theorem isDirect_nested
    (told : (nestedDisk defects).resolve false ⟨1, ["ws", "d"]⟩ = .ok ⟨1, ["ws", "d"]⟩) :
    IsDirect nestedRules (nestedDisk defects) "d/a.txt" ["ws", "d", "a.txt"] := by
  have admits : (Folder.top ["ws"]).Admits nestedRules (nestedDisk defects) "d" :=
    ⟨rfl, ⟨⟨1, ["ws", "d"]⟩, told, by decide +kernel⟩, by decide +kernel⟩
  have top : (Folder.top ["ws"]).IsReached nestedRules (nestedDisk defects) :=
    ⟨["ws"], rfl, .refl⟩
  have wants : ((Folder.top ["ws"]).child "d").Wants nestedRules (nestedDisk defects) "a.txt" :=
    ⟨⟨[0x61], 1, rfl⟩, by decide +kernel⟩
  exact .file (top.child admits) wants

end

/-- The file is listed, and the link is not. -/
theorem direct_file_listed_as_itself_nested :
    (nestedDisk {}).IsProper ∧ rulesFor linkedConfig [] (nestedDisk {}) = .ok nestedRules ∧
      IsDirect nestedRules (nestedDisk {}) "d/a.txt" ["ws", "d", "a.txt"] ∧
      ∃ r, (scan linkedConfig [] (nestedDisk {})).result = .ok r ∧ r.files.length = 1 ∧
        ∀ found ∈ r.files, ∀ item,
          (nestedDisk {}).find true (nestedRules.root.below found.file.path) =
            .ok (["ws", "d", "a.txt"], some item) → found.file.path = "d/a.txt" := by
  have proper : (nestedDisk {}).IsProper := by decide +kernel
  have ruled : rulesFor linkedConfig [] (nestedDisk {}) = .ok nestedRules :=
    rulesFor_nested (by decide +kernel)
  have direct : IsDirect nestedRules (nestedDisk {}) "d/a.txt" ["ws", "d", "a.txt"] :=
    isDirect_nested (by decide +kernel)
  have listed : ∀ above, above <+: (Path.ofText "d/a.txt").segments.dropLast →
      ∃ entries, (nestedDisk {}).list (nestedRules.root.under above) = .ok entries := by
    intro above within
    have names : (Path.ofText "d/a.txt").segments.dropLast = [] ++ ["d"] := by decide +kernel
    rw [names, List.prefix_concat_iff, List.prefix_nil] at within
    rcases within with rfl | rfl
    · exact ⟨[("a.txt", .file [0x61] 1)], by decide +kernel⟩
    · exact ⟨_, list_nested rfl⟩
  have told : (nestedDisk {}).resolve false (nestedRules.root.below "d/a.txt") =
      .ok ⟨1, ["ws", "d", "a.txt"]⟩ := by
    decide +kernel
  obtain ⟨r, done, same⟩ := scan_of_list ruled (list_nested rfl) (by decide +kernel)
  have all := direct_file_listed_as_itself proper ruled done direct listed told
  exact ⟨proper, ruled, direct, r, done, same.length_eq.trans (by decide +kernel),
    fun found member => (all found member).1⟩

/-- A scan lists a file that is reached through directories alone under another relative path. -/
def ListsElsewhere (config : Config) (d : Disk) : Prop :=
  ∃ rules r relative place, rulesFor config [] d = .ok rules ∧
    (scan config [] d).result = .ok r ∧ IsDirect rules d relative place ∧
    ∃ found ∈ r.files, found.file.path ≠ relative ∧
      realOf d rules.root found = .ok (Disk.pathTo place)

theorem listsElsewhere_nested {defects : Defects}
    (resolved : resolveRoot (nestedDisk defects) linkedConfig.root.text = .ok ⟨1, ["ws"]⟩)
    (noDefect : Disk.defect? ⟨1, ["ws"]⟩ defects.list = none)
    (told : (nestedDisk defects).resolve false ⟨1, ["ws", "d"]⟩ = .ok ⟨1, ["ws", "d"]⟩)
    (real : (nestedDisk defects).resolve false ⟨1, ["ws", "b.txt"]⟩ =
      .ok ⟨1, ["ws", "d", "a.txt"]⟩)
    (whole : ((Walk.afterRoot nestedRules (nestedDisk defects)
      [("b.txt", .link "d/a.txt"), ("d", .directory)]).finish nestedRules).broken = none)
    (lists : ((Walk.afterRoot nestedRules (nestedDisk defects)
      [("b.txt", .link "d/a.txt"), ("d", .directory)]).finish nestedRules).tally.files.any
        (fun found => found.file.path == "b.txt") = true) :
    ListsElsewhere linkedConfig (nestedDisk defects) := by
  have ruled := rulesFor_nested resolved
  obtain ⟨r, done, same⟩ := scan_of_list ruled (list_nested noDefect) whole
  obtain ⟨found, member, path⟩ := List.any_eq_true.mp lists
  rw [beq_iff_eq] at path
  refine ⟨nestedRules, r, "d/a.txt", _, ruled, done, isDirect_nested told, found,
    same.mem_iff.mpr member, by rw [path]; decide, ?_⟩
  rw [realOf, path]
  exact real

/-- The link is listed where the directory cannot be listed or the real path of the file cannot be
told. -/
theorem link_listed_instead :
    ListsElsewhere linkedConfig (nestedDisk { list := [("/ws/d", 13)] }) ∧
      ListsElsewhere linkedConfig (nestedDisk { resolve := [("/ws/d/a.txt", 13)] }) := by
  constructor
  · exact listsElsewhere_nested (by decide +kernel) (by decide +kernel) (by decide +kernel)
      (by decide +kernel) (by decide +kernel) (by decide +kernel)
  · exact listsElsewhere_nested (by decide +kernel) (by decide +kernel) (by decide +kernel)
      (by decide +kernel) (by decide +kernel) (by decide +kernel)

end SourceIndex.Scan
