import SourceIndex.Proofs.FileSystem.Agree
import SourceIndex.Proofs.Scan.Trail
import Mathlib.Logic.Relation
/-!
# Files that are reached without links

A file may stand where one directory after the other leads from the root, none of them behind a
link. Such a file has one relative path, which its place tells. Scanning a directory that is reached
so finds nothing but directories and files of this kind, and all of those that stand in it.
-/

namespace SourceIndex.Scan

/-! ### Folders -/

/-- A directory of a workspace: what stands before the names of its entries in their relative
paths, how many directories lie between it and the root, and its place. -/
structure Folder where
  lead : String
  depth : Nat
  place : Place

namespace Folder

def top (base : Place) : Folder := ⟨"", 0, base⟩

def child (folder : Folder) (name : String) : Folder :=
  ⟨folder.lead ++ name ++ "/", folder.depth + 1, folder.place ++ [name]⟩

/-- Under a name in a folder stands a directory that is wanted and not too deep. -/
structure Admits (rules : Rules) (d : Disk) (folder : Folder) (name : String) : Prop where
  stands : d.item? (folder.place ++ [name]) = some .directory
  accepted : ∃ real, d.resolve false (rules.root.below (folder.lead ++ name)) = .ok real ∧
    acceptsDirectory rules name (folder.lead ++ name) real = true
  shallow : ((folder.depth + 1 : Nat) : Int) ≤ rules.settings.maxDepth

/-- Under a name in a folder stands a file that is wanted. -/
structure Wants (rules : Rules) (d : Disk) (folder : Folder) (name : String) : Prop where
  stands : ∃ data modified, d.item? (folder.place ++ [name]) = some (.file data modified)
  accepted : acceptsFile rules (folder.lead ++ name) = true

end Folder

inductive GoesInto (rules : Rules) (d : Disk) (folder : Folder) : Folder → Prop
  | child {name : String} (admits : folder.Admits rules d name) :
    GoesInto rules d folder (folder.child name)

/-- One folder after the other is gone into, any number of times. -/
def Descends (rules : Rules) (d : Disk) : Folder → Folder → Prop :=
  Relation.ReflTransGen (GoesInto rules d)

/-- A folder that is reached from the root through directories alone. -/
def Folder.IsReached (rules : Rules) (d : Disk) (folder : Folder) : Prop :=
  ∃ base, d.find true rules.root = .ok (base, some .directory) ∧
    Descends rules d (.top base) folder

/-- A wanted file that is reached through directories alone, by its relative path and its place. -/
inductive IsDirect (rules : Rules) (d : Disk) : String → Place → Prop
  | file {folder : Folder} {name : String} (reached : folder.IsReached rules d)
    (wants : folder.Wants rules d name) :
    IsDirect rules d (folder.lead ++ name) (folder.place ++ [name])

def Folder.IsListed (rules : Rules) (d : Disk) (folder : Folder) : Prop :=
  ∃ entries, d.list (rules.root.below folder.lead) = .ok entries

variable {rules : Rules} {d : Disk} {folder last : Folder} {name relative other : String}
  {base place : Place} {names : List String}

theorem Folder.IsReached.child (reached : folder.IsReached rules d)
    (admits : folder.Admits rules d name) : (folder.child name).IsReached rules d := by
  obtain ⟨base, found, descends⟩ := reached
  exact ⟨base, found, descends.tail (.child admits)⟩

theorem Descends.prefix (descends : Descends rules d folder last) :
    folder.place <+: last.place := by
  induction descends with
  | refl => exact List.prefix_refl _
  | tail _ goes ih =>
    cases goes
    exact ih.trans (List.prefix_append ..)

/-! ### Places tell relative paths -/

/-- What stands before a name in a relative path, behind the names of some directories. -/
def leadOf (names : List String) : String :=
  names.foldl (fun lead name => lead ++ name ++ "/") ""

theorem leadOf_concat (names : List String) (name : String) :
    leadOf (names ++ [name]) = leadOf names ++ name ++ "/" := by
  simp [leadOf]

/-- A folder lies so many names below a place. -/
structure Folder.Lies (d : Disk) (base : Place) (names : List String) (folder : Folder) :
    Prop where
  lead : folder.lead = leadOf names
  place : folder.place = base ++ names
  segments : (Path.ofText folder.lead).segments = names
  opens : Path.Opens folder.lead
  directory : d.item? folder.place = some .directory

theorem Folder.Lies.child (lies : folder.Lies d base names) (isName : IsName name)
    (stands : d.item? (folder.place ++ [name]) = Option.some .directory) :
    (folder.child name).Lies d base (names ++ [name]) where
  lead := by rw [leadOf_concat, ← lies.lead, Folder.child]
  place := by rw [Folder.child, lies.place, List.append_assoc]
  segments := by
    rw [Folder.child, Path.segments_ofText_slash, lies.opens name isName, lies.segments]
  opens := Path.opens_slash _
  directory := stands

theorem Folder.IsReached.lies (proper : d.IsProper) (reached : folder.IsReached rules d) :
    ∃ base names, d.find true rules.root = .ok (base, some .directory) ∧
      folder.Lies d base names := by
  obtain ⟨base, found, descends⟩ := reached
  have directory : d.item? base = some .directory :=
    ((Disk.walks_of_walk (Disk.find_eq_ok found)).item_eq).symm
  refine ⟨base, ?_⟩
  -- On the way down: each folder has one name more than the one above it.
  induction descends with
  | refl =>
    exact ⟨[], found, rfl, (List.append_nil base).symm, Path.segments_ofText_empty,
      Path.opens_empty, directory⟩
  | tail _ goes ih =>
    obtain ⟨names, -, lies⟩ := ih
    cases goes with
    | @child name admits =>
      have there := (Disk.isSolid_of_directory admits.stands).there
      exact ⟨names ++ [name], found, lies.child (proper.named _ name there) admits.stands⟩

theorem eq_append_of_find_under (proper : d.IsProper) {root : Path}
    (opened : d.find true root = .ok (base, some .directory)) (solid : d.IsSolid (base ++ names))
    {item : Item} (found : d.find true (root.under names) = .ok (place, some item)) :
    place = base ++ names := by
  by_cases first : names = []
  · rw [first, under_nil, opened] at found
    cases found
    rw [first, List.append_nil]
  · obtain ⟨links, walks⟩ := (Disk.walks_of_walk (Disk.find_eq_ok opened)).rest rfl first
      (Disk.walks_of_walk (Disk.find_eq_ok found))
    exact walks.eq_place proper solid.there solid.noLink

theorem Folder.IsReached.leads (proper : d.IsProper) (reached : folder.IsReached rules d)
    {item : Item}
    (found : d.find true (rules.root.below folder.lead) = .ok (place, some item)) :
    place = folder.place := by
  obtain ⟨base, names, opened, lies⟩ := reached.lies proper
  have solid := Disk.isSolid_of_directory lies.directory
  rw [lies.place] at solid ⊢
  rw [Path.below, lies.segments] at found
  exact eq_append_of_find_under proper opened solid found

namespace IsDirect

theorem solid (direct : IsDirect rules d relative place) : d.IsSolid place := by
  cases direct with
  | file _ wants =>
    obtain ⟨data, modified, stands⟩ := wants.stands
    exact ⟨by simp [stands], by simp [stands]⟩

theorem place_eq (proper : d.IsProper) (direct : IsDirect rules d relative place) :
    ∃ base, d.find true rules.root = .ok (base, some .directory) ∧
      place = base ++ (Path.ofText relative).segments := by
  have there := direct.solid.there
  cases direct with
  | @file folder name reached wants =>
    obtain ⟨base, names, opened, lies⟩ := reached.lies proper
    refine ⟨base, opened, ?_⟩
    rw [lies.opens name (proper.named _ name there), lies.segments, lies.place, List.append_assoc]

theorem leads (proper : d.IsProper) (direct : IsDirect rules d relative place) {goal : Place}
    {item : Item} (found : d.find true (rules.root.below relative) = .ok (goal, some item)) :
    goal = place := by
  obtain ⟨base, opened, same⟩ := direct.place_eq proper
  rw [same]
  exact eq_append_of_find_under proper opened (same ▸ direct.solid) found

theorem path_eq (proper : d.IsProper) (direct : IsDirect rules d relative place)
    (again : IsDirect rules d other place) : relative = other := by
  generalize here : place = goal at again
  cases direct with
  | @file folder name reached _ =>
    cases again with
    | @file folder' name' reached' _ =>
      obtain ⟨base, names, opened, lies⟩ := reached.lies proper
      obtain ⟨base', names', opened', lies'⟩ := reached'.lies proper
      rw [opened] at opened'
      cases opened'
      obtain ⟨places, rfl⟩ : folder.place = folder'.place ∧ name = name' := by
        simpa using List.append_inj' here rfl
      have same : names = names' := by
        rw [lies.place, lies'.place] at places
        exact List.append_cancel_left places
      rw [lies.lead, lies'.lead, same]

theorem real_eq (proper : d.IsProper) (direct : IsDirect rules d relative place)
    (root : rules.root = Disk.pathTo base) (directory : d.item? base = some .directory)
    {real : Path} (told : d.resolve false (rules.root.below relative) = .ok real) :
    real = Disk.pathTo place := by
  obtain ⟨base', opened, same⟩ := direct.place_eq proper
  rw [root] at opened
  obtain rfl := (Disk.isSolid_of_directory directory).find_pathTo proper opened
  have below : rules.root.below relative = Disk.pathTo place := by rw [root, same]; rfl
  rw [below] at told
  obtain ⟨onLink, shape⟩ := Disk.exists_resolveFrom d false Disk.maxNestedLinks
  have ends : d.resolvePieces false Disk.maxNestedLinks [] [] place = .at place [] := by
    rw [shape]
    have solid := direct.solid
    cases direct with
    | @file folder name reached wants =>
      obtain ⟨_, _, -, lies⟩ := reached.lies proper
      have above : d.resolveFrom false onLink [] [] folder.place = .at folder.place [] :=
        Disk.resolveFrom_directory proper lies.directory
      have isName := proper.named _ name solid.there
      exact (Disk.resolveFrom_append [name] above).trans
        (Disk.resolveFrom_name isName solid.noLink)
  exact Disk.eq_pathTo_of_at ends told

end IsDirect

/-! ### Scanning a folder -/

/-- A frame is that of a folder. -/
structure Frame.IsOf (rules : Rules) (folder : Folder) (frame : Frame) : Prop where
  directory : frame.directory = rules.root.below folder.lead
  lead : frame.lead = folder.lead
  depth : frame.depth = folder.depth

/-- A step over some names in a folder finds the directories and the files among them, and adds no
files but those. -/
structure Takes (rules : Rules) (d : Disk) (folder : Folder) (names : List String) (finds : Finds)
    (t after : Tally) : Prop where
  bare : after.disk.bare = t.disk.bare
  seen : t.seen ⊆ after.seen
  files : ∀ found ∈ after.files, found ∈ t.files ∨ ∃ place, IsDirect rules d found.file.path place
  frames : ∀ frame ∈ finds.frames, ∃ name, folder.Admits rules d name ∧
    frame.IsOf rules (folder.child name)
  into : ∀ name ∈ names, folder.Admits rules d name →
    ∃ frame ∈ finds.frames, frame.IsOf rules (folder.child name)
  marks : ∀ name ∈ names, folder.Wants rules d name → ∀ real,
    d.resolve false (rules.root.below (folder.lead ++ name)) = .ok real → real ∈ after.seen

variable {t middle after : Tally} {finds some others : Finds} {frame : Frame}
  {first second : List String} {path realPath : Path}

theorem Takes.append (one : Takes rules d folder first some t middle)
    (more : Takes rules d folder second others middle after) :
    Takes rules d folder (first ++ second)
      ⟨some.frames ++ others.frames, some.links ++ others.links⟩ t after where
  bare := more.bare.trans one.bare
  seen := List.Subset.trans one.seen more.seen
  files found member := by
    rcases more.files found member with before | direct
    · exact one.files found before
    · exact .inr direct
  frames frame member := by
    rcases List.mem_append.mp member with before | later
    · exact one.frames frame before
    · exact more.frames frame later
  into name member admits := by
    rcases List.mem_append.mp member with before | later
    · obtain ⟨frame, found, isOf⟩ := one.into name before admits
      exact ⟨frame, List.mem_append_left _ found, isOf⟩
    · obtain ⟨frame, found, isOf⟩ := more.into name later admits
      exact ⟨frame, List.mem_append_right _ found, isOf⟩
  marks name member wants real told := by
    rcases List.mem_append.mp member with before | later
    · exact more.seen (one.marks name before wants real told)
    · exact more.marks name later wants real told

theorem takes_nothing (noFolder : ¬ folder.Admits rules d name)
    (noFile : folder.Wants rules d name → ∀ real,
      d.resolve false (rules.root.below (folder.lead ++ name)) ≠ .ok real) {links : List Pending}
    (disk : after.disk = t.disk) (seen : after.seen = t.seen) (files : after.files = t.files) :
    Takes rules d folder [name] { links } t after where
  bare := congrArg Disk.bare disk
  seen := by rw [seen]; exact List.Subset.refl _
  files found member := .inl (files ▸ member)
  frames := by simp
  into other member admits := absurd (List.mem_singleton.mp member ▸ admits) noFolder
  marks other member wants real told := by
    obtain rfl := List.mem_singleton.mp member
    exact absurd told (noFile wants real)

/-! ### Entries -/

theorem Folder.not_admits (stands : d.item? (folder.place ++ [name]) ≠ Option.some .directory) :
    ¬ folder.Admits rules d name := fun admits => stands admits.stands

theorem Folder.not_wants
    (stands : ∀ data modified,
      d.item? (folder.place ++ [name]) ≠ Option.some (.file data modified)) :
    ¬ folder.Wants rules d name := fun wants => by
  obtain ⟨data, modified, here⟩ := wants.stands
  exact stands data modified here

theorem mem_seen_visitFile (accepted : acceptsFile rules relative = true) :
    realPath ∈ (visitFile rules path relative realPath t).seen := by
  have visit := fileVisit rules path relative realPath t
  generalize visitFile rules path relative realPath t = after at visit ⊢
  cases visit with
  | passed known =>
    rcases known with refused | seen
    · simp [accepted] at refused
    · exact seen
  | untold => exact List.mem_cons_self ..
  | recorded _ _ _ recording =>
    rw [recording.gains.seen]
    exact List.mem_cons_self ..

theorem accepted_of_visitFile
    (added : (visitFile rules path relative realPath t).files ≠ t.files) :
    acceptsFile rules relative = true := by
  have visit := fileVisit rules path relative realPath t
  generalize visitFile rules path relative realPath t = after at visit added
  cases visit with
  | passed => exact absurd rfl added
  | untold accepted => exact accepted
  | recorded accepted => exact accepted

theorem takes_visitFile (reached : folder.IsReached rules d) {data : Bytes} {modified : Int}
    (stands : d.item? (folder.place ++ [name]) = Option.some (.file data modified))
    (told : d.resolve false (rules.root.below (folder.lead ++ name)) = .ok realPath) :
    Takes rules d folder [name] {} t
      (visitFile rules path (folder.lead ++ name) realPath t) := by
  have accepted (added : (visitFile rules path (folder.lead ++ name) realPath t).files ≠ t.files) :
      acceptsFile rules (folder.lead ++ name) = true := accepted_of_visitFile added
  have gains : (visitFile rules path (folder.lead ++ name) realPath t).disk.bare = t.disk.bare ∧
      t.seen ⊆ (visitFile rules path (folder.lead ++ name) realPath t).seen ∧
      ((visitFile rules path (folder.lead ++ name) realPath t).files = t.files ∨
        ∃ found, (visitFile rules path (folder.lead ++ name) realPath t).files =
          t.files ++ [found] ∧ found.file.path = folder.lead ++ name) := by
    rcases gains_visitFile rules path (folder.lead ++ name) realPath t with
      ⟨gains, -⟩ | ⟨-, gains⟩
    · exact ⟨gains.bare, by rw [gains.seen]; exact List.Subset.refl _, gains.files⟩
    · exact ⟨gains.bare, by rw [gains.seen]; exact List.subset_cons_self .., gains.files⟩
  obtain ⟨bare, seen, files⟩ := gains
  refine ⟨bare, seen, fun found member => ?_, by simp, fun other member admits => ?_,
    fun other member wants real told' => ?_⟩
  · rcases files with same | ⟨new, added, here⟩
    · exact .inl (same ▸ member)
    · rw [added] at member
      rcases List.mem_append.mp member with before | last
      · exact .inl before
      · rw [List.mem_singleton.mp last, here]
        exact .inr ⟨_, .file reached ⟨⟨data, modified, stands⟩, accepted (by simp [added])⟩⟩
  · rw [List.mem_singleton.mp member] at admits
    exact absurd admits (Folder.not_admits (by simp [stands]))
  · rw [List.mem_singleton.mp member] at wants told'
    rw [told, Except.ok.injEq] at told'
    exact told' ▸ mem_seen_visitFile wants.accepted

theorem isOf_childFrame (isOf : frame.IsOf rules folder) (isName : IsName name)
    (opens : Path.Opens folder.lead) {child : Frame} {isLink : Bool}
    (taken : (childFrame rules frame (frame.directory.child name) (frame.lead ++ name) realPath
      isLink t).1 = Option.some child) :
    acceptsDirectory rules name (folder.lead ++ name) realPath = true ∧
      ((folder.depth + 1 : Nat) : Int) ≤ rules.settings.maxDepth ∧
      child.IsOf rules (folder.child name) := by
  have named : (frame.directory.child name).name = name := by simp [Path.name, Path.child]
  obtain ⟨wanted, shallow, rfl⟩ := childFrame_eq_some taken
  rw [named, isOf.lead] at wanted
  rw [isOf.depth] at shallow
  refine ⟨wanted, shallow, ?_, by simp [Folder.child, isOf.lead], by simp [Folder.child, isOf.depth]⟩
  rw [Folder.child, Path.below_slash, Path.below_name _ opens isName, ← isOf.directory]

theorem childFrame_of_admits (isOf : frame.IsOf rules folder) {isLink : Bool}
    (accepted : acceptsDirectory rules name (folder.lead ++ name) realPath = true)
    (shallow : ((folder.depth + 1 : Nat) : Int) ≤ rules.settings.maxDepth) :
    ∃ child, (childFrame rules frame (frame.directory.child name) (frame.lead ++ name) realPath
      isLink t).1 = Option.some child := by
  have named : (frame.directory.child name).name = name := by simp [Path.name, Path.child]
  unfold childFrame
  rw [named, isOf.lead, isOf.depth, accepted]
  simp only [Bool.not_true, Bool.false_eq_true, if_false, if_neg (Int.not_lt.mpr shallow)]
  exact ⟨_, rfl⟩

theorem takes_unresolved {e : FileError}
    (refused : d.resolve false (rules.root.below (folder.lead ++ name)) = .error e)
    (step : unresolved (folder.lead ++ name) e t = (.ok finds, after)) :
    Takes rules d folder [name] finds t after := by
  have noFolder : ¬ folder.Admits rules d name := fun admits => by
    obtain ⟨real, told, -⟩ := admits.accepted
    rw [refused] at told
    cases told
  unfold unresolved at step
  split at step
  · cases step
    exact takes_nothing noFolder (fun _ real => by simp [refused]) (by rfl) (by rfl) (by rfl)
  · cases step

theorem takes_childFrame (isOf : frame.IsOf rules folder) (isName : IsName name)
    (opens : Path.Opens folder.lead)
    (stands : d.item? (folder.place ++ [name]) = Option.some .directory)
    (told : d.resolve false (rules.root.below (folder.lead ++ name)) = .ok realPath)
    {isLink : Bool} :
    Takes rules d folder [name]
      { frames := (childFrame rules frame (frame.directory.child name) (frame.lead ++ name) realPath
        isLink t).1.toList } t
      (childFrame rules frame (frame.directory.child name) (frame.lead ++ name) realPath
        isLink t).2 := by
  have noFile : ¬ folder.Wants rules d name := Folder.not_wants (by simp [stands])
  obtain ⟨disk, seen, files⟩ := childFrame_same rules frame (frame.directory.child name)
    (frame.lead ++ name) realPath isLink t
  refine ⟨congrArg Disk.bare disk, by rw [seen]; exact List.Subset.refl _,
    fun found member => .inl (files ▸ member), fun child member => ?_,
    fun other member admits => ?_, fun other member wants => ?_⟩
  · obtain ⟨accepted, shallow, isChild⟩ :=
      isOf_childFrame isOf isName opens (Option.mem_toList.mp member)
    exact ⟨name, ⟨stands, ⟨realPath, told, accepted⟩, shallow⟩, isChild⟩
  · obtain rfl := List.mem_singleton.mp member
    obtain ⟨real, told', accepted⟩ := admits.accepted
    rw [told, Except.ok.injEq] at told'
    subst told'
    obtain ⟨child, taken⟩ := childFrame_of_admits isOf accepted admits.shallow
    exact ⟨child, Option.mem_toList.mpr taken, (isOf_childFrame isOf isName opens taken).2.2⟩
  · exact absurd (List.mem_singleton.mp member ▸ wants) noFile

theorem takes_visitEntry (proper : d.IsProper) (isOf : frame.IsOf rules folder)
    (reached : folder.IsReached rules d) (bare : t.disk.bare = d.bare) {own item : Item}
    (stands : d.item? (folder.place ++ [name]) = Option.some own) (kind : own.bare = item.bare)
    (step : visitEntry rules frame name item t = (.ok finds, after)) :
    Takes rules d folder [name] finds t after := by
  have isName := proper.named folder.place name (by simp [stands])
  obtain ⟨_, _, -, lies⟩ := reached.lies proper
  have below : frame.directory.child name = rules.root.below (folder.lead ++ name) := by
    rw [Path.below_name _ lies.opens isName, isOf.directory]
  have told {result : Except FileError Path}
      (resolved : t.disk.resolve false (frame.directory.child name) = result) :
      d.resolve false (rules.root.below (folder.lead ++ name)) = result := by
    rw [← below, ← Disk.resolve_of_bare bare, resolved]
  have visit := entryVisit rules frame name item t
  generalize visitEntry rules frame name item t = found at step visit
  cases visit with
  | pending target =>
    obtain rfl := Item.eq_link_of_bare kind
    cases step
    exact takes_nothing (Folder.not_admits (by simp [stands]))
      (fun wants => absurd wants (Folder.not_wants (by simp [stands]))) rfl rfl rfl
  | skipped target =>
    obtain rfl := Item.eq_link_of_bare kind
    cases step
    exact takes_nothing (Folder.not_admits (by simp [stands]))
      (fun wants => absurd wants (Folder.not_wants (by simp [stands]))) (by rfl) (by rfl) (by rfl)
  | noDirectory refused =>
    rw [isOf.lead] at step
    exact takes_unresolved (told refused) step
  | directory resolved =>
    obtain rfl := Item.eq_directory_of_bare kind
    cases step
    exact takes_childFrame isOf isName lies.opens stands (told resolved)
  | noFile refused =>
    rw [isOf.lead] at step
    exact takes_unresolved (told refused) step
  | file resolved =>
    obtain ⟨data', rfl⟩ := Item.eq_file_of_bare kind
    cases step
    rw [isOf.lead]
    exact takes_visitFile reached stands (told resolved)
  | special =>
    obtain rfl := Item.eq_special_of_bare kind
    cases step
    exact takes_nothing (Folder.not_admits (by simp [stands]))
      (fun wants => absurd wants (Folder.not_wants (by simp [stands]))) (by rfl) (by rfl) (by rfl)

theorem takes_visitEntries (proper : d.IsProper) (isOf : frame.IsOf rules folder)
    (reached : folder.IsReached rules d) (todo : List (String × Item))
    (stand : ∀ name item, (name, item) ∈ todo →
      ∃ own, d.item? (folder.place ++ [name]) = Option.some own ∧ own.bare = item.bare)
    (bare : t.disk.bare = d.bare)
    (steps : visitEntries rules frame todo t = (.ok finds, after)) :
    Takes rules d folder (todo.map Prod.fst) finds t after := by
  have visit := entriesVisit rules frame todo t
  generalize visitEntries rules frame todo t = result at visit steps
  induction visit generalizing finds with
  | done t =>
    cases steps
    exact ⟨rfl, List.Subset.refl _, fun found member => .inl member, by simp, by simp, by simp⟩
  | breaks => cases steps
  | breaksLater => cases steps
  | @next name item _ _ _ _ _ _ step _ ih =>
    cases steps
    obtain ⟨own, stands, kind⟩ := stand name item (List.mem_cons_self ..)
    have one := takes_visitEntry proper isOf reached bare stands kind step
    have others := ih (fun name item member => stand name item (List.mem_cons_of_mem _ member))
      (one.bare.trans bare) rfl
    exact one.append others

theorem takes_scanDirectory (proper : d.IsProper) (isOf : frame.IsOf rules folder)
    (reached : folder.IsReached rules d) (bare : t.disk.bare = d.bare)
    (step : scanDirectory rules frame t = (.ok finds, after)) :
    ∃ names, Takes rules d folder names finds t after ∧ (folder.IsListed rules d →
      ∀ name, d.item? (folder.place ++ [name]) ≠ none → name ∈ names) := by
  have same := Disk.list_bare (d := t.disk) frame.directory
  rw [bare, Disk.list_bare, isOf.directory] at same
  unfold scanDirectory at step
  rw [isOf.directory] at step
  split at step
  · rename_i e refused
    cases step
    refine ⟨[], ⟨rfl, List.Subset.refl _, fun found member => .inl member, by simp, by simp,
      by simp⟩, fun ⟨entries, listed⟩ => ?_⟩
    rw [refused, listed] at same
    cases same
  · rename_i entries listed
    obtain ⟨place, opened, rfl⟩ := Disk.list_eq_ok listed
    obtain rfl := reached.leads proper (Disk.find_directory_of_bare bare opened)
    refine ⟨_, takes_visitEntries proper isOf reached _ (fun name item member => ?_) bare step,
      fun _ name there => ?_⟩
    · obtain ⟨other, -, same⟩ := List.mem_filterMap.mp member
      obtain ⟨there, stands, pair⟩ := Option.map_eq_some_iff.mp same
      cases pair
      exact Disk.item?_of_bare bare stands
    · have there : t.disk.item? (folder.place ++ [name]) ≠ none := by
        rw [← Disk.item?_bare_eq_none.ne, bare, Disk.item?_bare_eq_none.ne]
        exact there
      obtain ⟨item, stands⟩ := Option.ne_none_iff_exists'.mp there
      refine List.mem_map.mpr ⟨(name, item), List.mem_filterMap.mpr
        ⟨name, Disk.mem_names.mpr there, ?_⟩, rfl⟩
      rw [stands, Option.map_some]

end SourceIndex.Scan
