import SourceIndex.Proofs.FileSystem.Listing
import SourceIndex.Proofs.Scan.Visit
import Mathlib.Data.List.Perm.Subperm
/-!
# Steps of a walk

Every directory, link and file that a walk comes upon stands where its relative path says. A step
adds at most one of them for each entry of a directory. What visiting a file keeps is kept by every
step, since files, the real paths that were seen and the disk change in no other way.
-/

namespace SourceIndex.Scan
variable {rules : Rules} {d : Disk}

/-! ### What a step adds -/

structure Frame.IsPlaced (rules : Rules) (frame : Frame) : Prop where
  directory : frame.directory = rules.root.below frame.lead
  opens : Path.Opens frame.lead

def Finds.places (finds : Finds) : List (List String) :=
  finds.frames.map (·.directory.segments) ++ finds.links.map (·.path.segments)

def filePlaces (rules : Rules) (files : List ScannedFile) : List (List String) :=
  files.map fun found => (rules.root.below found.file.path).segments

/-- What a step finds, together with the files that it adds, takes up some of the places that there
is room for. -/
structure Adds (rules : Rules) (room : List (List String)) (finds : Finds) (t after : Tally) :
    Prop where
  files : ∃ news, after.files = t.files ++ news ∧
    (finds.places ++ filePlaces rules news).Subperm room
  frames : ∀ frame ∈ finds.frames, frame.IsPlaced rules
  links : ∀ link ∈ finds.links, link.path = rules.root.below link.relative

variable {t after : Tally} {path : Path} {relative : String}

theorem adds_nothing (room : List (List String)) (files : after.files = t.files) :
    Adds rules room {} t after :=
  ⟨⟨[], by rw [files, List.append_nil], List.nil_subperm⟩, by simp, by simp⟩

theorem perm_append_append {α : Type} (a b c e : List α) :
    ((a ++ b) ++ (c ++ e)).Perm ((a ++ c) ++ (b ++ e)) := by
  rw [List.append_assoc, List.append_assoc]
  exact List.Perm.append_left a (List.perm_append_comm_assoc b c e)

theorem Adds.append {first second : List (List String)} {some others : Finds}
    {middle : Tally} (one : Adds rules first some t middle)
    (other : Adds rules second others middle after) :
    Adds rules (first ++ second) ⟨some.frames ++ others.frames, some.links ++ others.links⟩ t
      after := by
  obtain ⟨news, files, places⟩ := one.files
  obtain ⟨more, files', places'⟩ := other.files
  refine ⟨⟨news ++ more, ?_, ?_⟩, ?_, ?_⟩
  · rw [files', files, List.append_assoc]
  · refine List.Subperm.trans (List.Perm.subperm ?_) (places.append places')
    simp only [Finds.places, filePlaces, List.map_append]
    exact ((perm_append_append ..).append_right _).trans (perm_append_append ..)
  · intro frame member
    rcases List.mem_append.mp member with before | later
    · exact one.frames frame before
    · exact other.frames frame later
  · intro link member
    rcases List.mem_append.mp member with before | later
    · exact one.links link before
    · exact other.links link later

theorem Gains.adds (gains : Gains relative t after) :
    Adds rules [(rules.root.below relative).segments] {} t after := by
  obtain ⟨-, -, same | ⟨found, files, here⟩⟩ := gains
  · exact adds_nothing _ same
  · refine ⟨⟨[found], files, ?_⟩, by simp, by simp⟩
    simp [Finds.places, filePlaces, here]

theorem adds_visitFile (below : path = rules.root.below relative) (realPath : Path) :
    Adds rules [path.segments] {} t (visitFile rules path relative realPath t) := by
  rw [below]
  rcases gains_visitFile rules (rules.root.below relative) relative realPath t with
    ⟨gains, -⟩ | ⟨-, gains⟩
  · exact gains.adds
  · exact ⟨gains.adds.files, by simp, by simp⟩

theorem adds_childFrame {parent : Frame} {realPath : Path} {isLink : Bool}
    (below : path = rules.root.below relative) :
    Adds rules [path.segments]
      { frames := (childFrame rules parent path relative realPath isLink t).1.toList } t
      (childFrame rules parent path relative realPath isLink t).2 := by
  have stacking := stacking_childFrame rules parent path relative realPath isLink t
  generalize childFrame rules parent path relative realPath isLink t = step at stacking
  cases stacking with
  | unwanted => exact adds_nothing _ rfl
  | tooDeep line => exact adds_nothing _ rfl
  | stacked wanted shallow =>
    refine ⟨⟨[], by simp, by simp [Finds.places, filePlaces]⟩, ?_, by simp⟩
    intro frame member
    simp only [Option.toList_some, List.mem_singleton] at member
    subst member
    exact ⟨by rw [Path.below_slash, below], Path.opens_slash relative⟩

/-! ### What a step keeps -/

/-- A property of tallies that goes by the files, the real paths that were seen and the disk, which
is a given one but for what files hold, and that is kept whenever a file that is there is visited. -/
structure IsKept (rules : Rules) (d : Disk) (keeps : Tally → Prop) : Prop where
  bare : ∀ t, keeps t → t.disk.bare = d.bare
  same : ∀ t after, keeps t → after.seen = t.seen → after.files = t.files →
    after.disk = t.disk → keeps after
  visit : ∀ t path relative realPath, keeps t → path = rules.root.below relative →
    d.IsFileAt path → d.resolve false path = .ok realPath →
    keeps (visitFile rules path relative realPath t)

variable {keeps : Tally → Prop}

theorem IsKept.childFrame (kept : IsKept rules d keeps) (holds : keeps t) (parent : Frame)
    (path : Path) (relative : String) (realPath : Path) (isLink : Bool) :
    keeps (childFrame rules parent path relative realPath isLink t).2 := by
  obtain ⟨disk, seen, files⟩ := childFrame_same rules parent path relative realPath isLink t
  exact kept.same t _ holds seen files disk

/-- A step keeps a property, and what it finds takes up some of the places that there is room for,
if it does not break the walk off. -/
def Stays (rules : Rules) (keeps : Tally → Prop) (room : List (List String)) (t : Tally)
    (step : Finding × Tally) : Prop :=
  keeps step.2 ∧ ∀ finds, step.1 = .ok finds → Adds rules room finds t step.2

theorem Adds.stays {room : List (List String)} {finds : Finds} (holds : keeps after)
    (adds : Adds rules room finds t after) : Stays rules keeps room t (.ok finds, after) :=
  ⟨holds, fun other same => by rwa [← Except.ok.inj same]⟩

theorem stays_nothing (room : List (List String)) (holds : keeps after)
    (files : after.files = t.files) : Stays rules keeps room t (.ok {}, after) :=
  (adds_nothing room files).stays holds

theorem stays_unresolved (kept : IsKept rules d keeps) (room : List (List String))
    (holds : keeps t) (e : FileError) : Stays rules keeps room t (unresolved relative e t) := by
  unfold unresolved
  split
  · exact stays_nothing room (kept.same t _ holds rfl rfl rfl) rfl
  · exact ⟨holds, fun finds same => by cases same⟩

theorem stays_visitEntry (proper : d.IsProper) (kept : IsKept rules d keeps) {frame : Frame}
    (placed : frame.IsPlaced rules) {first : Disk} (bare : first.bare = d.bare)
    {entries : List (String × Item)} (listed : first.list frame.directory = .ok entries)
    {name : String} {item : Item} (member : (name, item) ∈ entries) (holds : keeps t) :
    Stays rules keeps [frame.directory.segments ++ [name]] t
      (visitEntry rules frame name item t) := by
  have proper' := proper.of_bare bare
  have isName := Disk.isName_of_mem_list proper' listed member
  have below : frame.directory.child name = rules.root.below (frame.lead ++ name) := by
    rw [Path.below_name _ placed.opens isName, placed.directory]
  have room : frame.directory.segments ++ [name] = (frame.directory.child name).segments := rfl
  have visit := entryVisit rules frame name item t
  generalize visitEntry rules frame name item t = step at visit
  cases visit with
  | pending target =>
    refine Adds.stays holds ⟨⟨[], by simp, ?_⟩, by simp, ?_⟩
    · simp [Finds.places, filePlaces, room]
    · intro link here
      rw [List.mem_singleton.mp here]
      exact below
  | skipped target => exact stays_nothing _ (kept.same t _ holds rfl rfl rfl) rfl
  | noDirectory refused => exact stays_unresolved kept _ holds _
  | directory resolved =>
    rw [room]
    exact (adds_childFrame below).stays (kept.childFrame holds ..)
  | noFile refused => exact stays_unresolved kept _ holds _
  -- Files may have grown since the directory was listed, but are still files.
  | @file data modified realPath resolved =>
    have isFile : first.IsFileAt (frame.directory.child name) := fun other told =>
      ⟨data, modified, Disk.stat_child proper' listed member (by simp) told⟩
    rw [Disk.resolve_of_bare (kept.bare t holds)] at resolved
    rw [room]
    exact (adds_visitFile below realPath).stays
      (kept.visit t _ _ _ holds below (isFile.of_bare bare) resolved)
  | special => exact stays_nothing _ (kept.same t _ holds rfl rfl rfl) rfl

theorem stays_visitEntries (proper : d.IsProper) (kept : IsKept rules d keeps) {frame : Frame}
    (placed : frame.IsPlaced rules) {first : Disk} (bare : first.bare = d.bare)
    {entries : List (String × Item)} (listed : first.list frame.directory = .ok entries)
    (todo : List (String × Item)) (inside : ∀ entry ∈ todo, entry ∈ entries) (t : Tally)
    (holds : keeps t) :
    Stays rules keeps (todo.map fun entry => frame.directory.segments ++ [entry.1]) t
      (visitEntries rules frame todo t) := by
  have here {name : String} {item : Item} {t : Tally} {result : Finding × Tally}
      (member : (name, item) ∈ entries) (holds : keeps t)
      (step : visitEntry rules frame name item t = result) :
      Stays rules keeps [frame.directory.segments ++ [name]] t result :=
    step ▸ stays_visitEntry proper kept placed bare listed member holds
  have visit := entriesVisit rules frame todo t
  generalize visitEntries rules frame todo t = result at visit ⊢
  induction visit with
  | done => exact stays_nothing _ holds rfl
  | breaks step =>
    have broken := here (inside _ (List.mem_cons_self ..)) holds step
    exact ⟨broken.1, fun finds same => by cases same⟩
  | breaksLater step _ ih =>
    have one := here (inside _ (List.mem_cons_self ..)) holds step
    have broken := ih (fun other among => inside other (List.mem_cons_of_mem _ among)) one.1
    exact ⟨broken.1, fun finds same => by cases same⟩
  | next step _ ih =>
    have one := here (inside _ (List.mem_cons_self ..)) holds step
    have later := ih (fun other among => inside other (List.mem_cons_of_mem _ among)) one.1
    exact ((one.2 _ rfl).append (later.2 _ rfl)).stays later.1

theorem stays_scanDirectory (proper : d.IsProper) (kept : IsKept rules d keeps) {frame : Frame}
    (placed : frame.IsPlaced rules) (holds : keeps t) :
    ∃ names : List String, names.Nodup ∧
      Stays rules keeps (names.map fun name => frame.directory.segments ++ [name]) t
        (scanDirectory rules frame t) := by
  unfold scanDirectory
  cases listed : t.disk.list frame.directory with
  | error e =>
    exact ⟨[], List.nodup_nil, stays_nothing _ (kept.same t _ holds rfl rfl rfl) rfl⟩
  | ok entries =>
    refine ⟨entries.map Prod.fst, Disk.nodup_list listed, ?_⟩
    have steps := stays_visitEntries proper kept placed (kept.bare t holds) listed entries
      (fun entry member => member) t holds
    rwa [List.map_map]

theorem isFileAt_link (proper : d.IsProper) {real : Path} {data : Bytes} {modified : Int}
    (resolved : d.resolve true path = .ok real) (told : d.stat real = .ok (.file data modified)) :
    d.IsFileAt path := fun _ found => ⟨data, modified, Disk.stat_resolve proper resolved told found⟩

theorem stays_visitLink (proper : d.IsProper) (kept : IsKept rules d keeps) {link : Pending}
    (below : link.path = rules.root.below link.relative) (holds : keeps t) :
    keeps (visitLink rules link t).2 ∧
      Adds rules [link.path.segments] { frames := (visitLink rules link t).1.toList } t
        (visitLink rules link t).2 := by
  have visit := linkVisit rules link t
  generalize visitLink rules link t = step at visit
  cases visit with
  | rejected reason => exact ⟨kept.same t _ holds rfl rfl rfl, adds_nothing _ rfl⟩
  | directory leads fresh aside => exact ⟨kept.childFrame holds .., adds_childFrame below⟩
  | @file target data modified leads =>
    have bare := kept.bare t holds
    have isFile := isFileAt_link (proper.of_bare bare) leads.resolved leads.told
    have real := Disk.resolve_of_strict leads.resolved leads.told
    rw [Disk.resolve_of_bare bare] at real
    exact ⟨kept.visit t _ _ _ holds below (isFile.of_bare bare) real,
      adds_visitFile below target⟩

end SourceIndex.Scan
