import SourceIndex.Proofs.Scan.Below
import SourceIndex.Proofs.Scan.Inside
import SourceIndex.Proofs.Scan.Selection
/-!
# Scans without links

In a workspace without links a scan lists the files that meet its conditions. In which order the walk
goes through the directories does not matter, nor what else is there: no real path is seen twice, and
no file is left out for one that was listed before.
-/

namespace SourceIndex.Scan
variable {rules : Rules} {d : Disk} {base place : Place} {names : List String}
  {name relative : String} {folder : Folder} {data : Bytes} {modified : Int}
  {t after : Tally} {path realPath : Path}

/-! ### Visiting -/

theorem visitFile_known
    (known : acceptsFile rules relative = false ∨ realPath ∈ t.seen) :
    (visitFile rules path relative realPath t).disk = t.disk ∧
      (visitFile rules path relative realPath t).seen = t.seen ∧
      (visitFile rules path relative realPath t).files = t.files := by
  have new : ¬ (acceptsFile rules relative = true ∧ realPath ∉ t.seen) := by
    rcases known with refused | seen
    · simp [refused]
    · exact fun both => both.2 seen
  have visit := fileVisit rules path relative realPath t
  generalize visitFile rules path relative realPath t = after at visit ⊢
  cases visit with
  | passed => exact ⟨rfl, rfl, rfl⟩
  | untold accepted unseen => exact absurd ⟨accepted, unseen⟩ new
  | recorded accepted unseen => exact absurd ⟨accepted, unseen⟩ new

theorem visitFile_new (still : d.IsStill) (fresh : rules.previous = []) (disk : t.disk = d)
    (has : d.HasFile path data modified) (accepted : acceptsFile rules relative = true)
    (unseen : realPath ∉ t.seen) :
    (visitFile rules path relative realPath t).disk = d ∧
      (visitFile rules path relative realPath t).seen = realPath :: t.seen ∧
      (visitFile rules path relative realPath t).files =
        t.files ++ (listed? rules relative data modified).toList := by
  have nothing : unchanged? rules relative data.length modified = none := by
    rw [unchanged?, fresh]
    rfl
  subst disk
  unfold visitFile
  simp only [accepted, Bool.not_true, Bool.false_eq_true, if_false,
    List.contains_iff_mem, unseen, has.told, sizeAndTime]
  unfold recordFile listed?
  split
  · simp [Tally.note, Tally.skipFile]
  rename_i fits
  rw [nothing]
  simp only [readFile, has.readBounded still (Int.not_lt.mp fits)]
  cases Content.classify data relative with
  | error e => simp [Tally.fail, Tally.note]
  | ok c =>
    simp only
    cases listedContent? rules.settings relative data c.content with
    | none => simp [Tally.skipFile]
    | some content => simp [Tally.add]

/-! ### The walk -/

/-- A wanted file that is reached through directories alone, and what is listed for it. -/
def Offers (rules : Rules) (d : Disk) (relative : String) (offer : Option ScannedFile) : Prop :=
  ∃ place data modified, IsDirect rules d relative place ∧
    d.item? place = some (.file data modified) ∧ listed? rules relative data modified = offer

/-- Every real path that was seen is that of a direct file, for which all was listed that there is to
list, and nothing was listed otherwise. -/
structure Tally.IsListing (rules : Rules) (d : Disk) (t : Tally) : Prop where
  disk : t.disk = d
  seen : ∀ real ∈ t.seen, ∃ relative offer, Offers rules d relative offer ∧
    d.resolve false (rules.root.below relative) = .ok real ∧ ∀ found ∈ offer, found ∈ t.files
  files : ∀ found ∈ t.files, Offers rules d found.file.path (some found)

theorem Tally.IsListing.of_eq (listing : t.IsListing rules d) (disk : after.disk = t.disk)
    (seen : after.seen = t.seen) (files : after.files = t.files) : after.IsListing rules d :=
  ⟨disk.trans listing.disk, by rw [seen, files]; exact listing.seen,
    by rw [files]; exact listing.files⟩

theorem Tally.IsListing.add (listing : t.IsListing rules d) {offer : Option ScannedFile}
    (offers : Offers rules d relative offer)
    (told : d.resolve false (rules.root.below relative) = .ok realPath) (disk : after.disk = d)
    (seen : after.seen = realPath :: t.seen) (files : after.files = t.files ++ offer.toList) :
    after.IsListing rules d := by
  refine ⟨disk, fun real member => ?_, fun found member => ?_⟩
  · rw [seen] at member
    rw [files]
    rcases List.mem_cons.mp member with rfl | before
    · exact ⟨relative, offer, offers, told, fun found here =>
        List.mem_append_right _ (Option.mem_toList.mpr here)⟩
    · obtain ⟨other, offer', offers', told', all⟩ := listing.seen real before
      exact ⟨other, offer', offers', told', fun found here =>
        List.mem_append_left _ (all found here)⟩
  · rw [files] at member
    rcases List.mem_append.mp member with before | last
    · exact listing.files found before
    · obtain rfl := Option.mem_def.mp (Option.mem_toList.mp last)
      obtain ⟨place, data, modified, direct, stands, listed⟩ := offers
      rw [path_of_listed? listed]
      exact ⟨place, data, modified, direct, stands, listed⟩

section
variable (proper : d.IsProper) (still : d.IsStill) (noLinks : d.HasNoLinks)
  (fresh : rules.previous = []) (root : rules.root = Disk.pathTo base)
  (readable : d.IsReadable base)
include proper still noLinks fresh root readable

theorem lists_visitEntry {frame : Frame} (isOf : frame.IsOf rules (.of base names))
    (reached : (Folder.of base names).IsReached rules d) {item : Item}
    (stands : d.item? (base ++ (names ++ [name])) = some item) (listing : t.IsListing rules d) :
    ∃ finds after, visitEntry rules frame name item t = (.ok finds, after) ∧ finds.links = [] ∧
      after.IsListing rules d := by
  have there : d.item? (base ++ (names ++ [name])) ≠ none := by simp [stands]
  have are := proper.isName there
  have opens : Path.Opens (leadOf names) :=
    (segments_leadOf fun other member => are other (by simp [member])).2
  have below : rules.root.below (leadOf names ++ name) =
      Disk.pathTo (base ++ (names ++ [name])) := by
    rw [root, below_relative proper there]
  have path : frame.directory.child name = Disk.pathTo (base ++ (names ++ [name])) := by
    rw [isOf.directory, ← below, Path.below_name _ opens (are name (by simp))]
    rfl
  have lead : frame.lead ++ name = leadOf names ++ name := by
    rw [isOf.lead]
    rfl
  unfold visitEntry
  simp only
  rw [path, lead, listing.disk]
  cases item with
  | link target => exact absurd stands (noLinks _ target)
  | directory =>
    obtain ⟨real, told⟩ := readable.tells _ _ stands (by simp)
    obtain ⟨disk, seen, files⟩ := childFrame_same rules frame
      (Disk.pathTo (base ++ (names ++ [name]))) (leadOf names ++ name) real false t
    simp only [told]
    exact ⟨_, _, rfl, rfl, listing.of_eq disk seen files⟩
  | special => exact ⟨_, _, rfl, rfl, listing.of_eq rfl rfl rfl⟩
  | file data modified =>
    obtain ⟨real, told⟩ := readable.tells _ _ stands (by simp)
    simp only [told]
    refine ⟨_, _, rfl, rfl, ?_⟩
    by_cases known : acceptsFile rules (leadOf names ++ name) = false ∨ real ∈ t.seen
    · obtain ⟨disk, seen, files⟩ := visitFile_known known
      exact listing.of_eq disk seen files
    · obtain ⟨accepted, unseen⟩ := not_or.mp known
      have accepted : acceptsFile rules (leadOf names ++ name) = true := by simpa using accepted
      have has := readable.holds _ _ _ stands
      obtain ⟨disk, seen, files⟩ := visitFile_new still fresh listing.disk has accepted unseen
      have stands' : d.item? ((Folder.of base names).place ++ [name]) =
          some (.file data modified) := by
        rw [← stands, ← List.append_assoc]
        rfl
      have direct : IsDirect rules d (leadOf names ++ name) _ :=
        .file reached ⟨⟨data, modified, stands'⟩, accepted⟩
      rw [← below] at told
      exact listing.add ⟨_, data, modified, direct, stands', rfl⟩ told disk seen files

theorem lists_visitEntries {frame : Frame} (isOf : frame.IsOf rules (.of base names))
    (reached : (Folder.of base names).IsReached rules d) (todo : List (String × Item))
    (stand : ∀ name item, (name, item) ∈ todo → d.item? (base ++ (names ++ [name])) = some item)
    (listing : t.IsListing rules d) :
    ∃ finds after, visitEntries rules frame todo t = (.ok finds, after) ∧ finds.links = [] ∧
      after.IsListing rules d := by
  induction todo generalizing t with
  | nil => exact ⟨_, _, rfl, rfl, listing⟩
  | cons entry rest ih =>
    obtain ⟨name, item⟩ := entry
    obtain ⟨first, middle, step, noLink, listing'⟩ := lists_visitEntry proper still noLinks fresh
      root readable isOf reached (stand name item (List.mem_cons_self ..)) listing
    obtain ⟨others, last, steps, noLink', listing''⟩ :=
      ih (fun name item member => stand name item (List.mem_cons_of_mem _ member)) listing'
    unfold visitEntries
    simp only [step, steps]
    exact ⟨_, _, rfl, by simp [noLink, noLink'], listing''⟩

theorem lists_scanDirectory (directory : d.item? base = some .directory) {frame : Frame} (isOf : frame.IsOf rules folder)
    (reached : folder.IsReached rules d) (listing : t.IsListing rules d) :
    ∃ finds after, scanDirectory rules frame t = (.ok finds, after) ∧ finds.links = [] ∧
      after.IsListing rules d := by
  obtain ⟨names, rfl, stands, -⟩ := (Folder.isReached_iff proper root directory readable).mp reached
  obtain ⟨entries, listed⟩ := readable.lists names stands
  have are : ∀ name ∈ base ++ names, IsName name := proper.isName (by simp [stands])
  have path : frame.directory = Disk.pathTo (base ++ names) := by
    rw [isOf.directory, root, Path.below, Folder.of, (segments_leadOf fun name member =>
      are name (List.mem_append_right _ member)).1]
    rfl
  unfold scanDirectory
  rw [path, listing.disk, listed]
  obtain ⟨place, found, rfl⟩ := Disk.list_eq_ok listed
  obtain rfl := (Disk.isSolid_of_directory stands).find_pathTo proper found
  refine lists_visitEntries proper still noLinks fresh root readable isOf reached _
    (fun name item member => ?_) listing
  obtain ⟨other, -, same⟩ := List.mem_filterMap.mp member
  obtain ⟨there, stands, pair⟩ := Option.map_eq_some_iff.mp same
  cases pair
  rw [← stands, List.append_assoc]

end

/-- A walk that goes through directories alone. -/
structure Walk.IsListing (rules : Rules) (d : Disk) (w : Walk) : Prop where
  whole : w.broken = none
  pending : w.pending = []
  frames : ∀ frame ∈ w.stack, ∃ folder, frame.IsOf rules folder ∧ folder.IsReached rules d
  tally : w.tally.IsListing rules d

section
variable (proper : d.IsProper) (still : d.IsStill) (noLinks : d.HasNoLinks)
  (fresh : rules.previous = []) (root : rules.root = Disk.pathTo base)
  (directory : d.item? base = some .directory) (readable : d.IsReadable base)
include proper root directory readable

theorem Walk.isListing_start : (Walk.start rules d).IsListing rules d where
  whole := rfl
  pending := rfl
  frames frame member := by
    have opened := find_root proper root directory readable
    rw [Walk.start, List.mem_singleton] at member
    subst member
    exact ⟨.top base, ⟨(Path.below_empty _).symm, rfl, rfl⟩, base, opened, .refl⟩
  tally := ⟨rfl, by simp [Walk.start], by simp [Walk.start]⟩

include still noLinks fresh

theorem Walk.isListing_next {w next : Walk} (listing : w.IsListing rules d)
    (step : w.next? rules = some next) : next.IsListing rules d := by
  have ends {frame : Frame} {rest : List Frame} {result : Finding × Tally}
      (stack : w.stack = frame :: rest) (scanned : scanDirectory rules frame w.tally = result) :
      ∃ finds after, result = (.ok finds, after) ∧ finds.links = [] ∧ after.IsListing rules d := by
    obtain ⟨folder, isOf, reached⟩ :=
      listing.frames frame (by rw [stack]; exact List.mem_cons_self ..)
    exact scanned ▸ lists_scanDirectory proper still noLinks fresh root readable directory isOf
      reached listing.tally
  cases Walk.step_of_next? step with
  | broken stack scanned =>
    obtain ⟨finds, after, same, -⟩ := ends stack scanned
    cases same
  | @scanned frame rest _ _ stack scanned =>
    obtain ⟨finds, after, same, noLink, tally⟩ := ends stack scanned
    cases same
    obtain ⟨folder, isOf, reached⟩ :=
      listing.frames frame (by rw [stack]; exact List.mem_cons_self ..)
    obtain ⟨names, takes, -⟩ := takes_scanDirectory proper isOf reached
      (congrArg Disk.bare listing.tally.disk) scanned
    refine ⟨rfl, by simp [listing.pending, noLink], takes.plain reached ?_, tally⟩
    intro other member
    exact listing.frames other (by rw [stack]; exact List.mem_cons_of_mem _ member)
  | followed _ pending =>
    rw [listing.pending] at pending
    cases pending

theorem Walk.isListing_of_leads {steps : Nat} {w : Walk}
    (leads : Walk.Leads rules steps (Walk.start rules d) w) : w.IsListing rules d :=
  leads.keeps (fun _ _ listing step => Walk.isListing_next proper still noLinks fresh root directory
    readable listing step) (Walk.isListing_start proper root directory readable)

end

/-! ### Scans -/

/-- What is offered under a relative path with a real path that was seen has been listed. -/
theorem Tally.IsListing.mem_of_seen (proper : d.IsProper) (root : rules.root = Disk.pathTo base)
    (directory : d.item? base = some .directory) (listing : t.IsListing rules d)
    {found : ScannedFile} (offers : Offers rules d relative (some found))
    (told : d.resolve false (rules.root.below relative) = .ok realPath)
    (seen : realPath ∈ t.seen) : found ∈ t.files := by
  obtain ⟨place, data, modified, direct, stands, listed⟩ := offers
  obtain ⟨other, offer, ⟨place', data', modified', direct', stands', listed'⟩, told', all⟩ :=
    listing.seen realPath seen
  -- One real path, one place, one relative path.
  have same : place = place' := congrArg Path.segments
    ((direct.real_eq proper root directory told).symm.trans
      (direct'.real_eq proper root directory told'))
  subst same
  obtain rfl := direct.path_eq proper direct'
  rw [stands] at stands'
  cases stands'
  exact all found (listed'.symm.trans listed)

section
variable (proper : d.IsProper) (root : rules.root = Disk.pathTo base)
  (directory : d.item? base = some .directory) (readable : d.IsReadable base)
include proper root directory readable

theorem exists_offers_iff : (∃ found, Offers rules d relative (some found)) ↔
    ∃ names name data, relative = relativeOf (names ++ [name]) ∧
      IsSelected rules d base names name data := by
  constructor
  · rintro ⟨found, place, data, modified, direct, stands, listed⟩
    obtain ⟨names, name, rfl, rfl, -, above, accepted⟩ :=
      (isDirect_iff proper root directory readable).mp direct
    exact ⟨names, name, data, rfl, ⟨modified, stands⟩, above, accepted,
      exists_listed?_iff.mp ⟨found, listed⟩⟩
  · rintro ⟨names, name, data, rfl, ⟨modified, stands⟩, above, accepted, listable⟩
    obtain ⟨found, listed⟩ := exists_listed?_iff.mpr listable
    exact ⟨found, _, data, modified, (isDirect_iff proper root directory readable).mpr
      ⟨names, name, rfl, rfl, ⟨data, modified, stands⟩, above, accepted⟩, stands, listed⟩

theorem Walk.mem_files_of_offers {w : Walk} (listing : w.IsListing rules d) {steps : Nat}
    (leads : Walk.Leads rules steps (Walk.start rules d) w) (ended : w.next? rules = none)
    {found : ScannedFile} (offers : Offers rules d relative (some found)) :
    found ∈ w.tally.files := by
  obtain ⟨place, data, modified, direct, stands, listed⟩ := id offers
  obtain ⟨base', opened, here⟩ := direct.place_eq proper
  rw [find_root proper root directory readable] at opened
  cases opened
  have path : rules.root.below relative = Disk.pathTo place := by
    rw [root, here]
    rfl
  obtain ⟨real, told⟩ := readable.tells _ _ (here ▸ stands) (by simp)
  rw [← here, ← path] at told
  refine listing.tally.mem_of_seen proper root directory offers told ?_
  refine (Walk.hasSeen_of_direct proper direct (fun above within => ?_) told leads ended
    listing.whole).seen
  -- A file has a name, so what lies on the way to it is a directory.
  obtain ⟨rest, way⟩ := within
  have named : (Path.ofText relative).segments ≠ [] := by
    intro none
    rw [here, none, List.append_nil, directory] at stands
    cases stands
  have between : d.item? (base ++ above) = some .directory := by
    apply proper.tree.above (List.append_ne_nil_of_right_ne_nil rest (List.cons_ne_nil _ []))
    rw [List.append_assoc, ← List.append_assoc above, way,
      List.dropLast_concat_getLast named, ← here, stands]
    simp
  obtain ⟨entries, found⟩ := readable.lists above between
  exact ⟨entries, by rw [root]; exact found⟩

end

/-- In a workspace without links of which all can be read, a scan without earlier files succeeds,
and it lists just the files that are selected. -/
theorem scan_lists_selected {config : Config} (proper : d.IsProper) (still : d.IsStill)
    (noLinks : d.HasNoLinks) (ruled : rulesFor config [] d = .ok rules)
    (readable : d.IsReadable rules.root.segments) :
    ∃ base r, rules.root = Disk.pathTo base ∧ d.item? base = some .directory ∧
      (scan config [] d).result = .ok r ∧
      ∀ relative, relative ∈ r.files.map (·.file.path) ↔
        ∃ names name data, relative = relativeOf (names ++ [name]) ∧
          IsSelected rules d base names name data := by
  obtain ⟨-, fresh, resolved, -⟩ := rulesFor_eq_ok ruled
  obtain ⟨base, opened⟩ := Disk.find_of_hasDirectory (hasDirectory_of_resolveRoot resolved)
  have root : rules.root = Disk.pathTo base :=
    Disk.resolve_of_find proper noLinks opened (resolve_of_resolveRoot resolved)
  have directory : d.item? base = some .directory :=
    ((Disk.walks_of_walk (Disk.find_eq_ok opened)).item_eq).symm
  have readable : d.IsReadable base := by
    rw [root] at readable
    exact readable
  let w := (Walk.start rules d).finish rules
  obtain ⟨steps, leads, ended⟩ := Walk.leads_finish rules (Walk.start rules d)
  have listing : w.IsListing rules d :=
    Walk.isListing_of_leads proper still noLinks fresh root directory readable leads
  have done : (scan config [] d).result =
      .ok ⟨rules.root.text, sortFiles w.tally.files, w.tally.errors, w.tally.counts⟩ := by
    unfold scan
    simp only [ruled]
    rw [Walk.result, listing.whole]
  refine ⟨base, _, root, directory, done, fun relative => ?_⟩
  rw [← exists_offers_iff proper root directory readable, List.mem_map]
  constructor
  · rintro ⟨found, member, rfl⟩
    exact ⟨found, listing.tally.files found ((sortFiles_perm _).mem_iff.mp member)⟩
  · rintro ⟨found, offers⟩
    have member :=
      Walk.mem_files_of_offers proper root directory readable listing leads ended offers
    obtain ⟨place, data, modified, -, -, listed⟩ := offers
    exact ⟨found, (sortFiles_perm _).mem_iff.mpr member, path_of_listed? listed⟩

/-- A workspace with a file, another one in a directory, and one in a directory that is left out. -/
def branchedDisk : Disk where
  items := [(["ws"], .directory), (["ws", "a.txt"], .file [0x61] 1), (["ws", "d"], .directory),
    (["ws", "d", "b.txt"], .file [0x62] 1), (["ws", "node_modules"], .directory),
    (["ws", "node_modules", "c.txt"], .file [0x63] 1)]

theorem branchedDisk_cases {names : List String} {item : Item}
    (there : branchedDisk.item? (["ws"] ++ names) = some item) :
    names = [] ∧ item = .directory ∨ names = [] ++ ["a.txt"] ∧ item = .file [0x61] 1 ∨
      names = ["d"] ∧ item = .directory ∨ names = ["d"] ++ ["b.txt"] ∧ item = .file [0x62] 1 ∨
      names = ["node_modules"] ∧ item = .directory ∨
      names = ["node_modules"] ++ ["c.txt"] ∧ item = .file [0x63] 1 := by
  simpa [branchedDisk] using Disk.mem_items_of_item? (by simp) there

theorem isReadable_branchedDisk : branchedDisk.IsReadable ["ws"] where
  lists names directory := by
    have opens : Disk.hasZero (Disk.pathTo (["ws"] ++ names)) = false ∧
        branchedDisk.find true (Disk.pathTo (["ws"] ++ names)) =
          .ok (["ws"] ++ names, some .directory) := by
      rcases branchedDisk_cases directory with ⟨rfl, same⟩ | ⟨rfl, same⟩ | ⟨rfl, same⟩ |
        ⟨rfl, same⟩ | ⟨rfl, same⟩ | ⟨rfl, same⟩ <;>
        first | contradiction | exact ⟨by decide +kernel, rfl⟩
    exact ⟨_, Disk.list_of_find rfl opens.1 opens.2⟩
  holds names data modified stands := by
    rcases branchedDisk_cases stands with ⟨rfl, same⟩ | ⟨rfl, same⟩ | ⟨rfl, same⟩ |
      ⟨rfl, same⟩ | ⟨rfl, same⟩ | ⟨rfl, same⟩ <;> cases same <;>
      exact ⟨by decide +kernel, rfl⟩
  tells names item there _ := by
    rcases branchedDisk_cases there with ⟨rfl, -⟩ | ⟨rfl, -⟩ | ⟨rfl, -⟩ | ⟨rfl, -⟩ | ⟨rfl, -⟩ |
      ⟨rfl, -⟩ <;>
      exact ⟨_, rfl⟩

/-- A configuration for that workspace with some limit on the number of directories. -/
def branchedConfig (maxDepth : Int) : Config :=
  { fencedConfig with scan := { fencedConfig.scan with maxDepth } }

def branchedRules (maxDepth : Int) : Rules where
  root := ⟨1, ["ws"]⟩
  dataDir := fencedConfig.dataDir
  settings := (branchedConfig maxDepth).scan
  extensions := [".txt"]
  previous := []

theorem rulesFor_branched (maxDepth : Int) :
    rulesFor (branchedConfig maxDepth) [] branchedDisk = .ok (branchedRules maxDepth) := by
  have extensions : (branchedConfig maxDepth).scan.requiredExtensions = .ok [".txt"] :=
    (by decide +kernel : fencedConfig.scan.requiredExtensions = .ok [".txt"])
  have root : resolveRoot branchedDisk (branchedConfig maxDepth).root.text = .ok ⟨1, ["ws"]⟩ :=
    (by decide +kernel : resolveRoot branchedDisk fencedConfig.root.text = .ok ⟨1, ["ws"]⟩)
  rw [rulesFor, extensions, root]
  rfl

theorem noLinks_branchedDisk : branchedDisk.HasNoLinks :=
  Disk.hasNoLinks_of_items (by simp [branchedDisk])

theorem isSelected_branched_iff {names : List String} {name : String} {data : Bytes} :
    IsSelected (branchedRules 1) branchedDisk ["ws"] names name data ↔
      names = [] ∧ name = "a.txt" ∧ data = [0x61] ∨
        names = ["d"] ∧ name = "b.txt" ∧ data = [0x62] := by
  constructor
  · rintro ⟨⟨modified, stands⟩, above, -, -⟩
    rcases branchedDisk_cases stands with ⟨-, same⟩ | ⟨way, same⟩ | ⟨-, same⟩ | ⟨way, same⟩ |
      ⟨-, same⟩ | ⟨way, same⟩ <;> cases same
    all_goals
      obtain ⟨rfl, last⟩ := List.append_inj' way rfl
      obtain rfl := List.singleton_inj.mp last
    · exact .inl ⟨rfl, rfl, rfl⟩
    · exact .inr ⟨rfl, rfl, rfl⟩
    · exact absurd (by decide +kernel) (above.each [] "node_modules" (List.prefix_refl _)).named
  · rintro (⟨rfl, rfl, rfl⟩ | ⟨rfl, rfl, rfl⟩)
    · exact ⟨⟨1, rfl⟩, areOpen_nil _ _, by decide +kernel, by decide +kernel,
        fun _ => ⟨.text .utf8 "a", by decide +kernel⟩, fun _ => by decide +kernel⟩
    · have opens : IsOpen (branchedRules 1) ["ws"] [] "d" :=
        ⟨by decide +kernel, by decide +kernel, by decide +kernel, by decide +kernel⟩
      exact ⟨⟨1, rfl⟩, areOpen_concat_iff.mpr ⟨areOpen_nil _ _, opens, by decide +kernel⟩,
        by decide +kernel, by decide +kernel, fun _ => ⟨.text .utf8 "b", by decide +kernel⟩,
        fun _ => by decide +kernel⟩

/-- Two of the three files are listed. -/
theorem scan_lists_selected_branched :
    branchedDisk.IsProper ∧ branchedDisk.IsStill ∧ branchedDisk.HasNoLinks ∧
      branchedDisk.IsReadable ["ws"] ∧
      rulesFor (branchedConfig 1) [] branchedDisk = .ok (branchedRules 1) ∧
      ∃ r, (scan (branchedConfig 1) [] branchedDisk).result = .ok r ∧
        ∀ relative, relative ∈ r.files.map (·.file.path) ↔
          relative = "a.txt" ∨ relative = "d/b.txt" := by
  have proper : branchedDisk.IsProper := by decide +kernel
  have still : branchedDisk.IsStill := rfl
  have ruled := rulesFor_branched 1
  obtain ⟨base, r, root, -, done, lists⟩ :=
    scan_lists_selected proper still noLinks_branchedDisk ruled isReadable_branchedDisk
  obtain rfl : ["ws"] = base := congrArg Path.segments root
  refine ⟨proper, still, noLinks_branchedDisk, isReadable_branchedDisk, ruled, r, done,
    fun relative => ?_⟩
  rw [lists]
  constructor
  · rintro ⟨names, name, data, rfl, selected⟩
    obtain ⟨rfl, rfl, -⟩ | ⟨rfl, rfl, -⟩ := isSelected_branched_iff.mp selected
    · exact .inl (by decide +kernel)
    · exact .inr (by decide +kernel)
  · rintro (rfl | rfl)
    · exact ⟨[], "a.txt", [0x61], by decide +kernel,
        isSelected_branched_iff.mpr (.inl ⟨rfl, rfl, rfl⟩)⟩
    · exact ⟨["d"], "b.txt", [0x62], by decide +kernel,
        isSelected_branched_iff.mpr (.inr ⟨rfl, rfl, rfl⟩)⟩

/-- With a limit below zero a file is listed that no directory stands above, so that their number is
above the limit. -/
theorem negative_depth_selects_top :
    branchedDisk.IsProper ∧ branchedDisk.IsStill ∧ branchedDisk.HasNoLinks ∧
      branchedDisk.IsReadable ["ws"] ∧
      ∃ r, (scan (branchedConfig (-1)) [] branchedDisk).result = .ok r ∧
        ∃ names name, relativeOf (names ++ [name]) ∈ r.files.map (·.file.path) ∧
          (∃ data modified, branchedDisk.item? (["ws"] ++ (names ++ [name])) =
            some (.file data modified)) ∧
          ¬ (names.length : Int) ≤ (branchedConfig (-1)).scan.maxDepth := by
  have proper : branchedDisk.IsProper := by decide +kernel
  have names : branchedDisk.names ["ws"] = ["a.txt", "d", "node_modules"] :=
    Disk.names_of_sorted (by decide +kernel) (by decide +kernel)
  have opened : branchedDisk.find true ⟨1, ["ws"]⟩ = .ok (["ws"], some .directory) := by rfl
  have listed : branchedDisk.list ⟨1, ["ws"]⟩ =
      .ok [("a.txt", .file [0x61] 1), ("d", .directory), ("node_modules", .directory)] := by
    rw [Disk.list_of_find rfl (by decide +kernel) opened, names]
    rfl
  obtain ⟨r, done, same⟩ := scan_of_list (rulesFor_branched (-1)) listed (by decide +kernel)
  refine ⟨proper, rfl, noLinks_branchedDisk, isReadable_branchedDisk, r, done, [], "a.txt", ?_,
    ⟨[0x61], 1, rfl⟩, by decide +kernel⟩
  rw [(same.map _).mem_iff]
  decide +kernel

end SourceIndex.Scan
