import SourceIndex.Proofs.Scan.Walk
import SourceIndex.Proofs.Scan.Trail
/-!
# Walks keep to trails

At every state of a walk there is a trail to each directory that is stacked, to the directory of
each link that was put aside and to each file that was found or failed. No trail is longer than the
depth limit allows, or goes over more links than the other one does.
-/

namespace SourceIndex.Scan

/-! ### What is tracked -/

/-- There is a trail within the limits to what a relative path names. -/
structure Comes (rules : Rules) (d : Disk) (relative : String) (goal : Place) (links : Nat) :
    Prop where
  starts : Path.Starts relative
  trail : Trail rules d (Path.ofText relative).segments goal links
  shallow : (Path.ofText relative).segments.dropLast.length ≤ rules.settings.maxDepth.toNat
  few : links ≤ rules.settings.maxLinkDepth.toNat

/-- There is a trail to a directory, if it is there at all, which counts right. -/
structure Frame.IsTracked (rules : Rules) (d : Disk) (frame : Frame) : Prop where
  placed : frame.IsPlaced rules
  starts : Path.Starts frame.lead
  depth : (Path.ofText frame.lead).segments.length = frame.depth
  shallow : frame.depth ≤ rules.settings.maxDepth.toNat
  few : frame.linkDepth ≤ rules.settings.maxLinkDepth.toNat
  trail : ∀ place, d.find true frame.directory = .ok (place, some .directory) →
    Trail rules d (Path.ofText frame.lead).segments place frame.linkDepth
  leads : (Path.ofText frame.lead).segments ≠ [] →
    ∃ goal, Trail rules d (Path.ofText frame.lead).segments goal frame.linkDepth
  accepted : (Path.ofText frame.lead).segments ≠ [] →
    ∃ real, d.resolve false frame.directory = .ok real ∧ real ≠ rules.dataDir

structure Frame.IsEntered (rules : Rules) (d : Disk) (frame : Frame) (place : Place) : Prop where
  tracked : frame.IsTracked rules d
  opened : d.find true frame.directory = .ok (place, some .directory)

/-- A link stands in a directory that the walk has gone into. -/
structure Pending.IsTracked (rules : Rules) (d : Disk) (link : Pending) : Prop where
  stands : ∃ place name target, link.parent.IsEntered rules d place ∧ IsName name ∧
    link.path = link.parent.directory.child name ∧ link.relative = link.parent.lead ++ name ∧
    d.item? (place ++ [name]) = some (.link target)

structure Finds.AreTracked (rules : Rules) (d : Disk) (finds : Finds) : Prop where
  frames : ∀ frame ∈ finds.frames, frame.IsTracked rules d
  links : ∀ link ∈ finds.links, link.IsTracked rules d

/-- There are trails to all files that were looked at, to those that were found, where files
stand, and to all that failed. -/
structure Tally.IsTracked (rules : Rules) (d : Disk) (t : Tally) : Prop where
  bare : t.disk.bare = d.bare
  seen : ∀ real ∈ t.seen, ∃ relative goal links, Comes rules d relative goal links ∧
    d.resolve false (rules.root.below relative) = .ok real
  files : ∀ found ∈ t.files, ∃ goal links data modified real,
    Comes rules d found.file.path goal links ∧
      d.find true (rules.root.below found.file.path) = .ok (goal, some (.file data modified)) ∧
      d.resolve false (rules.root.below found.file.path) = .ok real
  errors : ∀ e ∈ t.errors, ∃ goal links, Comes rules d e.path goal links

structure Walk.IsTracked (rules : Rules) (d : Disk) (w : Walk) : Prop where
  frames : ∀ frame ∈ w.stack, frame.IsTracked rules d
  links : ∀ link ∈ w.pending, link.IsTracked rules d
  tally : w.tally.IsTracked rules d

variable {rules : Rules} {d : Disk} {t after : Tally} {frame : Frame} {place goal : Place}
  {name relative : String} {links more : Nat}

theorem Finds.areTracked_nil : Finds.AreTracked rules d {} := ⟨by simp, by simp⟩

theorem Tally.IsTracked.of_eq (tracked : t.IsTracked rules d) (disk : after.disk = t.disk)
    (seen : after.seen = t.seen) (files : after.files = t.files)
    (errors : after.errors = t.errors) : after.IsTracked rules d :=
  ⟨by rw [disk]; exact tracked.bare, seen ▸ tracked.seen, files ▸ tracked.files,
    errors ▸ tracked.errors⟩

theorem Tally.IsTracked.fail (tracked : t.IsTracked rules d)
    (comes : Comes rules d relative goal links) (e : ReadError) :
    (t.fail relative e).IsTracked rules d := by
  refine ⟨tracked.bare, tracked.seen, tracked.files, fun error member => ?_⟩
  rcases List.mem_append.mp member with before | here
  · exact tracked.errors error before
  · rw [List.mem_singleton.mp here]
    exact ⟨goal, links, comes⟩

/-! ### Trails through directories -/

namespace Frame.IsEntered

theorem trail (entered : frame.IsEntered rules d place) :
    Trail rules d (Path.ofText frame.lead).segments place frame.linkDepth :=
  entered.tracked.trail place entered.opened

theorem enters (entered : frame.IsEntered rules d place) :
    Enters rules d (Path.ofText frame.lead).segments place := by
  have directory : frame.directory = rules.root.under (Path.ofText frame.lead).segments :=
    entered.tracked.placed.directory
  exact ⟨directory ▸ entered.opened, directory ▸ entered.tracked.accepted⟩

theorem child_eq (tracked : frame.IsTracked rules d) (isName : IsName name) :
    frame.directory.child name = rules.root.below (frame.lead ++ name) := by
  rw [Path.below_name _ tracked.placed.opens isName, tracked.placed.directory]

/-- A walk comes upon every name in a directory, as far as links allow. -/
theorem comes (entered : frame.IsEntered rules d place) (isName : IsName name)
    (meets : Meets rules d (Path.ofText frame.lead).segments place name goal more)
    (few : frame.linkDepth + more ≤ rules.settings.maxLinkDepth.toNat) :
    Comes rules d (frame.lead ++ name) goal (frame.linkDepth + more) := by
  have segments := entered.tracked.placed.opens name isName
  refine ⟨entered.tracked.starts.append isName, ?_, ?_, few⟩
  · rw [segments]
    exact .step entered.trail entered.enters meets
  · rw [segments, List.dropLast_concat, entered.tracked.depth]
    exact entered.tracked.shallow

end Frame.IsEntered

/-! ### Files -/

def Blames (relative : String) (t after : Tally) : Prop :=
  after.errors = t.errors ∨ ∃ e, after.errors = t.errors ++ [e] ∧ e.path = relative

theorem Recording.blames {path : Path} {relative : String} {size modified : Int} {t after : Tally}
    (recording : Recording rules path relative size modified t after) :
    Blames relative t after := by
  cases recording with
  | tooLarge line => exact .inl rfl
  | leftOut same => exact .inl rfl
  | reused => exact .inl rfl
  | unread read => exact .inr ⟨_, rfl, rfl⟩
  | undecoded read => exact .inr ⟨_, rfl, rfl⟩
  | unlisted read => exact .inl rfl
  | listed => exact .inl rfl

theorem blames_visitFile (rules : Rules) (path : Path) (relative : String) (realPath : Path)
    (t : Tally) : Blames relative t (visitFile rules path relative realPath t) := by
  have visit := fileVisit rules path relative realPath t
  generalize visitFile rules path relative realPath t = after at visit ⊢
  cases visit with
  | passed => exact .inl rfl
  | untold => exact .inr ⟨_, rfl, rfl⟩
  | recorded _ _ _ recording => exact recording.blames

theorem stat_of_visitFile (rules : Rules) (path : Path) (relative : String) (realPath : Path)
    (t : Tally) (added : (visitFile rules path relative realPath t).files ≠ t.files) :
    ∃ item, t.disk.stat path = .ok item := by
  have visit := fileVisit rules path relative realPath t
  generalize visitFile rules path relative realPath t = after at visit added
  cases visit with
  | passed => exact absurd rfl added
  | untold => exact absurd rfl added
  | recorded _ _ told => exact ⟨_, told⟩

theorem isTracked_visitFile (proper : d.IsProper) (tracked : t.IsTracked rules d)
    (comes : Comes rules d relative goal links) {data : Bytes} {modified : Int}
    (isFile : d.item? goal = some (.file data modified)) {realPath : Path}
    (resolved : d.resolve false (rules.root.below relative) = .ok realPath) :
    (visitFile rules (rules.root.below relative) relative realPath t).IsTracked rules d := by
  have told := stat_of_visitFile rules (rules.root.below relative) relative realPath t
  have blames := blames_visitFile rules (rules.root.below relative) relative realPath t
  -- Whether its real path is new or not, this file is the only one that may be added.
  have gains : ∃ before, (before = t ∨ before = { t with seen := realPath :: t.seen }) ∧
      Gains relative before (visitFile rules (rules.root.below relative) relative realPath t) := by
    rcases gains_visitFile rules (rules.root.below relative) relative realPath t with
      ⟨gains, -⟩ | ⟨-, gains⟩
    · exact ⟨_, .inl rfl, gains⟩
    · exact ⟨_, .inr rfl, gains⟩
  obtain ⟨before, start, gains⟩ := gains
  have same : before.disk = t.disk ∧ before.files = t.files := by
    rcases start with rfl | rfl
    · exact ⟨rfl, rfl⟩
    · exact ⟨rfl, rfl⟩
  have seen : ∀ real ∈ before.seen, real = realPath ∨ real ∈ t.seen := by
    rcases start with rfl | rfl
    · exact fun real member => .inr member
    · exact fun real member => List.mem_cons.mp member
  obtain ⟨bare, known, files⟩ := gains
  rw [same.1] at bare
  rw [same.2] at files
  generalize visitFile rules (rules.root.below relative) relative realPath t = after at *
  refine ⟨bare.trans tracked.bare, fun real member => ?_, fun other member => ?_,
    fun e member => ?_⟩
  · rcases seen real (known ▸ member) with rfl | before
    · exact ⟨relative, goal, links, comes, resolved⟩
    · exact tracked.seen real before
  · rcases files with same | ⟨found, added, here⟩
    · exact tracked.files other (same ▸ member)
    rw [added] at member
    rcases List.mem_append.mp member with before | last
    · exact tracked.files other before
    · rw [List.mem_singleton.mp last, here]
      obtain ⟨item, stands⟩ := told (by simp [added])
      obtain ⟨own, stands, -⟩ := Disk.stat_of_bare tracked.bare stands
      obtain ⟨last, found, there⟩ := Disk.find_of_stat stands
      have same := comes.trail.leads proper found
      rw [same] at found there
      rw [isFile, Option.some.injEq] at there
      exact ⟨goal, links, data, modified, realPath, comes, there ▸ found, resolved⟩
  · rcases blames with same | ⟨failed, added, here⟩
    · exact tracked.errors e (same ▸ member)
    rw [added] at member
    rcases List.mem_append.mp member with before | last
    · exact tracked.errors e before
    · rw [List.mem_singleton.mp last, here]
      exact ⟨goal, links, comes⟩

/-! ### Steps -/

def Tracks (rules : Rules) (d : Disk) (step : Finding × Tally) : Prop :=
  step.2.IsTracked rules d ∧ ∀ finds, step.1 = .ok finds → finds.AreTracked rules d

theorem tracks_nothing (tracked : t.IsTracked rules d) : Tracks rules d (.ok {}, t) :=
  ⟨tracked, fun finds same => by
    rw [← Except.ok.inj same]
    exact Finds.areTracked_nil⟩

theorem tracks_unresolved (tracked : t.IsTracked rules d)
    (comes : Comes rules d relative goal links) (e : FileError) :
    Tracks rules d (unresolved relative e t) := by
  unfold unresolved
  split
  · exact tracks_nothing (tracked.fail comes _)
  · exact ⟨tracked, fun finds same => by cases same⟩

theorem isTracked_childFrame (proper : d.IsProper) (entered : frame.IsEntered rules d place)
    (isLink : Bool)
    (meets : Meets rules d (Path.ofText frame.lead).segments place name goal
      (if isLink then 1 else 0))
    (few : frame.linkDepth + (if isLink then 1 else 0) ≤ rules.settings.maxLinkDepth.toNat)
    {realPath : Path} (resolved : d.resolve false (frame.directory.child name) = .ok realPath)
    (t : Tally) :
    ∀ child, (childFrame rules frame (frame.directory.child name) (frame.lead ++ name) realPath
      isLink t).1 = some child → child.IsTracked rules d := by
  intro child taken
  have isName := meets.isName proper
  have below := Frame.IsEntered.child_eq entered.tracked isName
  have comes := entered.comes isName meets few
  have segments := entered.tracked.placed.opens name isName
  obtain ⟨wanted, shallow, rfl⟩ := childFrame_eq_some taken
  have notData : realPath ≠ rules.dataDir := by
    simp only [acceptsDirectory, Bool.not_eq_true', Bool.and_eq_true] at wanted
    simpa using wanted.1.1.2
  have filled : frame.lead ++ name ≠ "" := by simp [isName.filled]
  refine ⟨⟨?_, Path.opens_slash _⟩, comes.starts.slash filled, ?_, ?_, few,
    fun last found => ?_, fun _ => ⟨goal, ?_⟩, fun _ => ?_⟩
  · rw [Path.below_slash]
    exact below
  · rw [Path.segments_ofText_slash, segments, List.length_append, entered.tracked.depth]
    rfl
  · simp only
    omega
  · simp only at found ⊢
    rw [below] at found
    rw [Path.segments_ofText_slash, comes.trail.leads proper found]
    exact comes.trail
  · rw [Path.segments_ofText_slash]
    exact comes.trail
  · exact ⟨realPath, resolved, notData⟩

theorem childFrame_isTracked (tracked : t.IsTracked rules d) (parent : Frame) (path : Path)
    (relative : String) (realPath : Path) (isLink : Bool) :
    (childFrame rules parent path relative realPath isLink t).2.IsTracked rules d := by
  have stacking := stacking_childFrame rules parent path relative realPath isLink t
  generalize childFrame rules parent path relative realPath isLink t = step at stacking
  cases stacking <;> exact tracked.of_eq rfl rfl rfl rfl

theorem tracks_visitEntry (proper : d.IsProper) (entered : frame.IsEntered rules d place)
    {own item : Item} (stands : d.item? (place ++ [name]) = some own) (kind : own.bare = item.bare)
    (tracked : t.IsTracked rules d) : Tracks rules d (visitEntry rules frame name item t) := by
  have isName := proper.named place name (by simp [stands])
  have below := Frame.IsEntered.child_eq entered.tracked isName
  have comes (noLink : ∀ target, own ≠ .link target) :
      Comes rules d (frame.lead ++ name) (place ++ [name]) (frame.linkDepth + 0) :=
    entered.comes isName (.entry ⟨by simp [stands], by simpa [stands] using noLink⟩)
      entered.tracked.few
  have visit := entryVisit rules frame name item t
  generalize visitEntry rules frame name item t = step at visit
  cases visit with
  | pending target =>
    obtain rfl := Item.eq_link_of_bare kind
    refine ⟨tracked, fun finds same => ?_⟩
    rw [← Except.ok.inj same]
    refine ⟨by simp, fun link member => ?_⟩
    rw [List.mem_singleton.mp member]
    exact ⟨place, name, target, entered, isName, rfl, rfl, stands⟩
  | skipped target => exact tracks_nothing (tracked.of_eq rfl rfl rfl rfl)
  | noDirectory refused =>
    obtain rfl := Item.eq_directory_of_bare kind
    exact tracks_unresolved tracked (comes (by simp)) _
  | directory resolved =>
    obtain rfl := Item.eq_directory_of_bare kind
    rw [Disk.resolve_of_bare tracked.bare] at resolved
    refine ⟨childFrame_isTracked tracked .., fun finds same => ?_⟩
    rw [← Except.ok.inj same]
    refine ⟨fun child member => ?_, by simp⟩
    exact isTracked_childFrame proper entered false (.entry (Disk.isSolid_of_directory stands))
      entered.tracked.few resolved t child (Option.mem_toList.mp member)
  | noFile refused =>
    obtain ⟨data', rfl⟩ := Item.eq_file_of_bare kind
    exact tracks_unresolved tracked (comes (by simp)) _
  | file resolved =>
    obtain ⟨data', rfl⟩ := Item.eq_file_of_bare kind
    rw [Disk.resolve_of_bare tracked.bare, below] at resolved
    rw [below]
    exact tracks_nothing (isTracked_visitFile proper tracked (comes (by simp)) stands resolved)
  | special => exact tracks_nothing (tracked.of_eq rfl rfl rfl rfl)

theorem tracks_visitEntries (proper : d.IsProper) (entered : frame.IsEntered rules d place)
    (todo : List (String × Item))
    (stand : ∀ name item, (name, item) ∈ todo →
      ∃ own, d.item? (place ++ [name]) = some own ∧ own.bare = item.bare)
    (t : Tally) (tracked : t.IsTracked rules d) :
    Tracks rules d (visitEntries rules frame todo t) := by
  have here {name : String} {item : Item} {rest : List (String × Item)} {t : Tally}
      {result : Finding × Tally}
      (stand : ∀ other item', (other, item') ∈ (name, item) :: rest →
        ∃ own, d.item? (place ++ [other]) = some own ∧ own.bare = item'.bare)
      (tracked : t.IsTracked rules d) (step : visitEntry rules frame name item t = result) :
      Tracks rules d result := by
    obtain ⟨own, stands, kind⟩ := stand name item (List.mem_cons_self ..)
    exact step ▸ tracks_visitEntry proper entered stands kind tracked
  have visit := entriesVisit rules frame todo t
  generalize visitEntries rules frame todo t = result at visit ⊢
  induction visit with
  | done => exact tracks_nothing tracked
  | breaks step => exact ⟨(here stand tracked step).1, fun finds same => by cases same⟩
  | breaksLater step _ ih =>
    have broken := ih (fun name item member => stand name item (List.mem_cons_of_mem _ member))
      (here stand tracked step).1
    exact ⟨broken.1, fun finds same => by cases same⟩
  | next step _ ih =>
    have one := here stand tracked step
    have later := ih (fun name item member => stand name item (List.mem_cons_of_mem _ member)) one.1
    refine ⟨later.1, fun finds same => ?_⟩
    rw [← Except.ok.inj same]
    have first := one.2 _ rfl
    have second := later.2 _ rfl
    refine ⟨fun child member => ?_, fun link member => ?_⟩
    · exact (List.mem_append.mp member).elim (first.frames child) (second.frames child)
    · exact (List.mem_append.mp member).elim (first.links link) (second.links link)

theorem tracks_scanDirectory (proper : d.IsProper) (tracked : frame.IsTracked rules d)
    (holds : t.IsTracked rules d) : Tracks rules d (scanDirectory rules frame t) := by
  unfold scanDirectory
  cases listed : t.disk.list frame.directory with
  | error e => exact tracks_nothing (holds.of_eq rfl rfl rfl rfl)
  | ok entries =>
    obtain ⟨place, opened, rfl⟩ := Disk.list_eq_ok listed
    have entered : frame.IsEntered rules d place :=
      ⟨tracked, Disk.find_directory_of_bare holds.bare opened⟩
    refine tracks_visitEntries proper entered _ (fun name item member => ?_) t holds
    obtain ⟨other, -, same⟩ := List.mem_filterMap.mp member
    obtain ⟨there, stands, pair⟩ := Option.map_eq_some_iff.mp same
    cases pair
    exact Disk.item?_of_bare holds.bare stands

theorem isTracked_visitLink (proper : d.IsProper) {link : Pending}
    (tracked : link.IsTracked rules d) (holds : t.IsTracked rules d) :
    (visitLink rules link t).2.IsTracked rules d ∧
      ∀ child, (visitLink rules link t).1 = some child → child.IsTracked rules d := by
  obtain ⟨place, name, text, entered, isName, path, relative, isLink⟩ := tracked.stands
  have below := Frame.IsEntered.child_eq entered.tracked isName
  have segments := entered.tracked.placed.opens name isName
  -- What is told of the target, which is that of a solid place, stands where the link leads.
  have comes {target : Path} {item : Item} (leads : link.Leads rules t.disk target item) :
      ∃ goal own, d.item? goal = some own ∧ own.bare = item.bare ∧
        d.resolve false link.path = .ok target ∧
        Meets rules d (Path.ofText link.parent.lead).segments place name goal 1 ∧
        link.parent.linkDepth + 1 ≤ rules.settings.maxLinkDepth.toNat := by
    have resolved := leads.resolved
    rw [Disk.resolve_of_bare holds.bare] at resolved
    obtain ⟨own, told, kind⟩ := Disk.stat_of_bare holds.bare leads.told
    obtain ⟨goal, rfl, solid, -⟩ := Disk.solid_of_resolve proper resolved
    obtain ⟨goal', found, there⟩ := Disk.find_of_stat told
    have ends := solid.find_pathTo proper found
    subst ends
    refine ⟨goal', own, there, kind, Disk.resolve_of_strict resolved told, ?_, ?_⟩
    · rw [path, below, Path.below, segments] at resolved
      exact .link isLink resolved leads.inside
    · have := leads.few
      omega
  have visit := linkVisit rules link t
  generalize visitLink rules link t = step at visit
  cases visit with
  | rejected reason => exact ⟨holds.of_eq rfl rfl rfl rfl, fun child same => by cases same⟩
  | directory leads fresh aside =>
    obtain ⟨goal, own, there, kind, real, meets, few⟩ := comes leads
    rw [path] at real
    rw [path, relative]
    exact ⟨childFrame_isTracked holds .., isTracked_childFrame proper entered true meets few real t⟩
  | file leads =>
    obtain ⟨goal, own, there, kind, real, meets, few⟩ := comes leads
    obtain ⟨data, rfl⟩ := Item.eq_file_of_bare kind
    rw [path, below] at real
    rw [path, relative, below]
    exact ⟨isTracked_visitFile proper holds (entered.comes isName meets few) there real,
      fun child same => by cases same⟩

/-! ### Walks -/

theorem Walk.isTracked_start (rules : Rules) (d : Disk) :
    (Walk.start rules d).IsTracked rules d := by
  refine ⟨fun frame member => ?_, by simp [Walk.start], ⟨rfl, by simp [Walk.start],
    by simp [Walk.start], by simp [Walk.start]⟩⟩
  rw [Walk.start, List.mem_singleton] at member
  subst member
  have nothing : (Path.ofText (rootFrame rules.root).lead).segments = [] :=
    Path.segments_ofText_empty
  refine ⟨⟨(Path.below_empty _).symm, Path.opens_empty⟩, Path.starts_empty, by rw [nothing]; rfl,
    Nat.zero_le _, Nat.zero_le _, fun place found => ?_, fun something => absurd nothing something,
    fun something => absurd nothing something⟩
  rw [nothing]
  exact .root found

theorem Walk.isTracked_next (proper : d.IsProper) {w next : Walk} (tracked : w.IsTracked rules d)
    (step : w.next? rules = some next) : next.IsTracked rules d := by
  cases Walk.step_of_next? step with
  | @broken frame rest e after stack scanned =>
    have found := tracks_scanDirectory proper
      (tracked.frames frame (by rw [stack]; exact List.mem_cons_self ..)) tracked.tally
    rw [scanned] at found
    exact ⟨by simp, by simp, found.1⟩
  | @scanned frame rest finds after stack scanned =>
    have found := tracks_scanDirectory proper
      (tracked.frames frame (by rw [stack]; exact List.mem_cons_self ..)) tracked.tally
    rw [scanned] at found
    have new := found.2 finds rfl
    refine ⟨fun other member => ?_, fun link member => ?_, found.1⟩
    · rcases List.mem_append.mp member with here | old
      · exact new.frames other here
      · exact tracked.frames other (by rw [stack]; exact List.mem_cons_of_mem _ old)
    · exact (List.mem_append.mp member).elim (tracked.links link) (new.links link)
  | @followed link rest stack pending =>
    obtain ⟨tally, child⟩ := isTracked_visitLink proper
      (tracked.links link (by rw [pending]; exact List.mem_cons_self ..)) tracked.tally
    refine ⟨fun other member => child other (Option.mem_toList.mp member), fun other member => ?_,
      tally⟩
    exact tracked.links other (by rw [pending]; exact List.mem_cons_of_mem _ member)

/-- A walk keeps track at every state. -/
theorem Walk.isTracked_of_leads (proper : d.IsProper) {steps : Nat} {w : Walk}
    (leads : Walk.Leads rules steps (Walk.start rules d) w) : w.IsTracked rules d :=
  leads.keeps (fun _ _ tracked step => Walk.isTracked_next proper tracked step)
    (Walk.isTracked_start rules d)

end SourceIndex.Scan
