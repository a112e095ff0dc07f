import SourceIndex.Proofs.FileSystem.Agree
import SourceIndex.Proofs.Scan.Track
/-!
# Walks on two disks

A walk asks a disk for lists of directories, for real paths, for what links lead to and for files.
Where another disk answers these questions alike, a walk takes the same steps there.
-/

namespace SourceIndex

namespace Disk

/-- Where a link leads, and the kind of item that is there. -/
def followed (d : Disk) (p : Path) : Option (Path × Item) :=
  ((d.resolve true p).bind fun target =>
    (d.stat target).map fun item => (target, item)).toOption.map fun found =>
      (found.1, found.2.bare)

theorem followed_of_bare {d other : Disk} (same : other.bare = d.bare) (p : Path) :
    other.followed p = d.followed p := by
  unfold followed
  rw [resolve_of_bare same]
  cases d.resolve true p with
  | error e => rfl
  | ok target =>
    have kinds : (other.stat target).map Item.bare = (d.stat target).map Item.bare := by
      rw [← stat_bare, same, stat_bare]
    simp only [Except.bind]
    cases mine : d.stat target with
    | error e =>
      rw [mine] at kinds
      rw [eq_error_of_map kinds]
    | ok item =>
      rw [mine] at kinds
      obtain ⟨item', theirs, kind⟩ := eq_ok_of_map kinds
      simp only [theirs, Except.map, Except.toOption, Option.map_some, kind]

end Disk

namespace Scan

/-- Two disks answer alike what a walk on the first one comes to ask. -/
structure AnswersAlike (rules : Rules) (d other : Disk) : Prop where
  lists : ∀ frame : Frame, frame.IsTracked rules d →
    other.list frame.directory = d.list frame.directory
  resolves : ∀ (frame : Frame) place name, frame.IsEntered rules d place →
    d.IsSolid (place ++ [name]) →
      other.resolve false (frame.directory.child name) =
        d.resolve false (frame.directory.child name)
  links : ∀ link : Pending, link.IsTracked rules d →
    other.followed link.path = d.followed link.path
  stats : ∀ relative goal links, Comes rules d relative goal links →
    other.stat (rules.root.below relative) = d.stat (rules.root.below relative)
  reads : ∀ relative goal links limit, Comes rules d relative goal links →
    d.readBounded (rules.root.below relative) limit =
        ((d.readBounded (rules.root.below relative) limit).1, d) ∧
      other.readBounded (rules.root.below relative) limit =
        ((d.readBounded (rules.root.below relative) limit).1, other)

def Tally.onto (t : Tally) (other : Disk) : Tally := { t with disk := other }

def Walk.onto (w : Walk) (other : Disk) : Walk := { w with tally := w.tally.onto other }

/-- A step that is the same on another disk, where each of the two disks stays as it is. -/
structure Carries {α : Type} (d other : Disk) (step second : α × Tally) : Prop where
  same : second = (step.1, step.2.onto other)
  disk : step.2.disk = d

variable {rules : Rules} {d other : Disk} {t : Tally} {frame : Frame} {place goal : Place}
  {name relative : String} {links : Nat}

/-! ### Files -/

theorem carries_readFile {path : Path} {outcome : Except ReadError Bytes}
    (read : d.readBounded path rules.settings.maxFileBytes = (outcome, d))
    (read' : other.readBounded path rules.settings.maxFileBytes = (outcome, other))
    (disk : t.disk = d) (modified : Int) :
    readFile rules path relative modified (t.onto other) =
        (readFile rules path relative modified t).onto other ∧
      (readFile rules path relative modified t).disk = d := by
  have there : (t.onto other).disk = other := rfl
  unfold readFile
  rw [there, disk, read, read']
  cases outcome with
  | error e => exact ⟨rfl, rfl⟩
  | ok data =>
    simp only
    cases Content.classify data relative with
    | error e => exact ⟨rfl, rfl⟩
    | ok c =>
      simp only
      cases listedContent? rules.settings relative data c.content with
      | none => exact ⟨rfl, rfl⟩
      | some content => exact ⟨rfl, rfl⟩

theorem carries_recordFile {path : Path} {outcome : Except ReadError Bytes}
    (read : d.readBounded path rules.settings.maxFileBytes = (outcome, d))
    (read' : other.readBounded path rules.settings.maxFileBytes = (outcome, other))
    (disk : t.disk = d) (size modified : Int) :
    recordFile rules path relative size modified (t.onto other) =
        (recordFile rules path relative size modified t).onto other ∧
      (recordFile rules path relative size modified t).disk = d := by
  unfold recordFile
  split
  · exact ⟨rfl, disk⟩
  split
  · unfold reuseFile
    split
    · exact ⟨rfl, disk⟩
    · exact ⟨rfl, disk⟩
  · exact carries_readFile read read' disk modified

theorem carries_visitFile (alike : AnswersAlike rules d other)
    (comes : Comes rules d relative goal links) (realPath : Path) (disk : t.disk = d) :
    visitFile rules (rules.root.below relative) relative realPath (t.onto other) =
        (visitFile rules (rules.root.below relative) relative realPath t).onto other ∧
      (visitFile rules (rules.root.below relative) relative realPath t).disk = d := by
  obtain ⟨read, read'⟩ := alike.reads relative goal links rules.settings.maxFileBytes comes
  have told : (t.onto other).disk.stat (rules.root.below relative) =
      t.disk.stat (rules.root.below relative) := by
    rw [disk]
    exact alike.stats relative goal links comes
  have seen : (t.onto other).seen = t.seen := rfl
  unfold visitFile
  simp only [seen, told]
  split
  · exact ⟨rfl, disk⟩
  split
  · exact ⟨rfl, disk⟩
  cases t.disk.stat (rules.root.below relative) with
  | error e => exact ⟨rfl, disk⟩
  | ok item =>
    simp only
    let counted : Tally := { t with
      counts := { t.counts with scanned := t.counts.scanned + 1 }
      seen := realPath :: t.seen }
    have same : counted.disk = d := disk
    exact carries_recordFile read read' same _ _

/-! ### Steps -/

theorem carries_childFrame (rules : Rules) (disk : t.disk = d) (parent : Frame) (path : Path)
    (relative : String) (realPath : Path) (isLink : Bool) :
    Carries d other (childFrame rules parent path relative realPath isLink t)
      (childFrame rules parent path relative realPath isLink (t.onto other)) := by
  unfold childFrame
  split
  · exact ⟨rfl, disk⟩
  simp only
  split
  · exact ⟨rfl, disk⟩
  · exact ⟨rfl, disk⟩

theorem carries_unresolved (disk : t.disk = d) (relative : String) (e : FileError) :
    Carries d other (unresolved relative e t) (unresolved relative e (t.onto other)) := by
  unfold unresolved
  split
  · exact ⟨rfl, disk⟩
  · exact ⟨rfl, disk⟩

theorem carries_visitEntry (alike : AnswersAlike rules d other) (proper : d.IsProper)
    (entered : frame.IsEntered rules d place) {item : Item}
    (stands : d.item? (place ++ [name]) = some item) (disk : t.disk = d) :
    Carries d other (visitEntry rules frame name item t)
      (visitEntry rules frame name item (t.onto other)) := by
  have isName := proper.named place name (by simp [stands])
  have below := Frame.IsEntered.child_eq entered.tracked isName
  have there : (t.onto other).disk = other := rfl
  have resolves := alike.resolves frame place name entered
  unfold visitEntry
  simp only
  rw [there, disk]
  cases item with
  | link target =>
    simp only
    split
    · exact ⟨rfl, disk⟩
    · exact ⟨rfl, disk⟩
  | directory =>
    simp only
    rw [resolves (Disk.isSolid_of_directory stands)]
    split
    · exact carries_unresolved disk _ _
    · rename_i real _
      have child : Carries d other _ _ := carries_childFrame rules disk frame
        (frame.directory.child name) (frame.lead ++ name) real false
      exact ⟨by rw [child.same], child.disk⟩
  | file data modified =>
    have solid : d.IsSolid (place ++ [name]) := ⟨by simp [stands], by simp [stands]⟩
    simp only
    rw [resolves solid]
    split
    · exact carries_unresolved disk _ _
    · have comes : Comes rules d (frame.lead ++ name) (place ++ [name]) (frame.linkDepth + 0) :=
        entered.comes isName (.entry solid) entered.tracked.few
      rw [below]
      obtain ⟨same, disk⟩ := carries_visitFile alike comes ‹_› disk
      exact ⟨by rw [same], disk⟩
  | special => exact ⟨rfl, disk⟩

theorem carries_visitEntries (alike : AnswersAlike rules d other) (proper : d.IsProper)
    (entered : frame.IsEntered rules d place) (todo : List (String × Item))
    (stand : ∀ name item, (name, item) ∈ todo → d.item? (place ++ [name]) = some item)
    (t : Tally) (disk : t.disk = d) :
    Carries d other (visitEntries rules frame todo t)
      (visitEntries rules frame todo (t.onto other)) := by
  induction todo generalizing t with
  | nil => exact ⟨rfl, disk⟩
  | cons entry rest ih =>
    obtain ⟨name, item⟩ := entry
    obtain ⟨same, disk⟩ := carries_visitEntry alike proper entered
      (stand name item (List.mem_cons_self ..)) disk
    unfold visitEntries
    rw [same]
    cases step : visitEntry rules frame name item t with
    | mk finding middle =>
      rw [step] at disk
      cases finding with
      | error e => exact ⟨rfl, disk⟩
      | ok some =>
        obtain ⟨same, disk⟩ := ih (fun name item member => stand name item
          (List.mem_cons_of_mem _ member)) middle disk
        simp only
        rw [same]
        cases steps : visitEntries rules frame rest middle with
        | mk finding last =>
          rw [steps] at disk
          cases finding with
          | error e => exact ⟨rfl, disk⟩
          | ok others => exact ⟨rfl, disk⟩

theorem carries_scanDirectory (alike : AnswersAlike rules d other) (proper : d.IsProper)
    (tracked : frame.IsTracked rules d) (disk : t.disk = d) :
    Carries d other (scanDirectory rules frame t) (scanDirectory rules frame (t.onto other)) := by
  have there : (t.onto other).disk = other := rfl
  unfold scanDirectory
  rw [there, disk, alike.lists frame tracked]
  cases listed : d.list frame.directory with
  | error e => exact ⟨rfl, disk⟩
  | ok entries =>
    obtain ⟨place, opened, rfl⟩ := Disk.list_eq_ok listed
    refine carries_visitEntries alike proper ⟨tracked, opened⟩ _ (fun name item member => ?_) t
      disk
    obtain ⟨other, -, same⟩ := List.mem_filterMap.mp member
    obtain ⟨there, stands, pair⟩ := Option.map_eq_some_iff.mp same
    cases pair
    exact stands

theorem carries_visitLink (alike : AnswersAlike rules d other) (proper : d.IsProper)
    {link : Pending} (tracked : link.IsTracked rules d) (disk : t.disk = d) :
    Carries d other (visitLink rules link t) (visitLink rules link (t.onto other)) := by
  obtain ⟨place, name, text, entered, isName, path, relative, isLink⟩ := tracked.stands
  have below := Frame.IsEntered.child_eq entered.tracked isName
  have there : (t.onto other).disk = other := rfl
  have same := alike.links link tracked
  unfold Disk.followed at same
  unfold visitLink
  simp only [there, disk]
  split
  · exact ⟨rfl, disk⟩
  rename_i few
  have few : link.parent.linkDepth + 1 ≤ rules.settings.maxLinkDepth.toNat := by omega
  generalize (other.resolve true link.path).bind _ = theirs at same ⊢
  generalize own : (d.resolve true link.path).bind _ = mine at same ⊢
  cases mine with
  | error e =>
    cases theirs with
    | error e' => exact ⟨rfl, disk⟩
    | ok found => cases same
  | ok found =>
    cases theirs with
    | error e => cases same
    | ok found' =>
      obtain ⟨target, item⟩ := found
      obtain ⟨target', item'⟩ := found'
      simp only [Except.toOption, Option.map_some, Option.some.injEq, Prod.mk.injEq] at same
      obtain ⟨rfl, kind⟩ := same
      obtain ⟨resolved, told⟩ := resolve_of_found own
      simp only
      split
      · exact ⟨rfl, disk⟩
      split
      · exact ⟨rfl, disk⟩
      rename_i inside
      cases item with
      | directory =>
        obtain rfl := Item.eq_directory_of_bare kind
        simp only
        split
        · exact ⟨rfl, disk⟩
        · exact carries_childFrame rules disk ..
      | file data modified =>
        obtain ⟨data', rfl⟩ := Item.eq_file_of_bare kind
        obtain ⟨goal, rfl, -⟩ := Disk.solid_of_resolve proper resolved
        rw [path, below, Path.below, entered.tracked.placed.opens name isName] at resolved
        have comes := entered.comes isName (.link isLink resolved (by simpa using inside)) few
        rw [path, relative, below]
        obtain ⟨same, disk⟩ := carries_visitFile alike comes _ disk
        exact ⟨by rw [same], disk⟩
      | link target =>
        obtain rfl := Item.eq_link_of_bare kind
        exact ⟨rfl, disk⟩
      | special =>
        obtain rfl := Item.eq_special_of_bare kind
        exact ⟨rfl, disk⟩

/-! ### Walks -/

theorem Walk.carries_next (alike : AnswersAlike rules d other) (proper : d.IsProper) {w : Walk}
    (tracked : w.IsTracked rules d) (disk : w.tally.disk = d) :
    (w.onto other).next? rules = (w.next? rules).map (·.onto other) ∧
      ∀ next, w.next? rules = some next → next.tally.disk = d := by
  have stack : (w.onto other).stack = w.stack := rfl
  have pending : (w.onto other).pending = w.pending := rfl
  have tally : (w.onto other).tally = w.tally.onto other := rfl
  unfold Walk.next?
  rw [stack, pending, tally]
  cases first : w.stack with
  | cons frame rest =>
    obtain ⟨same, disk⟩ := carries_scanDirectory alike proper
      (tracked.frames frame (by rw [first]; exact List.mem_cons_self ..)) disk
    simp only
    rw [same]
    cases scanned : scanDirectory rules frame w.tally with
    | mk finding after =>
      rw [scanned] at disk
      cases finding with
      | error e =>
        refine ⟨rfl, fun next step => ?_⟩
        cases step
        exact disk
      | ok finds =>
        refine ⟨rfl, fun next step => ?_⟩
        cases step
        exact disk
  | nil =>
    cases links : w.pending with
    | nil => exact ⟨rfl, fun next step => by cases step⟩
    | cons link rest =>
      obtain ⟨same, disk⟩ := carries_visitLink alike proper
        (tracked.links link (by rw [links]; exact List.mem_cons_self ..)) disk
      simp only
      rw [same]
      refine ⟨rfl, fun next step => ?_⟩
      cases step
      exact disk

theorem Walk.carries_finish (alike : AnswersAlike rules d other) (proper : d.IsProper) {w : Walk}
    (tracked : w.IsTracked rules d) (disk : w.tally.disk = d) :
    (w.onto other).finish rules = (w.finish rules).onto other ∧
      (w.finish rules).tally.disk = d := by
  induction weight : w.weight rules using Nat.strongRecOn generalizing w with
  | ind n ih =>
    obtain ⟨same, disks⟩ := Walk.carries_next alike proper tracked disk
    cases step : w.next? rules with
    | none =>
      rw [step] at same
      rw [Walk.finish_of_none step, Walk.finish_of_none same]
      exact ⟨rfl, disk⟩
    | some next =>
      rw [step] at same
      rw [Walk.finish_of_some step, Walk.finish_of_some same]
      exact ih _ (weight ▸ Walk.weight_next step) (Walk.isTracked_next proper tracked step)
        (disks next step) rfl

/-! ### Scans -/

theorem scan_of_answersAlike {config : Config} {previous : Entries FileNode} (proper : d.IsProper)
    (ruled : rulesFor config previous d = .ok rules)
    (ruled' : rulesFor config previous other = .ok rules) (alike : AnswersAlike rules d other) :
    scan config previous other =
      { scan config previous d with disk := other } ∧ (scan config previous d).disk = d := by
  obtain ⟨same, disk⟩ := Walk.carries_finish alike proper (Walk.isTracked_start rules d) rfl
  have start : (Walk.start rules d).onto other = Walk.start rules other := rfl
  rw [start] at same
  simp only [scan, ruled, ruled', same]
  exact ⟨rfl, disk⟩

end Scan
end SourceIndex
