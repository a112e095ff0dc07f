import SourceIndex.Proofs.Scan.Step
/-!
# Steps side by side

A step finds the same whether digests are taken from an earlier scan or not, and the tallies after
it differ in the contents of files at most.
-/

namespace SourceIndex.Scan
variable {rules : Rules} {d : Disk} {t other : Tally}

/-- Steps that find the same and leave tallies that differ in the contents of files at most. -/
structure Alike {α : Type} (step second : α × Tally) : Prop where
  found : step.1 = second.1
  similar : Similar step.2 second.2

theorem isKept_faithful (still : d.IsStill) (right : rules.AreRight d) :
    IsKept rules d (Tally.IsFaithful rules d) where
  bare _ faithful := congrArg Disk.bare faithful.disk
  same _ _ faithful _ files disk := faithful.of_eq disk files
  visit _ _ _ realPath faithful below isFile _ :=
    isFaithful_visitFile still right faithful below isFile realPath

theorem alike_unresolved (similar : Similar t other) (relative : String) (e : FileError) :
    Alike (unresolved relative e t) (unresolved relative e other) := by
  unfold unresolved
  split
  · exact ⟨rfl, similar.fail _ _⟩
  · exact ⟨rfl, similar⟩

theorem alike_childFrame (rules : Rules) (similar : Similar t other) (parent : Frame) (path : Path)
    (relative : String) (realPath : Path) (isLink : Bool) :
    Alike (childFrame rules parent path relative realPath isLink t)
      (childFrame rules.fresh parent path relative realPath isLink other) := by
  unfold childFrame
  simp only [show acceptsDirectory rules.fresh path.name relative realPath =
    acceptsDirectory rules path.name relative realPath from rfl,
    show rules.fresh.settings = rules.settings from rfl]
  split
  · exact ⟨rfl, similar.skipDirectory⟩
  split
  · exact ⟨rfl, (similar.note _).skipDirectory⟩
  · exact ⟨rfl, similar⟩

theorem alike_visitEntry (proper : d.IsProper) (still : d.IsStill) (right : rules.AreRight d)
    {frame : Frame} (placed : frame.IsPlaced rules) {entries : List (String × Item)}
    (listed : d.list frame.directory = .ok entries) {name : String} {item : Item}
    (member : (name, item) ∈ entries) (faithful : t.IsFaithful rules d)
    (similar : Similar t other) :
    Alike (visitEntry rules frame name item t) (visitEntry rules.fresh frame name item other) := by
  have isName := Disk.isName_of_mem_list proper listed member
  have below : frame.directory.child name = rules.root.below (frame.lead ++ name) := by
    rw [Path.below_name _ placed.opens isName, placed.directory]
  unfold visitEntry
  rw [← similar.disk]
  cases item with
  | link target =>
    simp only [show rules.fresh.settings = rules.settings from rfl]
    split
    · exact ⟨rfl, similar⟩
    · exact ⟨rfl, similar.skipLink⟩
  | directory =>
    simp only
    split
    · exact alike_unresolved similar _ _
    · have child := alike_childFrame rules similar frame (frame.directory.child name)
        (frame.lead ++ name) ‹_› false
      exact ⟨by rw [child.found], child.similar⟩
  | file data modified =>
    simp only
    split
    · exact alike_unresolved similar _ _
    · have isFile : d.IsFileAt (frame.directory.child name) := fun _ told =>
        ⟨data, modified, Disk.stat_child proper listed member (by simp) told⟩
      exact ⟨rfl, similar.visitFile still right faithful.disk below isFile _⟩
  | special => exact ⟨rfl, similar.skipFile⟩

theorem alike_visitEntries (proper : d.IsProper) (still : d.IsStill) (right : rules.AreRight d)
    {frame : Frame} (placed : frame.IsPlaced rules) {entries : List (String × Item)}
    (listed : d.list frame.directory = .ok entries) (todo : List (String × Item))
    (inside : ∀ entry ∈ todo, entry ∈ entries) (faithful : t.IsFaithful rules d)
    (similar : Similar t other) :
    Alike (visitEntries rules frame todo t) (visitEntries rules.fresh frame todo other) := by
  induction todo generalizing t other with
  | nil => exact ⟨rfl, similar⟩
  | cons entry rest ih =>
    obtain ⟨name, item⟩ := entry
    have member := inside _ (List.mem_cons_self ..)
    have first := alike_visitEntry proper still right placed listed member faithful similar
    have kept := (stays_visitEntry proper (isKept_faithful still right) placed rfl listed member
      faithful).1
    unfold visitEntries
    generalize visitEntry rules frame name item t = step at first kept
    generalize visitEntry rules.fresh frame name item other = second at first
    obtain ⟨finding, middle⟩ := step
    obtain ⟨finding', middle'⟩ := second
    obtain ⟨found, similar⟩ := first
    cases (show finding = finding' from found)
    cases finding with
    | error e => exact ⟨rfl, similar⟩
    | ok some =>
      have later := ih (fun entry among => inside entry (List.mem_cons_of_mem _ among)) kept similar
      simp only
      generalize visitEntries rules frame rest middle = steps at later
      generalize visitEntries rules.fresh frame rest middle' = others at later
      obtain ⟨finding, last⟩ := steps
      obtain ⟨finding', last'⟩ := others
      obtain ⟨found, similar⟩ := later
      cases (show finding = finding' from found)
      cases finding with
      | error e => exact ⟨rfl, similar⟩
      | ok others => exact ⟨rfl, similar⟩

theorem alike_scanDirectory (proper : d.IsProper) (still : d.IsStill) (right : rules.AreRight d)
    {frame : Frame} (placed : frame.IsPlaced rules) (faithful : t.IsFaithful rules d)
    (similar : Similar t other) :
    Alike (scanDirectory rules frame t) (scanDirectory rules.fresh frame other) := by
  unfold scanDirectory
  rw [← similar.disk, faithful.disk]
  cases listed : d.list frame.directory with
  | error e => exact ⟨rfl, (similar.note _).skipDirectory⟩
  | ok entries =>
    exact alike_visitEntries proper still right placed listed entries
      (fun entry member => member) faithful similar

theorem alike_visitLink (proper : d.IsProper) (still : d.IsStill) (right : rules.AreRight d)
    {link : Pending} (below : link.path = rules.root.below link.relative)
    (faithful : t.IsFaithful rules d) (similar : Similar t other) :
    Alike (visitLink rules link t) (visitLink rules.fresh link other) := by
  unfold visitLink
  rw [← similar.disk, faithful.disk]
  simp only [show rules.fresh.settings = rules.settings from rfl,
    show rules.fresh.root = rules.root from rfl]
  split
  · exact ⟨rfl, similar.rejectLink _ _⟩
  cases resolved : d.resolve true link.path with
  | error e => exact ⟨rfl, similar.rejectLink _ _⟩
  | ok target =>
    cases told : d.stat target with
    | error e =>
      simp only [Except.bind, told, Except.map]
      exact ⟨rfl, similar.rejectLink _ _⟩
    | ok item =>
      simp only [Except.bind, told, Except.map]
      split
      · exact ⟨rfl, similar.rejectLink _ _⟩
      split
      · exact ⟨rfl, similar.rejectLink _ _⟩
      cases item with
      | directory =>
        simp only
        split
        · exact ⟨rfl, similar.rejectLink _ _⟩
        · exact alike_childFrame rules similar link.parent link.path link.relative target true
      | file data modified =>
        have isFile := isFileAt_link proper resolved told
        exact ⟨rfl, similar.visitFile still right faithful.disk below isFile target⟩
      | link text => exact ⟨rfl, similar.rejectLink _ _⟩
      | special => exact ⟨rfl, similar.rejectLink _ _⟩

end SourceIndex.Scan
