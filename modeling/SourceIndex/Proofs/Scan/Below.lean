import SourceIndex.Proofs.FileSystem.Below
import SourceIndex.Proofs.Scan.Carry
import SourceIndex.Proofs.Scan.DataDirectory
/-!
# What lies below the data directory is not scanned

No walk goes into the data directory. Where no link of the workspace leads below it, either, a scan
is the same whether the data directory is empty or holds something.
-/

namespace SourceIndex.Scan
variable {rules : Rules} {d other : Disk} {base data place goal : Place} {names : List String}
  {name : String} {links : Nat}

/-- No link in a directory or below it leads below the data directory. -/
def HasNoLinksInto (d : Disk) (base data : Place) : Prop :=
  ∀ place name target, base <+: place → d.item? (place ++ [name]) = some (.link target) →
    ¬ Disk.LeadsBelow d data place [name]

/-- A workspace with a real root that is not the data directory, on a disk with nothing below the
data directory and on one with something there. -/
structure Spares (rules : Rules) (base data : Place) (d other : Disk) : Prop where
  root : rules.root = Disk.pathTo base
  directory : d.item? base = some .directory
  placed : rules.dataDir = Disk.pathTo data
  apart : base ≠ data
  fills : Disk.Fills data d other
  noLinks : HasNoLinksInto d base data
  proper : d.IsProper
  proper' : other.IsProper

namespace Spares

theorem find_root (spares : Spares rules base data d other) {place : Place} {item : Option Item}
    (found : d.find true rules.root = .ok (place, item)) : place = base := by
  rw [spares.root] at found
  exact (Disk.isSolid_of_directory spares.directory).find_pathTo spares.proper found

theorem prefix_of_trail (spares : Spares rules base data d other)
    (trail : Trail rules d names place links) : base <+: place := by
  obtain ⟨base', found, below⟩ := trail.inside spares.proper
  rwa [spares.find_root found] at below

theorem ne_data (spares : Spares rules base data d other) (trail : Trail rules d names place links)
    (enters : Enters rules d names place) : place ≠ data := by
  refine trail.ne_of_enters spares.proper spares.root spares.directory spares.placed ?_ enters
  rw [spares.placed, spares.root]
  exact fun same => spares.apart (congrArg Path.segments same).symm

/-! ### Trails -/

theorem not_leadsBelow_of_meets (spares : Spares rules base data d other)
    (trail : Trail rules d names place links) {more : Nat}
    (meets : Meets rules d names place name goal more) :
    ¬ Disk.LeadsBelow d data place [name] := by
  cases meets with
  | entry there => exact Disk.not_leadsBelow_place spares.fills spares.proper there
  | link isLink => exact spares.noLinks place name _ (spares.prefix_of_trail trail) isLink

/-- One name more after a directory that is gone into leads below the data directory if it does so
from there. -/
theorem not_misleads_under (spares : Spares rules base data d other)
    (enters : Enters rules d names place) (clear : ¬ Disk.LeadsBelow d data place [name]) :
    ¬ d.Misleads data (rules.root.under (names ++ [name])) := by
  have start : d.startOf (rules.root.under (names ++ [name])) = [] := by
    rw [spares.root]
    rfl
  have start' : d.startOf (rules.root.under names) = [] := by
    rw [spares.root]
    rfl
  have walks := Disk.walks_of_walk (Disk.find_eq_ok enters.opened)
  have shape : (rules.root.under (names ++ [name])).segments =
      (rules.root.under names).segments ++ [name] := by
    simp [Path.under]
  rw [start'] at walks
  unfold Disk.Misleads
  rw [start, shape]
  exact walks.not_leadsBelow spares.fills spares.proper rfl (Disk.not_isBelow_nil data) clear

theorem not_misleads_pathTo (spares : Spares rules base data d other) (solid : d.IsSolid place) :
    ¬ d.Misleads data (Disk.pathTo place) :=
  Disk.not_misleads_pathTo spares.fills spares.proper solid

theorem not_misleads_of_trail (spares : Spares rules base data d other)
    (trail : Trail rules d names goal links) : ¬ d.Misleads data (rules.root.under names) := by
  cases trail with
  | root =>
    rw [under_nil, spares.root]
    exact spares.not_misleads_pathTo (Disk.isSolid_of_directory spares.directory)
  | step trail enters meets =>
    exact spares.not_misleads_under enters (spares.not_leadsBelow_of_meets trail meets)

theorem solid_of_trail (spares : Spares rules base data d other)
    (trail : Trail rules d names goal links) : d.IsSolid goal := by
  cases trail with
  | root found =>
    rw [spares.find_root found]
    exact Disk.isSolid_of_directory spares.directory
  | step _ _ meets => exact meets.solid spares.proper

theorem solid_other (spares : Spares rules base data d other) (solid : d.IsSolid place) :
    other.IsSolid place := by
  have same := spares.fills.item place (spares.fills.not_isBelow solid.there)
  exact ⟨same ▸ solid.there, same ▸ solid.noLink⟩

theorem resolve_of_trails (spares : Spares rules base data d other)
    (trail : Trail rules d names goal links) (trail' : Trail rules other names goal links) :
    other.resolve false (rules.root.under names) = d.resolve false (rules.root.under names) := by
  have directory' : other.item? base = some .directory := by
    rw [spares.fills.item base (spares.fills.not_isBelow (by simp [spares.directory])),
      spares.directory]
  obtain ⟨met, ends⟩ := trail.resolves spares.proper spares.root spares.directory
  obtain ⟨met', ends'⟩ := trail'.resolves spares.proper' spares.root directory'
  exact Disk.resolve_eq_of_at spares.fills.defects ends ends'
    (Disk.stat_eq_of_fills spares.fills spares.proper spares.proper'
      (spares.not_misleads_pathTo (spares.solid_of_trail trail)))

theorem trail_other (spares : Spares rules base data d other)
    (trail : Trail rules d names goal links) : Trail rules other names goal links := by
  induction trail with
  | root found =>
    refine .root ?_
    rw [← under_nil rules.root] at found ⊢
    rw [Disk.find_eq_of_fills spares.fills spares.proper spares.proper'
      (spares.not_misleads_of_trail (.root (under_nil rules.root ▸ found))), found]
  | @step names place goal name links more trail enters meets ih =>
    refine .step ih ⟨?_, fun something => ?_⟩ ?_
    · rw [Disk.find_eq_of_fills spares.fills spares.proper spares.proper'
        (spares.not_misleads_of_trail trail), enters.opened]
    · obtain ⟨real, resolved, differs⟩ := enters.accepted something
      exact ⟨real, by rw [spares.resolve_of_trails trail ih, resolved], differs⟩
    · have clear := spares.not_misleads_under enters (spares.not_leadsBelow_of_meets trail meets)
      cases meets with
      | entry there => exact .entry (spares.solid_other there)
      | link isLink resolved inside =>
        have outside : ¬ Disk.IsBelow data (place ++ [name]) :=
          spares.fills.not_isBelow (by simp [isLink])
        refine .link (by rw [spares.fills.item _ outside, isLink]) ?_ inside
        exact Disk.resolve_ok_of_fills spares.fills clear resolved

/-! ### Answers -/

theorem not_misleads_of_tracked (spares : Spares rules base data d other) {frame : Frame}
    (tracked : frame.IsTracked rules d) : ¬ d.Misleads data frame.directory := by
  have directory : frame.directory = rules.root.under (Path.ofText frame.lead).segments :=
    tracked.placed.directory
  rw [directory]
  by_cases first : (Path.ofText frame.lead).segments = []
  · rw [first, under_nil, spares.root]
    exact spares.not_misleads_pathTo (Disk.isSolid_of_directory spares.directory)
  · obtain ⟨goal, trail⟩ := tracked.leads first
    exact spares.not_misleads_of_trail trail

/-- What a walk asks for does not tell whether there is something below the data directory. -/
theorem answersAlike (spares : Spares rules base data d other) (still : d.IsStill) :
    AnswersAlike rules d other where
  lists frame tracked := by
    refine Disk.list_eq_of_fills spares.fills spares.proper spares.proper'
      (spares.not_misleads_of_tracked tracked) fun place found => ?_
    have entered : frame.IsEntered rules d place := ⟨tracked, found⟩
    exact spares.ne_data entered.trail entered.enters
  resolves frame place name entered solid := by
    have isName := spares.proper.named place name solid.there
    have trail : Trail rules d _ _ _ := .step entered.trail entered.enters (.entry solid)
    have path : frame.directory.child name =
        rules.root.under ((Path.ofText frame.lead).segments ++ [name]) := by
      rw [Frame.IsEntered.child_eq entered.tracked isName, Path.below,
        entered.tracked.placed.opens name isName]
      rfl
    rw [path]
    exact spares.resolve_of_trails trail (spares.trail_other trail)
  links link tracked := by
    obtain ⟨place, name, target, entered, isName, path, -, isLink⟩ := tracked.stands
    have path : link.path = rules.root.under
        ((Path.ofText link.parent.lead).segments ++ [name]) := by
      rw [path, Frame.IsEntered.child_eq entered.tracked isName, Path.below,
        entered.tracked.placed.opens name isName]
      rfl
    have clear : ¬ d.Misleads data link.path := by
      rw [path]
      exact spares.not_misleads_under entered.enters
        (spares.noLinks place name target (spares.prefix_of_trail entered.trail) isLink)
    have same := Disk.toOption_resolve_of_fills spares.fills clear
    unfold Disk.followed
    cases resolved : d.resolve true link.path with
    | error e =>
      obtain ⟨e', resolved'⟩ :=
        toOption_eq_none_iff.mp (same.trans (toOption_eq_none_iff.mpr ⟨e, resolved⟩))
      rw [resolved']
      rfl
    | ok real =>
      obtain ⟨goal, rfl, solid, -⟩ := Disk.solid_of_resolve spares.proper resolved
      rw [Disk.resolve_ok_of_fills spares.fills clear resolved]
      simp only [Except.bind, Disk.stat_eq_of_fills spares.fills spares.proper spares.proper'
        (spares.not_misleads_pathTo solid)]
  stats _ _ _ comes :=
    Disk.stat_eq_of_fills spares.fills spares.proper spares.proper'
      (spares.not_misleads_of_trail comes.trail)
  reads _ _ _ limit comes :=
    Disk.readBounded_eq_of_fills spares.fills spares.proper spares.proper'
      (spares.not_misleads_of_trail comes.trail) still limit

end Spares

/-! ### Roots -/

section
variable {config : Config} {previous : Entries FileNode} {text : String} {root : Path}
  (fills : Disk.Fills data d other) (proper : d.IsProper) (proper' : other.IsProper)
  (rooted : d.resolve true (.ofText text) = .ok (Disk.pathTo base))

theorem hasDirectory_of_resolveRoot (resolved : resolveRoot d text = .ok root) :
    d.hasDirectory (.ofText text) = .ok true := by
  unfold resolveRoot at resolved
  split at resolved
  · cases resolved
  simp only at resolved
  split at resolved
  · cases resolved
  rename_i isDirectory told
  split at resolved
  · cases resolved
  · cases resolved
  split at resolved
  · cases resolved
  · rename_i yes
    rw [told]
    simpa using yes

include rooted

theorem directory_of_resolveRoot (proper : d.IsProper) (resolved : resolveRoot d text = .ok root) :
    root = Disk.pathTo base ∧ d.item? base = some .directory ∧
      d.find true (.ofText text) = .ok (base, some .directory) := by
  have lenient := resolve_of_resolveRoot resolved
  obtain ⟨goal, found⟩ := Disk.find_of_hasDirectory (hasDirectory_of_resolveRoot resolved)
  obtain ⟨goal', same, -, ends⟩ := Disk.solid_of_resolve proper rooted
  cases same
  obtain rfl := ends goal _ found
  exact ⟨Disk.resolve_unique rooted lenient,
    ((Disk.walks_of_walk (Disk.find_eq_ok found)).item_eq).symm, found⟩

include fills proper proper'

theorem resolveRoot_of_fills (resolved : resolveRoot d text = .ok root) :
    resolveRoot other text = .ok root := by
  obtain ⟨-, directory, found⟩ := directory_of_resolveRoot rooted proper resolved
  have inside : ¬ Disk.IsBelow data base := fills.not_isBelow (by simp [directory])
  have clear : ¬ d.Misleads data (.ofText text) := by
    have walks := Disk.walks_of_walk (Disk.find_eq_ok found)
    have start : ¬ Disk.IsBelow data (d.startOf (.ofText text)) :=
      fills.not_isBelow (by simp [proper.tree.startOf])
    have ends : ¬ Disk.LeadsBelow d data base [] := by rwa [Disk.leadsBelow_nil]
    have clear := walks.not_leadsBelow fills proper rfl start ends
    rwa [List.append_nil] at clear
  have stat := Disk.stat_eq_of_fills fills proper proper' clear
  have lookUp := Disk.lookUp_eq_of_fills fills proper proper' clear
  have real : other.resolve false (.ofText text) = d.resolve false (.ofText text) := by
    obtain ⟨goal, met, ends, same, -⟩ := Disk.resolve_eq_ok rooted
    obtain ⟨goal', met', ends', same', -⟩ :=
      Disk.resolve_eq_ok (Disk.resolve_ok_of_fills fills clear rooted)
    cases same
    cases same'
    refine Disk.resolve_eq_of_at fills.defects (Disk.resolvePieces_of_strict ends)
      (Disk.resolvePieces_of_strict ends') ?_
    exact Disk.stat_eq_of_fills fills proper proper'
      (Disk.not_misleads_pathTo fills proper (Disk.isSolid_of_directory directory))
  rw [← resolved]
  unfold resolveRoot Disk.hasDirectory Disk.hasAnything Disk.mayRead
  simp only [fills.defects, stat, lookUp, real]

end

theorem scan_of_fills {config : Config} {previous : Entries FileNode} (proper : d.IsProper)
    (proper' : other.IsProper) (still : d.IsStill) (fills : Disk.Fills data d other)
    (rooted : d.resolve true (.ofText config.root.text) = .ok (Disk.pathTo base))
    (placed : config.dataDir = Disk.pathTo data) (apart : base ≠ data)
    (noLinks : HasNoLinksInto d base data) (ruled : rulesFor config previous d = .ok rules) :
    scan config previous other =
      { scan config previous d with disk := other } ∧ (scan config previous d).disk = d := by
  obtain ⟨-, -, resolved, dataDir⟩ := rulesFor_eq_ok ruled
  obtain ⟨root, directory, -⟩ := directory_of_resolveRoot rooted proper resolved
  have ruled' : rulesFor config previous other = .ok rules := by
    rw [← ruled]
    unfold rulesFor
    rw [resolved, resolveRoot_of_fills fills proper proper' rooted resolved]
  have spares : Spares rules base data d other :=
    ⟨root, directory, dataDir.trans placed, apart, fills, noLinks, proper, proper'⟩
  exact scan_of_answersAlike proper ruled ruled' (spares.answersAlike still)

end SourceIndex.Scan
