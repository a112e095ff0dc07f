import SourceIndex.Proofs.Scan.Below
import SourceIndex.Proofs.Scan.Direct
import SourceIndex.Proofs.Scan.Reading
import SourceIndex.Proofs.Scan.Way
/-!
# Chains of directories

The chain of a directory that is stacked holds the real paths on the way down to it, each of them
once. Links are tested against it, entries of directories are not, so it is shorter than the way
where a directory comes twice.
-/

namespace SourceIndex.Scan
variable {rules : Rules} {d : Disk} {name : String} {place : Place}

/-! ### Frames -/

/-- The chain of a directory holds the real paths on the way down to it. -/
structure Frame.IsChained (rules : Rules) (d : Disk) (frame : Frame) : Prop where
  way : Way rules d (Path.ofText frame.lead).segments frame.linkDepth
  distinct : frame.chain.Nodup
  holds : ∀ real, real ∈ frame.chain ↔
    real ∈ d.realsAlong rules.root (Path.ofText frame.lead).segments
  last : (d.realsAlong rules.root (Path.ofText frame.lead).segments).getLast? =
    some frame.realPath

variable {frame inner : Frame} {t after : Tally} {path realPath : Path} {relative : String}

theorem Frame.IsChained.child (chained : frame.IsChained rules d)
    (entered : frame.IsEntered rules d place) (isName : IsName name) (isLink : Bool)
    (resolved : d.resolve false
      (rules.root.under ((Path.ofText frame.lead).segments ++ [name])) = .ok realPath)
    (way : Way rules d ((Path.ofText frame.lead).segments ++ [name])
      (frame.linkDepth + (if isLink then 1 else 0)))
    (taken : (childFrame rules frame path (frame.lead ++ name) realPath isLink t).1 =
      some inner) : inner.IsChained rules d := by
  obtain ⟨-, -, rfl⟩ := childFrame_eq_some taken
  have segments : (Path.ofText (frame.lead ++ name ++ "/")).segments =
      (Path.ofText frame.lead).segments ++ [name] := by
    rw [Path.segments_ofText_slash, entered.tracked.placed.opens name isName]
  have reals := Disk.realsAlong_concat resolved
  have holds := chained.holds
  rw [← segments] at way resolved reals
  refine ⟨way, ?_, fun real => ?_, ?_⟩
  · simp only
    split
    · exact chained.distinct
    · rename_i fresh
      rw [← List.concat_eq_append, List.nodup_concat]
      exact ⟨by simpa using fresh, chained.distinct⟩
  · rw [reals, List.mem_append, List.mem_singleton, ← holds]
    simp only
    split
    · rename_i known
      have member : realPath ∈ frame.chain := List.contains_iff_mem.mp known
      exact ⟨.inl, fun either => either.elim id fun same => same ▸ member⟩
    · rw [List.mem_append, List.mem_singleton]
  · rw [reals, List.getLast?_concat]

theorem childFrame_of_mem_visitEntry {item : Item} {finds : Finds} (bare : t.disk.bare = d.bare)
    (step : visitEntry rules frame name item t = (.ok finds, after))
    (member : inner ∈ finds.frames) :
    item = .directory ∧ ∃ real, d.resolve false (frame.directory.child name) = .ok real ∧
      (childFrame rules frame (frame.directory.child name) (frame.lead ++ name) real false t).1 =
        some inner := by
  have nothing {e : FileError} (step : unresolved (frame.lead ++ name) e t = (.ok finds, after)) :
      inner ∉ finds.frames := by
    unfold unresolved at step
    split at step
    · cases step
      exact List.not_mem_nil
    · cases step
  have visit := entryVisit rules frame name item t
  generalize visitEntry rules frame name item t = found at step visit
  cases visit with
  | @directory real resolved =>
    cases step
    rw [Disk.resolve_of_bare bare] at resolved
    exact ⟨rfl, real, resolved, Option.mem_toList.mp member⟩
  | noDirectory refused => exact absurd member (nothing step)
  | noFile refused => exact absurd member (nothing step)
  | pending target => cases step; cases member
  | skipped target => cases step; cases member
  | file resolved => cases step; cases member
  | special => cases step; cases member

theorem childFrame_of_mem_visitEntries {entries : List (String × Item)} {finds : Finds}
    (bare : t.disk.bare = d.bare)
    (steps : visitEntries rules frame entries t = (.ok finds, after))
    (member : inner ∈ finds.frames) :
    ∃ name real middle, (name, .directory) ∈ entries ∧
      d.resolve false (frame.directory.child name) = .ok real ∧
      (childFrame rules frame (frame.directory.child name) (frame.lead ++ name) real false
        middle).1 = some inner := by
  have visit := entriesVisit rules frame entries t
  generalize visitEntries rules frame entries t = result at visit steps
  induction visit generalizing finds with
  | done =>
    cases steps
    cases member
  | breaks => cases steps
  | breaksLater => cases steps
  | @next name item _ t _ _ _ _ step _ ih =>
    cases steps
    have same : (visitEntry rules frame name item t).2.disk.bare = t.disk.bare :=
      keeps_visitEntry (Disk.keptByReading_bare t.disk) frame name item rfl
    rw [step] at same
    rcases List.mem_append.mp member with here | there
    · obtain ⟨rfl, real, resolved, taken⟩ := childFrame_of_mem_visitEntry bare step here
      exact ⟨name, real, t, List.mem_cons_self .., resolved, taken⟩
    · obtain ⟨name, real, middle, among, rest⟩ := ih (same.trans bare) there rfl
      exact ⟨name, real, middle, List.mem_cons_of_mem _ among, rest⟩

theorem isChained_scanDirectory (proper : d.IsProper) (tracked : frame.IsTracked rules d)
    (chained : frame.IsChained rules d) (bare : t.disk.bare = d.bare) {finds : Finds}
    (step : scanDirectory rules frame t = (.ok finds, after)) (member : inner ∈ finds.frames) :
    inner.IsChained rules d := by
  unfold scanDirectory at step
  cases listed : t.disk.list frame.directory with
  | error e =>
    rw [listed] at step
    cases step
    cases member
  | ok entries =>
    rw [listed] at step
    obtain ⟨name, real, middle, among, resolved, taken⟩ :=
      childFrame_of_mem_visitEntries bare step member
    obtain ⟨place, opened, rfl⟩ := Disk.list_eq_ok listed
    have entered : frame.IsEntered rules d place :=
      ⟨tracked, Disk.find_directory_of_bare bare opened⟩
    obtain ⟨other, -, same⟩ := List.mem_filterMap.mp among
    obtain ⟨there, stands, pair⟩ := Option.map_eq_some_iff.mp same
    cases pair
    obtain ⟨own, stands, kind⟩ := Disk.item?_of_bare bare stands
    obtain rfl := Item.eq_directory_of_bare kind
    have isName := proper.named place name (by simp [stands])
    rw [Frame.IsEntered.child_eq tracked isName, Path.below,
      tracked.placed.opens name isName] at resolved
    exact chained.child entered isName false resolved
      (.entry chained.way entered.enters stands resolved) taken

theorem childFrame_of_visitLink {link : Pending} (bare : t.disk.bare = d.bare)
    (taken : (visitLink rules link t).1 = some inner) :
    ∃ target item, d.resolve true link.path = .ok target ∧ d.stat target = .ok item ∧
      rules.root.isWithin target = true ∧ target ∉ link.parent.chain ∧
      target.isWithin link.parent.realPath = false ∧
      (childFrame rules link.parent link.path link.relative target true t).1 = some inner := by
  have visit := linkVisit rules link t
  generalize visitLink rules link t = step at taken visit
  cases visit with
  | rejected reason => cases taken
  | file leads => cases taken
  | @directory target leads fresh aside =>
    have resolved := leads.resolved
    rw [Disk.resolve_of_bare bare] at resolved
    obtain ⟨own, told, -⟩ := Disk.stat_of_bare bare leads.told
    exact ⟨target, own, resolved, told, leads.inside, fresh, aside, taken⟩

theorem isChained_visitLink (proper : d.IsProper) {link : Pending}
    (tracked : link.IsTracked rules d) (chained : link.parent.IsChained rules d)
    (bare : t.disk.bare = d.bare) (taken : (visitLink rules link t).1 = some inner) :
    inner.IsChained rules d := by
  obtain ⟨place, name, text, entered, isName, path, relative, isLink⟩ := tracked.stands
  obtain ⟨target, item, strict, told, inside, fresh, aside, taken⟩ :=
    childFrame_of_visitLink bare taken
  have resolved := Disk.resolve_of_strict strict told
  rw [path, Frame.IsEntered.child_eq entered.tracked isName, Path.below,
    entered.tracked.placed.opens name isName] at strict resolved
  obtain ⟨goal, rfl, -⟩ := Disk.solid_of_resolve proper strict
  rw [relative] at taken
  refine chained.child entered isName true resolved ?_ taken
  refine .link chained.way entered.enters isLink strict resolved inside
    (fun member => fresh ((chained.holds _).mpr member)) fun last ends => ?_
  rw [chained.last, Option.some.injEq] at ends
  rw [← ends]
  exact aside

/-! ### Walks -/

structure Walk.IsChained (rules : Rules) (d : Disk) (w : Walk) : Prop where
  frames : ∀ frame ∈ w.stack, frame.IsChained rules d
  links : ∀ link ∈ w.pending, link.parent.IsChained rules d

theorem Walk.isChained_start (rules : Rules) (d : Disk) :
    (Walk.start rules d).IsChained rules d := by
  refine ⟨fun frame member => ?_, by simp [Walk.start]⟩
  rw [Walk.start, List.mem_singleton] at member
  subst member
  have nothing : (Path.ofText (rootFrame rules.root).lead).segments = [] :=
    Path.segments_ofText_empty
  refine ⟨?_, List.nodup_singleton _, fun real => ?_, ?_⟩
  · rw [nothing]
    exact .root
  · rw [nothing]
    rfl
  · rw [nothing]
    rfl

theorem Walk.isChained_next (proper : d.IsProper) {w next : Walk} (tracked : w.IsTracked rules d)
    (chained : w.IsChained rules d) (step : w.next? rules = some next) :
    next.IsChained rules d := by
  cases Walk.step_of_next? step with
  | broken => exact ⟨by simp, by simp⟩
  | @scanned frame rest finds after stack scanned =>
    have among : frame ∈ w.stack := by
      rw [stack]
      exact List.mem_cons_self ..
    have fits := (scanDirectory_fits rules frame w.tally).1
    rw [scanned] at fits
    refine ⟨fun other member => ?_, fun link member => ?_⟩
    · rcases List.mem_append.mp member with new | old
      · exact isChained_scanDirectory proper (tracked.frames frame among)
          (chained.frames frame among) tracked.tally.bare scanned new
      · exact chained.frames other (by rw [stack]; exact List.mem_cons_of_mem _ old)
    · rcases List.mem_append.mp member with old | new
      · exact chained.links link old
      · rw [fits.1.links link new]
        exact chained.frames frame among
  | @followed link rest stack pending =>
    have among : link ∈ w.pending := by
      rw [pending]
      exact List.mem_cons_self ..
    refine ⟨fun other member => ?_, fun other member => ?_⟩
    · exact isChained_visitLink proper (tracked.links link among) (chained.links link among)
        tracked.tally.bare (Option.mem_toList.mp member)
    · exact chained.links other (by rw [pending]; exact List.mem_cons_of_mem _ member)

theorem Walk.isChained_of_leads (proper : d.IsProper) {steps : Nat} {w : Walk}
    (leads : Walk.Leads rules steps (Walk.start rules d) w) : w.IsChained rules d := by
  let holds (w : Walk) : Prop := w.IsTracked rules d ∧ w.IsChained rules d
  have start : holds (Walk.start rules d) :=
    ⟨Walk.isTracked_start rules d, Walk.isChained_start rules d⟩
  have kept (w next : Walk) (both : holds w) (step : w.next? rules = some next) : holds next :=
    ⟨Walk.isTracked_next proper both.1 step, Walk.isChained_next proper both.1 both.2 step⟩
  exact (leads.keeps kept start).2

theorem length_eq_iff_nodup {α : Type} {distinct others : List α} (nodup : distinct.Nodup)
    (same : ∀ a, a ∈ distinct ↔ a ∈ others) :
    distinct.length = others.length ↔ others.Nodup := by
  constructor
  · intro length
    have within := nodup.subperm fun a member => (same a).mp member
    exact (within.perm_of_length_le (Nat.le_of_eq length.symm)).nodup nodup
  · intro nodup'
    exact ((List.perm_ext_iff_of_nodup nodup nodup').mpr same).length_eq

/-- The chain of a directory that is stacked holds each real path on the way down to it once. It is
as long as the way just if no directory on the way is entered twice, which takes an entry of a
directory and, where the root is real, three links. -/
theorem chain_of_leads {config : Config} {previous : Entries FileNode} (proper : d.IsProper)
    (ruled : rulesFor config previous d = .ok rules) {steps : Nat} {w : Walk}
    (leads : Walk.Leads rules steps (Walk.start rules d) w) {frame : Frame}
    (member : frame ∈ w.stack) :
    let names := (Path.ofText frame.lead).segments
    let reals := d.realsAlong rules.root names
    reals.length = frame.depth + 1 ∧ frame.chain.Nodup ∧
      (∀ real, real ∈ frame.chain ↔ real ∈ reals) ∧
      (frame.chain.length = frame.depth + 1 ↔ reals.Nodup) ∧
      (reals.Nodup ↔ ¬ Reenters d rules.root names) ∧
      ∀ real, d.resolve true (.ofText config.root.text) = .ok real → frame.linkDepth ≤ 2 →
        reals.Nodup := by
  have tracked := (Walk.isTracked_of_leads proper leads).frames frame member
  have chained := (Walk.isChained_of_leads proper leads).frames frame member
  have length : (d.realsAlong rules.root (Path.ofText frame.lead).segments).length =
      frame.depth + 1 := by
    rw [chained.way.length_realsAlong, tracked.depth]
  refine ⟨length, chained.distinct, chained.holds, ?_, chained.way.nodup_iff,
    fun real rooted few => ?_⟩
  · rw [← length]
    exact length_eq_iff_nodup chained.distinct chained.holds
  · obtain ⟨goal, rfl, -⟩ := Disk.solid_of_resolve proper rooted
    obtain ⟨root, directory, -⟩ :=
      directory_of_resolveRoot rooted proper (rulesFor_eq_ok ruled).2.2.1
    exact chained.way.nodup proper root directory few

/-- A walk after so many steps; none if it ends before. -/
def Walk.ahead (rules : Rules) : Nat → Walk → Option Walk
  | 0, w => some w
  | steps + 1, w => (w.next? rules).bind (Walk.ahead rules steps)

theorem Walk.leads_of_ahead {steps : Nat} {w last : Walk}
    (comes : w.ahead rules steps = some last) : Walk.Leads rules steps w last := by
  induction steps generalizing w with
  | zero =>
    cases comes
    exact .here _
  | succ steps ih =>
    obtain ⟨next, step, later⟩ := Option.bind_eq_some_iff.mp comes
    exact .onward step (ih later)

/-- The first link leads to a directory that holds the second one, that leads to a directory with
the third one, and that leads to where the first directory stands. -/
def knotDisk : Disk where
  items := [(["ws"], .directory), (["ws", "a"], .directory), (["ws", "a", "b"], .directory),
    (["ws", "a", "b", "m"], .link "../../c"), (["ws", "c"], .directory),
    (["ws", "c", "n"], .link "../a"), (["ws", "l"], .link "a/b")]

def knotConfig : Config where
  root := .ofText "/ws"
  dataDir := .ofText "/data"
  scan := { extensions := [".txt"], filterByValue := false, ignoredDirectories := ["a", "c"] }

/-- The directory is entered again over the third link. -/
theorem chain_of_leads_knot :
    knotDisk.IsProper ∧ ∃ rules steps w frame,
      rulesFor knotConfig [] knotDisk = .ok rules ∧
      Walk.Leads rules steps (Walk.start rules knotDisk) w ∧ frame ∈ w.stack ∧
      frame.lead = "l/m/n/b/" ∧ frame.depth = 4 ∧ frame.linkDepth = 3 ∧ frame.chain.length = 4 ∧
      ¬ (knotDisk.realsAlong rules.root (Path.ofText frame.lead).segments).Nodup ∧
      Reenters knotDisk rules.root (Path.ofText frame.lead).segments := by
  have proper : knotDisk.IsProper := by decide +kernel
  let rules : Rules := ⟨⟨1, ["ws"]⟩, knotConfig.dataDir, knotConfig.scan, [".txt"], []⟩
  have extensions : knotConfig.scan.requiredExtensions = .ok [".txt"] := by decide +kernel
  have ruled : rulesFor knotConfig [] knotDisk = .ok rules := by
    rw [rulesFor, extensions, show resolveRoot knotDisk knotConfig.root.text = .ok ⟨1, ["ws"]⟩
      from by decide +kernel]
    rfl
  have names : knotDisk.names ["ws"] = ["a", "c", "l"] :=
    Disk.names_of_sorted (by decide +kernel) (by decide +kernel)
  have opened : knotDisk.find true ⟨1, ["ws"]⟩ = .ok (["ws"], some .directory) := by rfl
  let entries := [("a", Item.directory), ("c", .directory), ("l", .link "a/b")]
  have listed : knotDisk.list rules.root = .ok entries := by
    rw [Disk.list_of_find rfl (by decide +kernel) opened, names]
    rfl
  have comes : ((Walk.afterRoot rules knotDisk entries).ahead rules 6).any (fun w =>
      w.stack.any fun frame => frame.lead == "l/m/n/b/" && frame.depth == 4 &&
        frame.linkDepth == 3 && frame.chain.length == 4) = true := by
    decide +kernel
  obtain ⟨w, after, stacked⟩ := (Option.any_eq_true ..).mp comes
  obtain ⟨frame, member, shape⟩ := List.any_eq_true.mp stacked
  simp only [Bool.and_eq_true, beq_iff_eq] at shape
  obtain ⟨⟨⟨lead, depth⟩, links⟩, length⟩ := shape
  have leads : Walk.Leads rules 7 (Walk.start rules knotDisk) w :=
    .onward (Walk.next?_start listed) (Walk.leads_of_ahead after)
  obtain ⟨-, -, -, iff', again, -⟩ := chain_of_leads proper ruled leads member
  have twice : ¬ (knotDisk.realsAlong rules.root (Path.ofText frame.lead).segments).Nodup := by
    intro distinct
    have full := iff'.mpr distinct
    omega
  exact ⟨proper, rules, 7, w, frame, ruled, leads, member, lead, depth, links, length, twice,
    by_contra fun never => twice (again.mpr never)⟩

end SourceIndex.Scan
