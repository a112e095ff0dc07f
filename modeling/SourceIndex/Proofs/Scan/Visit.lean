import SourceIndex.Proofs.Scan.File
/-!
# What visiting may come to

Everything that visiting an entry of a directory, following a link or stacking a directory may come
to, with what is known then. Properties of a walk are proved from these cases.
-/

namespace SourceIndex.Scan
variable {rules : Rules} {d : Disk}

/-! ### Stacking directories -/

/-- What stacking a directory may come to: it is not wanted, it is too deep or it is stacked. -/
inductive Stacking (rules : Rules) (parent : Frame) (path : Path) (relative : String)
    (realPath : Path) (isLink : Bool) (t : Tally) : Option Frame × Tally → Prop
  | unwanted : Stacking rules parent path relative realPath isLink t (none, t.skipDirectory)
  | tooDeep (line : LogLine) :
    Stacking rules parent path relative realPath isLink t (none, (t.note line).skipDirectory)
  | stacked (wanted : acceptsDirectory rules path.name relative realPath = true)
    (shallow : ((parent.depth + 1 : Nat) : Int) ≤ rules.settings.maxDepth) :
    Stacking rules parent path relative realPath isLink t
      (some { directory := path, lead := relative ++ "/", depth := parent.depth + 1,
              linkDepth := parent.linkDepth + (if isLink then 1 else 0), realPath,
              chain := if parent.chain.contains realPath then parent.chain
                else parent.chain ++ [realPath] }, t)

theorem stacking_childFrame (rules : Rules) (parent : Frame) (path : Path) (relative : String)
    (realPath : Path) (isLink : Bool) (t : Tally) :
    Stacking rules parent path relative realPath isLink t
      (childFrame rules parent path relative realPath isLink t) := by
  unfold childFrame
  split
  · exact .unwanted
  rename_i wanted
  simp only
  split
  · exact .tooDeep _
  · rename_i shallow
    exact .stacked (by simpa using wanted) (Int.not_lt.mp shallow)

theorem childFrame_eq_some {parent child : Frame} {path : Path} {relative : String}
    {realPath : Path} {isLink : Bool} {t : Tally}
    (taken : (childFrame rules parent path relative realPath isLink t).1 = some child) :
    acceptsDirectory rules path.name relative realPath = true ∧
      ((parent.depth + 1 : Nat) : Int) ≤ rules.settings.maxDepth ∧
      child = { directory := path, lead := relative ++ "/", depth := parent.depth + 1,
                linkDepth := parent.linkDepth + (if isLink then 1 else 0), realPath,
                chain := if parent.chain.contains realPath then parent.chain
                  else parent.chain ++ [realPath] } := by
  have stacking := stacking_childFrame rules parent path relative realPath isLink t
  generalize childFrame rules parent path relative realPath isLink t = step at taken stacking
  cases stacking with
  | unwanted => cases taken
  | tooDeep line => cases taken
  | stacked wanted shallow => exact ⟨wanted, shallow, (Option.some.inj taken).symm⟩

theorem childFrame_same (rules : Rules) (parent : Frame) (path : Path) (relative : String)
    (realPath : Path) (isLink : Bool) (t : Tally) :
    (childFrame rules parent path relative realPath isLink t).2.disk = t.disk ∧
      (childFrame rules parent path relative realPath isLink t).2.seen = t.seen ∧
      (childFrame rules parent path relative realPath isLink t).2.files = t.files := by
  have stacking := stacking_childFrame rules parent path relative realPath isLink t
  generalize childFrame rules parent path relative realPath isLink t = step at stacking
  cases stacking <;> exact ⟨rfl, rfl, rfl⟩

/-! ### Entries -/

/-- What visiting an entry of a directory may come to. -/
inductive EntryVisit (rules : Rules) (frame : Frame) (name : String) (t : Tally) :
    Item → Finding × Tally → Prop
  | pending (target : String) : EntryVisit rules frame name t (.link target)
      (.ok { links := [⟨frame.directory.child name, frame.lead ++ name, frame⟩] }, t)
  | skipped (target : String) :
    EntryVisit rules frame name t (.link target) (.ok {}, t.skipLink)
  | noDirectory {e : FileError}
    (refused : t.disk.resolve false (frame.directory.child name) = .error e) :
    EntryVisit rules frame name t .directory (unresolved (frame.lead ++ name) e t)
  | directory {realPath : Path}
    (resolved : t.disk.resolve false (frame.directory.child name) = .ok realPath) :
    EntryVisit rules frame name t .directory
      (.ok { frames := (childFrame rules frame (frame.directory.child name) (frame.lead ++ name)
        realPath false t).1.toList },
        (childFrame rules frame (frame.directory.child name) (frame.lead ++ name) realPath
          false t).2)
  | noFile {data : Bytes} {modified : Int} {e : FileError}
    (refused : t.disk.resolve false (frame.directory.child name) = .error e) :
    EntryVisit rules frame name t (.file data modified) (unresolved (frame.lead ++ name) e t)
  | file {data : Bytes} {modified : Int} {realPath : Path}
    (resolved : t.disk.resolve false (frame.directory.child name) = .ok realPath) :
    EntryVisit rules frame name t (.file data modified)
      (.ok {}, visitFile rules (frame.directory.child name) (frame.lead ++ name) realPath t)
  | special : EntryVisit rules frame name t .special (.ok {}, t.skipFile)

theorem entryVisit (rules : Rules) (frame : Frame) (name : String) (item : Item) (t : Tally) :
    EntryVisit rules frame name t item (visitEntry rules frame name item t) := by
  unfold visitEntry
  cases item with
  | link target =>
    simp only
    split
    · exact .pending target
    · exact .skipped target
  | directory =>
    simp only
    split
    · exact .noDirectory ‹_›
    · exact .directory ‹_›
  | file data modified =>
    simp only
    split
    · exact .noFile ‹_›
    · exact .file ‹_›
  | special => exact .special

/-- What visiting entries one after the other may come to: it ends, or it breaks off at one of them
and leaves the others alone. -/
inductive EntriesVisit (rules : Rules) (frame : Frame) :
    List (String × Item) → Tally → Finding × Tally → Prop
  | done (t : Tally) : EntriesVisit rules frame [] t (.ok {}, t)
  | breaks {name : String} {item : Item} {rest : List (String × Item)} {t after : Tally}
    {e : FileError} (step : visitEntry rules frame name item t = (.error e, after)) :
    EntriesVisit rules frame ((name, item) :: rest) t (.error e, after)
  | breaksLater {name : String} {item : Item} {rest : List (String × Item)}
    {t middle after : Tally} {first : Finds} {e : FileError}
    (step : visitEntry rules frame name item t = (.ok first, middle))
    (later : EntriesVisit rules frame rest middle (.error e, after)) :
    EntriesVisit rules frame ((name, item) :: rest) t (.error e, after)
  | next {name : String} {item : Item} {rest : List (String × Item)} {t middle after : Tally}
    {first others : Finds} (step : visitEntry rules frame name item t = (.ok first, middle))
    (later : EntriesVisit rules frame rest middle (.ok others, after)) :
    EntriesVisit rules frame ((name, item) :: rest) t
      (.ok ⟨first.frames ++ others.frames, first.links ++ others.links⟩, after)

theorem entriesVisit (rules : Rules) (frame : Frame) (entries : List (String × Item)) (t : Tally) :
    EntriesVisit rules frame entries t (visitEntries rules frame entries t) := by
  induction entries generalizing t with
  | nil => exact .done t
  | cons entry rest ih =>
    obtain ⟨name, item⟩ := entry
    unfold visitEntries
    split
    · exact .breaks ‹_›
    rename_i first middle step
    have visit := ih middle
    split
    · rename_i e after later
      rw [later] at visit
      exact .breaksLater step visit
    · rename_i others after later
      rw [later] at visit
      exact .next step visit

/-! ### Links -/

theorem resolve_of_found {path target : Path} {item : Item}
    (found : (d.resolve true path).bind (fun target =>
      (d.stat target).map fun item => (target, item)) = .ok (target, item)) :
    d.resolve true path = .ok target ∧ d.stat target = .ok item := by
  cases resolved : d.resolve true path with
  | error e =>
    rw [resolved] at found
    cases found
  | ok real =>
    rw [resolved] at found
    cases told : d.stat real with
    | error e =>
      simp only [Except.bind, told, Except.map] at found
      cases found
    | ok there =>
      simp only [Except.bind, told, Except.map, Except.ok.injEq, Prod.mk.injEq] at found
      obtain ⟨rfl, rfl⟩ := found
      exact ⟨rfl, told⟩

/-- A link that leads to something inside of the workspace, and not too many links deep. -/
structure Pending.Leads (rules : Rules) (d : Disk) (link : Pending) (target : Path) (item : Item) :
    Prop where
  few : ((link.parent.linkDepth + 1 : Nat) : Int) ≤ rules.settings.maxLinkDepth
  resolved : d.resolve true link.path = .ok target
  told : d.stat target = .ok item
  inside : rules.root.isWithin target = true

/-- What following a link may come to. -/
inductive LinkVisit (rules : Rules) (link : Pending) (t : Tally) : Option Frame × Tally → Prop
  | rejected (reason : String) : LinkVisit rules link t (none, t.rejectLink link.relative reason)
  | directory {target : Path} (leads : link.Leads rules t.disk target .directory)
    (fresh : target ∉ link.parent.chain) (aside : target.isWithin link.parent.realPath = false) :
    LinkVisit rules link t (childFrame rules link.parent link.path link.relative target true t)
  | file {target : Path} {data : Bytes} {modified : Int}
    (leads : link.Leads rules t.disk target (.file data modified)) :
    LinkVisit rules link t (none, visitFile rules link.path link.relative target t)

theorem linkVisit (rules : Rules) (link : Pending) (t : Tally) :
    LinkVisit rules link t (visitLink rules link t) := by
  unfold visitLink
  simp only
  split
  · exact .rejected _
  rename_i few
  split
  · exact .rejected _
  rename_i target item found
  obtain ⟨resolved, told⟩ := resolve_of_found found
  split
  · exact .rejected _
  split
  · exact .rejected _
  rename_i inside
  have leads : link.Leads rules t.disk target item :=
    ⟨Int.not_lt.mp few, resolved, told, by simpa using inside⟩
  cases item with
  | directory =>
    simp only
    split
    · exact .rejected _
    · rename_i open'
      rw [Bool.or_eq_true, not_or, Bool.not_eq_true, Bool.not_eq_true] at open'
      exact .directory leads (by simpa using open'.1) open'.2
  | file data modified => exact .file leads
  | link text => exact .rejected _
  | special => exact .rejected _

/-! ### Steps of a walk -/

/-- What a step of a walk may be: a directory breaks it off or is scanned, or, once no directory is
left, a link is followed. -/
inductive Walk.Step (rules : Rules) (w : Walk) : Walk → Prop
  | broken {frame : Frame} {rest : List Frame} {e : FileError} {tally : Tally}
    (stack : w.stack = frame :: rest)
    (scanned : scanDirectory rules frame w.tally = (.error e, tally)) :
    Walk.Step rules w { stack := [], pending := [], tally, broken := some e }
  | scanned {frame : Frame} {rest : List Frame} {finds : Finds} {tally : Tally}
    (stack : w.stack = frame :: rest)
    (scanned : scanDirectory rules frame w.tally = (.ok finds, tally)) :
    Walk.Step rules w
      { stack := finds.frames ++ rest, pending := w.pending ++ finds.links, tally }
  | followed {link : Pending} {rest : List Pending} (stack : w.stack = [])
    (pending : w.pending = link :: rest) :
    Walk.Step rules w
      { stack := (visitLink rules link w.tally).1.toList, pending := rest
        tally := (visitLink rules link w.tally).2 }

theorem Walk.step_of_next? {w next : Walk} (step : w.next? rules = some next) :
    w.Step rules next := by
  unfold Walk.next? at step
  split at step
  · rename_i frame rest stack
    split at step
    · rename_i e tally scanned
      cases step
      exact .broken stack scanned
    · rename_i finds tally scanned
      cases step
      exact .scanned stack scanned
  · rename_i stack
    split at step
    · rename_i link rest pending
      cases step
      exact .followed stack pending
    · cases step

end SourceIndex.Scan
