import SourceIndex.Proofs.Scan.Alike
/-!
# Whole walks

No two files of a walk have the same path, since whatever is still to be walked lies apart from
everything that was found. A walk that takes digests from an earlier scan records the same files as
one that reads them all.

A walk takes one step after the other, and each step takes something off its weight. So a walk from
any state comes to an end, after no more steps than it weighs, even where links lead around in
circles.
-/

namespace SourceIndex.Scan
variable {rules : Rules} {d : Disk}

/-! ### Places apart -/

def Apart (a b : List String) : Prop := ¬ a <+: b ∧ ¬ b <+: a

theorem Apart.symm {a b : List String} (apart : Apart a b) : Apart b a := ⟨apart.2, apart.1⟩

theorem Apart.longer {base a b : List String} (apart : Apart base b) (below : base <+: a) :
    Apart a b := by
  constructor
  · intro within
    exact apart.1 (below.trans within)
  · intro within
    rcases List.prefix_or_prefix_of_prefix below within with first | second
    · exact apart.1 first
    · exact apart.2 second

theorem pairwise_apart_of_perm {first second : List (List String)} (same : first.Perm second)
    (apart : first.Pairwise Apart) : second.Pairwise Apart :=
  (same.pairwise_iff Apart.symm).mp apart

/-- What stands below a place may take its room. -/
theorem pairwise_apart_replace {base : List String} {room taken others : List (List String)}
    (apart : (base :: others).Pairwise Apart) (below : ∀ place ∈ room, base <+: place)
    (within : room.Pairwise Apart) (fits : taken.Subperm room) :
    (taken ++ others).Pairwise Apart := by
  rw [List.pairwise_cons] at apart
  obtain ⟨list, same, sublist⟩ := fits
  rw [List.pairwise_append]
  refine ⟨pairwise_apart_of_perm same (within.sublist sublist), apart.2, ?_⟩
  intro place member other among
  exact (apart.1 other among).longer
    (below place (sublist.subset (same.mem_iff.mpr member)))

theorem pairwise_apart_names {names : List String} (distinct : names.Nodup) (base : List String) :
    (names.map fun name => base ++ [name]).Pairwise Apart := by
  rw [List.pairwise_map]
  refine distinct.imp fun {a b} differ => ⟨fun within => ?_, fun within => ?_⟩
  · have same := within.eq_of_length (by simp)
    exact differ (by simpa using same)
  · have same := within.eq_of_length (by simp)
    exact differ (by simpa using same.symm)

/-! ### The invariant -/

section

/-- Where everything stands that a walk has found or has still to visit. -/
def Walk.places (rules : Rules) (w : Walk) : List (List String) :=
  w.stack.map (·.directory.segments) ++ w.pending.map (·.path.segments) ++
    filePlaces rules w.tally.files

/-- Everything stands where its relative path says, apart from all the rest. -/
structure Walk.IsSound (rules : Rules) (w : Walk) : Prop where
  frames : ∀ frame ∈ w.stack, frame.IsPlaced rules
  links : ∀ link ∈ w.pending, link.path = rules.root.below link.relative
  apart : (w.places rules).Pairwise Apart

variable {keeps : Tally → Prop}

/-- A walk that keeps a property, and is sound until it breaks off. -/
structure Walk.IsFine (rules : Rules) (keeps : Tally → Prop) (w : Walk) : Prop where
  holds : keeps w.tally
  sound : w.broken = none → w.IsSound rules
  ends : w.broken ≠ none → w.stack = [] ∧ w.pending = []

theorem Walk.isFine_start (rules : Rules) (holds : keeps { disk := d }) :
    (Walk.start rules d).IsFine rules keeps := by
  refine ⟨holds, fun _ => ⟨?_, by simp [Walk.start], ?_⟩, fun broken => ?_⟩
  · intro frame member
    rw [Walk.start, List.mem_singleton] at member
    subst member
    exact ⟨(Path.below_empty _).symm, Path.opens_empty⟩
  · simp [Walk.places, Walk.start, filePlaces]
  · exact absurd rfl broken

theorem Walk.places_perm {first : List Frame} {second : List Pending}
    {files news : List ScannedFile} {finds : Finds} {w : Walk}
    (stack : w.stack = finds.frames ++ first) (pending : w.pending = second ++ finds.links)
    (tally : w.tally.files = files ++ news) :
    ((finds.places ++ filePlaces rules news) ++ (first.map (·.directory.segments) ++
      second.map (·.path.segments) ++ filePlaces rules files)).Perm (w.places rules) := by
  rw [Walk.places, stack, pending, tally, Finds.places, filePlaces, filePlaces, filePlaces]
  refine List.perm_iff_count.mpr fun place => ?_
  simp only [List.map_append, List.count_append]
  omega

theorem Walk.isSound_of_adds {base : List String} {room : List (List String)} (first : List Frame)
    {second : List Pending} {finds : Finds} {t : Tally} {next : Walk}
    (adds : Adds rules room finds t next.tally) (stack : next.stack = finds.frames ++ first)
    (pending : next.pending = second ++ finds.links) (frames : ∀ frame ∈ first, frame.IsPlaced rules)
    (links : ∀ link ∈ second, link.path = rules.root.below link.relative)
    (apart : (base :: (first.map (·.directory.segments) ++ second.map (·.path.segments) ++
      filePlaces rules t.files)).Pairwise Apart)
    (below : ∀ place ∈ room, base <+: place) (within : room.Pairwise Apart) :
    next.IsSound rules := by
  obtain ⟨news, files, fits⟩ := adds.files
  refine ⟨fun frame member => ?_, fun link member => ?_, ?_⟩
  · rw [stack] at member
    exact (List.mem_append.mp member).elim (adds.frames frame) (frames frame)
  · rw [pending] at member
    exact (List.mem_append.mp member).elim (links link) (adds.links link)
  · exact pairwise_apart_of_perm (Walk.places_perm stack pending files)
      (pairwise_apart_replace apart below within fits)

theorem Walk.isFine_next (proper : d.IsProper) (kept : IsKept rules d keeps) {w next : Walk}
    (fine : w.IsFine rules keeps) (step : w.next? rules = some next) :
    next.IsFine rules keeps := by
  have whole : w.broken = none := by
    by_contra broken
    obtain ⟨stack, pending⟩ := fine.ends broken
    rw [Walk.next?, stack, pending] at step
    cases step
  have sound := fine.sound whole
  have apart := sound.apart
  cases Walk.step_of_next? step with
  | @broken frame rest e tally stack scanned =>
    have placed := sound.frames frame (by rw [stack]; exact List.mem_cons_self ..)
    obtain ⟨names, -, stays⟩ := stays_scanDirectory proper kept placed fine.holds
    rw [scanned] at stays
    exact ⟨stays.1, fun broken => (by cases broken), fun _ => ⟨rfl, rfl⟩⟩
  | @scanned frame rest finds tally stack scanned =>
    have placed := sound.frames frame (by rw [stack]; exact List.mem_cons_self ..)
    obtain ⟨names, distinct, stays⟩ := stays_scanDirectory proper kept placed fine.holds
    rw [scanned] at stays
    rw [Walk.places, stack, List.map_cons, List.cons_append, List.cons_append] at apart
    have others : ∀ other ∈ rest, other.IsPlaced rules := fun other member =>
      sound.frames other (by rw [stack]; exact List.mem_cons_of_mem _ member)
    have below : ∀ place ∈ names.map fun name => frame.directory.segments ++ [name],
        frame.directory.segments <+: place := by
      intro place member
      obtain ⟨name, -, rfl⟩ := List.mem_map.mp member
      exact List.prefix_append ..
    exact ⟨stays.1, fun _ => isSound_of_adds rest (stays.2 finds rfl) rfl rfl others sound.links
      apart below (pairwise_apart_names distinct _), fun broken => absurd rfl broken⟩
  | @followed link rest stack pending =>
    have placed := sound.links link (by rw [pending]; exact List.mem_cons_self ..)
    obtain ⟨holds, adds⟩ := stays_visitLink proper kept placed fine.holds
    rw [Walk.places, stack, pending, List.map_cons, List.map_nil, List.nil_append,
      List.cons_append] at apart
    have others : ∀ other ∈ rest, other.path = rules.root.below other.relative :=
      fun other member => sound.links other (by rw [pending]; exact List.mem_cons_of_mem _ member)
    have below : ∀ place ∈ [link.path.segments], link.path.segments <+: place := by
      intro place member
      rw [List.mem_singleton.mp member]
    exact ⟨holds, fun _ => isSound_of_adds [] adds (List.append_nil _).symm
      (List.append_nil _).symm (by simp) others apart below (List.pairwise_singleton ..),
      fun broken => absurd rfl broken⟩

/-- Walks that are at the same point and differ in the contents of files at most. -/
structure Walk.Matches (w other : Walk) : Prop where
  stack : w.stack = other.stack
  pending : w.pending = other.pending
  broken : w.broken = other.broken
  tally : Similar w.tally other.tally

theorem Walk.matches_start (rules : Rules) (d : Disk) :
    (Walk.start rules d).Matches (Walk.start rules.fresh d) :=
  ⟨rfl, rfl, rfl, ⟨rfl, rfl, rfl, rfl, rfl, rfl⟩⟩

theorem Walk.matches_next (proper : d.IsProper) (still : d.IsStill) (right : rules.AreRight d)
    {w other : Walk} (fine : w.IsFine rules (Tally.IsFaithful rules d)) (same : w.Matches other) :
    w.next? rules = none ∧ other.next? rules.fresh = none ∨
      ∃ next after, w.next? rules = some next ∧ other.next? rules.fresh = some after ∧
        next.Matches after := by
  by_cases whole : w.broken = none
  · have sound := fine.sound whole
    unfold Walk.next?
    rw [← same.stack, ← same.pending]
    cases stack : w.stack with
    | cons frame rest =>
      have placed := sound.frames frame (by rw [stack]; exact List.mem_cons_self ..)
      have alike := alike_scanDirectory proper still right placed fine.holds same.tally
      right
      simp only
      generalize scanDirectory rules frame w.tally = step at alike
      generalize scanDirectory rules.fresh frame other.tally = second at alike
      obtain ⟨finding, tally⟩ := step
      obtain ⟨finding', tally'⟩ := second
      obtain ⟨found, similar⟩ := alike
      cases (show finding = finding' from found)
      cases finding with
      | error e => exact ⟨_, _, rfl, rfl, ⟨rfl, rfl, rfl, similar⟩⟩
      | ok finds => exact ⟨_, _, rfl, rfl, ⟨rfl, rfl, rfl, similar⟩⟩
    | nil =>
      cases pending : w.pending with
      | nil => exact .inl ⟨rfl, rfl⟩
      | cons link rest =>
        have alike := alike_visitLink proper still right
          (sound.links link (by rw [pending]; exact List.mem_cons_self ..)) fine.holds same.tally
        exact .inr ⟨_, _, rfl, rfl, ⟨congrArg Option.toList alike.found, rfl, rfl, alike.similar⟩⟩
  · obtain ⟨stack, pending⟩ := fine.ends whole
    refine .inl ⟨?_, ?_⟩
    · rw [Walk.next?, stack, pending]
    · rw [Walk.next?, ← same.stack, ← same.pending, stack, pending]

/-! ### To the end -/

theorem Walk.finish_of_none {w : Walk} (stops : w.next? rules = none) : w.finish rules = w := by
  rw [Walk.finish]
  split
  · rename_i next step
    rw [stops] at step
    cases step
  · rfl

theorem Walk.finish_of_some {w next : Walk} (step : w.next? rules = some next) :
    w.finish rules = next.finish rules := by
  rw [Walk.finish]
  split
  · rename_i other same
    rw [step, Option.some.injEq] at same
    rw [same]
  · rename_i stops
    rw [step] at stops
    cases stops

theorem Walk.isFine_finish (proper : d.IsProper) (kept : IsKept rules d keeps) {w : Walk}
    (fine : w.IsFine rules keeps) : (w.finish rules).IsFine rules keeps := by
  -- On the weight of what is still to be walked, by which the walk itself ends.
  induction weight : w.weight rules using Nat.strongRecOn generalizing w with
  | ind n ih =>
    cases step : w.next? rules with
    | none =>
      rw [Walk.finish_of_none step]
      exact fine
    | some next =>
      rw [Walk.finish_of_some step]
      exact ih _ (weight ▸ Walk.weight_next step) (Walk.isFine_next proper kept fine step) rfl

theorem Walk.matches_finish (proper : d.IsProper) (still : d.IsStill) (right : rules.AreRight d)
    {w other : Walk} (fine : w.IsFine rules (Tally.IsFaithful rules d)) (same : w.Matches other) :
    (w.finish rules).Matches (other.finish rules.fresh) := by
  induction weight : w.weight rules using Nat.strongRecOn generalizing w other with
  | ind n ih =>
    rcases Walk.matches_next proper still right fine same with
      ⟨stops, stops'⟩ | ⟨next, after, step, step', later⟩
    · rw [Walk.finish_of_none stops, Walk.finish_of_none stops']
      exact same
    · rw [Walk.finish_of_some step, Walk.finish_of_some step']
      have fine' := Walk.isFine_next proper (isKept_faithful still right) fine step
      exact ih _ (weight ▸ Walk.weight_next step) fine' later rfl

/-! ### Results -/

/-- A result in which all files are recorded as they are, each path once and in order. -/
structure IsResult (rules : Rules) (d : Disk) (r : ScanResult) : Prop where
  root : r.root = rules.root.text
  files : ∀ found ∈ r.files, IsScanned rules d found
  distinct : (r.files.map (·.file.path)).Nodup
  sorted : r.files.Pairwise fun a b => a.file.path ≤ b.file.path

theorem sortFiles_perm (files : List ScannedFile) : (sortFiles files).Perm files :=
  List.mergeSort_perm ..

theorem pairwise_sortFiles (files : List ScannedFile) :
    (sortFiles files).Pairwise fun a b => a.file.path ≤ b.file.path := by
  have before (a b : ScannedFile) :
      (!decide (b.file.path < a.file.path)) = true ↔ a.file.path ≤ b.file.path := by
    rw [Bool.not_eq_true', decide_eq_false_iff_not, String.not_lt]
  have sorted : (sortFiles files).Pairwise
      fun a b => (!decide (b.file.path < a.file.path)) = true := List.pairwise_mergeSort
    (fun a b c first second => (before a c).mpr
      (String.le_trans ((before a b).mp first) ((before b c).mp second)))
    (fun a b => by
      rw [Bool.or_eq_true, before, before]
      exact String.le_total ..) files
  exact sorted.imp (before _ _).mp

theorem map_file_sortFiles {files others : List ScannedFile}
    (same : files.map (·.file) = others.map (·.file)) :
    (sortFiles files).map (·.file) = (sortFiles others).map (·.file) := by
  have sorts (files : List ScannedFile) : (sortFiles files).map (·.file) =
      (files.map (·.file)).mergeSort fun a b => !decide (b.path < a.path) :=
    List.map_mergeSort fun _ _ _ _ => rfl
  rw [sorts, sorts, same]

theorem Walk.IsSound.nodup_paths {w : Walk} (sound : w.IsSound rules) :
    (w.tally.files.map (·.file.path)).Nodup := by
  have apart : (filePlaces rules w.tally.files).Pairwise Apart :=
    sound.apart.sublist (List.sublist_append_right ..)
  rw [filePlaces, List.pairwise_map] at apart
  rw [List.Nodup, List.pairwise_map]
  refine apart.imp fun {a b} apart same => apart.1 ?_
  rw [same]

theorem isResult_of_isSound {w : Walk} (sound : w.IsSound rules)
    (faithful : w.tally.IsFaithful rules d) :
    IsResult rules d
      ⟨rules.root.text, sortFiles w.tally.files, w.tally.errors, w.tally.counts⟩ := by
  refine ⟨rfl, ?_, ?_, pairwise_sortFiles _⟩
  · intro found member
    exact faithful.files found ((sortFiles_perm _).mem_iff.mp member)
  · exact (((sortFiles_perm _).map _).nodup_iff).mpr sound.nodup_paths

theorem rulesFor_eq_ok {config : Config} {previous : Entries FileNode}
    (found : rulesFor config previous d = .ok rules) :
    rules.settings = config.scan ∧ rules.previous = previous ∧
      resolveRoot d config.root.text = .ok rules.root ∧ rules.dataDir = config.dataDir := by
  unfold rulesFor at found
  split at found
  · cases found
  · obtain ⟨root, resolved, rfl⟩ := eq_ok_of_map found
    exact ⟨rfl, rfl, resolved, rfl⟩

theorem rulesFor_nil (config : Config) (previous : Entries FileNode) (d : Disk) :
    rulesFor config [] d = (rulesFor config previous d).map Rules.fresh := by
  unfold rulesFor
  cases config.scan.requiredExtensions with
  | error e => rfl
  | ok extensions =>
    cases resolveRoot d config.root.text with
    | error e => rfl
    | ok root => rfl

theorem rulesFor_fresh {config : Config} {previous : Entries FileNode}
    (found : rulesFor config previous d = .ok rules) : rulesFor config [] d = .ok rules.fresh := by
  rw [rulesFor_nil config previous, found]
  rfl

theorem resolve_of_resolveRoot {root : String} {real : Path}
    (resolved : resolveRoot d root = .ok real) : d.resolve false (.ofText root) = .ok real := by
  unfold resolveRoot at resolved
  split at resolved
  · cases resolved
  simp only at resolved
  split at resolved
  · cases resolved
  split at resolved
  · cases resolved
  · cases resolved
  split at resolved
  · cases resolved
  split at resolved
  · cases resolved
  cases own : d.resolve false (.ofText root) with
  | error e =>
    rw [own] at resolved
    cases resolved
  | ok other =>
    rw [own] at resolved
    exact congrArg Except.ok (Except.ok.inj resolved)

theorem eq_of_result_eq_ok {config : Config} {previous : Entries FileNode}
    (ruled : rulesFor config previous d = .ok rules) {r : ScanResult}
    (done : (scan config previous d).result = .ok r) :
    let w := (Walk.start rules d).finish rules
    w.broken = none ∧
      r = ⟨rules.root.text, sortFiles w.tally.files, w.tally.errors, w.tally.counts⟩ := by
  unfold scan at done
  rw [ruled] at done
  simp only [Walk.result] at done ⊢
  split at done
  · cases done
  · rename_i whole
    exact ⟨whole, (Except.ok.inj done).symm⟩

theorem result_eq_ok {config : Config} {previous : Entries FileNode}
    (ruled : rulesFor config previous d = .ok rules) {r : ScanResult}
    (done : (scan config previous d).result = .ok r) :
    let w := (Walk.start rules d).finish rules
    r.files = sortFiles w.tally.files ∧ r.errors = w.tally.errors ∧ r.root = rules.root.text := by
  obtain ⟨-, rfl⟩ := eq_of_result_eq_ok ruled done
  exact ⟨rfl, rfl, rfl⟩

theorem scan_eq_ok {config : Config} {previous : Entries FileNode} (proper : d.IsProper)
    (still : d.IsStill) (right : ∀ rules, rulesFor config previous d = .ok rules → rules.AreRight d)
    {r : ScanResult} (done : (scan config previous d).result = .ok r) :
    ∃ rules, rulesFor config previous d = .ok rules ∧ (scan config previous d).disk = d ∧
      IsResult rules d r ∧ ∃ full, (scan config [] d).result = .ok full ∧
        (scan config [] d).disk = d ∧ IsResult rules.fresh d full ∧ full.records = r.records := by
  unfold scan at done ⊢
  cases found : rulesFor config previous d with
  | error e =>
    rw [found] at done
    cases done
  | ok rules =>
    have right := right rules found
    have nothing (rules : Rules) : Tally.IsFaithful rules d { disk := d } := ⟨rfl, by simp⟩
    have start := Walk.isFine_start rules (nothing rules)
    have fine := Walk.isFine_finish proper (isKept_faithful still right) start
    have same := Walk.matches_finish proper still right start (Walk.matches_start rules d)
    have fresh := Walk.isFine_finish proper (isKept_faithful still (areRight_fresh rules d))
      (Walk.isFine_start rules.fresh (nothing rules.fresh))
    rw [found] at done
    rw [rulesFor_fresh found]
    simp only at done ⊢
    cases whole : ((Walk.start rules d).finish rules).broken with
    | some e =>
      rw [Walk.result, whole] at done
      cases done
    | none =>
      have whole' := same.broken.symm.trans whole
      rw [Walk.result, whole, Except.ok.injEq] at done
      subst done
      exact ⟨rules, rfl, fine.holds.disk, isResult_of_isSound (fine.sound whole) fine.holds, _,
        by rw [Walk.result, whole'], fresh.holds.disk,
        isResult_of_isSound (fresh.sound whole') fresh.holds,
        (map_file_sortFiles same.tally.files).symm⟩

def Walk.afterRoot (rules : Rules) (d : Disk) (entries : List (String × Item)) : Walk :=
  match visitEntries rules (rootFrame rules.root) entries { disk := d } with
  | (.error e, tally) => { stack := [], pending := [], tally, broken := some e }
  | (.ok finds, tally) => { stack := finds.frames, pending := finds.links, tally }

theorem Walk.next?_start {entries : List (String × Item)}
    (listed : d.list rules.root = .ok entries) :
    (Walk.start rules d).next? rules = some (Walk.afterRoot rules d entries) := by
  have list : d.list (rootFrame rules.root).directory = .ok entries := listed
  simp only [Walk.next?, Walk.start, Walk.afterRoot, scanDirectory, list]
  generalize visitEntries rules (rootFrame rules.root) entries { disk := d } = step
  obtain ⟨finding, tally⟩ := step
  cases finding with
  | error e => rfl
  | ok finds => simp

theorem scan_of_list {config : Config} {previous : Entries FileNode}
    (ruled : rulesFor config previous d = .ok rules) {entries : List (String × Item)}
    (listed : d.list rules.root = .ok entries)
    (whole : ((Walk.afterRoot rules d entries).finish rules).broken = none) :
    ∃ r, (scan config previous d).result = .ok r ∧
      r.files.Perm ((Walk.afterRoot rules d entries).finish rules).tally.files := by
  simp only [scan, ruled, Walk.finish_of_some (Walk.next?_start listed), Walk.result, whole]
  exact ⟨_, rfl, sortFiles_perm _⟩

end

/-! ### The states of a walk -/

/-- A walk gets from one state to another one in so many steps. -/
inductive Walk.Leads (rules : Rules) : Nat → Walk → Walk → Prop
  | here (w : Walk) : Walk.Leads rules 0 w w
  | onward {steps : Nat} {w next last : Walk} (step : w.next? rules = some next)
    (later : Walk.Leads rules steps next last) : Walk.Leads rules (steps + 1) w last

variable {steps : Nat} {w last : Walk}

theorem Walk.Leads.keeps {holds : Walk → Prop}
    (kept : ∀ w next, holds w → w.next? rules = some next → holds next)
    (leads : Walk.Leads rules steps w last) (first : holds w) : holds last := by
  induction leads with
  | here => exact first
  | onward step _ ih => exact ih (kept _ _ first step)

theorem Walk.Leads.weight_le (leads : Walk.Leads rules steps w last) :
    steps + last.weight rules ≤ w.weight rules := by
  induction leads with
  | here => omega
  | onward step _ ih =>
    have lighter := Walk.weight_next step
    omega

theorem Walk.leads_finish (rules : Rules) (w : Walk) :
    ∃ steps, Walk.Leads rules steps w (w.finish rules) ∧ (w.finish rules).next? rules = none := by
  -- On the weight, since the steps that are left are not given by the state in any other way.
  induction weight : w.weight rules using Nat.strongRecOn generalizing w with
  | ind n ih =>
    cases step : w.next? rules with
    | none =>
      rw [Walk.finish_of_none step]
      exact ⟨0, .here w, step⟩
    | some next =>
      rw [Walk.finish_of_some step]
      obtain ⟨steps, leads, stops⟩ := ih _ (weight ▸ Walk.weight_next step) next rfl
      exact ⟨steps + 1, .onward step leads, stops⟩

theorem Walk.Leads.before_end {more : Nat} {goal : Walk} (ends : Walk.Leads rules steps w last)
    (stops : last.next? rules = none) (leads : Walk.Leads rules more w goal) : more ≤ steps := by
  induction ends generalizing more with
  | here =>
    cases leads with
    | here => exact Nat.le_refl _
    | onward step _ =>
      rw [stops] at step
      cases step
  | onward step _ ih =>
    cases leads with
    | here => exact Nat.zero_le _
    | onward step' later =>
      have same := step.symm.trans step'
      rw [Option.some.injEq] at same
      subst same
      exact Nat.succ_le_succ (ih stops later)

theorem Walk.weight_start (rules : Rules) (d : Disk) :
    (Walk.start rules d).weight rules =
      frameWeight d.items.length rules.settings.maxDepth.toNat := by
  have rank : rank rules (rootFrame rules.root) = rules.settings.maxDepth.toNat := by
    simp [rank, rootFrame]
  simp [Walk.weight, Walk.start, Tally.room, rank]

/-- Every walk ends after finitely many steps, whatever links there are: after as many as the root
weighs at the most, which goes by the number of items on the disk and the depth limit alone. -/
theorem walk_ends (rules : Rules) (d : Disk) :
    ∃ steps last, steps ≤ frameWeight d.items.length rules.settings.maxDepth.toNat ∧
      Walk.Leads rules steps (Walk.start rules d) last ∧ last.next? rules = none ∧
      (Walk.start rules d).finish rules = last ∧
      ∀ more w, Walk.Leads rules more (Walk.start rules d) w → more ≤ steps := by
  obtain ⟨steps, leads, stops⟩ := Walk.leads_finish rules (Walk.start rules d)
  have paid := leads.weight_le
  rw [Walk.weight_start] at paid
  exact ⟨steps, _, by omega, leads, stops, rfl, fun _ _ other => leads.before_end stops other⟩

end SourceIndex.Scan
