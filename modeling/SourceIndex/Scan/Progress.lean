import SourceIndex.Scan.Walk
/-!
# Progress of a walk

A walk gets closer to its end with every step. A directory of rank `r`, which is how many levels of
directories it may still have below it, weighs as much as anything that it can add: for each item
of the disk a link with this directory above it, and a link weighs more than the directory that it
may lead to, whose rank is smaller by one.
-/

namespace SourceIndex

/-! ### Lengths -/

theorem length_eraseDups_le {α : Type} [BEq α] (l : List α) : l.eraseDups.length ≤ l.length := by
  generalize h : l.length = n
  induction n using Nat.strongRecOn generalizing l with
  | ind n ih =>
    cases l with
    | nil => simp [← h]
    | cons a as =>
      have smaller : (as.filter fun b => !b == a).length ≤ as.length := List.length_filter_le _ _
      have less : (as.filter fun b => !b == a).length < n := by simp at h; omega
      have := ih _ less (as.filter fun b => !b == a) rfl
      simp only [List.eraseDups_cons, List.length_cons] at h ⊢
      omega

namespace Disk

theorem length_names_le (d : Disk) (place : Place) :
    (d.names place).length ≤ d.items.length := by
  simp only [names, List.length_mergeSort]
  exact Nat.le_trans (length_eraseDups_le _) (List.length_filterMap_le _ _)

theorem length_list_le {d : Disk} {p : Path} {entries : List (String × Item)}
    (h : d.list p = .ok entries) : entries.length ≤ d.items.length := by
  unfold list at h
  split at h
  · simp at h
  split at h
  · simp at h
  split at h
  · simp at h
  · simp at h
  · simp only [Except.ok.injEq] at h
    subst h
    exact Nat.le_trans (List.length_filterMap_le _ _) (length_names_le d _)
  · simp at h

@[simp] theorem length_grow (d : Disk) (p : Path) (count : Nat) :
    (d.grow p count).items.length = d.items.length := by
  unfold grow; split <;> simp

@[simp] theorem length_beforeReading (d : Disk) (p : Path) :
    (d.beforeReading p).items.length = d.items.length := by
  unfold beforeReading; split <;> simp

@[simp] theorem length_readBounded (d : Disk) (p : Path) (limit : Int) :
    (d.readBounded p limit).2.items.length = d.items.length := by
  simp [readBounded]

end Disk

namespace Scan

/-! ### The number of items stays -/

def Tally.room (t : Tally) : Nat := t.disk.items.length

@[simp] theorem Tally.room_note (t : Tally) (line : LogLine) : (t.note line).room = t.room := rfl
@[simp] theorem Tally.room_skipFile (t : Tally) : t.skipFile.room = t.room := rfl
@[simp] theorem Tally.room_skipDirectory (t : Tally) : t.skipDirectory.room = t.room := rfl
@[simp] theorem Tally.room_skipLink (t : Tally) : t.skipLink.room = t.room := rfl
@[simp] theorem Tally.room_rejectLink (t : Tally) (relative reason : String) :
    (t.rejectLink relative reason).room = t.room := rfl
@[simp] theorem Tally.room_fail (t : Tally) (relative : String) (e : ReadError) :
    (t.fail relative e).room = t.room := rfl
@[simp] theorem Tally.room_add (t : Tally) (file : FileRecord) (content : Option String) :
    (t.add file content).room = t.room := rfl

@[simp] theorem room_readFile (rules : Rules) (path : Path) (relative : String) (modified : Int)
    (t : Tally) : (readFile rules path relative modified t).room = t.room := by
  have kept : ({ t with disk := (t.disk.readBounded path rules.settings.maxFileBytes).2 }
      : Tally).room = t.room := by simp [Tally.room]
  unfold readFile
  simp only
  split
  · simpa using kept
  · split
    · simpa using kept
    · split <;> simpa using kept

@[simp] theorem room_reuseFile (rules : Rules) (relative : String) (size modified : Int)
    (node : FileNode) (t : Tally) :
    (reuseFile rules relative size modified node t).room = t.room := by
  unfold reuseFile; split <;> simp

@[simp] theorem room_recordFile (rules : Rules) (path : Path) (relative : String)
    (size modified : Int) (t : Tally) :
    (recordFile rules path relative size modified t).room = t.room := by
  unfold recordFile
  split
  · simp
  · split <;> simp

@[simp] theorem room_visitFile (rules : Rules) (path : Path) (relative : String)
    (realPath : Path) (t : Tally) :
    (visitFile rules path relative realPath t).room = t.room := by
  unfold visitFile
  simp only
  split
  · rfl
  · split
    · rfl
    · split
      · rfl
      · rw [room_recordFile]; rfl

/-! ### What a step adds -/

/-- How many levels of directories a directory may still have below it. -/
def rank (rules : Rules) (frame : Frame) : Nat := (rules.settings.maxDepth - frame.depth).toNat

theorem childFrame_some {rules : Rules} {parent child : Frame} {path : Path} {relative : String}
    {realPath : Path} {isLink : Bool} {t : Tally}
    (h : (childFrame rules parent path relative realPath isLink t).1 = some child) :
    rank rules child + 1 = rank rules parent := by
  unfold childFrame at h
  split at h
  · simp at h
  · simp only at h
    split at h
    · simp at h
    · simp only [Option.some.injEq] at h
      subst h
      simp only [rank]
      omega

@[simp] theorem room_childFrame (rules : Rules) (parent : Frame) (path : Path)
    (relative : String) (realPath : Path) (isLink : Bool) (t : Tally) :
    (childFrame rules parent path relative realPath isLink t).2.room = t.room := by
  unfold childFrame
  split
  · simp
  · simp only
    split <;> simp

/-- What a directory adds: frames with one level less below them and links of its own. -/
structure Finds.FitsUnder (rules : Rules) (frame : Frame) (finds : Finds) : Prop where
  frames : ∀ child ∈ finds.frames, rank rules child + 1 = rank rules frame
  links : ∀ link ∈ finds.links, link.parent = frame

def Finds.count (finds : Finds) : Nat := finds.frames.length + finds.links.length

/-- What a step that does not break the walk off gives fits under a directory, and there is no more
of it than `most`. -/
def Finding.FitsUnder (rules : Rules) (frame : Frame) (most : Nat) : Finding → Prop
  | .ok finds => finds.FitsUnder rules frame ∧ finds.count ≤ most
  | .error _ => True

theorem nothing_fits (rules : Rules) (frame : Frame) (most : Nat) :
    Finding.FitsUnder rules frame most (.ok {}) :=
  ⟨⟨by simp, by simp⟩, by simp [Finds.count]⟩

theorem unresolved_fits (rules : Rules) (frame : Frame) (relative : String) (e : FileError)
    (t : Tally) :
    (unresolved relative e t).1.FitsUnder rules frame 1 ∧
      (unresolved relative e t).2.room = t.room := by
  unfold unresolved
  split
  · exact ⟨nothing_fits .., rfl⟩
  · exact ⟨trivial, rfl⟩

theorem visitEntry_fits (rules : Rules) (frame : Frame) (name : String) (item : Item)
    (t : Tally) :
    (visitEntry rules frame name item t).1.FitsUnder rules frame 1 ∧
      (visitEntry rules frame name item t).2.room = t.room := by
  unfold visitEntry
  simp only
  split
  · split
    · exact ⟨⟨⟨by simp, by simp⟩, by simp [Finds.count]⟩, rfl⟩
    · exact ⟨nothing_fits .., rfl⟩
  · split
    · exact unresolved_fits ..
    · refine ⟨⟨⟨?_, by simp⟩, ?_⟩, room_childFrame ..⟩
      · intro child member
        exact childFrame_some (by simpa using member)
      · simp only [Finds.count, List.length_nil, Nat.add_zero]
        cases (childFrame rules frame _ _ _ false t).1 <;> simp
  · split
    · exact unresolved_fits ..
    · exact ⟨nothing_fits .., room_visitFile ..⟩
  · exact ⟨nothing_fits .., rfl⟩

theorem visitEntries_fits (rules : Rules) (frame : Frame) (entries : List (String × Item))
    (t : Tally) :
    (visitEntries rules frame entries t).1.FitsUnder rules frame entries.length ∧
      (visitEntries rules frame entries t).2.room = t.room := by
  induction entries generalizing t with
  | nil => exact ⟨nothing_fits .., rfl⟩
  | cons entry rest ih =>
    obtain ⟨name, item⟩ := entry
    have entryFits := visitEntry_fits rules frame name item t
    unfold visitEntries
    split
    · next e after step =>
      rw [step] at entryFits
      exact ⟨trivial, entryFits.2⟩
    · next first after step =>
      rw [step] at entryFits
      obtain ⟨⟨firstFits, firstCount⟩, firstRoom⟩ := entryFits
      have restFits := ih after
      split
      · next e last steps =>
        rw [steps] at restFits
        exact ⟨trivial, restFits.2.trans firstRoom⟩
      · next others last steps =>
        rw [steps] at restFits
        obtain ⟨⟨othersFit, othersCount⟩, lastRoom⟩ := restFits
        refine ⟨⟨⟨?_, ?_⟩, ?_⟩, lastRoom.trans firstRoom⟩
        · intro child member
          exact (List.mem_append.1 member).elim (firstFits.frames child) (othersFit.frames child)
        · intro link member
          exact (List.mem_append.1 member).elim (firstFits.links link) (othersFit.links link)
        · simp only [Finds.count, List.length_append, List.length_cons] at *
          omega

theorem scanDirectory_fits (rules : Rules) (frame : Frame) (t : Tally) :
    (scanDirectory rules frame t).1.FitsUnder rules frame t.room ∧
      (scanDirectory rules frame t).2.room = t.room := by
  unfold scanDirectory
  split
  · exact ⟨nothing_fits .., rfl⟩
  · next entries h =>
    obtain ⟨fits, room⟩ := visitEntries_fits rules frame entries t
    refine ⟨?_, room⟩
    cases found : (visitEntries rules frame entries t).1 with
    | error e => trivial
    | ok finds =>
      rw [found] at fits
      exact ⟨fits.1, Nat.le_trans fits.2 (Disk.length_list_le h)⟩

theorem visitLink_fits (rules : Rules) (link : Pending) (t : Tally) :
    (∀ child ∈ (visitLink rules link t).1, rank rules child + 1 = rank rules link.parent) ∧
      (visitLink rules link t).2.room = t.room := by
  unfold visitLink
  simp only
  split
  · simp
  · split
    · simp
    · split
      · simp
      · split
        · simp
        · split
          · split
            · simp
            · exact ⟨fun child member => childFrame_some (by simpa using member), by simp⟩
          · simp
          · simp

/-! ### Weights -/

def total (weights : List Nat) : Nat := weights.foldr (· + ·) 0

@[simp] theorem total_nil : total [] = 0 := rfl

@[simp] theorem total_cons (weight : Nat) (weights : List Nat) :
    total (weight :: weights) = weight + total weights := rfl

@[simp] theorem total_append (first second : List Nat) :
    total (first ++ second) = total first + total second := by
  induction first with
  | nil => simp
  | cons weight weights ih => simp only [List.cons_append, total_cons, ih]; omega

/-- The weight of a link with a directory of rank `r` above it, on a disk with `n` items. -/
def linkWeight (n : Nat) : Nat → Nat
  | 0 => 1
  | r + 1 => 2 + n * linkWeight n r

def frameWeight (n r : Nat) : Nat := 1 + n * linkWeight n r

theorem linkWeight_pos (n r : Nat) : 0 < linkWeight n r := by
  cases r with
  | zero => exact Nat.one_pos
  | succ r => simp only [linkWeight]; omega

theorem frameWeight_lt (n r : Nat) : frameWeight n r < linkWeight n (r + 1) := by
  simp only [frameWeight, linkWeight]; omega

def Walk.weight (rules : Rules) (w : Walk) : Nat :=
  total (w.stack.map fun frame => frameWeight w.tally.room (rank rules frame)) +
    total (w.pending.map fun link => linkWeight w.tally.room (rank rules link.parent))

theorem total_map_le {α : Type} (f : α → Nat) (bound : Nat) (l : List α)
    (h : ∀ a ∈ l, f a ≤ bound) : total (l.map f) ≤ l.length * bound := by
  induction l with
  | nil => simp
  | cons a as ih =>
    have head := h a (by simp)
    have tail := ih fun b member => h b (by simp [member])
    simp only [List.map_cons, total_cons, List.length_cons, Nat.add_mul, Nat.one_mul]
    omega

theorem finds_weight_lt {rules : Rules} {frame : Frame} {finds : Finds} {n : Nat}
    (fits : finds.FitsUnder rules frame) (count : finds.count ≤ n) :
    total (finds.frames.map fun child => frameWeight n (rank rules child)) +
        total (finds.links.map fun link => linkWeight n (rank rules link.parent)) <
      frameWeight n (rank rules frame) := by
  have frames := total_map_le (fun child => frameWeight n (rank rules child))
    (linkWeight n (rank rules frame)) finds.frames (by
      intro child member
      have := fits.frames child member
      rw [← this]
      exact Nat.le_of_lt (frameWeight_lt n _))
  have links := total_map_le (fun link : Pending => linkWeight n (rank rules link.parent))
    (linkWeight n (rank rules frame)) finds.links (by
      intro link member
      exact Nat.le_of_eq
        (congrArg (fun parent => linkWeight n (rank rules parent)) (fits.links link member)))
  have total : (finds.frames.length + finds.links.length) * linkWeight n (rank rules frame) ≤
      n * linkWeight n (rank rules frame) := Nat.mul_le_mul_right _ count
  rw [Nat.add_mul] at total
  simp only [frameWeight] at *
  omega

theorem Walk.weight_next {rules : Rules} {w next : Walk} (h : w.next? rules = some next) :
    next.weight rules < w.weight rules := by
  unfold Walk.next? at h
  split at h
  · next frame rest stack =>
    have fits := scanDirectory_fits rules frame w.tally
    split at h
    · simp only [Option.some.injEq] at h
      subst h
      simp only [Walk.weight, stack, List.map_nil, total_nil, List.map_cons, total_cons,
        frameWeight]
      omega
    · next finds tally step =>
      rw [step] at fits
      obtain ⟨⟨fits, count⟩, room⟩ := fits
      simp only [Option.some.injEq] at h
      subst h
      have lighter := finds_weight_lt fits count
      simp only at room
      simp only [Walk.weight, stack, room, List.map_append, total_append, List.map_cons,
        total_cons]
      omega
  · next stack =>
    split at h
    · next link rest pending =>
      obtain ⟨fits, room⟩ := visitLink_fits rules link w.tally
      simp only [Option.some.injEq] at h
      subst h
      simp only [Walk.weight, stack, pending, room, List.map_cons, total_cons, List.map_nil,
        total_nil, Nat.zero_add]
      cases child : (visitLink rules link w.tally).1 with
      | none =>
        have := linkWeight_pos w.tally.room (rank rules link.parent)
        simp
        omega
      | some found =>
        have smaller := fits found (by simp [child])
        have := frameWeight_lt w.tally.room (rank rules found)
        rw [smaller] at this
        simp
        omega
    · simp at h

end Scan
end SourceIndex
