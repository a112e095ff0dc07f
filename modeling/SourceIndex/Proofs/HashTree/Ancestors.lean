import SourceIndex.HashTree.Build
import SourceIndex.Proofs.Path.Key
import Mathlib.Algebra.BigOperators.Group.List.Basic
import Mathlib.Algebra.GroupWithZero.Nat
import Mathlib.Data.List.Nodup
/-!
# Ancestors of files

The directories on the way from a file up to the root. Going up takes one level off the depth at
each step, so the way ends, no directory is met twice, and a directory on it is either the one that
holds the file or the parent of exactly one other. That is how files are counted.
-/

namespace SourceIndex.HashTree

open Key (IsKey isRoot)

/-! ### The way up -/

/-- A directory on the way from another one up to the root, without the root. -/
inductive IsOnWay (start : String) : String → Prop
  | here (inside : isRoot start ≠ true) : IsOnWay start start
  | up {key : String} (below : IsOnWay start key) (inside : isRoot (Key.parent key) ≠ true) :
    IsOnWay start (Key.parent key)

/-- A directory on the way from a file up to the root, without the root. -/
def IsAncestor (path key : String) : Prop := IsOnWay (Key.ofFile path) key

variable {start key other : String}

namespace IsOnWay

theorem inside (on : IsOnWay start key) : isRoot key ≠ true := by
  cases on with
  | here inside => exact inside
  | up below inside => exact inside

theorem start_inside (on : IsOnWay start key) : isRoot start ≠ true := by
  induction on with
  | here inside => exact inside
  | up below inside ih => exact ih

theorem isKey (on : IsOnWay start key) (isKey : start = "" ∨ IsKey start) : IsKey key := by
  induction on with
  | here inside => exact Key.isKey_of_inside isKey inside
  | up below inside ih => exact Key.isKey_of_inside ih.parent inside

/-- Going up from a directory to another one that is not the root takes off one level. -/
theorem depth_parent (on : IsOnWay start key) (isKey : start = "" ∨ IsKey start)
    (inside : isRoot (Key.parent key) ≠ true) : Key.depth key = Key.depth (Key.parent key) + 1 :=
  ((on.isKey isKey).depth_parent on.inside).resolve_left fun last => inside last.2

theorem depth_le (on : IsOnWay start key) (isKey : start = "" ∨ IsKey start) :
    Key.depth key ≤ Key.depth start := by
  induction on with
  | here inside => exact Nat.le_refl _
  | up below inside ih =>
    have level := below.depth_parent isKey inside
    omega

theorem eq_of_depth (on : IsOnWay start key) (also : IsOnWay start other)
    (isKey : start = "" ∨ IsKey start) (same : Key.depth key = Key.depth other) : key = other := by
  induction on generalizing other with
  | here inside =>
    cases also with
    | here => rfl
    | @up below on' inside =>
      have level := on'.depth_parent isKey inside
      have most := on'.depth_le isKey
      omega
  | @up key on inside ih =>
    have level := on.depth_parent isKey inside
    have most := on.depth_le isKey
    cases also with
    | here => omega
    | @up below on' inside' =>
      have level' := on'.depth_parent isKey inside'
      rw [ih on' (by omega)]

end IsOnWay

theorem isOnWay_iff : IsOnWay start key ↔
    isRoot start ≠ true ∧ (key = start ∨ IsOnWay (Key.parent start) key) := by
  constructor
  · intro on
    refine ⟨on.start_inside, ?_⟩
    induction on with
    | here inside => exact .inl rfl
    | up below inside ih =>
      rcases ih with rfl | later
      · exact .inr (.here inside)
      · exact .inr (later.up inside)
  · rintro ⟨inside, rfl | later⟩
    · exact .here inside
    · induction later with
      | here above => exact (IsOnWay.here inside).up above
      | up _ above ih => exact ih.up above

/-! ### Climbing -/

theorem climb_of_isRoot (root : isRoot start = true) (steps : Nat) : climb steps start = [] := by
  cases steps with
  | zero => rfl
  | succ steps => rw [climb, if_pos root]

/-- Climbing comes to the root, if there are more steps than levels. -/
theorem mem_climb_iff {steps : Nat} (isKey : start = "" ∨ IsKey start)
    (enough : Key.depth start < steps) : key ∈ climb steps start ↔ IsOnWay start key := by
  induction steps generalizing start with
  | zero => omega
  | succ steps ih =>
    rw [isOnWay_iff, climb]
    by_cases root : isRoot start = true
    · simp [root]
    · have key' : IsKey start := Key.isKey_of_inside isKey root
      rw [if_neg root, List.mem_cons]
      refine (or_congr_right ?_).trans (and_iff_right root).symm
      rcases key'.depth_parent root with ⟨-, last⟩ | level
      · rw [climb_of_isRoot last]
        exact ⟨fun member => absurd member List.not_mem_nil, fun on => absurd last on.start_inside⟩
      · exact ih key'.parent (by omega)

theorem mem_ancestors_iff {path : String} : key ∈ ancestors path ↔ IsAncestor path key :=
  mem_climb_iff (Key.isKey_ofFile path) (Nat.lt_succ_self _)

instance (path key : String) : Decidable (IsAncestor path key) :=
  decidable_of_iff (key ∈ ancestors path) mem_ancestors_iff

/-! ### The end of the way -/

/-- The way up from a directory comes to a root after some steps, and not before. -/
structure EndsAfter (start : String) (steps : Nat) : Prop where
  root : isRoot (Key.parent^[steps] start) = true
  inside : ∀ i < steps, isRoot (Key.parent^[i] start) ≠ true

namespace EndsAfter

theorem zero (root : isRoot start = true) : EndsAfter start 0 :=
  ⟨root, fun i before => by omega⟩

theorem succ_iff {steps : Nat} : EndsAfter start (steps + 1) ↔
    isRoot start ≠ true ∧ EndsAfter (Key.parent start) steps := by
  constructor
  · rintro ⟨root, inside⟩
    exact ⟨inside 0 (by omega), root, fun i before => inside (i + 1) (by omega)⟩
  · rintro ⟨here, root, inside⟩
    refine ⟨root, fun i before => ?_⟩
    cases i with
    | zero => exact here
    | succ i => exact inside i (by omega)

theorem climb_eq {steps limit : Nat} (ends : EndsAfter start steps) (enough : steps ≤ limit) :
    climb limit start = (List.range steps).map fun i => Key.parent^[i] start := by
  induction steps generalizing start limit with
  | zero => exact climb_of_isRoot ends.root limit
  | succ steps ih =>
    obtain ⟨inside, rest⟩ := succ_iff.mp ends
    obtain ⟨limit, rfl⟩ := Nat.exists_eq_add_of_lt enough
    rw [climb, if_neg inside, ih rest (by omega), List.range_succ_eq_map, List.map_cons,
      List.map_map]
    rfl

end EndsAfter

/-- The way up from a key takes at most one step more than the key has levels. -/
theorem exists_endsAfter (isKey : start = "" ∨ IsKey start) :
    ∃ steps ≤ Key.depth start + 1, EndsAfter start steps := by
  induction deep : Key.depth start using Nat.strong_induction_on generalizing start with
  | _ level ih =>
    by_cases root : isRoot start = true
    · exact ⟨0, by omega, .zero root⟩
    have key' : IsKey start := Key.isKey_of_inside isKey root
    rcases key'.depth_parent root with ⟨-, last⟩ | deeper
    · exact ⟨1, by omega, EndsAfter.succ_iff.mpr ⟨root, .zero last⟩⟩
    · obtain ⟨steps, few, rest⟩ := ih (Key.depth (Key.parent start)) (by omega) key'.parent rfl
      exact ⟨steps + 1, by omega, EndsAfter.succ_iff.mpr ⟨root, rest⟩⟩

/-- The key that is met after some steps up from the directory of a file. -/
def keyAfter (path : String) (steps : Nat) : String := Key.parent^[steps] (Key.ofFile path)

/-- Going up from the directory of any file ends at the root, within the steps that are allowed for
it. All keys on the way are normal, and each step takes off one level while there is one. -/
theorem way_up_ends (path : String) :
    (∃ steps ≤ Key.depth (Key.ofFile path) + 1, EndsAfter (Key.ofFile path) steps ∧
      ancestors path = (List.range steps).map (keyAfter path)) ∧
    (∀ i, keyAfter path i = "" ∨ Key.ofDirectory (keyAfter path i) = keyAfter path i) ∧
    (∀ i, 0 < Key.depth (keyAfter path i) →
      Key.depth (keyAfter path (i + 1)) = Key.depth (keyAfter path i) - 1) ∧
    Key.normalize (Key.normalize path) = Key.normalize path := by
  have isKey (i : Nat) : keyAfter path i = "" ∨ IsKey (keyAfter path i) :=
    Key.isKey_iterate_parent (Key.isKey_ofFile path) i
  refine ⟨?_, fun i => ?_, fun i deep => ?_, Key.normalize_normalize path⟩
  · obtain ⟨steps, few, ends⟩ := exists_endsAfter (Key.isKey_ofFile path)
    exact ⟨steps, few, ends, ends.climb_eq few⟩
  · exact (isKey i).imp_right fun is => is.ofDirectory_eq
  · have up : keyAfter path (i + 1) = Key.parent (keyAfter path i) :=
      Function.iterate_succ_apply' Key.parent i (Key.ofFile path)
    rw [up, Key.depth_parent_eq (isKey i) deep]

/-- A rooted path with a backslash and two dots: its directory is two levels deep, and the way up
takes one step more. -/
theorem way_up_ends_rooted :
    let path := "//usr\\lib/x/../a.txt"
    (List.range 4).map (keyAfter path) = ["//usr/lib/", "//usr/", "//", ""] ∧
    ancestors path = ["//usr/lib/", "//usr/", "//"] ∧
    Key.depth (keyAfter path 0) = 2 ∧ Key.depth (keyAfter path 1) = 1 := by
  intro path
  have keys : (List.range 4).map (keyAfter path) = ["//usr/lib/", "//usr/", "//", ""] := by
    decide +kernel
  have climbed : ancestors path = ["//usr/lib/", "//usr/", "//"] := by decide +kernel
  have deep : Key.depth (keyAfter path 0) = 2 := by decide +kernel
  refine ⟨keys, climbed, deep, ?_⟩
  have level := (way_up_ends path).2.2.1 0 (by rw [deep]; decide)
  rw [level, deep]

/-! ### Ancestors -/

variable {path child : String}

theorem IsAncestor.up (is : IsAncestor path child) (parent : Key.parent child = key)
    (inside : isRoot key ≠ true) : IsAncestor path key := by
  subst parent
  exact IsOnWay.up is inside

theorem IsAncestor.depth_parent (is : IsAncestor path child) (parent : Key.parent child = key)
    (inside : isRoot key ≠ true) : Key.depth child = Key.depth key + 1 := by
  subst parent
  exact IsOnWay.depth_parent is (Key.isKey_ofFile path) inside

theorem isAncestor_iff (inside : isRoot key ≠ true) : IsAncestor path key ↔
    Key.ofFile path = key ∨ ∃ child, IsAncestor path child ∧ Key.parent child = key := by
  constructor
  · intro is
    cases is with
    | here => exact .inl rfl
    | up below => exact .inr ⟨_, below, rfl⟩
  · rintro (rfl | ⟨child, is, parent⟩)
    · exact .here inside
    · exact is.up parent inside

theorem IsAncestor.ne_ofFile (is : IsAncestor path child) (parent : Key.parent child = key)
    (inside : isRoot key ≠ true) : Key.ofFile path ≠ key := by
  intro holds
  have level := is.depth_parent parent inside
  have most := IsOnWay.depth_le is (Key.isKey_ofFile path)
  rw [holds] at most
  omega

theorem IsAncestor.eq_child {also : String} (is : IsAncestor path child)
    (parent : Key.parent child = key) (is' : IsAncestor path also)
    (parent' : Key.parent also = key) (inside : isRoot key ≠ true) : child = also := by
  refine IsOnWay.eq_of_depth is is' (Key.isKey_ofFile path) ?_
  rw [is.depth_parent parent inside, is'.depth_parent parent' inside]

/-! ### Counting files -/

variable {children : List String}

/-- Whether a directory is an ancestor of a file is found by looking at the file and at the children
of the directory. -/
theorem countP_children (distinct : children.Nodup) (inside : isRoot key ≠ true)
    (parents : ∀ child ∈ children, Key.parent child = key)
    (all : ∀ child, IsAncestor path child → Key.parent child = key → child ∈ children) :
    (if IsAncestor path key then 1 else 0) = (if Key.ofFile path = key then 1 else 0) +
      children.countP fun child => IsAncestor path child := by
  by_cases held : ∃ child, IsAncestor path child ∧ Key.parent child = key
  · obtain ⟨child, is, parent⟩ := held
    have one : (children.countP fun child => IsAncestor path child) = 1 := by
      rw [← List.count_eq_one_of_mem distinct (all child is parent)]
      refine List.countP_congr fun other member => ?_
      rw [decide_eq_true_eq, beq_iff_eq]
      refine ⟨fun is' => is'.eq_child (parents other member) is parent inside, ?_⟩
      rintro rfl
      exact is
    rw [if_pos (is.up parent inside), if_neg (is.ne_ofFile parent inside), one]
  · have none : (children.countP fun child => IsAncestor path child) = 0 := by
      rw [List.countP_eq_zero]
      intro child member is
      exact held ⟨child, of_decide_eq_true is, parents child member⟩
    rw [none]
    by_cases holds : Key.ofFile path = key
    · rw [if_pos ((isAncestor_iff inside).mpr (.inl holds)), if_pos holds]
    · rw [if_neg fun is => ((isAncestor_iff inside).mp is).elim holds held, if_neg holds]

theorem sum_map_ite (holds : String → Prop) [DecidablePred holds] (items : List String) :
    (items.map fun item => if holds item then 1 else 0).sum =
      items.countP fun item => holds item := by
  induction items with
  | nil => rfl
  | cons item rest ih => simp [List.countP_cons, ih, Nat.add_comm]

/-- The files below a directory are those that it holds itself and those below its children. -/
theorem countP_isAncestor {records : List FileRecord} (distinct : children.Nodup)
    (inside : isRoot key ≠ true) (parents : ∀ child ∈ children, Key.parent child = key)
    (all : ∀ r ∈ records, ∀ child, IsAncestor r.path child → Key.parent child = key →
      child ∈ children) :
    (records.countP fun r => IsAncestor r.path key) =
      (records.countP fun r => Key.ofFile r.path = key) +
        (children.map fun child => records.countP fun r => IsAncestor r.path child).sum := by
  induction records with
  | nil => simp
  | cons r rest ih =>
    have here := countP_children distinct inside parents (all r (List.mem_cons_self ..))
    have later := ih fun other member => all other (List.mem_cons_of_mem _ member)
    simp only [List.countP_cons, decide_eq_true_eq, List.sum_map_add, sum_map_ite, later, here]
    omega

end SourceIndex.HashTree
