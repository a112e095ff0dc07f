import SourceIndex.Proofs.Chunk.Codec
import Mathlib.Data.List.Basic
/-!
# The order of chunks

Chunks are ordered by their paths first. So a list in order is known once the chunks of every single
path are, and sorting only brings the paths into order if the chunks of each are in order already.
-/

namespace SourceIndex.Chunk

/-! ### Addresses -/

/-- Whether a chunk stands before another one in the order of addresses, or at the same one. -/
def isNoLater (a b : Chunk) : Bool := a.path < b.path || a.path = b.path && a.startsNoLater b

theorem startsNoLater_iff {a b : Chunk} : a.startsNoLater b = true ↔
    a.startLine < b.startLine ∨ a.startLine = b.startLine ∧ a.endLine ≤ b.endLine := by
  simp [startsNoLater]

theorem startsNoLater_trans (a b c : Chunk) (first : a.startsNoLater b = true)
    (second : b.startsNoLater c = true) : a.startsNoLater c = true := by
  rw [startsNoLater_iff] at *
  omega

theorem startsNoLater_total (a b : Chunk) : (a.startsNoLater b || b.startsNoLater a) = true := by
  rw [Bool.or_eq_true, startsNoLater_iff, startsNoLater_iff]
  omega

theorem isNoLater_iff {a b : Chunk} : a.isNoLater b = true ↔
    a.path < b.path ∨ a.path = b.path ∧ a.startsNoLater b = true := by
  simp [isNoLater]

theorem le_of_isNoLater {a b : Chunk} (before : a.isNoLater b = true) : a.path ≤ b.path := by
  rcases isNoLater_iff.mp before with less | ⟨same, -⟩
  · exact String.not_lt.mp fun more => String.lt_irrefl _ (String.lt_trans less more)
  · exact same ▸ String.le_refl _

theorem isNoLater_of_path_eq {a b : Chunk} (same : a.path = b.path) :
    a.isNoLater b = a.startsNoLater b := by
  rw [Bool.eq_iff_iff, isNoLater_iff, same]
  constructor
  · rintro (less | ⟨-, starts⟩)
    · exact absurd less (String.lt_irrefl _)
    · exact starts
  · exact fun starts => .inr ⟨rfl, starts⟩

theorem isNoLater_trans (a b c : Chunk) (first : a.isNoLater b = true)
    (second : b.isNoLater c = true) : a.isNoLater c = true := by
  rw [isNoLater_iff] at *
  rcases first with less | ⟨same, starts⟩
  · rcases second with less' | ⟨same', -⟩
    · exact .inl (String.lt_trans less less')
    · exact .inl (same' ▸ less)
  · rcases second with less' | ⟨same', starts'⟩
    · exact .inl (same ▸ less')
    · exact .inr ⟨same.trans same', startsNoLater_trans a b c starts starts'⟩

theorem isNoLater_total (a b : Chunk) : (a.isNoLater b || b.isNoLater a) = true := by
  by_cases same : a.path = b.path
  · rw [isNoLater_of_path_eq same, isNoLater_of_path_eq same.symm]
    exact startsNoLater_total a b
  · rw [Bool.or_eq_true, isNoLater_iff, isNoLater_iff]
    by_cases less : a.path < b.path
    · exact .inl (.inl less)
    · by_cases more : b.path < a.path
      · exact .inr (.inl more)
      · exact absurd (String.le_antisymm (String.not_lt.mp more) (String.not_lt.mp less)) same

/-! ### The chunks of a path -/

def withPath (path : String) (chunks : List Chunk) : List Chunk :=
  chunks.filter fun chunk => chunk.path = path

theorem mem_withPath {path : String} {chunks : List Chunk} {c : Chunk} :
    c ∈ withPath path chunks ↔ c ∈ chunks ∧ c.path = path := by
  simp [withPath]

theorem withPath_cons (path : String) (c : Chunk) (chunks : List Chunk) :
    withPath path (c :: chunks) =
      if c.path = path then c :: withPath path chunks else withPath path chunks := by
  by_cases same : c.path = path
  · simp [withPath, same]
  · simp [withPath, same]

theorem withPath_append (path : String) (first second : List Chunk) :
    withPath path (first ++ second) = withPath path first ++ withPath path second :=
  List.filter_append ..

theorem withPath_of_forall {path : String} {chunks : List Chunk}
    (all : ∀ c ∈ chunks, c.path = path) : withPath path chunks = chunks := by
  rw [withPath, List.filter_eq_self]
  intro c member
  exact decide_eq_true (all c member)

theorem withPath_of_forall_ne {path : String} {chunks : List Chunk}
    (none : ∀ c ∈ chunks, c.path ≠ path) : withPath path chunks = [] := by
  rw [withPath, List.filter_eq_nil_iff]
  intro c member
  simpa using none c member

theorem path_le_of_mem {first c : Chunk} {chunks : List Chunk}
    (ordered : (first :: chunks).Pairwise fun a b => a.path ≤ b.path)
    (member : c ∈ first :: chunks) : first.path ≤ c.path := by
  rcases List.mem_cons.mp member with rfl | later
  · exact String.le_refl _
  · exact (List.pairwise_cons.mp ordered).1 c later

theorem eq_of_withPath_eq {first second : List Chunk}
    (ordered : first.Pairwise fun a b => a.path ≤ b.path)
    (ordered' : second.Pairwise fun a b => a.path ≤ b.path)
    (same : ∀ path, withPath path first = withPath path second) : first = second := by
  induction first generalizing second with
  | nil =>
    cases second with
    | nil => rfl
    | cons c rest =>
      have here := same c.path
      rw [withPath_cons, if_pos rfl] at here
      cases here
  | cons a rest ih =>
    cases second with
    | nil =>
      have here := same a.path
      rw [withPath_cons, if_pos rfl] at here
      cases here
    | cons b others =>
      have fromFirst : b ∈ a :: rest := by
        have member : b ∈ withPath b.path (b :: others) :=
          mem_withPath.mpr ⟨List.mem_cons_self .., rfl⟩
        rw [← same] at member
        exact (mem_withPath.mp member).1
      have fromSecond : a ∈ b :: others := by
        have member : a ∈ withPath a.path (a :: rest) :=
          mem_withPath.mpr ⟨List.mem_cons_self .., rfl⟩
        rw [same] at member
        exact (mem_withPath.mp member).1
      have path : a.path = b.path :=
        String.le_antisymm (path_le_of_mem ordered fromFirst) (path_le_of_mem ordered' fromSecond)
      have heads := same a.path
      rw [withPath_cons, if_pos rfl, withPath_cons, if_pos path.symm, List.cons.injEq] at heads
      obtain ⟨rfl, -⟩ := heads
      rw [ih (List.pairwise_cons.mp ordered).2 (List.pairwise_cons.mp ordered').2]
      intro other
      have tails := same other
      rw [withPath_cons, withPath_cons] at tails
      split at tails
      · exact (List.cons.inj tails).2
      · exact tails

/-! ### Sorting -/

theorem sortByAddress_perm (chunks : List Chunk) : (sortByAddress chunks).Perm chunks :=
  List.mergeSort_perm ..

theorem pairwise_sortByAddress (chunks : List Chunk) :
    (sortByAddress chunks).Pairwise fun a b => a.isNoLater b = true :=
  List.pairwise_mergeSort isNoLater_trans isNoLater_total chunks

theorem pairwise_path_sortByAddress (chunks : List Chunk) :
    (sortByAddress chunks).Pairwise fun a b => a.path ≤ b.path :=
  (pairwise_sortByAddress chunks).imp le_of_isNoLater

theorem sortByAddress_sortByAddress (chunks : List Chunk) :
    sortByAddress (sortByAddress chunks) = sortByAddress chunks :=
  List.mergeSort_of_pairwise (pairwise_sortByAddress chunks)

theorem filter_sortByAddress {keeps : Chunk → Bool} {chunks : List Chunk}
    (ordered : (chunks.filter keeps).Pairwise fun a b => a.isNoLater b = true) :
    (sortByAddress chunks).filter keeps = chunks.filter keeps := by
  have within : (chunks.filter keeps).Sublist (sortByAddress chunks) :=
    List.sublist_mergeSort isNoLater_trans isNoLater_total ordered List.filter_sublist
  have inside : (chunks.filter keeps).Sublist ((sortByAddress chunks).filter keeps) := by
    have kept := within.filter keeps
    rwa [List.filter_filter, funext fun chunk => Bool.and_self (keeps chunk)] at kept
  have lengths : (chunks.filter keeps).length = ((sortByAddress chunks).filter keeps).length :=
    (((sortByAddress_perm chunks).filter _).length_eq).symm
  exact (inside.eq_of_length lengths).symm

theorem withPath_sortByAddress {path : String} {chunks : List Chunk}
    (ordered : (withPath path chunks).Pairwise fun a b => a.startsNoLater b = true) :
    withPath path (sortByAddress chunks) = withPath path chunks := by
  refine filter_sortByAddress (ordered.imp_of_mem fun {a b} first second starts => ?_)
  rw [isNoLater_of_path_eq ((mem_withPath.mp first).2.trans (mem_withPath.mp second).2.symm)]
  exact starts

def place (c : Chunk) : String × Int × Int := (c.path, c.startLine, c.endLine)

/-- Chunks in the order of their places, those of one place in the order in which they were
given. -/
structure IsSortOf (sorted given : List Chunk) : Prop where
  ordered : sorted.Pairwise fun a b => a.isNoLater b = true
  perm : sorted.Perm given
  stable : ∀ place : String × Int × Int,
    sorted.filter (fun c => c.place = place) = given.filter fun c => c.place = place

theorem isSortOf_sortByAddress (chunks : List Chunk) : IsSortOf (sortByAddress chunks) chunks where
  ordered := pairwise_sortByAddress chunks
  perm := sortByAddress_perm chunks
  stable at_ := by
    refine filter_sortByAddress (List.pairwise_of_forall_mem_list fun a first b second => ?_)
    have same : a.place = b.place :=
      (of_decide_eq_true (List.mem_filter.mp first).2).trans
        (of_decide_eq_true (List.mem_filter.mp second).2).symm
    rw [place, place, Prod.mk.injEq, Prod.mk.injEq] at same
    rw [isNoLater_of_path_eq same.1, startsNoLater_iff]
    omega

theorem sortByAddress_map_normal (chunks : List Chunk) :
    sortByAddress (chunks.map normal) = (sortByAddress chunks).map normal := by
  have same (a b : Chunk) : a.isNoLater b = a.normal.isNoLater b.normal := rfl
  exact (List.map_mergeSort (r := isNoLater) (s := isNoLater) (f := normal)
    fun a _ b _ => same a b).symm

theorem withPath_map_normal (path : String) (chunks : List Chunk) :
    withPath path (chunks.map normal) = (withPath path chunks).map normal := by
  rw [withPath, List.filter_map]
  rfl

theorem normal_normal (c : Chunk) : c.normal.normal = c.normal := by
  unfold normal
  cases c.name with
  | none => rfl
  | some name =>
    by_cases empty : name = ""
    · simp [empty, Option.filter]
    · simp [empty, Option.filter]

theorem map_normal_map_normal (chunks : List Chunk) :
    (chunks.map normal).map normal = chunks.map normal := by
  rw [List.map_map]
  exact List.map_congr_left fun c _ => normal_normal c

theorem pairwise_sortByLines (chunks : List Chunk) :
    (sortByLines chunks).Pairwise fun a b => a.startsNoLater b = true :=
  List.pairwise_mergeSort startsNoLater_trans startsNoLater_total chunks

end SourceIndex.Chunk
