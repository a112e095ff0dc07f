import SourceIndex.Path.Basic
import SourceIndex.Proofs.Text.Lines
/-!
# Paths written and read

The path of a file in a workspace is that of the root with the segments of the relative path after
it. What is found in a directory stands below the root under one more name.

A path that is read has segments that say something, and is the one that its own text writes. So
what stands below a root can be told from the text of the root and a relative path.
-/

namespace SourceIndex

/-- A name that something in a directory can have. -/
structure IsName (name : String) : Prop where
  filled : name ≠ ""
  notDot : name ≠ "."
  notDots : name ≠ ".."
  noSlash : '/' ∉ name.toList

instance (name : String) : Decidable (IsName name) :=
  decidable_of_iff (name ≠ "" ∧ name ≠ "." ∧ name ≠ ".." ∧ '/' ∉ name.toList)
    ⟨fun ⟨filled, notDot, notDots, noSlash⟩ => ⟨filled, notDot, notDots, noSlash⟩,
      fun ⟨filled, notDot, notDots, noSlash⟩ => ⟨filled, notDot, notDots, noSlash⟩⟩

/-- A segment that a path can be read with. -/
structure IsSegment (segment : String) : Prop where
  filled : segment ≠ ""
  notDot : segment ≠ "."
  noSlash : '/' ∉ segment.toList

theorem IsName.isSegment {name : String} (isName : IsName name) : IsSegment name :=
  ⟨isName.filled, isName.notDot, isName.noSlash⟩

namespace Path

/-- The path of what has a relative path below a root. -/
def below (root : Path) (relative : String) : Path :=
  { root with segments := root.segments ++ (ofText relative).segments }

/-! ### Segments of texts -/

theorem segments_ofText_append (before after : String) :
    (ofText (before ++ "/" ++ after)).segments =
      (ofText before).segments ++ (ofText after).segments := by
  have cut := Text.splitOn_append '/' before after
  rw [show String.ofList ['/'] = "/" from rfl] at cut
  simp only [ofText, cut, List.filter_append]

theorem segments_ofText_empty : (ofText "").segments = [] := by decide

theorem segments_ofText_slash (relative : String) :
    (ofText (relative ++ "/")).segments = (ofText relative).segments := by
  have cut := segments_ofText_append relative ""
  rwa [String.append_empty, segments_ofText_empty, List.append_nil] at cut

theorem segments_ofText_name {name : String} (isName : IsName name) :
    (ofText name).segments = [name] := by
  simp [ofText, Text.splitOn_of_not_mem isName.noSlash, isName.filled, isName.notDot]

/-- A text that relative paths are made of by putting a name after it. -/
def Opens (lead : String) : Prop :=
  ∀ name, IsName name → (ofText (lead ++ name)).segments = (ofText lead).segments ++ [name]

theorem opens_empty : Opens "" := by
  intro name isName
  rw [String.empty_append, segments_ofText_name isName, segments_ofText_empty, List.nil_append]

theorem opens_slash (relative : String) : Opens (relative ++ "/") := by
  intro name isName
  rw [segments_ofText_append, segments_ofText_name isName, segments_ofText_slash]

/-! ### Below a root -/

theorem below_empty (root : Path) : root.below "" = root := by
  rw [below, segments_ofText_empty, List.append_nil]

theorem below_slash (root : Path) (relative : String) :
    root.below (relative ++ "/") = root.below relative := by
  rw [below, segments_ofText_slash, below]

theorem below_name (root : Path) {lead name : String} (opens : Opens lead) (isName : IsName name) :
    root.below (lead ++ name) = (root.below lead).child name := by
  rw [below, opens name isName, below, child, List.append_assoc]

/-! ### Paths as they can be read -/

/-- A path as it can be read. -/
structure IsPlain (p : Path) : Prop where
  slashes : p.slashes ≤ 2
  segments : ∀ segment ∈ p.segments, IsSegment segment

theorem leadingSlashes_le (cs : List Char) : leadingSlashes cs ≤ 2 := by
  unfold leadingSlashes
  split <;> omega

theorem isPlain_ofText (s : String) : (ofText s).IsPlain := by
  refine ⟨leadingSlashes_le _, fun segment member => ?_⟩
  obtain ⟨piece, loud⟩ := List.mem_filter.mp member
  simp only [Bool.and_eq_true, bne_iff_ne] at loud
  exact ⟨loud.1, loud.2, Text.not_mem_of_mem_splitOn piece⟩

/-! ### Reading what was written -/

theorem leadingSlashes_of_head {cs : List Char} (clear : cs.head? ≠ some '/') :
    leadingSlashes cs = 0 := by
  unfold leadingSlashes
  split
  · simp at clear
  · simp at clear
  · simp at clear
  · rfl

theorem leadingSlashes_replicate {n : Nat} (few : n ≤ 2) {cs : List Char}
    (clear : cs.head? ≠ some '/') : leadingSlashes (List.replicate n '/' ++ cs) = n := by
  obtain rfl | rfl | rfl : n = 0 ∨ n = 1 ∨ n = 2 := by omega
  · exact leadingSlashes_of_head clear
  all_goals
    cases cs with
    | nil => rfl
    | cons c rest =>
      have other : c ≠ '/' := by simpa using clear
      simp [List.replicate, leadingSlashes, other]

theorem head?_joinWith {segments : List String}
    (are : ∀ segment ∈ segments, IsSegment segment) :
    (Text.joinWith '/' segments).toList.head? ≠ some '/' := by
  cases segments with
  | nil => simp [Text.joinWith, Text.joinPieces]
  | cons first rest =>
    have isSegment := are first (List.mem_cons_self ..)
    obtain ⟨c, cs, chars⟩ : ∃ c cs, first.toList = c :: cs :=
      List.exists_cons_of_ne_nil (by simpa using isSegment.filled)
    have other : c ≠ '/' := by
      have clear := isSegment.noSlash
      rw [chars, List.mem_cons, not_or] at clear
      exact Ne.symm clear.1
    rw [Text.joinWith, String.toList_ofList, Text.joinPieces, List.map_cons, chars]
    cases rest with
    | nil => simpa using other
    | cons next others =>
      rw [List.map_cons, List.intercalate_cons_of_ne_nil (List.cons_ne_nil _ _)]
      simpa using other

theorem splitOn_replicate (n : Nat) (cs : List Char) :
    Text.splitOn '/' (String.ofList (List.replicate n '/' ++ cs)) =
      List.replicate n "" ++ Text.splitOn '/' (String.ofList cs) := by
  induction n with
  | zero => rfl
  | succ n ih =>
    rw [List.replicate_succ, List.cons_append, List.replicate_succ, List.cons_append, ← ih,
      Text.splitOn, String.toList_ofList, Text.pieces_cons, if_pos rfl, List.map_cons, Text.splitOn,
      String.toList_ofList]

theorem filter_splitOn_joinWith {segments : List String}
    (are : ∀ segment ∈ segments, IsSegment segment) :
    (Text.splitOn '/' (Text.joinWith '/' segments)).filter
      (fun segment => segment != "" && segment != ".") = segments := by
  by_cases empty : segments = []
  · rw [empty]
    rfl
  · rw [Text.splitOn_joinWith (fun segment member => (are segment member).noSlash) empty,
      List.filter_eq_self]
    intro segment member
    have isSegment := are segment member
    simp [isSegment.filled, isSegment.notDot]

theorem ofText_text {p : Path} (plain : p.IsPlain) : ofText p.text = p := by
  obtain ⟨slashes, segments⟩ := p
  obtain ⟨few, are⟩ := plain
  -- The path without slashes and segments is written as a dot, which is left out again.
  by_cases bare : (slashes = 0 && segments.isEmpty) = true
  · obtain ⟨rfl, rfl⟩ : slashes = 0 ∧ segments = [] := by simpa using bare
    decide
  · have written : text ⟨slashes, segments⟩ =
        String.ofList (List.replicate slashes '/' ++ (Text.joinWith '/' segments).toList) := by
      rw [text, if_neg bare, String.ofList_append, String.ofList_toList]
    have silent : (List.replicate slashes "").filter
        (fun segment : String => segment != "" && segment != ".") = [] := by
      simp
    rw [written, ofText, String.toList_ofList,
      leadingSlashes_replicate few (head?_joinWith are), splitOn_replicate, List.filter_append,
      silent, String.ofList_toList, filter_splitOn_joinWith are, List.nil_append]

/-! ### Relative paths -/

def Starts (lead : String) : Prop := lead.toList.head? ≠ some '/'

theorem starts_empty : Starts "" := by simp [Starts]

theorem Starts.append {lead name : String} (starts : Starts lead) (isName : IsName name) :
    Starts (lead ++ name) := by
  unfold Starts at starts ⊢
  rw [String.toList_append, List.head?_append]
  cases first : lead.toList.head? with
  | some c => simpa [first] using starts
  | none =>
    intro slash
    exact isName.noSlash (List.mem_of_head? slash)

theorem Starts.slash {relative : String} (starts : Starts relative) (filled : relative ≠ "") :
    Starts (relative ++ "/") := by
  unfold Starts at starts ⊢
  obtain ⟨c, cs, chars⟩ : ∃ c cs, relative.toList = c :: cs :=
    List.exists_cons_of_ne_nil (by simpa using filled)
  rw [chars] at starts
  rw [String.toList_append, chars]
  exact starts

theorem join_ofText {root : Path} (plain : root.IsPlain) {relative : String}
    (starts : Starts relative) :
    (ofText root.text).join (ofText relative) = root.below relative := by
  have notAbsolute : (ofText relative).isAbsolute = false := by
    simp [isAbsolute, ofText, leadingSlashes_of_head starts]
  rw [ofText_text plain, join, notAbsolute]
  rfl

end Path
end SourceIndex
