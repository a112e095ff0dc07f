import SourceIndex.Proofs.Structure.Merge
import SourceIndex.Proofs.Structure.Sanitize
/-!
# Chunks say where their lines are

The lines of a chunk are those of the scanned content with the same numbers, also where the content
could only be parsed without its control characters, or only its first lines could.
-/

namespace SourceIndex

namespace Source

/-! ### Thinned texts -/

/-- A text of which every line is a piece of the line of another text at the same place, without
the characters that are not kept. -/
def IsThinned (keeps : Char → Bool) (scanned text : String) : Prop :=
  ∀ (i : Nat) (line : String), (Text.splitOn '\n' text)[i]? = some line →
    ∃ whole, (Text.splitOn '\n' scanned)[i]? = some whole ∧
      line.toList <:+: whole.toList.filter keeps

/-- Characters that may be left out: the control characters and carriage returns. -/
def LeavesOutControls (keeps : Char → Bool) : Prop :=
  ∀ c, keeps c = false → isControl c = true ∨ c = '\r'

theorem LeavesOutControls.lineFeed {keeps : Char → Bool} (controls : LeavesOutControls keeps) :
    keeps '\n' = true := by
  by_contra drops
  rcases controls '\n' (by simpa using drops) with control | same
  · exact absurd control (by decide)
  · exact absurd same (by decide)

theorem isThinned_filter {keeps : Char → Bool} (controls : LeavesOutControls keeps)
    (scanned : String) :
    IsThinned keeps scanned (String.ofList (scanned.toList.filter keeps)) := by
  intro i line found
  rw [Text.splitOn_filter controls.lineFeed, List.getElem?_map, Option.map_eq_some_iff] at found
  obtain ⟨whole, place, rfl⟩ := found
  rw [String.toList_ofList]
  exact ⟨whole, place, List.infix_refl _⟩

theorem isThinned_firstLines {keeps : Char → Bool} {scanned text : String}
    (thinned : IsThinned keeps scanned text) (count : Int) :
    IsThinned keeps scanned (Ladder.firstLines count text) := by
  intro i line found
  unfold Ladder.firstLines at found
  simp only at found
  generalize kept : clampOffset (Text.splitOn '\n' text).length count = k at found
  by_cases nothing : (Text.splitOn '\n' text).take k = []
  -- Joined again, no lines at all are an empty text, which has a line.
  · rw [nothing] at found
    have first : i = 0 ∧ line = "" := by
      cases i with
      | zero => exact ⟨rfl, by simpa [Text.splitOn, Text.pieces] using found.symm⟩
      | succ i => simp [Text.splitOn, Text.pieces] at found
    obtain ⟨rfl, rfl⟩ := first
    obtain ⟨whole, rest, shape⟩ :=
      List.exists_cons_of_ne_nil (Text.splitOn_ne_nil '\n' scanned)
    exact ⟨whole, by rw [shape]; rfl, List.nil_infix⟩
  · have clear : ∀ line ∈ (Text.splitOn '\n' text).take k, '\n' ∉ line.toList :=
      fun _ member => Text.not_mem_of_mem_splitOn (List.mem_of_mem_take member)
    rw [Text.splitOn_unlines clear nothing] at found
    rw [List.getElem?_take] at found
    split at found
    · exact thinned i line found
    · cases found

/-! ### The ladder -/

theorem isThinned_of_mem_stages {retryLines : Int} {content text : String} {stage : Ladder.Stage}
    (member : (stage, text) ∈ Ladder.stages retryLines content) :
    ∃ keeps, LeavesOutControls keeps ∧ IsThinned keeps content text := by
  have zeros : LeavesOutControls fun c => c ≠ '\x00' := by
    intro c drops
    left
    have zero : c = '\x00' := by simpa using drops
    rw [zero]
    decide
  have controls : LeavesOutControls fun c => !isControl c && c ≠ '\r' := by
    intro c drops
    rw [Bool.and_eq_false_iff] at drops
    simpa using drops
  have clean : sanitize (withoutZeros content) =
      String.ofList (content.toList.filter fun c => !isControl c && c ≠ '\r') := by
    rw [sanitize_withoutZeros, sanitize, sanitizeChars_eq]
  simp only [Ladder.stages, List.mem_cons, Prod.mk.injEq, List.not_mem_nil, or_false] at member
  rcases member with ⟨-, rfl⟩ | ⟨-, rfl⟩ | ⟨-, rfl⟩
  · exact ⟨_, zeros, isThinned_filter zeros content⟩
  · rw [clean]
    exact ⟨_, controls, isThinned_filter controls content⟩
  · rw [clean]
    exact ⟨_, controls, isThinned_firstLines (isThinned_filter controls content) retryLines⟩

end Source

variable {γ : Type}

theorem Ladder.mem_of_climb {g : Grammars γ} {grammar path : String} {retryLines : Int}
    {stages : List (Stage × String)} {s : Session γ} {text : String} {nodes : List Node}
    (found : (climb g grammar path retryLines stages s).1 = some (text, nodes)) :
    ∃ stage, (stage, text) ∈ stages := by
  induction stages generalizing s with
  | nil => cases found
  | cons first rest ih =>
    obtain ⟨stage, source⟩ := first
    unfold climb at found
    split at found
    · obtain ⟨stage, member⟩ := ih found
      exact ⟨stage, List.mem_cons_of_mem _ member⟩
    · obtain ⟨stage, member⟩ := ih found
      exact ⟨stage, List.mem_cons_of_mem _ member⟩
    · simp only [Option.some.injEq, Prod.mk.injEq] at found
      exact ⟨stage, by rw [← found.1]; exact List.mem_cons_self ..⟩

/-- A chunk has as many lines as its line numbers say, and each of them is a piece of the line of
the scanned content with its number, without the characters that are not kept. -/
structure Chunk.IsAddressed (keeps : Char → Bool) (scanned : String) (c : Chunk) : Prop where
  count : c.endLine - c.startLine + 1 = (Text.splitOn '\n' c.content).length
  lines : ∀ (j : Nat) line, (Text.splitOn '\n' c.content)[j]? = some line →
    ∃ (i : Nat) (whole : String), (i : Int) + 1 = c.startLine + j ∧
      (Text.splitOn '\n' scanned)[i]? = some whole ∧ line.toList <:+: whole.toList.filter keeps

namespace Structure
variable {g : Grammars γ} {languages : List Language} {limits : Limits}
variable {path content language : String} {s : Session γ}

/-! ### Trees -/

/-- The tree by which a file is chunked, if any stage of the ladder gives one: the language, the
parsed text and the top-level nodes. -/
def tree? (g : Grammars γ) (languages : List Language) (limits : Limits)
    (path content language : String) (s : Session γ) :
    Option (Language × String × List Node) :=
  match Language.ofName? language with
  | none => none
  | some found =>
    if languages.contains found then
      match g.ready (found.grammarFor path) s with
      | (some _, _) => none
      | (none, s) =>
        (Ladder.climb g (found.grammarFor path) path limits.retryLines
          (Ladder.stages limits.retryLines content) s).1.map fun tree => (found, tree)
    else none

theorem parse_of_tree {found : Language} {text : String} {nodes : List Node}
    (tree : tree? g languages limits path content language s = some (found, text, nodes)) :
    (∃ stage, (stage, text) ∈ Ladder.stages limits.retryLines content) ∧
      (parse g languages limits path content language s).1 =
        .ok (chunksOf limits path found text nodes) := by
  unfold tree? at tree
  split at tree
  · cases tree
  rename_i named
  split at tree
  · rename_i among
    split at tree
    · cases tree
    · rename_i ready
      obtain ⟨⟨text, nodes⟩, climbed, same⟩ := Option.map_eq_some_iff.mp tree
      cases same
      refine ⟨Ladder.mem_of_climb climbed, ?_⟩
      unfold parse
      simp only [named, among, if_true, ready]
      generalize Ladder.climb _ _ _ _ _ _ = result at climbed
      obtain ⟨tree, after⟩ := result
      cases climbed
      rfl
  · cases tree

theorem parse_of_no_tree (tree : tree? g languages limits path content language s = none)
    {chunks : List Chunk} {after : Session γ}
    (parsed : parse g languages limits path content language s = (.ok chunks, after)) :
    chunks = [] := by
  unfold tree? at tree
  unfold parse at parsed
  split at parsed
  · cases parsed
  rename_i named
  split at parsed
  · rename_i among
    simp only [named, among, if_true] at tree
    simp only at parsed
    split at parsed
    · cases parsed
    · rename_i ready
      simp only [ready] at tree
      split at parsed
      · cases parsed
        rfl
      · rename_i climbed
        rw [climbed] at tree
        cases tree
  · cases parsed

/-! ### Line numbers -/

theorem lines_of_mem_chunksOf {found : Language} {text : String} {nodes : List Node}
    (wellFormed : IsWellFormed text nodes) {c : Chunk}
    (member : c ∈ chunksOf limits path found text nodes) {j : Nat} {line : String}
    (held : (Text.splitOn '\n' c.content)[j]? = some line) :
    ∃ (i : Nat) (whole : String), (i : Int) + 1 = c.startLine + j ∧
      (Text.splitOn '\n' text)[i]? = some whole ∧ line.toList <:+: whole.toList := by
  rw [chunksOf_eq] at member
  obtain ⟨span, among, part⟩ := List.mem_flatMap.mp member
  obtain ⟨before, body, after, whole, here, bytes⟩ := exists_body wellFormed among
  have placed := isPlaced_spansOf found wellFormed.placed span among
  have row : span.startLine = before.count '\n' + 1 := by
    rw [placed.startLine, rowAt, here, Int.toNat_natCast, Text.Utf8.encode, whole,
      List.append_assoc, Text.Utf8.encodeChars_append, List.take_left,
      Text.Utf8.count_encodeChars]
  have cut : Text.splitOn '\n' (spanChunk path found (Text.Utf8.encode text) span).content =
      (Text.pieces '\n' body).map String.ofList := by
    simp only [spanChunk, Chunk.ofRange, Node.sliceText, bytes,
      Text.Utf8.decodeLenient_encodeChars, Text.splitOn, String.toList_ofList]
  have window : c.window ∈ Window.bisect limits.maxChunkBytes span.startLine
      ((Text.pieces '\n' body).map String.ofList) := by
    rw [← cut]
    have same := Chunk.map_window_underCeiling limits.maxChunkBytes
      (spanChunk path found (Text.Utf8.encode text) span)
    exact same ▸ List.mem_map_of_mem part
  -- The line is found again in the span that the chunk is cut from, and then in the parsed text.
  obtain ⟨first, last, all, start⟩ := (Window.follow_bisect ..).lines_eq window
  rw [Window.flatMap_lines_bisect] at all
  have inBody : ((Text.pieces '\n' body).map String.ofList)[first.length + j]? = some line := by
    have within : j < c.window.lines.length := (List.getElem?_eq_some_iff.mp held).1
    have inside : (c.window.lines ++ last)[j]? = some line := by
      rw [List.getElem?_append_left within]
      exact held
    rw [all, List.append_assoc, List.getElem?_append_right (by omega), Nat.add_sub_cancel_left]
    exact inside
  rw [List.getElem?_map, Option.map_eq_some_iff] at inBody
  obtain ⟨piece, place, rfl⟩ := inBody
  obtain ⟨full, place', within⟩ := Text.infix_of_pieces_append before body after place
  refine ⟨before.count '\n' + (first.length + j), String.ofList full, ?_, ?_, ?_⟩
  · have start' : c.startLine = span.startLine + first.length := start
    omega
  · rw [Text.splitOn, whole, List.getElem?_map, place']
    rfl
  · simpa only [String.toList_ofList] using within

theorem isExact_of_mem_chunksOf {found : Language} {text : String} {nodes : List Node}
    (placed : ∀ n ∈ nodes, n.IsPlaced (Text.Utf8.encode text)) {c : Chunk}
    (member : c ∈ chunksOf limits path found text nodes) : c.IsExact := by
  rw [chunksOf_eq] at member
  obtain ⟨span, among, part⟩ := List.mem_flatMap.mp member
  have whole := isExact_spanChunk (isPlaced_spansOf found placed span among) path found
  exact whole.of_mem_underCeiling part

/-- The chunks of a file have the lines of the scanned content that their line numbers say, whatever
stage of the ladder gave the tree, if that is well formed. Only control characters and carriage
returns are left out. -/
theorem isAddressed_of_mem_parse {chunks : List Chunk} {after : Session γ}
    (parsed : parse g languages limits path content language s = (.ok chunks, after))
    (wellFormed : ∀ found text nodes,
      tree? g languages limits path content language s = some (found, text, nodes) →
        IsWellFormed text nodes) :
    ∃ keeps, Source.LeavesOutControls keeps ∧ ∀ c ∈ chunks, c.IsAddressed keeps content := by
  cases tree : tree? g languages limits path content language s with
  | none =>
    rw [parse_of_no_tree tree parsed]
    exact ⟨fun _ => true, ⟨fun c drops => (by cases drops), by simp⟩⟩
  | some result =>
    obtain ⟨found, text, nodes⟩ := result
    have formed := wellFormed found text nodes tree
    obtain ⟨⟨stage, staged⟩, shown⟩ := parse_of_tree tree
    rw [parsed, Except.ok.injEq] at shown
    subst shown
    obtain ⟨keeps, controls, thinned⟩ := Source.isThinned_of_mem_stages staged
    refine ⟨keeps, controls, fun c member => ⟨?_, fun j line held => ?_⟩⟩
    · have exact' := isExact_of_mem_chunksOf formed.placed member
      have last : c.endLine = c.startLine + (Text.splitOn '\n' c.content).length - 1 :=
        exact'.endLine
      omega
    · obtain ⟨i, whole, number, place, within⟩ := lines_of_mem_chunksOf formed member held
      obtain ⟨full, place', within'⟩ := thinned i whole place
      exact ⟨i, full, number, place', within.trans within'⟩

/-- A grammar that fails at a carriage return, and otherwise gives a node for two lines. -/
def twoLines : Grammars Unit where
  load _ s := (none, s)
  parse _ text s :=
    if text.toList.contains '\r' then (.failed "line end", s)
    else (.tree [⟨"block", 0, 12, ⟨0, 0⟩, ⟨2, 0⟩, [], []⟩], s)

/-- A second line that loses its control character stays the second one. -/
theorem isAddressed_of_mem_parse_sanitized :
    let content := "x = 1\r\ny\x01 = 2\r\n"
    let start : Session Unit := ⟨(), [], []⟩
    (tree? twoLines [.python] ⟨100, 5⟩ "a.py" content "python" start).map (·.2.1) =
      some "x = 1\ny = 2\n" ∧
    ∃ chunks after,
      parse twoLines [.python] ⟨100, 5⟩ "a.py" content "python" start = (.ok chunks, after) ∧
      chunks.map (fun c => (c.startLine, c.endLine, c.content)) = [(1, 2, "x = 1\ny = 2")] ∧
      ∃ keeps, Source.LeavesOutControls keeps ∧ ∀ c ∈ chunks, c.IsAddressed keeps content := by
  intro content start
  have formed : (tree? twoLines [.python] ⟨100, 5⟩ "a.py" content "python" start).all
      (fun tree => decide (IsWellFormed tree.2.1 tree.2.2)) = true := by decide +kernel
  have shown : (parse twoLines [.python] ⟨100, 5⟩ "a.py" content "python" start).1.toOption.map
      (·.map fun c => (c.startLine, c.endLine, c.content)) = some [(1, 2, "x = 1\ny = 2")] := by
    decide +kernel
  refine ⟨by decide +kernel, ?_⟩
  cases parsed : parse twoLines [.python] ⟨100, 5⟩ "a.py" content "python" start with
  | mk result after =>
    rw [parsed] at shown
    cases result with
    | error failure => cases shown
    | ok chunks =>
      refine ⟨chunks, after, rfl, Option.some.inj shown, isAddressed_of_mem_parse parsed ?_⟩
      intro found text nodes tree
      rw [tree] at formed
      exact of_decide_eq_true formed

end Structure
end SourceIndex
