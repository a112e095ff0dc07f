import SourceIndex.Engine.Basic
import SourceIndex.Proofs.Text.Lines
import SourceIndex.Proofs.Text.Decode
/-!
# The size ceiling

Every way to chunk a text ends in halving windows of lines until they fit. So a chunk is above the
ceiling only if it is a single line, whatever the grammar made of the text.
-/

namespace SourceIndex

/-- Whether a text has at most so many bytes or is a single line. -/
def FitsOrIsLine (maxBytes : Int) (content : String) : Prop :=
  ((Text.Utf8.encode content).length : Int) ≤ maxBytes ∨ '\n' ∉ content.toList

/-! ### Halving windows -/

namespace Window

theorem flatMap_lines_bisect (maxBytes start : Int) (lines : List String) :
    (bisect maxBytes start lines).flatMap (·.lines) = lines := by
  fun_induction bisect maxBytes start lines with
  | case1 start lines small => simp
  | case2 start lines large middle first second =>
    rw [List.flatMap_append, first, second, List.take_append_drop]

theorem small_of_mem_bisect {maxBytes start : Int} {lines : List String} {w : Window}
    (member : w ∈ bisect maxBytes start lines) :
    w.lines.length ≤ 1 ∨ (Text.Utf8.size w.content : Int) ≤ maxBytes := by
  fun_induction bisect maxBytes start lines with
  | case1 start lines small =>
    rw [List.mem_singleton] at member
    subst member
    simpa [content] using small
  | case2 start lines large middle first second =>
    rcases List.mem_append.mp member with left | right
    · exact first left
    · exact second right

/-- The text of a part fits, or it is one of the lines that were to be cut. -/
theorem fits_of_mem_bisect {maxBytes start : Int} {lines : List String} {w : Window}
    (clear : ∀ line ∈ lines, '\n' ∉ line.toList) (member : w ∈ bisect maxBytes start lines) :
    FitsOrIsLine maxBytes w.content := by
  rcases small_of_mem_bisect member with short | small
  · right
    have inside : ∀ line ∈ w.lines, line ∈ lines := by
      intro line found
      rw [← flatMap_lines_bisect maxBytes start lines]
      exact List.mem_flatMap.mpr ⟨w, member, found⟩
    match all : w.lines, short with
    | [], _ => simp [content, all]
    | [line], _ =>
      have single : w.content = line := by rw [content, all, Text.unlines_singleton]
      rw [single]
      exact clear line (inside line (by simp [all]))
  · left
    rwa [← Text.Utf8.size_eq_length_encode]

end Window

namespace Chunk

/-! ### Text without a known structure -/

theorem flatMap_lines_fill (limits : WindowLimits) (done : List Window) (w : OpenWindow)
    (lines : List String) (counted : w.count = w.held.length) :
    (fill limits done w lines).flatMap (·.lines) =
      done.reverse.flatMap (·.lines) ++ w.held.reverse ++ lines := by
  induction lines generalizing done w with
  | nil =>
    by_cases empty : w.count = 0
    · have nothing : w.held = [] := List.eq_nil_of_length_eq_zero (by omega)
      simp [fill, empty, nothing]
    · simp [fill, empty, OpenWindow.close]
  | cons line rest ih =>
    simp only [fill]
    split
    · rw [ih _ _ rfl]
      simp [OpenWindow.close]
    · rw [ih _ _ (by simp [counted])]
      simp

theorem flatMap_lines_windows (limits : WindowLimits) (lines : List String) :
    (windows limits lines).flatMap (·.lines) = lines.dropWhile Text.isBlank := by
  simp [windows, flatMap_lines_fill]

theorem fits_of_mem_splitGeneric {path content language parser : String}
    {linesPerChunk maxChunkBytes : Int} {chunks : List Chunk} {c : Chunk}
    (split : splitGeneric path content language linesPerChunk maxChunkBytes parser = .ok chunks)
    (member : c ∈ chunks) : FitsOrIsLine maxChunkBytes c.content := by
  unfold splitGeneric at split
  split at split
  · simp at split
  split at split
  · simp at split
  split at split
  · have nothing : chunks = [] := by simpa using split.symm
    simp [nothing] at member
  · simp only [Except.ok.injEq] at split
    subst split
    obtain ⟨part, kept, rfl⟩ := List.mem_map.mp member
    obtain ⟨w, among, cut⟩ := List.mem_flatMap.mp (List.mem_filter.mp kept).1
    refine Window.fits_of_mem_bisect (fun line held => ?_) cut
    have body : line ∈ (Text.lines content).dropWhile Text.isBlank := by
      rw [← flatMap_lines_windows]
      exact List.mem_flatMap.mpr ⟨w, among, held⟩
    exact Text.not_mem_of_mem_lines ((List.dropWhile_sublist _).subset body)

/-! ### Chunks that were cut otherwise -/

theorem fits_of_mem_underCeiling {maxBytes : Int} {whole c : Chunk}
    (member : c ∈ underCeiling maxBytes whole) : FitsOrIsLine maxBytes c.content := by
  unfold underCeiling at member
  split at member
  · rename_i small
    rw [List.mem_singleton] at member
    subst member
    left
    rwa [← Text.Utf8.size_eq_length_encode]
  · obtain ⟨⟨w, name⟩, pair, rfl⟩ := List.mem_map.mp member
    exact Window.fits_of_mem_bisect (fun line => Text.not_mem_of_mem_splitOn)
      (List.of_mem_zip pair).1

theorem fits_of_mem_enforceCeiling {maxBytes : Int} {chunks : List Chunk} {c : Chunk}
    (member : c ∈ enforceCeiling maxBytes chunks) : FitsOrIsLine maxBytes c.content := by
  obtain ⟨whole, _, part⟩ := List.mem_flatMap.mp member
  exact fits_of_mem_underCeiling part

end Chunk

theorem Structure.fits_of_mem_parse {γ : Type} {g : Grammars γ} {languages : List Language}
    {limits : Limits} {path content language : String} {s after : Session γ}
    {chunks : List Chunk} {c : Chunk}
    (parsed : parse g languages limits path content language s = (.ok chunks, after))
    (member : c ∈ chunks) : FitsOrIsLine limits.maxChunkBytes c.content := by
  unfold parse at parsed
  split at parsed
  · simp at parsed
  split at parsed
  · simp only at parsed
    split at parsed
    · simp at parsed
    split at parsed
    · have nothing : chunks = [] := by simpa using (Prod.mk.inj parsed).1.symm
      simp [nothing] at member
    · simp only [Prod.mk.injEq, Except.ok.injEq] at parsed
      rw [← parsed.1] at member
      exact Chunk.fits_of_mem_enforceCeiling member
  · simp at parsed

namespace Engine
variable {γ : Type}

/-! ### The engine -/

theorem fits_of_mem_fallBack {e : Engine γ} {path content language : String} {s : Session γ}
    {c : Chunk} (member : c ∈ (e.fallBack path content language s).1) :
    FitsOrIsLine e.settings.maxChunkBytes c.content := by
  unfold fallBack at member
  split at member
  · rename_i chunks split
    exact Chunk.fits_of_mem_splitGeneric split member
  · simp at member

theorem fits_of_mem_runParser {e : Engine γ} {parser : Parser} {path content language : String}
    {s : Session γ} {c : Chunk} (member : c ∈ (e.runParser parser path content language s).1) :
    FitsOrIsLine e.settings.maxChunkBytes c.content := by
  cases parser with
  | structural languages =>
    simp only [runParser] at member
    split at member
    · rename_i chunks after parsed
      exact Structure.fits_of_mem_parse parsed member
    · exact fits_of_mem_fallBack member
  | generic =>
    simp only [runParser] at member
    split at member
    · rename_i chunks split
      exact Chunk.fits_of_mem_splitGeneric split member
    · exact fits_of_mem_fallBack member

/-- A chunk of a text is above the ceiling only if it is a single line. The grammars are any at
all: they may fail to load or to parse, and give nodes of any form. -/
theorem chunk_fits_or_isLine (e : Engine γ) (path : String) (content language : Option String)
    (s : Session γ) :
    ∀ c ∈ (e.chunk path content language false s).1,
      FitsOrIsLine e.settings.maxChunkBytes c.content := by
  intro c member
  unfold chunk at member
  split at member
  · simp at member
  split at member
  · simp at member
  · simp only [Bool.false_eq_true, if_false, Chunk.sortByLines, List.mem_mergeSort] at member
    exact fits_of_mem_runParser member

/-- A line that is above the ceiling is a chunk of its own. -/
theorem chunk_fits_or_isLine_three_bytes :
    ∃ c ∈ ((ofSettings { maxChunkBytes := 2 } Grammars.absent).chunk "a.txt" (some "one\n") none
        false ⟨(), [], []⟩).1,
      c.content = "one" ∧ FitsOrIsLine 2 c.content := by
  have one : (((ofSettings { maxChunkBytes := 2 } Grammars.absent).chunk "a.txt" (some "one\n")
      none false ⟨(), [], []⟩).1.map (·.content)) = ["one"] := by decide +kernel
  have member := List.mem_singleton_self "one"
  rw [← one] at member
  obtain ⟨c, among, content⟩ := List.mem_map.mp member
  exact ⟨c, among, content,
    chunk_fits_or_isLine (ofSettings { maxChunkBytes := 2 } Grammars.absent) "a.txt" _ none _ c
      among⟩

end Engine
end SourceIndex
