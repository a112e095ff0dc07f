import SourceIndex.Proofs.Chunk.Window
import SourceIndex.Proofs.Text.Blank
import Mathlib.Data.List.TakeWhile
/-!
# What a text without a known structure is cut into

The windows of a text, halved or not, are all of its lines from the first one on that is not blank,
one after the other. Only parts of blank lines alone make no chunk. So each line that is not blank
is in one chunk, and in no other one.
-/

namespace SourceIndex

namespace Window

/-! ### Windows that cover lines -/

theorem Follow.exists_mem {start : Int} {ws : List Window} (follow : Follow start ws) {k : Nat}
    (inside : k < (ws.flatMap (·.lines)).length) :
    ∃ w ∈ ws, w.start ≤ start + k ∧ start + k ≤ w.stop := by
  induction ws generalizing start k with
  | nil => simp at inside
  | cons w rest ih =>
    obtain ⟨here, later⟩ := follow
    rw [List.flatMap_cons, List.length_append] at inside
    by_cases own : k < w.lines.length
    · exact ⟨w, List.mem_cons_self .., by omega, by rw [stop]; omega⟩
    · obtain ⟨other, member, low, high⟩ := ih later (k := k - w.lines.length) (by omega)
      exact ⟨other, List.mem_cons_of_mem _ member, by omega, by omega⟩

/-- The windows are the given lines, one after the other, but for some blank lines before them. -/
structure Cover (skipped ls : List String) (ws : List Window) : Prop where
  whole : ls = skipped ++ ws.flatMap (·.lines)
  blank : skipped.all Text.isBlank = true
  follow : Follow (skipped.length + 1) ws

namespace Cover
variable {skipped ls : List String} {ws : List Window} {w : Window}

theorem range (cover : Cover skipped ls ws) (member : w ∈ ws) :
    1 ≤ w.start ∧ w.stop ≤ ls.length ∧
      w.lines = (ls.take w.stop.toNat).drop (w.start - 1).toNat := by
  obtain ⟨before, after, split, start⟩ := cover.follow.lines_eq member
  have shape : ls = (skipped ++ before) ++ w.lines ++ after := by
    rw [cover.whole, split]
    simp
  have stop : w.stop = ((skipped ++ before) ++ w.lines).length := by
    rw [Window.stop, List.length_append, List.length_append]
    omega
  have first : (w.start - 1).toNat = (skipped ++ before).length := by
    rw [List.length_append]
    omega
  refine ⟨by omega, ?_, ?_⟩
  · have total := congrArg List.length shape
    rw [List.length_append] at total
    omega
  · rw [stop, Int.toNat_natCast, first, shape, List.take_left, List.drop_left]

/-- The lines of a window are those with its numbers. -/
theorem mem_lines_iff (cover : Cover skipped ls ws) (member : w ∈ ws) {line : String} :
    line ∈ w.lines ↔
      ∃ i : Nat, ls[i]? = some line ∧ w.start ≤ i + 1 ∧ i + 1 ≤ w.stop := by
  obtain ⟨first, -, lines⟩ := cover.range member
  constructor
  · intro held
    obtain ⟨k, place⟩ := List.mem_iff_getElem?.mp held
    have inside : k < w.lines.length := (List.getElem?_eq_some_iff.mp place).1
    have before : (w.start - 1).toNat + k < w.stop.toNat := by
      rw [stop]
      omega
    rw [lines, List.getElem?_drop, List.getElem?_take_of_lt before] at place
    exact ⟨_, place, by omega, by omega⟩
  · rintro ⟨i, place, low, high⟩
    have again : (w.start - 1).toNat + (i - (w.start - 1).toNat) = i := by omega
    have here : w.lines[i - (w.start - 1).toNat]? = some line := by
      rw [lines, List.getElem?_drop, again, List.getElem?_take_of_lt (by omega), place]
    exact List.mem_of_getElem? here

theorem exists_mem (cover : Cover skipped ls ws) {i : Nat} {line : String}
    (at' : ls[i]? = some line) (filled : Text.isBlank line = false) :
    ∃ w ∈ ws, w.start ≤ i + 1 ∧ i + 1 ≤ w.stop := by
  have inside : i < ls.length := (List.getElem?_eq_some_iff.mp at').1
  have later : skipped.length ≤ i := by
    by_contra before
    rw [cover.whole, List.getElem?_append_left (by omega)] at at'
    have blank := List.all_eq_true.mp cover.blank line (List.mem_of_getElem? at')
    rw [blank] at filled
    cases filled
  rw [cover.whole, List.length_append] at inside
  obtain ⟨w, member, low, high⟩ :=
    cover.follow.exists_mem (k := i - skipped.length) (by omega)
  exact ⟨w, member, by omega, by omega⟩

end Cover

theorem isBlank_content (w : Window) : Text.isBlank w.content = w.isBlank :=
  Text.isBlank_unlines w.lines

theorem exists_of_isBlank_eq_false (w : Window) (filled : w.isBlank = false) :
    ∃ line ∈ w.lines, Text.isBlank line = false := by
  simpa [isBlank] using filled

theorem isBlank_eq_false_of_mem {w : Window} {line : String} (member : line ∈ w.lines)
    (filled : Text.isBlank line = false) : w.isBlank = false := by
  rw [isBlank, List.all_eq_false]
  exact ⟨line, member, by simp [filled]⟩

theorem length_le_of_mem_bisect {maxBytes start : Int} {lines : List String} {w : Window}
    (member : w ∈ bisect maxBytes start lines) : w.lines.length ≤ lines.length := by
  fun_induction bisect maxBytes start lines with
  | case1 start lines small => rw [List.mem_singleton.mp member]
  | case2 start lines large middle first second =>
    rcases List.mem_append.mp member with left | right
    · exact (first left).trans (List.length_take_le' ..)
    · exact (second right).trans (by simp)

end Window

namespace Chunk

/-! ### The parts of a text -/

theorem length_le_of_mem_fill {limits : WindowLimits} (lines : List String) {done : List Window}
    {w : OpenWindow} (counted : w.count = w.held.length) (room : w.count < limits.lines)
    (bounded : ∀ other ∈ done, other.lines.length ≤ limits.lines) {found : Window}
    (member : found ∈ fill limits done w lines) : found.lines.length ≤ limits.lines := by
  have closes (done : List Window) (w : OpenWindow) (counted : w.count = w.held.length)
      (most : w.count ≤ limits.lines)
      (bounded : ∀ other ∈ done, other.lines.length ≤ limits.lines) :
      ∀ other ∈ w.close :: done, other.lines.length ≤ limits.lines := by
    rintro other (_ | ⟨_, before⟩)
    · rw [OpenWindow.close, List.length_reverse]
      omega
    · exact bounded other before
  induction lines generalizing done w with
  | nil =>
    rw [fill, List.mem_reverse] at member
    split at member
    · exact bounded found member
    · exact closes done w counted room.le bounded found member
  | cons line rest ih =>
    have counted' : w.count + 1 = (line :: w.held).length := by simp [counted]
    rw [fill] at member
    simp only at member
    split at member
    · have closed := closes done
        ⟨w.start, line :: w.held, w.count + 1, w.bytes + Text.Utf8.size line + 1⟩ counted' room
        bounded
      exact ih rfl (by simp only; omega) closed member
    · rename_i more
      simp only [Bool.or_eq_true, decide_eq_true_eq, not_or] at more
      exact ih counted' (by simp only; omega) bounded member

/-- The parts that a text is cut into, with those of blank lines alone. -/
def parts (content : String) (linesPerChunk maxChunkBytes : Int) : List Window :=
  (windows ⟨linesPerChunk.toNat, maxChunkBytes.toNat⟩ (Text.lines content)).flatMap fun w =>
    Window.bisect maxChunkBytes w.start w.lines

theorem flatMap_lines_parts (content : String) (linesPerChunk maxChunkBytes : Int) :
    (parts content linesPerChunk maxChunkBytes).flatMap (·.lines) =
      (Text.lines content).dropWhile Text.isBlank := by
  rw [parts, List.flatMap_assoc]
  simp only [Window.flatMap_lines_bisect]
  exact flatMap_lines_windows _ _

/-- The parts of a text cover its lines. -/
theorem cover_parts (content : String) (linesPerChunk maxChunkBytes : Int) :
    Window.Cover ((Text.lines content).takeWhile Text.isBlank) (Text.lines content)
      (parts content linesPerChunk maxChunkBytes) := by
  have whole := List.takeWhile_append_dropWhile (p := Text.isBlank) (l := Text.lines content)
  refine ⟨?_, List.all_takeWhile, ?_⟩
  · rw [flatMap_lines_parts, whole]
  · have skipped : (Text.lines content).length -
        ((Text.lines content).dropWhile Text.isBlank).length =
          ((Text.lines content).takeWhile Text.isBlank).length := by
      have lengths := congrArg List.length whole
      rw [List.length_append] at lengths
      omega
    apply Window.Follow.flatMap_bisect
    rw [windows, skipped]
    exact follow_fill _ rfl trivial (by simp)

section Parts
variable {content : String} {linesPerChunk maxChunkBytes : Int}

theorem isPlain_of_mem_parts {w : Window} (member : w ∈ parts content linesPerChunk maxChunkBytes) :
    w.IsPlain := by
  constructor
  · obtain ⟨whole, among, part⟩ := List.mem_flatMap.mp member
    exact Window.lines_ne_nil_of_mem_bisect (lines_ne_nil_of_mem_fill _ rfl (by simp) among) part
  · intro line held
    have body : line ∈ (Text.lines content).dropWhile Text.isBlank := by
      rw [← flatMap_lines_parts content linesPerChunk maxChunkBytes]
      exact List.mem_flatMap.mpr ⟨w, member, held⟩
    exact Text.not_mem_of_mem_lines ((List.dropWhile_sublist _).subset body)

theorem length_le_of_mem_parts (positive : 1 ≤ linesPerChunk) {w : Window}
    (member : w ∈ parts content linesPerChunk maxChunkBytes) :
    (w.lines.length : Int) ≤ linesPerChunk := by
  obtain ⟨whole, among, part⟩ := List.mem_flatMap.mp member
  have most : whole.lines.length ≤ linesPerChunk.toNat :=
    length_le_of_mem_fill _ rfl (by simp only; omega) (by simp) among
  have less := Window.length_le_of_mem_bisect part
  omega

theorem parts_eq_nil (blank : Text.isBlank content = true) :
    parts content linesPerChunk maxChunkBytes = [] := by
  have none : (Text.lines content).dropWhile Text.isBlank = [] := by
    rw [List.dropWhile_eq_nil_iff]
    rw [← Text.all_isBlank_lines] at blank
    exact List.all_eq_true.mp blank
  rw [parts, windows, none]
  rfl

theorem splitGeneric_of_positive {path language parser : String} (lines : 1 ≤ linesPerChunk)
    (bytes : 1 ≤ maxChunkBytes) :
    splitGeneric path content language linesPerChunk maxChunkBytes parser =
      .ok (((parts content linesPerChunk maxChunkBytes).filter (!·.isBlank)).map
        (Window.chunk path language .plain parser none)) := by
  rw [splitGeneric, if_neg (by omega), if_neg (by omega)]
  split
  · rename_i blank
    rw [parts_eq_nil blank]
    rfl
  · rfl

theorem eq_of_splitGeneric {path language parser : String} {chunks : List Chunk}
    (split : splitGeneric path content language linesPerChunk maxChunkBytes parser = .ok chunks) :
    chunks = ((parts content linesPerChunk maxChunkBytes).filter (!·.isBlank)).map
      (Window.chunk path language .plain parser none) := by
  have positive : 1 ≤ linesPerChunk ∧ 1 ≤ maxChunkBytes := by
    unfold splitGeneric at split
    split at split
    · cases split
    split at split
    · cases split
    · omega
  rw [splitGeneric_of_positive positive.1 positive.2, Except.ok.injEq] at split
  exact split.symm

theorem pairwise_splitGeneric {path language parser : String} {chunks : List Chunk}
    (split : splitGeneric path content language linesPerChunk maxChunkBytes parser = .ok chunks) :
    (∀ c ∈ chunks, c.IsExact) ∧ chunks.Pairwise fun a b => a.endLine < b.startLine := by
  rw [eq_of_splitGeneric split]
  constructor
  · intro c member
    obtain ⟨w, kept, rfl⟩ := List.mem_map.mp member
    exact isExact_chunk (isPlain_of_mem_parts (List.mem_filter.mp kept).1)
  · have apart := (cover_parts content linesPerChunk maxChunkBytes).follow.pairwise
    exact List.pairwise_map.mpr (apart.sublist List.filter_sublist)

theorem isBlank_of_mem_splitGeneric {path language parser : String} {chunks : List Chunk}
    {c : Chunk}
    (split : splitGeneric path content language linesPerChunk maxChunkBytes parser = .ok chunks)
    (member : c ∈ chunks) : Text.isBlank c.content = false := by
  rw [eq_of_splitGeneric split] at member
  obtain ⟨w, kept, rfl⟩ := List.mem_map.mp member
  have filled : w.isBlank = false := by simpa using (List.mem_filter.mp kept).2
  rwa [← Window.isBlank_content] at filled

theorem isBlank_of_parts (blank : ∀ w ∈ parts content linesPerChunk maxChunkBytes,
    w.isBlank = true) : Text.isBlank content = true := by
  rw [← Text.all_isBlank_lines, List.all_eq_true]
  intro line member
  by_contra filled
  obtain ⟨i, place⟩ := List.mem_iff_getElem?.mp member
  have cover := cover_parts content linesPerChunk maxChunkBytes
  obtain ⟨w, among, low, high⟩ := cover.exists_mem place (by simpa using filled)
  have held := (cover.mem_lines_iff among).mpr ⟨i, place, low, high⟩
  exact filled (List.all_eq_true.mp (blank w among) line held)

end Parts

/-! ### The chunks of a text -/

/-- A chunk is a range of the given lines. -/
structure IsRangeOf (ls : List String) (c : Chunk) : Prop where
  first : 1 ≤ c.startLine
  filled : c.startLine ≤ c.endLine
  last : c.endLine ≤ ls.length
  content : c.content = Text.unlines ((ls.take c.endLine.toNat).drop (c.startLine - 1).toNat)

def holdsLine (number : Int) (c : Chunk) : Bool := c.startLine ≤ number && number ≤ c.endLine

theorem holdsLine_iff {number : Int} {c : Chunk} :
    c.holdsLine number = true ↔ c.startLine ≤ number ∧ number ≤ c.endLine := by
  simp [holdsLine]

theorem isRangeOf_chunk {path language parser : String} {kind : ChunkKind} {name : Option String}
    {skipped ls : List String} {ws : List Window} {w : Window}
    (cover : Window.Cover skipped ls ws) (member : w ∈ ws) (plain : w.IsPlain) :
    (w.chunk path language kind parser name).IsRangeOf ls := by
  obtain ⟨first, last, lines⟩ := cover.range member
  exact ⟨first, plain.start_le_stop, last, congrArg Text.unlines lines⟩

/-- Of chunks that share no line one at most holds a line. -/
theorem countP_holdsLine {number : Int} {chunks : List Chunk}
    (apart : chunks.Pairwise fun a b => a.endLine < b.startLine)
    (held : ∃ c ∈ chunks, c.holdsLine number = true) :
    chunks.countP (holdsLine number) = 1 := by
  obtain ⟨c, member, here⟩ := held
  obtain ⟨before, after, rfl⟩ := List.append_of_mem member
  obtain ⟨-, later, across⟩ := List.pairwise_append.mp apart
  have inside := holdsLine_iff.mp here
  have none : before.countP (holdsLine number) = 0 := by
    rw [List.countP_eq_zero]
    intro other among holds
    have less := across other among c (List.mem_cons_self ..)
    have also := holdsLine_iff.mp holds
    omega
  have none' : after.countP (holdsLine number) = 0 := by
    rw [List.countP_eq_zero]
    intro other among holds
    have less := (List.pairwise_cons.mp later).1 other among
    have also := holdsLine_iff.mp holds
    omega
  rw [List.countP_append, List.countP_cons_of_pos here, none, none']

/-- The chunks of a text are ranges of its lines, none of which is blank as a whole or has more
lines than wanted. Each line that is not blank is in exactly one of them. -/
theorem splitGeneric_covers (path content language parser : String)
    (linesPerChunk maxChunkBytes : Int) (lines : 1 ≤ linesPerChunk) (bytes : 1 ≤ maxChunkBytes) :
    ∃ chunks,
      splitGeneric path content language linesPerChunk maxChunkBytes parser = .ok chunks ∧
      (chunks = [] ↔ Text.trim content = "") ∧
      (∀ c ∈ chunks, c.IsRangeOf (Text.lines content) ∧
        c.endLine - c.startLine + 1 ≤ linesPerChunk ∧
        ∃ (i : Nat) (line : String), (Text.lines content)[i]? = some line ∧
          c.holdsLine (i + 1) = true ∧ Text.isBlank line = false) ∧
      chunks.Pairwise (fun a b => a.endLine < b.startLine) ∧
      ∀ (i : Nat) (line : String), (Text.lines content)[i]? = some line →
        (Text.isBlank line = false → chunks.countP (holdsLine (i + 1)) = 1) ∧
        ((∀ c ∈ chunks, c.holdsLine (i + 1) = false) → Text.isBlank line = true) := by
  have cover := cover_parts content linesPerChunk maxChunkBytes
  have made : splitGeneric path content language linesPerChunk maxChunkBytes parser = _ :=
    splitGeneric_of_positive lines bytes
  have apart := (pairwise_splitGeneric made).2
  refine ⟨_, made, ?_, ?_, apart, fun i line place => ?_⟩
  · rw [Text.trim_eq_empty_iff, List.map_eq_nil_iff, List.filter_eq_nil_iff]
    constructor
    · intro none
      exact isBlank_of_parts fun w member => by simpa using none w member
    · intro blank w member
      rw [parts_eq_nil blank] at member
      cases member
  · intro c member
    obtain ⟨w, kept, rfl⟩ := List.mem_map.mp member
    obtain ⟨among, filled⟩ := List.mem_filter.mp kept
    obtain ⟨line, held, other⟩ := w.exists_of_isBlank_eq_false (by simpa using filled)
    obtain ⟨i, place, low, high⟩ := (cover.mem_lines_iff among).mp held
    refine ⟨isRangeOf_chunk cover among (isPlain_of_mem_parts among), ?_, i, line, place,
      holdsLine_iff.mpr ⟨low, high⟩, other⟩
    have most := length_le_of_mem_parts lines among
    have last : (w.chunk path language .plain parser none).endLine = w.stop := rfl
    have first : (w.chunk path language .plain parser none).startLine = w.start := rfl
    rw [last, first, Window.stop]
    omega
  · have held (filled : Text.isBlank line = false) :
        ∃ c ∈ ((parts content linesPerChunk maxChunkBytes).filter (!·.isBlank)).map
          (Window.chunk path language .plain parser none), c.holdsLine (i + 1) = true := by
      obtain ⟨w, among, low, high⟩ := cover.exists_mem place filled
      have inside := (cover.mem_lines_iff among).mpr ⟨i, place, low, high⟩
      have kept : w.isBlank = false := Window.isBlank_eq_false_of_mem inside filled
      exact ⟨_, List.mem_map_of_mem (List.mem_filter.mpr ⟨among, by simp [kept]⟩),
        holdsLine_iff.mpr ⟨low, high⟩⟩
    refine ⟨fun filled => countP_holdsLine apart (held filled), fun none => ?_⟩
    by_contra filled
    obtain ⟨c, member, inside⟩ := held (by simpa using filled)
    rw [none c member] at inside
    cases inside

/-- A window of three lines is halved twice, which leaves its blank line by itself. -/
theorem splitGeneric_covers_halved_window : (1 : Int) ≤ 3 ∧ (1 : Int) ≤ 4 ∧
    ∃ chunks,
      splitGeneric "a.txt" "x\n\nabcdef\n" "text" 3 4 genericParser = .ok chunks ∧
      chunks.map (fun c => (c.startLine, c.endLine, c.content)) =
        [(1, 1, "x"), (3, 3, "abcdef")] ∧
      chunks.countP (holdsLine 3) = 1 := by
  obtain ⟨chunks, made, -, -, -, held⟩ := splitGeneric_covers "a.txt" "x\n\nabcdef\n" "text"
    genericParser 3 4 (by decide) (by decide)
  have ranges : (splitGeneric "a.txt" "x\n\nabcdef\n" "text" 3 4 genericParser).map
      (·.map fun c => (c.startLine, c.endLine, c.content)) =
        .ok [(1, 1, "x"), (3, 3, "abcdef")] := by decide +kernel
  rw [made] at ranges
  have third : (Text.lines "x\n\nabcdef\n")[2]? = some "abcdef" := by decide +kernel
  exact ⟨by decide, by decide, chunks, made, Except.ok.inj ranges,
    (held 2 "abcdef" third).1 (by decide +kernel)⟩

end Chunk
end SourceIndex
