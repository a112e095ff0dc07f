import SourceIndex.Proofs.Chunk.Cover
/-!
# Blocks of lines

Where no window of a text has as many bytes as close one, its windows are closed by their number of
lines alone. They are then the blocks of that many lines, counted from the first line on that is not
blank, and none of them is halved. So the numbers of the chunks' lines, and with them their ids,
depend on nothing but which lines there are and which of them are blank.
-/

namespace SourceIndex

namespace Chunk

/-! ### Bytes of lines -/

def lineBytes : List String → Nat
  | [] => 0
  | line :: rest => Text.Utf8.size line + 1 + lineBytes rest

@[simp] theorem lineBytes_cons (line : String) (rest : List String) :
    lineBytes (line :: rest) = Text.Utf8.size line + 1 + lineBytes rest := rfl

theorem lineBytes_append (first last : List String) :
    lineBytes (first ++ last) = lineBytes first + lineBytes last := by
  induction first with
  | nil => exact (Nat.zero_add _).symm
  | cons line rest ih =>
    rw [List.cons_append, lineBytes_cons, lineBytes_cons, ih]
    omega

theorem lineBytes_reverse (ls : List String) : lineBytes ls.reverse = lineBytes ls := by
  induction ls with
  | nil => rfl
  | cons line rest ih =>
    rw [List.reverse_cons, lineBytes_append, ih, lineBytes_cons, lineBytes_cons, lineBytes]
    omega

theorem lineBytes_le {part ls : List String} (sub : part.Sublist ls) :
    lineBytes part ≤ lineBytes ls := by
  induction sub with
  | slnil => exact Nat.le_refl _
  | cons line _ ih =>
    rw [lineBytes_cons]
    omega
  | cons_cons line _ ih =>
    rw [lineBytes_cons, lineBytes_cons]
    omega

theorem size_unlines_le (ls : List String) :
    Text.Utf8.size (Text.unlines ls) ≤ lineBytes ls := by
  induction ls with
  | nil => decide
  | cons line rest ih =>
    cases rest with
    | nil =>
      rw [Text.unlines_singleton, lineBytes_cons]
      omega
    | cons next more =>
      have joined := Text.unlines_append (List.cons_ne_nil line []) (List.cons_ne_nil next more)
      have feed : (Text.Utf8.encodeChar '\n').length = 1 := by decide
      have whole : Text.Utf8.size (Text.unlines (line :: next :: more)) =
          Text.Utf8.size line + 1 + Text.Utf8.size (Text.unlines (next :: more)) := by
        rw [List.singleton_append, Text.unlines_singleton] at joined
        simp only [joined, Text.Utf8.size_eq_length_encode, Text.Utf8.encode, String.toList_ofList,
          Text.Utf8.encodeChars, List.flatMap_append, List.flatMap_cons, List.length_append, feed]
        omega
      rw [whole, lineBytes_cons]
      omega

/-! ### Blocks -/

/-- Some lines in blocks of the given size, of which the last one may be shorter. -/
def blocks (size : Nat) (start : Int) (ls : List String) : List Window :=
  (List.range ((ls.length + size - 1) / size)).map fun i =>
    ⟨start + (i * size : Nat), (ls.drop (i * size)).take size⟩

theorem blocks_nil {size : Nat} (positive : 0 < size) (start : Int) : blocks size start [] = [] := by
  have none : (0 + size - 1) / size = 0 := Nat.div_eq_of_lt (by omega)
  rw [blocks, List.length_nil, none]
  rfl

theorem blocks_of_ne_nil {size : Nat} (positive : 0 < size) (start : Int) {ls : List String}
    (filled : ls ≠ []) :
    blocks size start ls = ⟨start, ls.take size⟩ :: blocks size (start + size) (ls.drop size) := by
  have some := List.length_pos_iff.mpr filled
  have fewer : (ls.length - size + size - 1) / size = (ls.length - 1) / size := by
    by_cases short : ls.length < size
    · rw [Nat.div_eq_of_lt (by omega), Nat.div_eq_of_lt (by omega)]
    · congr 1
      omega
  have count : (ls.length + size - 1) / size = (ls.length - size + size - 1) / size + 1 := by
    have shift : ls.length + size - 1 = ls.length - 1 + size := by omega
    rw [fewer, shift, Nat.add_div_right _ positive]
  rw [blocks, count, List.range_succ_eq_map, List.map_cons, List.map_map, blocks, List.length_drop]
  congr 1
  · simp
  · apply List.map_congr_left
    intro i _
    have place : (i + 1) * size = size + i * size := by rw [Nat.add_mul, Nat.one_mul, Nat.add_comm]
    simp only [Function.comp_apply, Nat.succ_eq_add_one, List.drop_drop, place, Window.mk.injEq,
      and_true]
    omega

theorem blocks_of_length_le {size : Nat} (start : Int) {ls : List String} (filled : ls ≠ [])
    (short : ls.length ≤ size) : blocks size start ls = [⟨start, ls⟩] := by
  have positive : 0 < size := Nat.lt_of_lt_of_le (List.length_pos_iff.mpr filled) short
  rw [blocks_of_ne_nil positive start filled, List.take_of_length_le short,
    List.drop_of_length_le short, blocks_nil positive]

theorem blocks_append {size : Nat} (positive : 0 < size) (start : Int) {block : List String}
    (full : block.length = size) (rest : List String) :
    blocks size start (block ++ rest) = ⟨start, block⟩ :: blocks size (start + size) rest := by
  have filled : block ++ rest ≠ [] := by
    rw [← List.length_pos_iff, List.length_append]
    omega
  rw [blocks_of_ne_nil positive start filled, List.take_left' full, List.drop_left' full]

theorem isInfix_of_mem_blocks {size : Nat} {start : Int} {ls : List String} {w : Window}
    (member : w ∈ blocks size start ls) : w.lines <:+: ls ∧ w.lines.length ≤ size := by
  obtain ⟨i, -, rfl⟩ := List.mem_map.mp member
  exact ⟨(List.take_prefix ..).isInfix.trans (List.drop_suffix ..).isInfix, List.length_take_le ..⟩

/-- The numbers of the blocks that are not blank depend on no more of the lines than whether they
are blank. -/
theorem map_range_blocks {first second : List String}
    (alike : first.map Text.isBlank = second.map Text.isBlank) (size : Nat) (start : Int) :
    ((blocks size start first).filter (!·.isBlank)).map (fun w => (w.start, w.stop)) =
      ((blocks size start second).filter (!·.isBlank)).map fun w => (w.start, w.stop) := by
  have lengths : first.length = second.length := by simpa using congrArg List.length alike
  have blank (ls : List String) (i : Nat) : ((ls.drop i).take size).all Text.isBlank =
      (((ls.map Text.isBlank).drop i).take size).all (· = true) := by
    simp [← List.map_drop, ← List.map_take, Function.comp_def]
  simp only [blocks, List.filter_map, List.map_map, lengths]
  congr 1
  · funext i
    simp [Window.stop, lengths]
  · apply List.filter_congr
    intro i _
    simp only [Function.comp_apply, Window.isBlank, blank, alike]

/-! ### Windows that lines alone close -/

/-- As long as no run of lines that a window may hold closes it by its bytes, what is held and what
follows is cut into blocks. -/
theorem fill_of_small {limits : WindowLimits} (lines : List String) {done : List Window}
    {w : OpenWindow} (counted : w.count = w.held.length) (weighed : w.bytes = lineBytes w.held)
    (room : w.count < limits.lines)
    (small : ∀ run, run <:+: w.held.reverse ++ lines → run.length ≤ limits.lines →
      lineBytes run < limits.bytes) :
    fill limits done w lines =
      done.reverse ++ blocks limits.lines w.start (w.held.reverse ++ lines) := by
  have positive : 0 < limits.lines := by omega
  -- The window in hand is the start of the next block: it is closed just when the block is full,
  -- and its bytes are those of the lines held.
  induction lines generalizing done w with
  | nil =>
    rw [fill, List.append_nil]
    split
    · rename_i none
      have empty : w.held = [] := List.length_eq_zero_iff.mp (by omega)
      rw [empty, List.reverse_nil, blocks_nil positive, List.append_nil]
    · rename_i some
      have filled : w.held.reverse ≠ [] := by
        rw [ne_eq, List.reverse_eq_nil_iff, ← List.length_eq_zero_iff]
        omega
      have short : w.held.reverse.length ≤ limits.lines := by
        rw [List.length_reverse]
        omega
      rw [blocks_of_length_le _ filled short, List.reverse_cons]
      rfl
  | cons line rest ih =>
    have shift : w.held.reverse ++ line :: rest = (line :: w.held).reverse ++ rest := by simp
    have length : (line :: w.held).reverse.length = w.count + 1 := by simp [counted]
    have bytes : w.bytes + Text.Utf8.size line + 1 = lineBytes (line :: w.held) := by
      rw [lineBytes_cons, weighed]
      omega
    have few : w.bytes + Text.Utf8.size line + 1 < limits.bytes := by
      rw [bytes, ← lineBytes_reverse]
      refine small _ ?_ (by omega)
      rw [shift]
      exact (List.prefix_append _ rest).isInfix
    rw [shift] at small ⊢
    rw [fill]
    simp only [Bool.or_eq_true, decide_eq_true_eq, not_le.mpr few, or_false]
    split
    · rename_i full
      have size : (line :: w.held).reverse.length = limits.lines := by omega
      have later : ∀ run, run <:+: rest → run.length ≤ limits.lines →
          lineBytes run < limits.bytes := fun run inside =>
        small run (inside.trans (List.suffix_append ..).isInfix)
      have next : fill limits (⟨w.start, (line :: w.held).reverse⟩ :: done)
          ⟨w.start + (w.count + 1 : Nat), [], 0, 0⟩ rest =
            (⟨w.start, (line :: w.held).reverse⟩ :: done).reverse ++
              blocks limits.lines (w.start + (w.count + 1 : Nat)) rest :=
        ih rfl rfl positive later
      have closed : (⟨w.start, (line :: w.held).reverse⟩ :: done : List Window).reverse =
          done.reverse ++ [⟨w.start, (line :: w.held).reverse⟩] := List.reverse_cons
      have placed : w.start + limits.lines = w.start + (w.count + 1 : Nat) := by omega
      rw [blocks_append positive _ size, placed]
      rw [closed, List.append_assoc] at next
      exact next
    · rename_i more
      exact ih (by simp [counted]) bytes (by simp only; omega) small

/-! ### Texts in blocks -/

/-- The lines of a text from the first one on that is not blank. -/
def bodyOf (content : String) : List String := (Text.lines content).dropWhile Text.isBlank

def firstNumber (content : String) : Int := ((Text.lines content).takeWhile Text.isBlank).length + 1

/-- A text that is not blank, in which consecutive lines that may share a window take fewer bytes
than close one. -/
structure IsSmall (content : String) (linesPerChunk maxChunkBytes : Int) : Prop where
  positive : 1 ≤ linesPerChunk
  filled : ∃ c ∈ content.toList, Text.isBlankChar c = false
  small : ∀ run, run <:+: bodyOf content → (run.length : Int) ≤ linesPerChunk →
    (lineBytes run : Int) < maxChunkBytes

section Small
variable {content : String} {linesPerChunk maxChunkBytes : Int}

theorem IsSmall.one_le (small : IsSmall content linesPerChunk maxChunkBytes) :
    1 ≤ maxChunkBytes := by
  have positive := small.positive
  have none := small.small [] List.nil_infix (by rw [List.length_nil]; omega)
  rw [lineBytes] at none
  omega

theorem IsSmall.of_drop (positive : 1 ≤ linesPerChunk)
    (filled : ∃ c ∈ content.toList, Text.isBlankChar c = false)
    (few : ∀ i ≤ (bodyOf content).length,
      (lineBytes (((bodyOf content).drop i).take linesPerChunk.toNat) : Int) < maxChunkBytes) :
    IsSmall content linesPerChunk maxChunkBytes := by
  refine ⟨positive, filled, fun run inside short => ?_⟩
  obtain ⟨before, after, whole⟩ := inside
  have start : (bodyOf content).drop before.length = run ++ after := by
    rw [← whole, List.append_assoc, List.drop_left]
  have place : before.length ≤ (bodyOf content).length := by
    have lengths := congrArg List.length whole
    rw [List.length_append, List.length_append] at lengths
    omega
  have sub : run.Sublist (((bodyOf content).drop before.length).take linesPerChunk.toNat) := by
    have fits : run.length ≤ linesPerChunk.toNat := by omega
    rw [start, List.take_append, List.take_of_length_le fits]
    exact List.sublist_append_left ..
  have most := few before.length place
  have least := lineBytes_le sub
  omega

theorem IsSmall.windows_eq (small : IsSmall content linesPerChunk maxChunkBytes) :
    windows ⟨linesPerChunk.toNat, maxChunkBytes.toNat⟩ (Text.lines content) =
      blocks linesPerChunk.toNat (firstNumber content) (bodyOf content) := by
  have positive := small.positive
  have skipped : (Text.lines content).length - (bodyOf content).length =
      ((Text.lines content).takeWhile Text.isBlank).length := by
    have whole := congrArg List.length
      (List.takeWhile_append_dropWhile (p := Text.isBlank) (l := Text.lines content))
    rw [List.length_append] at whole
    rw [bodyOf]
    omega
  rw [windows, ← bodyOf, skipped, ← firstNumber]
  apply fill_of_small (bodyOf content) rfl rfl
  · simp only
    omega
  · intro run inside short
    have few := small.small run inside (by simp only at short; omega)
    simp only
    omega

theorem IsSmall.parts_eq (small : IsSmall content linesPerChunk maxChunkBytes) :
    parts content linesPerChunk maxChunkBytes =
      blocks linesPerChunk.toNat (firstNumber content) (bodyOf content) := by
  have whole : ∀ w ∈ blocks linesPerChunk.toNat (firstNumber content) (bodyOf content),
      Window.bisect maxChunkBytes w.start w.lines = [w] := by
    intro w member
    obtain ⟨inside, short⟩ := isInfix_of_mem_blocks member
    have positive := small.positive
    have few := small.small w.lines inside (by omega)
    have size := size_unlines_le w.lines
    have fits : (Text.Utf8.size (Text.unlines w.lines) : Int) ≤ maxChunkBytes := by omega
    rw [Window.bisect, if_pos (by simp [fits])]
  rw [parts, small.windows_eq, List.flatMap_congr whole, List.flatMap_singleton']

def lineRange (c : Chunk) : Int × Int × String := (c.startLine, c.endLine, c.id)

theorem map_lineRange_chunk (path language parser : String) (ws : List Window) :
    (ws.map (Window.chunk path language .plain parser none)).map lineRange =
      (ws.map fun w => (w.start, w.stop)).map fun range =>
        (range.1, range.2, idOf path range.1 range.2) := by
  rw [List.map_map, List.map_map]
  rfl

/-- A text whose windows are small is cut into blocks of as many lines as a chunk may have, of which
the blank ones are left out. Any other such text with the same number of lines, and blank lines in
the same places, has chunks with the same numbers and ids. -/
theorem splitGeneric_of_isSmall (small : IsSmall content linesPerChunk maxChunkBytes)
    (path language parser : String) :
    splitGeneric path content language linesPerChunk maxChunkBytes parser =
        .ok (((blocks linesPerChunk.toNat (firstNumber content) (bodyOf content)).filter
          (!·.isBlank)).map (Window.chunk path language .plain parser none)) ∧
      ∀ (other otherLanguage otherParser : String) (otherBytes : Int),
        IsSmall other linesPerChunk otherBytes →
        (Text.lines other).map Text.isBlank = (Text.lines content).map Text.isBlank →
          (splitGeneric path other otherLanguage linesPerChunk otherBytes otherParser).map
              (·.map lineRange) =
            (splitGeneric path content language linesPerChunk maxChunkBytes parser).map
              (·.map lineRange) := by
  have cut {content language parser : String} {maxChunkBytes : Int}
      (small : IsSmall content linesPerChunk maxChunkBytes) :
      splitGeneric path content language linesPerChunk maxChunkBytes parser =
        .ok (((blocks linesPerChunk.toNat (firstNumber content) (bodyOf content)).filter
          (!·.isBlank)).map (Window.chunk path language .plain parser none)) := by
    rw [splitGeneric_of_positive small.positive small.one_le, small.parts_eq]
  refine ⟨cut small, fun other otherLanguage otherParser otherBytes otherSmall alike => ?_⟩
  have first : firstNumber other = firstNumber content := by
    have lengths := congrArg (fun pattern => (pattern.takeWhile (· = true)).length) alike
    simp only [List.takeWhile_map, List.length_map, Function.comp_def, Bool.decide_eq_true]
      at lengths
    rw [firstNumber, firstNumber, lengths]
  have bodies : (bodyOf other).map Text.isBlank = (bodyOf content).map Text.isBlank := by
    have rest := congrArg (List.dropWhile (· = true)) alike
    simpa only [bodyOf, List.dropWhile_map, Function.comp_def, Bool.decide_eq_true] using rest
  rw [cut small, cut otherSmall, first]
  simp only [Except.map, map_lineRange_chunk]
  rw [map_range_blocks bodies]

/-- A blank block between two others is left out, and the other text keeps its numbers. -/
theorem splitGeneric_of_isSmall_two_lines :
    IsSmall "\n\nfirst\nsecond\n\n\nlast\n" 2 14 ∧ IsSmall "\n\nA\nB\n\n\nC" 2 5 ∧
      (splitGeneric "a.txt" "\n\nfirst\nsecond\n\n\nlast\n" "text" 2 14 genericParser).map
          (·.map fun c => (c.startLine, c.endLine, c.content)) =
        .ok [(3, 4, "first\nsecond"), (7, 7, "last")] ∧
      (splitGeneric "a.txt" "\n\nA\nB\n\n\nC" "text" 2 5 genericParser).map (·.map lineRange) =
        (splitGeneric "a.txt" "\n\nfirst\nsecond\n\n\nlast\n" "text" 2 14 genericParser).map
          (·.map lineRange) := by
  have one : IsSmall "\n\nfirst\nsecond\n\n\nlast\n" 2 14 :=
    .of_drop (by decide) ⟨'f', by decide +kernel⟩ (by decide +kernel)
  have two : IsSmall "\n\nA\nB\n\n\nC" 2 5 :=
    .of_drop (by decide) ⟨'A', by decide +kernel⟩ (by decide +kernel)
  obtain ⟨cut, alike⟩ := splitGeneric_of_isSmall one "a.txt" "text" genericParser
  refine ⟨one, two, ?_, alike _ _ _ 5 two (by decide +kernel)⟩
  rw [cut]
  decide +kernel

end Small

end Chunk
end SourceIndex
