import SourceIndex.Proofs.Chunk.Window
/-!
# Parts of chunks

A chunk above the size ceiling is replaced by parts. They hold its text between them and take up
its lines one after the other, and they are chunks in their own right: each one has the id of its
own lines. Parts are not cut again, not even those that are lines above the ceiling.
-/

namespace SourceIndex.Chunk

/-- Chunks of which the first one starts at the given line, and each other one at the line after the
last one of the chunk before. -/
def AreConsecutive : Int → List Chunk → Prop
  | _, [] => True
  | start, c :: rest => c.startLine = start ∧ AreConsecutive (c.endLine + 1) rest

/-- The parts that a chunk is cut into. -/
structure AreParts (maxBytes : Int) (whole : Chunk) (parts : List Chunk) : Prop where
  content : Text.unlines (parts.map (·.content)) = whole.content
  consecutive : AreConsecutive whole.startLine parts
  length : ∀ part ∈ parts,
    part.endLine - part.startLine + 1 = (Text.splitOn '\n' part.content).length
  id : ∀ part ∈ parts, part.id = idOf part.path part.startLine part.endLine
  origin : ∀ part ∈ parts, part.path = whole.path ∧ part.language = whole.language ∧
    part.kind = whole.kind ∧ part.parser = whole.parser
  names : ∃ others, parts.map (·.name) = whole.name :: List.replicate others none
  small : ∀ part ∈ parts, FitsOrIsLine maxBytes part.content

/-- What stands in the place of a chunk: the chunk itself if it fits, else its parts. -/
structure IsCut (maxBytes : Int) (whole : Chunk) (cut : List Chunk) : Prop where
  fits : ((Text.Utf8.encode whole.content).length : Int) ≤ maxBytes → cut = [whole]
  large : maxBytes < ((Text.Utf8.encode whole.content).length : Int) → AreParts maxBytes whole cut

variable {maxBytes : Int} {whole part : Chunk}

/-! ### Cutting -/

theorem underCeiling_of_fits
    (fits : ((Text.Utf8.encode whole.content).length : Int) ≤ maxBytes) :
    underCeiling maxBytes whole = [whole] := by
  rw [← Text.Utf8.size_eq_length_encode] at fits
  rw [underCeiling, if_pos fits]

theorem underCeiling_of_large
    (large : maxBytes < ((Text.Utf8.encode whole.content).length : Int)) :
    underCeiling maxBytes whole =
      let parts := Window.bisect maxBytes whole.startLine (Text.splitOn '\n' whole.content)
      (parts.zip (partNames whole.name parts)).map fun (w, name) =>
        w.chunk whole.path whole.language whole.kind whole.parser name := by
  rw [← Text.Utf8.size_eq_length_encode] at large
  rw [underCeiling, if_neg (by omega)]

theorem exists_window_of_large
    (large : maxBytes < ((Text.Utf8.encode whole.content).length : Int))
    (member : part ∈ underCeiling maxBytes whole) : ∃ w name, Window.IsPlain w ∧
      part = w.chunk whole.path whole.language whole.kind whole.parser name := by
  rw [underCeiling_of_large large] at member
  obtain ⟨⟨w, name⟩, pair, rfl⟩ := List.mem_map.mp member
  exact ⟨w, name, (isPlain_window whole).of_mem_bisect (List.of_mem_zip pair).1, rfl⟩

theorem isExact_of_large (large : maxBytes < ((Text.Utf8.encode whole.content).length : Int))
    (member : part ∈ underCeiling maxBytes whole) : part.IsExact := by
  obtain ⟨w, name, plain, rfl⟩ := exists_window_of_large large member
  exact isExact_chunk plain

theorem areConsecutive_of_follow {start : Int} {chunks : List Chunk}
    (isExact : ∀ c ∈ chunks, c.IsExact) (follow : Window.Follow start (chunks.map window)) :
    AreConsecutive start chunks := by
  induction chunks generalizing start with
  | nil => trivial
  | cons c rest ih =>
    obtain ⟨here, later⟩ := follow
    have starts : c.startLine = start := here
    have next : c.endLine + 1 = start + c.window.lines.length := by
      rw [(isExact c (List.mem_cons_self ..)).endLine, Window.stop, here]
      omega
    refine ⟨starts, ?_⟩
    rw [next]
    exact ih (fun other member => isExact other (List.mem_cons_of_mem _ member)) later

theorem names_underCeiling (large : maxBytes < ((Text.Utf8.encode whole.content).length : Int)) :
    ∃ others, (underCeiling maxBytes whole).map (·.name) =
      whole.name :: List.replicate others none := by
  have lines := Window.flatMap_lines_bisect maxBytes whole.startLine
    (Text.splitOn '\n' whole.content)
  rw [underCeiling_of_large large]
  cases shape : Window.bisect maxBytes whole.startLine (Text.splitOn '\n' whole.content) with
  | nil =>
    rw [shape] at lines
    exact absurd lines.symm (Text.splitOn_ne_nil '\n' whole.content)
  | cons first rest =>
    have names : (((first :: rest).zip (partNames whole.name (first :: rest))).map
        fun (w, name) => w.chunk whole.path whole.language whole.kind whole.parser name).map
          (·.name) = partNames whole.name (first :: rest) := by
      rw [List.map_map]
      exact List.map_snd_zip (length_partNames whole.name _).le
    refine ⟨rest.length, names.trans ?_⟩
    rw [partNames, List.map_const']

theorem areParts_underCeiling
    (large : maxBytes < ((Text.Utf8.encode whole.content).length : Int)) :
    AreParts maxBytes whole (underCeiling maxBytes whole) where
  content := unlines_map_content_underCeiling maxBytes whole
  consecutive := by
    apply areConsecutive_of_follow fun part => isExact_of_large large
    rw [map_window_underCeiling]
    exact Window.follow_bisect ..
  length := by
    intro part member
    have stop : part.endLine =
        part.startLine + (Text.splitOn '\n' part.content).length - 1 :=
      (isExact_of_large large member).endLine
    omega
  id := fun part member => (isExact_of_large large member).id
  origin := by
    intro part member
    obtain ⟨w, name, -, rfl⟩ := exists_window_of_large large member
    exact ⟨rfl, rfl, rfl, rfl⟩
  names := names_underCeiling large
  small := fun part => fits_of_mem_underCeiling

theorem isCut_underCeiling (maxBytes : Int) (whole : Chunk) :
    IsCut maxBytes whole (underCeiling maxBytes whole) where
  fits := underCeiling_of_fits
  large := areParts_underCeiling

/-! ### Cutting again -/

/-- A chunk is made anew from its lines. -/
theorem chunk_window (isExact : whole.IsExact) :
    whole.window.chunk whole.path whole.language whole.kind whole.parser whole.name = whole := by
  have start : whole.window.start = whole.startLine := rfl
  rw [Window.chunk, ofRange, content_window, ← isExact.endLine, start, ← isExact.id]

theorem underCeiling_of_line (isExact : whole.IsExact) (line : '\n' ∉ whole.content.toList) :
    underCeiling maxBytes whole = [whole] := by
  by_cases large : maxBytes < ((Text.Utf8.encode whole.content).length : Int)
  · have one : (Text.splitOn '\n' whole.content).length ≤ 1 := by
      rw [Text.splitOn_of_not_mem line, List.length_singleton]
    have alone : Window.bisect maxBytes whole.startLine (Text.splitOn '\n' whole.content) =
        [whole.window] := by
      rw [Window.bisect, if_pos (by simp [one]), window]
    rw [underCeiling_of_large large, alone]
    simp [partNames, chunk_window isExact]
  · exact underCeiling_of_fits (by omega)

theorem underCeiling_of_mem_underCeiling (member : part ∈ underCeiling maxBytes whole) :
    underCeiling maxBytes part = [part] := by
  by_cases large : maxBytes < ((Text.Utf8.encode whole.content).length : Int)
  · rcases fits_of_mem_underCeiling member with fits | line
    · exact underCeiling_of_fits fits
    · exact underCeiling_of_line (isExact_of_large large member) line
  · have alone : underCeiling maxBytes whole = [whole] := underCeiling_of_fits (by omega)
    rw [alone, List.mem_singleton] at member
    rw [member, alone]

/-- Chunks that fit stay as they are, and each other one is replaced in its place by its parts; to
cut the result again changes nothing. -/
theorem enforceCeiling_cuts (maxBytes : Int) (chunks : List Chunk) :
    (∃ cuts, List.Forall₂ (IsCut maxBytes) chunks cuts ∧
      enforceCeiling maxBytes chunks = cuts.flatten) ∧
    enforceCeiling maxBytes (enforceCeiling maxBytes chunks) =
      enforceCeiling maxBytes chunks := by
  constructor
  · refine ⟨chunks.map (underCeiling maxBytes), ?_, List.flatMap_def ..⟩
    induction chunks with
    | nil => exact .nil
    | cons whole rest ih => exact .cons (isCut_underCeiling maxBytes whole) ih
  · have again : ∀ part ∈ enforceCeiling maxBytes chunks, underCeiling maxBytes part = [part] := by
      intro part member
      obtain ⟨whole, -, cut⟩ := List.mem_flatMap.mp member
      exact underCeiling_of_mem_underCeiling cut
    rw [enforceCeiling, List.flatMap_congr again, List.flatMap_singleton']

end SourceIndex.Chunk
