import SourceIndex.Proofs.Chunk.Window
import SourceIndex.Proofs.Text.Decode
/-!
# Where nodes and spans stand

The top-level nodes of a tree stand one after the other in the parsed text, and their points say on
which row and in which column their bytes begin and end. Spans are made of bytes and lines together:
their lines are those of their bytes, whatever is trimmed and joined.
-/

namespace SourceIndex

/-! ### Points -/

def rowAt (source : Bytes) (offset : Int) : Nat := (source.take offset.toNat).count 0x0A

/-- How many bytes stand between an offset and the line feed before it. -/
def columnAt (source : Bytes) (offset : Int) : Nat :=
  ((source.take offset.toNat).reverse.takeWhile (· != 0x0A)).length

def Point.ofOffset (source : Bytes) (offset : Int) : Point :=
  ⟨rowAt source offset, columnAt source offset⟩

/-- A range of bytes of some data. -/
structure IsRange (source : Bytes) (first last : Int) : Prop where
  nonneg : 0 ≤ first
  order : first ≤ last
  inside : last ≤ source.length

instance (source : Bytes) (first last : Int) : Decidable (IsRange source first last) :=
  decidable_of_iff (0 ≤ first ∧ first ≤ last ∧ last ≤ source.length)
    ⟨fun ⟨nonneg, order, inside⟩ => ⟨nonneg, order, inside⟩,
      fun ⟨nonneg, order, inside⟩ => ⟨nonneg, order, inside⟩⟩

variable {source : Bytes} {first last : Int}

theorem IsRange.take_eq (range : IsRange source first last) :
    source.take last.toNat = source.take first.toNat ++ source.slice first last := by
  obtain ⟨low, order, inside⟩ := range
  have start : clampOffset source.length first = first.toNat := by
    rw [clampOffset, if_neg (by omega)]
    omega
  have stop : clampOffset source.length last = last.toNat := by
    rw [clampOffset, if_neg (by omega)]
    omega
  have total : last.toNat = first.toNat + (last.toNat - first.toNat) := by omega
  rw [Bytes.slice, start, stop, ← List.take_add, ← total]

theorem IsRange.row_eq (range : IsRange source first last) :
    rowAt source last = rowAt source first + (source.slice first last).count 0x0A := by
  rw [rowAt, range.take_eq, List.count_append, rowAt]

theorem rowAt_mono (source : Bytes) {a b : Int} (le : a ≤ b) : rowAt source a ≤ rowAt source b := by
  have within : source.take a.toNat <+: source.take b.toNat :=
    List.take_prefix_take_left (by omega)
  exact within.sublist.count_le 0x0A

/-- What ends in the first column of a row that is not the first one ends with a line feed. -/
theorem take_of_column {offset : Int} (inside : offset ≤ source.length)
    (column : columnAt source offset = 0) (row : 0 < rowAt source offset) :
    0 < offset ∧ source.take offset.toNat = source.take (offset - 1).toNat ++ [0x0A] := by
  have filled : source.take offset.toNat ≠ [] := by
    intro empty
    rw [rowAt, empty] at row
    exact absurd row (by simp)
  obtain ⟨init, b, shape⟩ := List.eq_nil_or_concat _ |>.resolve_left filled
  rw [List.concat_eq_append] at shape
  have length := congrArg List.length shape
  rw [List.length_take, List.length_append, List.length_singleton] at length
  -- Any other byte would be counted by the column.
  have lineFeed : b = 0x0A := by
    by_contra other
    rw [columnAt, shape, List.reverse_append, List.reverse_singleton, List.singleton_append,
      List.takeWhile_cons_of_pos (by simpa using other)] at column
    simp at column
  refine ⟨by omega, ?_⟩
  have before : source.take (offset - 1).toNat = init := by
    have shorter := congrArg (List.take init.length) shape
    rw [List.take_take, List.take_left] at shorter
    rw [← shorter]
    congr 1
    omega
  rw [shape, before, lineFeed]

theorem slice_of_whole {s : String} {before body after : List Char}
    (whole : s.toList = before ++ body ++ after) :
    (Text.Utf8.encode s).slice (Text.Utf8.encodeChars before).length
      (Text.Utf8.encodeChars (before ++ body)).length = Text.Utf8.encodeChars body := by
  have bytes : Text.Utf8.encode s = Text.Utf8.encodeChars before ++
      (Text.Utf8.encodeChars body ++ Text.Utf8.encodeChars after) := by
    rw [Text.Utf8.encode, whole, Text.Utf8.encodeChars_append, Text.Utf8.encodeChars_append,
      List.append_assoc]
  have inner : (Text.Utf8.encodeChars (before ++ body)).length =
      (Text.Utf8.encodeChars before).length + (Text.Utf8.encodeChars body).length := by
    rw [Text.Utf8.encodeChars_append, List.length_append]
  have range : IsRange (Text.Utf8.encode s) (Text.Utf8.encodeChars before).length
      (Text.Utf8.encodeChars (before ++ body)).length := by
    refine ⟨by omega, by omega, ?_⟩
    rw [bytes, List.length_append, List.length_append]
    omega
  have taken := range.take_eq
  rw [Int.toNat_natCast, Int.toNat_natCast] at taken
  generalize Bytes.slice _ _ _ = found at taken ⊢
  rw [inner, bytes, List.take_length_add_append, List.take_left, List.take_left] at taken
  exact (List.append_cancel_left taken).symm

/-! ### Nodes -/

namespace Node

/-- A node stands in a text: its bytes are there, and its points agree with their offsets. -/
structure IsPlaced (source : Bytes) (n : Node) : Prop where
  range : IsRange source n.startByte n.endByte
  start : n.start = .ofOffset source n.startByte
  stop : n.stop = .ofOffset source n.endByte

instance (source : Bytes) (n : Node) : Decidable (n.IsPlaced source) :=
  decidable_of_iff (IsRange source n.startByte n.endByte ∧
      n.start = .ofOffset source n.startByte ∧ n.stop = .ofOffset source n.endByte)
    ⟨fun ⟨range, start, stop⟩ => ⟨range, start, stop⟩,
      fun ⟨range, start, stop⟩ => ⟨range, start, stop⟩⟩

/-- The end of a node without its last line feed, if it ends in the first column of a later row. -/
def bodyEnd (n : Node) : Int :=
  if n.stop.column = 0 ∧ n.start.row < n.stop.row then n.endByte - 1 else n.endByte

theorem IsPlaced.trimmed {n : Node} (placed : n.IsPlaced source)
    (trims : n.stop.column = 0 ∧ n.start.row < n.stop.row) :
    n.startByte < n.endByte ∧ source.take n.endByte.toNat =
      source.take (n.endByte - 1).toNat ++ [0x0A] ∧
      rowAt source n.endByte = rowAt source (n.endByte - 1) + 1 := by
  obtain ⟨⟨low, order, inside⟩, start, stop⟩ := placed
  obtain ⟨column, rows⟩ := trims
  rw [start, stop] at rows
  rw [stop] at column
  simp only [Point.ofOffset] at column rows
  obtain ⟨some, taken⟩ := take_of_column inside (by omega) (by omega)
  have later : n.startByte < n.endByte := by
    by_contra notLater
    have mono := rowAt_mono source (show n.endByte ≤ n.startByte by omega)
    omega
  refine ⟨later, taken, ?_⟩
  rw [rowAt, taken, List.count_append, rowAt]
  rfl

end Node

/-! ### Spans -/

namespace Span

/-- A span stands in a text: its bytes are there, and its lines are the ones of these bytes. -/
structure IsPlaced (source : Bytes) (span : Span) : Prop where
  range : IsRange source span.startByte span.endByte
  startLine : span.startLine = rowAt source span.startByte + 1
  endLine : span.endLine = rowAt source span.endByte + 1

theorem ofNode_bytes (table : NodeTable) (source : Bytes) (n : Node) :
    (ofNode table source n).startByte = n.startByte ∧
      (ofNode table source n).endByte = n.bodyEnd := by
  refine ⟨rfl, ?_⟩
  simp [ofNode, Node.bodyEnd]

theorem isPlaced_ofNode {n : Node} (placed : n.IsPlaced source) (table : NodeTable) :
    (ofNode table source n).IsPlaced source := by
  obtain ⟨range, start, stop⟩ := id placed
  have startLine : (ofNode table source n).startLine = rowAt source n.startByte + 1 := by
    simp only [ofNode, start, Point.ofOffset]
  by_cases trims : n.stop.column = 0 ∧ n.start.row < n.stop.row
  · obtain ⟨later, -, row⟩ := placed.trimmed trims
    have endByte : (ofNode table source n).endByte = n.endByte - 1 := by simp [ofNode, trims]
    have endLine : (ofNode table source n).endLine = n.stop.row := by simp [ofNode, trims]
    refine ⟨?_, startLine, ?_⟩
    · rw [endByte]
      exact ⟨range.nonneg, show n.startByte ≤ n.endByte - 1 by omega, by
        have := range.inside
        omega⟩
    · rw [endByte, endLine, stop, Point.ofOffset, row]
      simp
  · have endByte : (ofNode table source n).endByte = n.endByte := by simp [ofNode, trims]
    have endLine : (ofNode table source n).endLine = n.stop.row + 1 := by simp [ofNode, trims]
    refine ⟨?_, startLine, ?_⟩
    · rw [endByte]
      exact range
    · rw [endByte, endLine, stop, Point.ofOffset]

theorem isPlaced_join {a b : Span} (one : a.IsPlaced source) (other : b.IsPlaced source) :
    (join a b).IsPlaced source := by
  have ends : (join a b).endByte = max a.endByte b.endByte := rfl
  have lines : (join a b).endLine = max a.endLine b.endLine := rfl
  have one' := one.range
  have other' := other.range
  refine ⟨⟨one'.nonneg, ?_, ?_⟩, one.startLine, ?_⟩
  · have order := one'.order
    have start : (join a b).startByte = a.startByte := rfl
    rw [ends, start]
    omega
  · have inside := one'.inside
    have inside' := other'.inside
    rw [ends]
    omega
  · rw [ends, lines, one.endLine, other.endLine]
    rcases Int.le_total a.endByte b.endByte with le | le
    · have rows := rowAt_mono source le
      rw [Int.max_eq_right le]
      omega
    · have rows := rowAt_mono source le
      rw [Int.max_eq_left le]
      omega

/-! ### Merging -/

theorem mergeFrom_eq (done : List Span) (current : Span) (rest : List Span) :
    mergeFrom done current rest = done.reverse ++ mergeFrom [] current rest := by
  induction rest generalizing done current with
  | nil => simp [mergeFrom]
  | cons next rest ih =>
    rw [mergeFrom, mergeFrom]
    split
    · exact ih done (join current next)
    · rw [ih (current :: done) next, ih [current] next]
      simp

theorem mergeFrom_cons (current next : Span) (rest : List Span) :
    mergeFrom [] current (next :: rest) =
      if joins current next then mergeFrom [] (join current next) rest
      else current :: mergeFrom [] next rest := by
  rw [mergeFrom]
  split
  · rfl
  · rw [mergeFrom_eq]
    rfl

theorem of_mem_mergeFrom {property : Span → Prop} {rest : List Span} {current : Span}
    (here : property current) (others : ∀ span ∈ rest, property span)
    (joined : ∀ a b, property a → property b → property (join a b)) :
    ∀ span ∈ mergeFrom [] current rest, property span := by
  induction rest generalizing current with
  | nil =>
    intro span member
    rw [mergeFrom, List.mem_reverse, List.mem_singleton] at member
    rwa [member]
  | cons next rest ih =>
    intro span member
    have first := others next (List.mem_cons_self ..)
    have later : ∀ span ∈ rest, property span :=
      fun span among => others span (List.mem_cons_of_mem _ among)
    rw [mergeFrom_cons] at member
    split at member
    · exact ih (joined current next here first) later span member
    · rcases List.mem_cons.mp member with same | after
      · rwa [same]
      · exact ih first later span after

/-- What holds of some spans and is kept by joining holds of the merged spans. -/
theorem of_mem_merge {property : Span → Prop} {spans : List Span}
    (all : ∀ span ∈ spans, property span)
    (joined : ∀ a b, property a → property b → property (join a b)) :
    ∀ span ∈ merge spans, property span := by
  have sorted : ∀ span ∈ sort spans, property span := fun span member =>
    all span (List.mem_mergeSort.mp member)
  intro span member
  unfold merge at member
  split at member
  · cases member
  · rename_i current rest shape
    rw [shape] at sorted
    exact of_mem_mergeFrom (sorted current (List.mem_cons_self ..))
      (fun other among => sorted other (List.mem_cons_of_mem _ among)) joined span member

end Span

/-! ### Chunks of spans -/

namespace Structure

def spansOf (language : Language) (text : String) (nodes : List Node) : List Span :=
  Span.merge (nodes.map (Span.ofNode language.table (Text.Utf8.encode text)))

theorem chunksOf_eq (limits : Limits) (path : String) (language : Language) (text : String)
    (nodes : List Node) : chunksOf limits path language text nodes =
      (spansOf language text nodes).flatMap fun span =>
        Chunk.underCeiling limits.maxChunkBytes
          (spanChunk path language (Text.Utf8.encode text) span) := by
  rw [chunksOf, Chunk.enforceCeiling, List.flatMap_map]
  rfl

variable {language : Language} {text : String} {nodes : List Node}

theorem isPlaced_spansOf (language : Language)
    (placed : ∀ n ∈ nodes, n.IsPlaced (Text.Utf8.encode text)) :
    ∀ span ∈ spansOf language text nodes, span.IsPlaced (Text.Utf8.encode text) := by
  apply Span.of_mem_merge
  · intro span member
    obtain ⟨n, among, rfl⟩ := List.mem_map.mp member
    exact Span.isPlaced_ofNode (placed n among) language.table
  · exact fun a b one other => Span.isPlaced_join one other

theorem isExact_spanChunk {span : Span} (placed : span.IsPlaced source) (path : String)
    (language : Language) : (spanChunk path language source span).IsExact := by
  have lines := placed.range.row_eq
  refine ⟨rfl, ?_⟩
  have count : ((spanChunk path language source span).window.lines.length : Int) =
      (source.slice span.startByte span.endByte).count 0x0A + 1 := by
    have feeds := Text.Utf8.count_decodeLenient (source.slice span.startByte span.endByte)
    simp only [Chunk.window, spanChunk, Chunk.ofRange, Node.sliceText, Text.length_splitOn, feeds]
    simp
  rw [Window.stop, count]
  simp only [Chunk.window, spanChunk, Chunk.ofRange, placed.startLine, placed.endLine]
  omega

end Structure
end SourceIndex
