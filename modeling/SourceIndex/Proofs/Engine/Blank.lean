import SourceIndex.Proofs.Engine.Ids
/-!
# Blank chunks

A blank file has no chunks, and windows of blank lines make none. Spans of nodes are halved without
regard to what the parts hold: where nodes hold more than blanks, a chunk is blank only if it was
cut out of a span above the ceiling.
-/

namespace SourceIndex

/-! ### Texts between characters -/

section Slices
variable {text : String} {source : Bytes} {first middle last : Int}

theorem slice_append (low : IsRange source first middle) (high : IsRange source middle last) :
    source.slice first last = source.slice first middle ++ source.slice middle last := by
  have range : IsRange source first last :=
    ⟨low.nonneg, Int.le_trans low.order high.order, high.inside⟩
  have whole := range.take_eq
  rw [high.take_eq, low.take_eq, List.append_assoc] at whole
  exact (List.append_cancel_left whole).symm

theorem Node.sliceText_append (start : Text.Utf8.IsBoundary text first)
    (cut : Text.Utf8.IsBoundary text middle) (stop : Text.Utf8.IsBoundary text last)
    (low : IsRange (Text.Utf8.encode text) first middle)
    (high : IsRange (Text.Utf8.encode text) middle last) :
    sliceText (Text.Utf8.encode text) first last =
      sliceText (Text.Utf8.encode text) first middle ++
        sliceText (Text.Utf8.encode text) middle last := by
  obtain ⟨before, body, after, whole, here, there⟩ := start.between cut low.order
  obtain ⟨before', body', after', whole', here', there'⟩ := cut.between stop high.order
  have one : (Text.Utf8.encode text).slice first middle = Text.Utf8.encodeChars body := by
    rw [here, there]
    exact slice_of_whole whole
  have other : (Text.Utf8.encode text).slice middle last = Text.Utf8.encodeChars body' := by
    rw [here', there']
    exact slice_of_whole whole'
  rw [sliceText, slice_append low high, sliceText, sliceText, one, other,
    ← Text.Utf8.encodeChars_append]
  simp only [Text.Utf8.decodeLenient_encodeChars, String.ofList_append]

end Slices

/-! ### Nodes and spans that hold something -/

def Node.text (source : Bytes) (n : Node) : String := sliceText source n.startByte n.endByte

namespace Span

def text (source : Bytes) (span : Span) : String :=
  Node.sliceText source span.startByte span.endByte

/-- A span stands between characters of a parsed text and holds more than blanks. -/
structure IsFilled (parsed : String) (span : Span) : Prop where
  range : IsRange (Text.Utf8.encode parsed) span.startByte span.endByte
  start : Text.Utf8.IsBoundary parsed span.startByte
  stop : Text.Utf8.IsBoundary parsed span.endByte
  filled : Text.isBlank (span.text (Text.Utf8.encode parsed)) = false

variable {parsed : String}

theorem isFilled_ofNode {n : Node} (placed : n.IsPlaced (Text.Utf8.encode parsed))
    (start : Text.Utf8.IsBoundary parsed n.startByte)
    (stop : Text.Utf8.IsBoundary parsed n.endByte)
    (filled : Text.isBlank (n.text (Text.Utf8.encode parsed)) = false) (table : NodeTable) :
    (ofNode table (Text.Utf8.encode parsed) n).IsFilled parsed := by
  obtain ⟨first, last⟩ := ofNode_bytes table (Text.Utf8.encode parsed) n
  have range := (isPlaced_ofNode placed table).range
  rw [first, last] at range
  have cut := Structure.isBoundary_bodyEnd placed stop
  have rest : IsRange (Text.Utf8.encode parsed) n.bodyEnd n.endByte :=
    ⟨Int.le_trans range.nonneg range.order, Structure.bodyEnd_le, placed.range.inside⟩
  have trimmed : Text.isBlank (Node.sliceText (Text.Utf8.encode parsed) n.bodyEnd n.endByte) =
      true := by
    rcases Structure.slice_bodyEnd placed with same | feed
    · have nothing : (Text.Utf8.encode parsed).slice n.endByte n.endByte = [] := by
        rw [Bytes.slice, Nat.sub_self, List.take_zero]
      rw [same, Node.sliceText, nothing]
      decide +kernel
    · rw [Node.sliceText, feed]
      decide +kernel
  refine ⟨by rwa [first, last], by rwa [first], by rwa [last], ?_⟩
  rw [Node.text, Node.sliceText_append start cut stop range rest, Text.isBlank_append, trimmed,
    Bool.and_true] at filled
  rwa [text, first, last]

theorem isFilled_join {a b : Span} (one : a.IsFilled parsed) (other : b.IsFilled parsed) :
    (join a b).IsFilled parsed := by
  have first : (join a b).startByte = a.startByte := rfl
  have last : (join a b).endByte = max a.endByte b.endByte := rfl
  have stop : Text.Utf8.IsBoundary parsed (max a.endByte b.endByte) := by
    rcases Int.le_total a.endByte b.endByte with le | le
    · rw [Int.max_eq_right le]
      exact other.stop
    · rw [Int.max_eq_left le]
      exact one.stop
  have inside := one.range.inside
  have inside' := other.range.inside
  have range := one.range
  have rest : IsRange (Text.Utf8.encode parsed) a.endByte (max a.endByte b.endByte) :=
    ⟨Int.le_trans range.nonneg range.order, by omega, by omega⟩
  refine ⟨⟨range.nonneg, Int.le_trans range.order rest.order, rest.inside⟩, one.start, stop, ?_⟩
  have filled : Text.isBlank (Node.sliceText (Text.Utf8.encode parsed) a.startByte a.endByte) =
    false := one.filled
  rw [text, first, last, Node.sliceText_append one.start one.stop stop range rest,
    Text.isBlank_append, filled, Bool.false_and]

end Span

namespace Structure
variable {text : String} {nodes : List Node} {language : Language}

theorem isFilled_spansOf (wellFormed : IsWellFormed text nodes)
    (filled : ∀ n ∈ nodes, Text.isBlank (n.text (Text.Utf8.encode text)) = false) :
    ∀ span ∈ spansOf language text nodes, span.IsFilled text := by
  apply Span.of_mem_merge
  · intro span member
    obtain ⟨n, among, rfl⟩ := List.mem_map.mp member
    obtain ⟨start, stop⟩ := wellFormed.between n among
    exact Span.isFilled_ofNode (wellFormed.placed n among) start stop (filled n among) _
  · exact fun a b one other => Span.isFilled_join one other

end Structure

/-! ### Chunks that hold something -/

namespace Chunk

theorem isBlank_window (c : Chunk) : c.window.isBlank = Text.isBlank c.content := by
  rw [← Window.isBlank_content, content_window]

/-- The chunks that a chunk is cut into hold more than blanks if its halved windows do. -/
theorem forall_filled_underCeiling_iff (maxBytes : Int) (c : Chunk) :
    (∀ part ∈ underCeiling maxBytes c, Text.isBlank part.content = false) ↔
      ∀ w ∈ Window.bisect maxBytes c.startLine (Text.splitOn '\n' c.content),
        w.isBlank = false := by
  rw [← map_window_underCeiling, List.forall_mem_map]
  simp only [isBlank_window]

theorem isBlank_of_mem_wholeFile {path content language : String} {c : Chunk}
    (member : c ∈ wholeFile path content language) : Text.isBlank c.content = false := by
  unfold wholeFile at member
  split at member
  · cases member
  · rename_i filled
    rw [List.mem_singleton.mp member]
    simpa [ofRange] using filled

end Chunk

/-- The chunks of a span that holds more than blanks do so too, unless it is above the ceiling and
halving it leaves a blank part. -/
theorem Structure.forall_filled_spanChunk_iff {text : String} {span : Span}
    (filled : span.IsFilled text) (maxBytes : Int) (path : String) (language : Language) :
    (∀ c ∈ Chunk.underCeiling maxBytes (spanChunk path language (Text.Utf8.encode text) span),
        Text.isBlank c.content = false) ↔
      (maxBytes < Text.Utf8.size (span.text (Text.Utf8.encode text)) →
        ∀ w ∈ Window.bisect maxBytes span.startLine
            (Text.splitOn '\n' (span.text (Text.Utf8.encode text))),
          w.isBlank = false) := by
  have content : (spanChunk path language (Text.Utf8.encode text) span).content =
      span.text (Text.Utf8.encode text) := rfl
  have start : (spanChunk path language (Text.Utf8.encode text) span).startLine =
      span.startLine := rfl
  have parts := Chunk.forall_filled_underCeiling_iff maxBytes
    (spanChunk path language (Text.Utf8.encode text) span)
  by_cases fits : (Text.Utf8.size (span.text (Text.Utf8.encode text)) : Int) ≤ maxBytes
  -- A span that fits is a window by itself.
  · refine iff_of_true (parts.mpr ?_) (fun above => absurd above (Int.not_lt.mpr fits))
    rw [← content] at fits
    rw [Chunk.bisect_of_fits fits]
    intro w same
    rw [List.mem_singleton.mp same, Chunk.isBlank_window, content]
    exact filled.filled
  · rw [parts, content, start]
    exact ⟨fun all _ => all, fun all => all (Int.not_le.mp fits)⟩

namespace Engine
variable {γ : Type} {e : Engine γ} {path content language : String}
variable {given wanted : Option String} {isBinary : Bool} {s : Session γ}

theorem isBlank_of_mem_runParser {parser : Parser}
    (noTree : e.parserTree? parser path content language s = none) {c : Chunk}
    (member : c ∈ (e.runParser parser path content language s).1) :
    Text.isBlank c.content = false := by
  have fallBack {s : Session γ} (member : c ∈ (e.fallBack path content language s).1) :
      Text.isBlank c.content = false := by
    unfold fallBack at member
    split at member
    · rename_i chunks split
      exact Chunk.isBlank_of_mem_splitGeneric split member
    · cases member
  cases parser with
  | structural languages =>
    simp only [parserTree?] at noTree
    simp only [runParser] at member
    split at member
    · rename_i chunks after parsed
      rw [Structure.parse_of_no_tree noTree parsed] at member
      cases member
    · exact fallBack member
  | generic =>
    simp only [runParser] at member
    split at member
    · rename_i chunks split
      exact Chunk.isBlank_of_mem_splitGeneric split member
    · exact fallBack member

theorem isBlank_of_mem_chunk (noTree : e.tree? path given wanted isBinary s = none) {c : Chunk}
    (member : c ∈ (e.chunk path given wanted isBinary s).1) : Text.isBlank c.content = false := by
  cases given with
  | none => cases member
  | some content =>
    simp only [tree?] at noTree
    simp only [chunk] at member
    by_cases blank : Text.isBlank content = true
    · rw [if_pos blank] at member
      cases member
    rw [if_neg blank] at member
    by_cases binary : isBinary = true
    · rw [if_pos binary] at member
      exact Chunk.isBlank_of_mem_wholeFile member
    · rw [if_neg binary] at member
      rw [if_neg (by simp [blank, binary])] at noTree
      exact isBlank_of_mem_runParser noTree (List.mem_mergeSort.mp member)

/-- Where nodes hold more than blanks, no chunk is blank just if halving a span that is above the
ceiling leaves no blank part. So none is blank if there is no tree, or if all spans fit. -/
theorem forall_filled_chunk_iff
    (wellFormed : ∀ found text nodes,
      e.tree? path given wanted isBinary s = some (found, text, nodes) →
        Structure.IsWellFormed text nodes ∧
          ∀ n ∈ nodes, Text.isBlank (n.text (Text.Utf8.encode text)) = false) :
    (∀ c ∈ (e.chunk path given wanted isBinary s).1, Text.isBlank c.content = false) ↔
      ∀ found text nodes, e.tree? path given wanted isBinary s = some (found, text, nodes) →
        ∀ span ∈ Structure.spansOf found text nodes,
          e.settings.maxChunkBytes < Text.Utf8.size (span.text (Text.Utf8.encode text)) →
          ∀ w ∈ Window.bisect e.settings.maxChunkBytes span.startLine
              (Text.splitOn '\n' (span.text (Text.Utf8.encode text))),
            w.isBlank = false := by
  cases tree : e.tree? path given wanted isBinary s with
  | none => exact iff_of_true (fun c member => isBlank_of_mem_chunk tree member) (by simp)
  | some result =>
    obtain ⟨found, text, nodes⟩ := result
    obtain ⟨formed, filled⟩ := wellFormed found text nodes tree
    have spans : ∀ span ∈ Structure.spansOf found text nodes, span.IsFilled text :=
      Structure.isFilled_spansOf formed filled
    have each := fun span member => Structure.forall_filled_spanChunk_iff
      (spans span member) e.settings.maxChunkBytes path found
    have same : ∀ c, c ∈ (e.chunk path given wanted isBinary s).1 ↔
        c ∈ Structure.chunksOf ⟨e.settings.maxChunkBytes, e.settings.retryLines⟩ path found text
          nodes := fun c => (chunk_of_tree tree).mem_iff
    simp only [same, Structure.chunksOf_eq]
    rw [List.forall_mem_flatMap]
    constructor
    · intro all found' text' nodes' shown span member
      cases shown
      exact (each span member).mp (all span member)
    · intro all span member
      exact (each span member).mpr (all found text nodes rfl span member)

/-- A list with two blank lines inside, as the node of a statement. -/
def gappedNodes : List Node := [⟨"expression_statement", 0, 10, ⟨0, 0⟩, ⟨3, 2⟩, [], []⟩]

/-- An engine with a ceiling of five bytes and a grammar that gives this node for every text. -/
def gappedEngine : Engine Unit :=
  ofSettings { structural := ["python"], maxChunkBytes := 5 }
    { load := fun _ s => (none, s), parse := fun _ _ s => (.tree gappedNodes, s) }

theorem tree?_gappedEngine :
    gappedEngine.tree? "a.py" (some "x = [\n\n\n1]\n") (some "python") false ⟨(), [], []⟩ =
      some (.python, "x = [\n\n\n1]\n", gappedNodes) := by
  have blank : Text.isBlank "x = [\n\n\n1]\n" = false := by decide +kernel
  have language : gappedEngine.languageOf "a.py" (some "python") = "python" := by decide +kernel
  have chosen : gappedEngine.registry.select? (Parser.takes "python") =
      some (.structural [.python]) := by decide +kernel
  have named : Language.ofName? "python" = some .python := by decide +kernel
  have kept : Source.withoutZeros "x = [\n\n\n1]\n" = "x = [\n\n\n1]\n" := by decide +kernel
  simp only [tree?, blank, language, chosen, parserTree?, Structure.tree?, named,
    Option.getD_some, Bool.or_false, Bool.false_eq_true, if_false]
  simp [gappedEngine, ofSettings, Grammars.ready, Grammars.run, Ladder.stages, Ladder.climb, kept]

/-- Halving the list leaves its second line by itself, which is blank. -/
theorem forall_filled_chunk_iff_gapped_list :
    let text := "x = [\n\n\n1]\n"
    Structure.IsWellFormed text gappedNodes ∧
      (∀ n ∈ gappedNodes, Text.isBlank (n.text (Text.Utf8.encode text)) = false) ∧
      ¬ ∀ c ∈ (gappedEngine.chunk "a.py" (some text) (some "python") false ⟨(), [], []⟩).1,
        Text.isBlank c.content = false := by
  intro text
  have formed : Structure.IsWellFormed text gappedNodes := by decide +kernel
  have filled : ∀ n ∈ gappedNodes, Text.isBlank (n.text (Text.Utf8.encode text)) = false := by
    decide +kernel
  refine ⟨formed, filled, fun all => ?_⟩
  have wellFormed : ∀ found other nodes,
      gappedEngine.tree? "a.py" (some text) (some "python") false ⟨(), [], []⟩ =
        some (found, other, nodes) →
      Structure.IsWellFormed other nodes ∧
        ∀ n ∈ nodes, Text.isBlank (n.text (Text.Utf8.encode other)) = false := by
    intro found other nodes shown
    cases tree?_gappedEngine.symm.trans shown
    exact ⟨formed, filled⟩
  have parts := (forall_filled_chunk_iff wellFormed).mp all .python text gappedNodes
    tree?_gappedEngine
  let span : Span := ⟨.other, 0, 10, 1, 4, none⟩
  have merged : span ∈ Structure.spansOf .python text gappedNodes := by
    obtain ⟨placed, ordered⟩ := Structure.spans_of_nodes .python formed.toIsOrdered
    rw [Structure.spansOf, Span.merge_eq placed ordered]
    decide +kernel
  have second : (⟨2, [""]⟩ : Window) ∈ Window.bisect gappedEngine.settings.maxChunkBytes
      span.startLine (Text.splitOn '\n' (span.text (Text.Utf8.encode text))) := by
    decide +kernel
  have blank := parts span merged (by decide +kernel) _ second
  exact absurd blank (by decide +kernel)

end Engine
end SourceIndex
