import SourceIndex.Proofs.Chunk.Address
import SourceIndex.Proofs.Structure.Merge
/-!
# Lines of the chunks of a tree

The chunks of a tree are in the order of their lines. The last line of one may be the first line of
a later one, where nodes of different kinds share a row.
-/

namespace SourceIndex

namespace Chunk
variable {maxBytes : Int} {whole : Chunk}

theorem bounds_of_mem_underCeiling (exact' : whole.IsExact) {c : Chunk}
    (member : c ∈ underCeiling maxBytes whole) :
    whole.startLine ≤ c.startLine ∧ c.endLine ≤ whole.endLine := by
  have part : c.window ∈ (underCeiling maxBytes whole).map window := List.mem_map_of_mem member
  rw [map_window_underCeiling] at part
  have follow := Window.follow_bisect maxBytes whole.startLine (Text.splitOn '\n' whole.content)
  have first : whole.startLine ≤ c.startLine := follow.start_le part
  have last := follow.stop_lt part
  rw [Window.flatMap_lines_bisect, ← (exact'.of_mem_underCeiling member).endLine] at last
  have total : whole.endLine =
      whole.startLine + (Text.splitOn '\n' whole.content).length - 1 := exact'.endLine
  omega

theorem pairwise_underCeiling (exact' : whole.IsExact) :
    (underCeiling maxBytes whole).Pairwise fun a b => a.endLine < b.startLine := by
  have follow := Window.follow_bisect maxBytes whole.startLine (Text.splitOn '\n' whole.content)
  have apart := follow.pairwise
  rw [← map_window_underCeiling, List.pairwise_map] at apart
  refine apart.imp_of_mem fun {a b} part _ before => ?_
  rw [(exact'.of_mem_underCeiling part).endLine]
  exact before

end Chunk

/-- The row that a node ends on: the one before, if it ends in the first column of a later row. -/
def Node.lastRow (n : Node) : Int :=
  if n.stop.column = 0 ∧ n.start.row < n.stop.row then n.stop.row - 1 else n.stop.row

namespace Span
variable {source : Bytes}

theorem ofNode_lines (table : NodeTable) (source : Bytes) (n : Node) :
    (ofNode table source n).startLine = n.start.row + 1 ∧
      (ofNode table source n).endLine = n.lastRow + 1 := by
  refine ⟨rfl, ?_⟩
  simp only [ofNode, Node.lastRow, Bool.and_eq_true, decide_eq_true_eq]
  split
  · omega
  · rfl

/-- Spans that stand one after the other share at most one line. -/
theorem endLine_le_startLine {a b : Span} (one : a.IsPlaced source) (other : b.IsPlaced source)
    (before : a.endByte ≤ b.startByte) : a.endLine ≤ b.startLine := by
  have rows := rowAt_mono source before
  rw [one.endLine, other.startLine]
  omega

/-- If spans of different kinds share no line, merged spans do not share any. -/
theorem pairwise_lines_mergeFrom {rest : List Span} {current : Span}
    (placed : ∀ span ∈ current :: rest, span.IsPlaced source)
    (ordered : (current :: rest).Pairwise fun a b => a.endByte ≤ b.startByte)
    (apart : (current :: rest).Pairwise fun a b => a.kind ≠ b.kind → a.endLine < b.startLine) :
    (mergeFrom [] current rest).Pairwise fun a b => a.endLine < b.startLine := by
  induction rest generalizing current with
  | nil => exact List.pairwise_singleton ..
  | cons next rest ih =>
    have here := placed current (List.mem_cons_self ..)
    have there := placed next (by simp)
    have later : ∀ span ∈ rest, span.IsPlaced source := fun span member =>
      placed span (by simp [member])
    obtain ⟨follows, tail⟩ := List.pairwise_cons.mp ordered
    obtain ⟨others, distant⟩ := List.pairwise_cons.mp apart
    rw [mergeFrom_cons]
    split
    · rename_i joined
      have kind : next.kind = current.kind := by
        simp only [joins, Bool.and_eq_true, decide_eq_true_eq] at joined
        exact joined.1
      refine ih ?_ (pairwise_join ordered) ?_
      · intro span member
        rcases List.mem_cons.mp member with same | after
        · rw [same]
          exact isPlaced_join here there
        · exact later span after
      · obtain ⟨second, distant⟩ := List.pairwise_cons.mp distant
        refine List.Pairwise.cons (fun span member differs => ?_) distant
        have differs' : current.kind ≠ span.kind := differs
        have afterCurrent := others span (List.mem_cons_of_mem _ member) differs'
        have afterNext := second span member (kind ▸ differs')
        have stop : (join current next).endLine = max current.endLine next.endLine := rfl
        omega
    · rename_i alone
      refine List.Pairwise.cons (fun span member => ?_) (ih (fun span member =>
        placed span (List.mem_cons_of_mem _ member)) tail distant)
      have parts := of_mem_mergeFrom there later (fun a b one other => isPlaced_join one other)
      have starts := (pairwise_mergeFrom (fun span member =>
        (placed span (List.mem_cons_of_mem _ member)).range.order) tail).2 span member
      have rows := rowAt_mono source starts
      have nextLine := there.startLine
      have line := (parts span member).startLine
      -- Spans of one kind that share a line would have been joined.
      have before : current.endLine < next.startLine := by
        by_cases kind : next.kind = current.kind
        · simp only [joins, kind, decide_true, Bool.true_and, decide_eq_true_eq] at alone
          omega
        · exact others next (List.mem_cons_self ..) (Ne.symm kind)
      omega

end Span

namespace Structure
variable {text : String} {nodes : List Node} {language : Language}

def KindsShareNoRow (table : NodeTable) (nodes : List Node) : Prop :=
  nodes.Pairwise fun a b => a.kind table ≠ b.kind table → a.lastRow < b.start.row

theorem pairwise_lines_spansOf (language : Language) (inOrder : IsOrdered text nodes) :
    (spansOf language text nodes).Pairwise fun a b => a.endLine ≤ b.startLine := by
  have placed := isPlaced_spansOf language inOrder.placed
  exact (pairwise_spansOf inOrder).imp_of_mem fun {a b} first second before =>
    Span.endLine_le_startLine (placed a first) (placed b second) before

theorem pairwise_lines_spansOf_of_rows (inOrder : IsOrdered text nodes)
    (rows : KindsShareNoRow language.table nodes) :
    (spansOf language text nodes).Pairwise fun a b => a.endLine < b.startLine := by
  obtain ⟨placed, ordered⟩ := spans_of_nodes language inOrder
  rw [spansOf, Span.merge_eq placed ordered]
  cases nodes with
  | nil => exact List.Pairwise.nil
  | cons first rest =>
    refine Span.pairwise_lines_mergeFrom placed ordered ?_
    rw [← List.map_cons, List.pairwise_map]
    refine rows.imp fun {a b} apart differs => ?_
    have before := apart differs
    rw [(Span.ofNode_lines _ _ a).2, (Span.ofNode_lines _ _ b).1]
    omega

/-- Chunks are as far apart as the spans that they are cut from, up to one line. -/
theorem pairwise_lines_chunksOf (gap : Int) (small : gap ≤ 1) (inOrder : IsOrdered text nodes)
    (apart : (spansOf language text nodes).Pairwise fun a b => a.endLine + gap ≤ b.startLine)
    (limits : Limits) (path : String) :
    (chunksOf limits path language text nodes).Pairwise fun a b =>
      a.endLine + gap ≤ b.startLine := by
  have whole : ∀ span ∈ spansOf language text nodes,
      (spanChunk path language (Text.Utf8.encode text) span).IsExact := fun span member =>
    isExact_spanChunk (isPlaced_spansOf language inOrder.placed span member) path language
  rw [chunksOf_eq, List.pairwise_flatMap]
  constructor
  · intro span member
    refine (Chunk.pairwise_underCeiling (whole span member)).imp fun {a b} before => ?_
    omega
  · refine apart.imp_of_mem fun {first second} one other before a part b part' => ?_
    have last := (Chunk.bounds_of_mem_underCeiling (whole first one) part).2
    have start := (Chunk.bounds_of_mem_underCeiling (whole second other) part').1
    have last' : (spanChunk path language (Text.Utf8.encode text) first).endLine =
        first.endLine := rfl
    have start' : (spanChunk path language (Text.Utf8.encode text) second).startLine =
        second.startLine := rfl
    omega

theorem areInOrder_chunksOf (inOrder : IsOrdered text nodes) (limits : Limits) (path : String) :
    Chunk.AreInOrder (chunksOf limits path language text nodes) := by
  have spans := pairwise_lines_spansOf language inOrder
  have lines := pairwise_lines_chunksOf 0 (by omega) inOrder
    (spans.imp fun before => by omega) limits path
  exact lines.imp fun before => by omega

theorem pairwise_chunksOf (inOrder : IsOrdered text nodes)
    (rows : KindsShareNoRow language.table nodes) (limits : Limits) (path : String) :
    (chunksOf limits path language text nodes).Pairwise fun a b => a.endLine < b.startLine := by
  have spans := pairwise_lines_spansOf_of_rows inOrder rows
  have lines := pairwise_lines_chunksOf 1 (by omega) inOrder
    (spans.imp fun before => by omega) limits path
  exact lines.imp fun before => by omega

end Structure
end SourceIndex
