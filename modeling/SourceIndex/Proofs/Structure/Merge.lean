import SourceIndex.Proofs.Structure.Place
/-!
# Merged spans

Nodes that stand one after the other give spans that stand one after the other, and each node lies
in just one of them. What is cut from a span is all of its text.
-/

namespace SourceIndex

namespace Span
variable {source : Bytes}

/-! ### Order -/

theorem sort_eq_self {spans : List Span} (placed : ∀ span ∈ spans, span.IsPlaced source)
    (ordered : spans.Pairwise fun a b => a.endByte ≤ b.startByte) : sort spans = spans := by
  apply List.mergeSort_of_pairwise
  refine ordered.imp_of_mem fun {a b} first second before => ?_
  have order := (placed a first).range.order
  have rows := rowAt_mono source (show a.startByte ≤ b.startByte by omega)
  have lines := (placed a first).startLine
  have lines' := (placed b second).startLine
  simp only [startsNoLater, Bool.or_eq_true, Bool.and_eq_true, decide_eq_true_eq]
  omega

theorem pairwise_join {current next : Span} {rest : List Span}
    (ordered : (current :: next :: rest).Pairwise fun a b => a.endByte ≤ b.startByte) :
    (join current next :: rest).Pairwise fun a b => a.endByte ≤ b.startByte := by
  obtain ⟨first, tail⟩ := List.pairwise_cons.mp ordered
  obtain ⟨second, others⟩ := List.pairwise_cons.mp tail
  refine List.Pairwise.cons (fun span member => ?_) others
  have stop : (join current next).endByte = max current.endByte next.endByte := rfl
  have afterCurrent := first span (List.mem_cons_of_mem _ member)
  have afterNext := second span member
  omega

theorem pairwise_mergeFrom {rest : List Span} {current : Span}
    (order : ∀ span ∈ current :: rest, span.startByte ≤ span.endByte)
    (ordered : (current :: rest).Pairwise fun a b => a.endByte ≤ b.startByte) :
    (mergeFrom [] current rest).Pairwise (fun a b => a.endByte ≤ b.startByte) ∧
      ∀ span ∈ mergeFrom [] current rest, current.startByte ≤ span.startByte := by
  -- The bound on the starts is part of the induction: what is merged from `next` on starts no
  -- earlier than `next` does, and so behind `current`.
  induction rest generalizing current with
  | nil =>
    refine ⟨List.pairwise_singleton .., fun span member => ?_⟩
    exact Int.le_of_eq (congrArg Span.startByte (List.mem_singleton.mp member).symm)
  | cons next rest ih =>
    have here := order current (List.mem_cons_self ..)
    have there := order next (by simp)
    have later : ∀ span ∈ rest, span.startByte ≤ span.endByte := fun span member =>
      order span (by simp [member])
    obtain ⟨first, tail⟩ := List.pairwise_cons.mp ordered
    have follows := first next (List.mem_cons_self ..)
    rw [mergeFrom_cons]
    split
    · have start : (join current next).startByte = current.startByte := rfl
      have stop : (join current next).endByte = max current.endByte next.endByte := rfl
      rw [← start]
      apply ih
      · intro span member
        rcases List.mem_cons.mp member with same | after
        · rw [same, start, stop]
          omega
        · exact later span after
      · exact pairwise_join ordered
    · obtain ⟨sorted, starts⟩ := ih (fun span member => order span (List.mem_cons_of_mem _ member))
        tail
      constructor
      · refine List.Pairwise.cons (fun span member => ?_) sorted
        have := starts span member
        omega
      · intro span member
        rcases List.mem_cons.mp member with same | after
        · exact Int.le_of_eq (congrArg Span.startByte same.symm)
        · have := starts span after
          omega

theorem merge_eq {spans : List Span} (placed : ∀ span ∈ spans, span.IsPlaced source)
    (ordered : spans.Pairwise fun a b => a.endByte ≤ b.startByte) : merge spans =
      match spans with
      | [] => []
      | first :: rest => mergeFrom [] first rest :=
  congrArg (fun sorted => match sorted with
    | [] => []
    | first :: rest => mergeFrom [] first rest) (sort_eq_self placed ordered)

theorem pairwise_merge {spans : List Span} (placed : ∀ span ∈ spans, span.IsPlaced source)
    (ordered : spans.Pairwise fun a b => a.endByte ≤ b.startByte) :
    (merge spans).Pairwise fun a b => a.endByte ≤ b.startByte := by
  rw [merge_eq placed ordered]
  split
  · exact List.Pairwise.nil
  · exact (pairwise_mergeFrom (fun span member => (placed span member).range.order) ordered).1

/-! ### Nothing is lost -/

def holds (first last : Int) (span : Span) : Bool :=
  span.startByte ≤ first && last ≤ span.endByte

theorem holds_iff {first last : Int} {span : Span} :
    span.holds first last = true ↔ span.startByte ≤ first ∧ last ≤ span.endByte := by
  simp [holds]

theorem exists_holds_mergeFrom {rest : List Span} {current : Span}
    (starts : (current :: rest).Pairwise fun a b => a.startByte ≤ b.startByte) :
    ∀ span ∈ current :: rest,
      ∃ whole ∈ mergeFrom [] current rest, whole.holds span.startByte span.endByte := by
  simp only [holds_iff]
  induction rest generalizing current with
  | nil =>
    intro span member
    rw [List.mem_singleton.mp member]
    exact ⟨current, List.mem_singleton_self _, Int.le_refl _, Int.le_refl _⟩
  | cons next rest ih =>
    intro span member
    obtain ⟨first, tail⟩ := List.pairwise_cons.mp starts
    have follows := first next (List.mem_cons_self ..)
    rw [mergeFrom_cons]
    split
    · have start : (join current next).startByte = current.startByte := rfl
      have stop : (join current next).endByte = max current.endByte next.endByte := rfl
      -- What lies in either of the two lies in the joined span, which lies in a merged one.
      have all := @ih (join current next) (List.Pairwise.cons
        (fun other among => first other (List.mem_cons_of_mem _ among))
        (List.pairwise_cons.mp tail).2)
      obtain ⟨whole, found, low, high⟩ := all (join current next) (List.mem_cons_self ..)
      rw [start] at low
      rw [stop] at high
      rcases List.mem_cons.mp member with same | after
      · rw [same]
        exact ⟨whole, found, low, by omega⟩
      rcases List.mem_cons.mp after with same | later
      · rw [same]
        exact ⟨whole, found, by omega, by omega⟩
      · exact all span (List.mem_cons_of_mem _ later)
    · rcases List.mem_cons.mp member with same | after
      · rw [same]
        exact ⟨current, List.mem_cons_self .., Int.le_refl _, Int.le_refl _⟩
      · obtain ⟨whole, found, holds⟩ := ih tail span after
        exact ⟨whole, List.mem_cons_of_mem _ found, holds⟩

/-- Every span lies in a merged one. -/
theorem exists_holds_merge {spans : List Span} (placed : ∀ span ∈ spans, span.IsPlaced source)
    (ordered : spans.Pairwise fun a b => a.endByte ≤ b.startByte) {span : Span}
    (member : span ∈ spans) :
    ∃ whole ∈ merge spans, whole.holds span.startByte span.endByte := by
  have starts : spans.Pairwise fun a b => a.startByte ≤ b.startByte := by
    refine ordered.imp_of_mem fun {a b} among _ before => ?_
    have order := (placed a among).range.order
    omega
  rw [merge_eq placed ordered]
  split
  · cases member
  · exact exists_holds_mergeFrom starts span member

/-- A range of bytes lies in one of some spans, and nothing of it in any other one: the spans before
that one end before the range, and those after it start after it. -/
def LiesInOne (first last : Int) (spans : List Span) : Prop :=
  ∃ before span after, spans = before ++ span :: after ∧ span.holds first last = true ∧
    (∀ other ∈ before, other.endByte ≤ first) ∧ ∀ other ∈ after, last ≤ other.startByte

theorem liesInOne_of_holds {spans : List Span} {first last : Int}
    (ordered : spans.Pairwise fun a b => a.endByte ≤ b.startByte)
    (held : ∃ span ∈ spans, span.holds first last = true) : LiesInOne first last spans := by
  obtain ⟨span, member, holds⟩ := held
  obtain ⟨before, after, rfl⟩ := List.append_of_mem member
  obtain ⟨-, later, across⟩ := List.pairwise_append.mp ordered
  obtain ⟨low, high⟩ := holds_iff.mp holds
  refine ⟨before, span, after, rfl, holds, fun other among => ?_, fun other among => ?_⟩
  · have apart := across other among span (List.mem_cons_self ..)
    omega
  · have apart := (List.pairwise_cons.mp later).1 other among
    omega

theorem LiesInOne.countP_eq_one {spans : List Span} {first last : Int}
    (one : LiesInOne first last spans) (some : first < last) :
    spans.countP (holds first last) = 1 := by
  obtain ⟨before, span, after, rfl, here, earlier, later⟩ := one
  have none : before.countP (holds first last) = 0 := by
    rw [List.countP_eq_zero]
    intro other among holds
    have apart := earlier other among
    have inside := holds_iff.mp holds
    omega
  have none' : after.countP (holds first last) = 0 := by
    rw [List.countP_eq_zero]
    intro other among holds
    have apart := later other among
    have inside := holds_iff.mp holds
    omega
  rw [List.countP_append, List.countP_cons_of_pos here, none, none']

end Span

namespace Structure
variable {text : String} {nodes : List Node} {language : Language}

/-! ### Trees -/

/-- The top-level nodes of a tree stand in the parsed text, one after the other. -/
structure IsOrdered (text : String) (nodes : List Node) : Prop where
  placed : ∀ n ∈ nodes, n.IsPlaced (Text.Utf8.encode text)
  ordered : nodes.Pairwise fun a b => a.endByte ≤ b.startByte

/-- The top-level nodes of a well-formed tree are in order, and each stands between characters. -/
structure IsWellFormed (text : String) (nodes : List Node) : Prop extends IsOrdered text nodes where
  between : ∀ n ∈ nodes,
    Text.Utf8.IsBoundary text n.startByte ∧ Text.Utf8.IsBoundary text n.endByte

instance (text : String) (nodes : List Node) : Decidable (IsOrdered text nodes) :=
  decidable_of_iff ((∀ n ∈ nodes, n.IsPlaced (Text.Utf8.encode text)) ∧
      nodes.Pairwise fun a b => a.endByte ≤ b.startByte)
    ⟨fun ⟨placed, ordered⟩ => ⟨placed, ordered⟩, fun ⟨placed, ordered⟩ => ⟨placed, ordered⟩⟩

instance (text : String) (nodes : List Node) : Decidable (IsWellFormed text nodes) :=
  decidable_of_iff (IsOrdered text nodes ∧ ∀ n ∈ nodes,
      Text.Utf8.IsBoundary text n.startByte ∧ Text.Utf8.IsBoundary text n.endByte)
    ⟨fun ⟨ordered, between⟩ => ⟨ordered, between⟩, fun ⟨ordered, between⟩ => ⟨ordered, between⟩⟩

theorem bodyEnd_le {n : Node} : n.bodyEnd ≤ n.endByte := by
  unfold Node.bodyEnd
  split <;> omega

theorem isBoundary_bodyEnd {n : Node} (placed : n.IsPlaced (Text.Utf8.encode text))
    (boundary : Text.Utf8.IsBoundary text n.endByte) :
    Text.Utf8.IsBoundary text n.bodyEnd := by
  unfold Node.bodyEnd
  split
  · rename_i trims
    obtain ⟨-, ends, -⟩ := placed.trimmed trims
    exact boundary.before_lineFeed ends
  · exact boundary

/-- What a node ends with after its body is a line feed, if it is anything. -/
theorem slice_bodyEnd {n : Node} {source : Bytes} (placed : n.IsPlaced source) :
    n.bodyEnd = n.endByte ∨ source.slice n.bodyEnd n.endByte = [0x0A] := by
  unfold Node.bodyEnd
  split
  · rename_i trims
    obtain ⟨later, ends, -⟩ := placed.trimmed trims
    right
    have nonneg := placed.range.nonneg
    have range : IsRange source (n.endByte - 1) n.endByte :=
      ⟨by omega, by omega, placed.range.inside⟩
    have taken := range.take_eq
    rw [ends] at taken
    exact (List.append_cancel_left taken).symm
  · exact .inl rfl

theorem spans_of_nodes (language : Language) (inOrder : IsOrdered text nodes) :
    let spans := nodes.map (Span.ofNode language.table (Text.Utf8.encode text))
    (∀ span ∈ spans, span.IsPlaced (Text.Utf8.encode text)) ∧
      spans.Pairwise fun a b => a.endByte ≤ b.startByte := by
  constructor
  · intro span member
    obtain ⟨n, among, rfl⟩ := List.mem_map.mp member
    exact Span.isPlaced_ofNode (inOrder.placed n among) language.table
  · refine List.pairwise_map.mpr (inOrder.ordered.imp fun {a b} before => ?_)
    rw [(Span.ofNode_bytes _ _ a).2, (Span.ofNode_bytes _ _ b).1]
    exact Int.le_trans bodyEnd_le before

theorem pairwise_spansOf (inOrder : IsOrdered text nodes) :
    (spansOf language text nodes).Pairwise fun a b => a.endByte ≤ b.startByte := by
  obtain ⟨spans, apart⟩ := spans_of_nodes language inOrder
  exact Span.pairwise_merge spans apart

theorem liesInOne_spansOf (inOrder : IsOrdered text nodes) {n : Node} (member : n ∈ nodes) :
    Span.LiesInOne n.startByte n.bodyEnd (spansOf language text nodes) := by
  obtain ⟨spans, apart⟩ := spans_of_nodes language inOrder
  have held := Span.exists_holds_merge spans apart (List.mem_map_of_mem member)
  rw [(Span.ofNode_bytes _ _ n).1, (Span.ofNode_bytes _ _ n).2] at held
  exact Span.liesInOne_of_holds (pairwise_spansOf inOrder) held

theorem isBoundary_spansOf (wellFormed : IsWellFormed text nodes) :
    ∀ span ∈ spansOf language text nodes, Text.Utf8.IsBoundary text span.startByte ∧
      Text.Utf8.IsBoundary text span.endByte := by
  apply Span.of_mem_merge
  · intro span member
    obtain ⟨n, among, rfl⟩ := List.mem_map.mp member
    rw [(Span.ofNode_bytes _ _ n).1, (Span.ofNode_bytes _ _ n).2]
    obtain ⟨start, stop⟩ := wellFormed.between n among
    exact ⟨start, isBoundary_bodyEnd (wellFormed.placed n among) stop⟩
  · intro a b one other
    have stop : (Span.join a b).endByte = max a.endByte b.endByte := rfl
    refine ⟨one.1, ?_⟩
    rcases Int.le_total a.endByte b.endByte with le | le
    · rw [stop, Int.max_eq_right le]
      exact other.2
    · rw [stop, Int.max_eq_left le]
      exact one.2

theorem exists_body (wellFormed : IsWellFormed text nodes) {span : Span}
    (member : span ∈ spansOf language text nodes) : ∃ before body after,
      text.toList = before ++ body ++ after ∧
        span.startByte = (Text.Utf8.encodeChars before).length ∧
        (Text.Utf8.encode text).slice span.startByte span.endByte =
          Text.Utf8.encodeChars body := by
  obtain ⟨start, stop⟩ := isBoundary_spansOf wellFormed span member
  have order := (isPlaced_spansOf language wellFormed.placed span member).range.order
  obtain ⟨before, body, after, whole, here, there⟩ := start.between stop order
  refine ⟨before, body, after, whole, here, ?_⟩
  rw [here, there]
  exact slice_of_whole whole

/-! ### Chunks -/

/-- Chunking by syntax neither loses nor repeats the text of a node: merged spans stand one after
the other, each node without its last line feed lies in just one of them, and the chunks that are
cut from a span hold all of its text but the line feeds between them. -/
theorem spans_hold_nodes_once (wellFormed : IsWellFormed text nodes) (limits : Limits)
    (path : String) (language : Language) :
    let source := Text.Utf8.encode text
    let spans := spansOf language text nodes
    let cut := fun span =>
      Chunk.underCeiling limits.maxChunkBytes (spanChunk path language source span)
    chunksOf limits path language text nodes = spans.flatMap cut ∧
    (∀ span ∈ spans, IsRange source span.startByte span.endByte) ∧
    spans.Pairwise (fun a b => a.endByte ≤ b.startByte) ∧
    (∀ n ∈ nodes,
      (n.bodyEnd = n.endByte ∨ source.slice n.bodyEnd n.endByte = [0x0A]) ∧
      Span.LiesInOne n.startByte n.bodyEnd spans ∧
      (n.startByte < n.bodyEnd → spans.countP (Span.holds n.startByte n.bodyEnd) = 1)) ∧
    ∀ span ∈ spans,
      Text.unlines ((cut span).map (·.content)) =
        Node.sliceText source span.startByte span.endByte ∧
      Text.Utf8.encode (Text.unlines ((cut span).map (·.content))) =
        source.slice span.startByte span.endByte := by
  intro source spans cut
  have placed := isPlaced_spansOf language wellFormed.placed
  refine ⟨chunksOf_eq .., fun span member => (placed span member).range,
    pairwise_spansOf wellFormed.toIsOrdered, fun n member => ?_, fun span member => ?_⟩
  · have one : Span.LiesInOne n.startByte n.bodyEnd spans :=
      liesInOne_spansOf wellFormed.toIsOrdered member
    exact ⟨slice_bodyEnd (wellFormed.placed n member), one, one.countP_eq_one⟩
  · have joined : Text.unlines ((cut span).map (·.content)) =
        Node.sliceText source span.startByte span.endByte :=
      Chunk.unlines_map_content_underCeiling ..
    refine ⟨joined, ?_⟩
    obtain ⟨before, body, after, -, -, bytes⟩ := exists_body wellFormed member
    rw [joined, Node.sliceText, bytes, Text.Utf8.decodeLenient_encodeChars, Text.Utf8.encode,
      String.toList_ofList]

/-- Two assignments become one span, and a class that ends with its line feed loses that. -/
theorem spans_hold_nodes_once_two_spans :
    let text := "x = 'é'\ny = 2\nclass B: pass\n"
    let assignment : Node := ⟨"assignment", 0, 0, ⟨0, 0⟩, ⟨0, 0⟩, [], []⟩
    let nodes : List Node :=
      [⟨"expression_statement", 0, 8, ⟨0, 0⟩, ⟨0, 8⟩, [], [assignment]⟩,
       ⟨"expression_statement", 9, 14, ⟨1, 0⟩, ⟨1, 5⟩, [], [assignment]⟩,
       ⟨"class_definition", 15, 29, ⟨2, 0⟩, ⟨3, 0⟩, [], []⟩]
    IsWellFormed text nodes ∧
    (spansOf .python text nodes).map (fun span => (span.startByte, span.endByte)) =
      [(0, 14), (15, 28)] ∧
    (spansOf .python text nodes).Pairwise (fun a b => a.endByte ≤ b.startByte) ∧
    ∀ n ∈ nodes, Span.LiesInOne n.startByte n.bodyEnd (spansOf .python text nodes) := by
  intro text assignment nodes
  have formed : IsWellFormed text nodes := by decide +kernel
  have spans : (spansOf .python text nodes).map (fun span => (span.startByte, span.endByte)) =
      [(0, 14), (15, 28)] := by
    obtain ⟨placed, apart⟩ := spans_of_nodes .python formed.toIsOrdered
    rw [spansOf, Span.merge_eq placed apart]
    decide +kernel
  obtain ⟨-, -, ordered, once, -⟩ := spans_hold_nodes_once formed ⟨100, 5⟩ "a.py" .python
  exact ⟨formed, spans, ordered, fun n member => (once n member).2.1⟩

end Structure
end SourceIndex
