import SourceIndex.Proofs.Chunk.Cover
import SourceIndex.Proofs.Engine.Pure
import SourceIndex.Proofs.Structure.Lines
import SourceIndex.Proofs.Structure.Order
/-!
# Ids of the chunks of a file

An id is made of the path and the lines of a chunk. So two chunks of a file have the same id just if
both are the same single line. Windows of lines never are, and chunks by syntax only where nodes of
different kinds share a row.
-/

namespace SourceIndex
variable {γ : Type}

namespace Chunk
variable {path : String} {chunks : List Chunk}

/-- Chunks that share no line have distinct ids. -/
theorem nodup_ids_of_lt (apart : NoCollision chunks) (exact' : ∀ c ∈ chunks, c.IsExact)
    (paths : ∀ c ∈ chunks, c.path = path)
    (strict : chunks.Pairwise fun a b => a.endLine < b.startLine) :
    (chunks.map (·.id)).Nodup := by
  refine List.pairwise_map.mpr (strict.imp_of_mem fun {a b} first second before same => ?_)
  obtain ⟨start, -⟩ := (id_eq_iff apart exact' paths first second).mp same
  have forward := (exact' a first).le
  omega

theorem NoCollision.perm {others : List Chunk} (apart : NoCollision chunks)
    (same : others.Perm chunks) : NoCollision others :=
  fun a first b second => apart a (same.mem_iff.mp first) b (same.mem_iff.mp second)

end Chunk

namespace Engine
variable {e : Engine γ} {path content language : String} {s : Session γ}

/-- The tree by which a parser chunks a text, if it does so by a tree. -/
def parserTree? (e : Engine γ) (parser : Parser) (path content language : String)
    (s : Session γ) : Option (Language × String × List Node) :=
  match parser with
  | .structural languages =>
    Structure.tree? e.grammars languages ⟨e.settings.maxChunkBytes, e.settings.retryLines⟩ path
      content language s
  | .generic => none

/-- The tree by which an engine chunks a file, if it does so by a tree. -/
def tree? (e : Engine γ) (path : String) (content language : Option String) (isBinary : Bool)
    (s : Session γ) : Option (Language × String × List Node) :=
  match content with
  | none => none
  | some content =>
    if Text.isBlank content || isBinary then none
    else
      let language := e.languageOf path language
      e.parserTree? ((e.registry.select? (Parser.takes language)).getD .generic) path content
        language s

variable {given wanted : Option String} {isBinary : Bool}

theorem pairwise_runParser {parser : Parser}
    (noTree : e.parserTree? parser path content language s = none) :
    (∀ c ∈ (e.runParser parser path content language s).1, c.IsExact) ∧
      (e.runParser parser path content language s).1.Pairwise fun a b =>
        a.endLine < b.startLine := by
  have fallBack (s : Session γ) : (∀ c ∈ (e.fallBack path content language s).1, c.IsExact) ∧
      (e.fallBack path content language s).1.Pairwise fun a b => a.endLine < b.startLine := by
    unfold fallBack
    split
    · rename_i chunks split
      exact Chunk.pairwise_splitGeneric split
    · exact ⟨by simp, List.Pairwise.nil⟩
  cases parser with
  | structural languages =>
    simp only [parserTree?] at noTree
    simp only [runParser]
    split
    · rename_i chunks after parsed
      rw [Structure.parse_of_no_tree noTree parsed]
      exact ⟨by simp, List.Pairwise.nil⟩
    · exact fallBack _
  | generic =>
    simp only [runParser]
    split
    · rename_i chunks split
      exact Chunk.pairwise_splitGeneric split
    · exact fallBack _

theorem runParser_of_tree {parser : Parser} {found : Language} {text : String}
    {nodes : List Node}
    (tree : e.parserTree? parser path content language s = some (found, text, nodes)) :
    (e.runParser parser path content language s).1 =
      Structure.chunksOf ⟨e.settings.maxChunkBytes, e.settings.retryLines⟩ path found text
        nodes := by
  cases parser with
  | generic => cases tree
  | structural languages =>
    simp only [parserTree?] at tree
    have parsed := (Structure.parse_of_tree tree).2
    simp only [runParser]
    split
    · rename_i chunks after shown
      rw [shown, Except.ok.injEq] at parsed
      exact parsed
    · rename_i failure after shown
      rw [shown] at parsed
      cases parsed

/-- The chunks of a file are those of a parser in order, if there is more than one. -/
theorem length_chunk_le_one_or (e : Engine γ) (path : String) (given wanted : Option String)
    (isBinary : Bool) (s : Session γ) :
    e.tree? path given wanted isBinary s = none ∧
        (e.chunk path given wanted isBinary s).1.length ≤ 1 ∨
      ∃ parser content,
        e.tree? path given wanted isBinary s =
          e.parserTree? parser path content (e.languageOf path wanted) s ∧
        (e.chunk path given wanted isBinary s).1.Perm
          (e.runParser parser path content (e.languageOf path wanted) s).1 := by
  cases given with
  | none => exact .inl ⟨rfl, Nat.zero_le 1⟩
  | some content =>
    by_cases blank : Text.isBlank content = true
    · left
      simp [tree?, chunk, blank]
    by_cases binary : isBinary = true
    · left
      have few : (Chunk.wholeFile path content (e.languageOf path wanted)).length ≤ 1 := by
        unfold Chunk.wholeFile
        split
        · exact Nat.zero_le 1
        · exact Nat.le_refl 1
      simpa [tree?, chunk, blank, binary] using few
    · refine .inr ⟨(e.registry.select? (Parser.takes (e.languageOf path wanted))).getD .generic,
        content, ?_, ?_⟩
      · simp [tree?, blank, binary]
      · simp only [chunk, blank, binary]
        exact List.mergeSort_perm ..

theorem nodup_of_length_le_one {α : Type} {xs : List α} (short : xs.length ≤ 1) : xs.Nodup := by
  match xs, short with
  | [], _ => exact List.nodup_nil
  | [x], _ => exact List.nodup_singleton x

/-- The chunks of a file have distinct ids just if no line is the whole of two of them. So they do
if there is no tree, or if its nodes of different kinds share no row. -/
theorem nodup_ids_chunk_iff (apart : Chunk.NoCollision (e.chunk path given wanted isBinary s).1)
    (inOrder : ∀ found text nodes,
      e.tree? path given wanted isBinary s = some (found, text, nodes) →
        Structure.IsOrdered text nodes) :
    (((e.chunk path given wanted isBinary s).1.map (·.id)).Nodup ↔
      (Chunk.wholeLines (e.chunk path given wanted isBinary s).1).Nodup) ∧
    ((∀ found text nodes, e.tree? path given wanted isBinary s = some (found, text, nodes) →
        Structure.KindsShareNoRow found.table nodes) →
      ((e.chunk path given wanted isBinary s).1.map (·.id)).Nodup) := by
  have paths : ∀ c ∈ (e.chunk path given wanted isBinary s).1, c.path = path :=
    fun c member => path_of_mem_chunk member
  rcases length_chunk_le_one_or e path given wanted isBinary s with
    ⟨-, few⟩ | ⟨parser, content, trees, same⟩
  · have ids : ((e.chunk path given wanted isBinary s).1.map (·.id)).Nodup :=
      nodup_of_length_le_one (by rwa [List.length_map])
    have lines : (Chunk.wholeLines (e.chunk path given wanted isBinary s).1).Nodup := by
      apply nodup_of_length_le_one
      rw [Chunk.wholeLines, List.length_map]
      exact Nat.le_trans (List.length_filter_le ..) few
    exact ⟨iff_of_true ids lines, fun _ => ids⟩
  -- Ids and whole lines are those of the chunks that the parser gives, since these are only sorted.
  · rw [trees] at inOrder ⊢
    have ids := (same.map (·.id)).nodup_iff
    have lines : (Chunk.wholeLines (e.chunk path given wanted isBinary s).1).Nodup ↔
        (Chunk.wholeLines (e.runParser parser path content (e.languageOf path wanted) s).1).Nodup :=
      ((same.filter _).map _).nodup_iff
    rw [ids, lines]
    have apart' := apart.perm same.symm
    have paths' : ∀ c ∈ (e.runParser parser path content (e.languageOf path wanted) s).1,
        c.path = path := fun c member => path_of_mem_runParser member
    cases tree : e.parserTree? parser path content (e.languageOf path wanted) s with
    | none =>
      obtain ⟨exact', strict⟩ := pairwise_runParser tree
      have inLines := strict.imp fun before => Int.le_of_lt before
      exact ⟨Chunk.nodup_ids_iff apart' exact' paths' inLines,
        fun _ => Chunk.nodup_ids_of_lt apart' exact' paths' strict⟩
    | some result =>
      obtain ⟨found, text, nodes⟩ := result
      have ordered := inOrder found text nodes tree
      rw [runParser_of_tree tree] at apart' paths' ⊢
      have exact' : ∀ c ∈ Structure.chunksOf ⟨e.settings.maxChunkBytes, e.settings.retryLines⟩ path
          found text nodes, c.IsExact := fun c member =>
        Structure.isExact_of_mem_chunksOf ordered.placed member
      exact ⟨Chunk.nodup_ids_iff apart' exact' paths'
          (Structure.areInOrder_chunksOf ordered _ path),
        fun rows => Chunk.nodup_ids_of_lt apart' exact' paths'
          (Structure.pairwise_chunksOf ordered (rows found text nodes rfl) _ path)⟩

theorem chunk_of_tree {found : Language} {text : String} {nodes : List Node}
    (tree : e.tree? path given wanted isBinary s = some (found, text, nodes)) :
    (e.chunk path given wanted isBinary s).1.Perm
      (Structure.chunksOf ⟨e.settings.maxChunkBytes, e.settings.retryLines⟩ path found text
        nodes) := by
  rcases length_chunk_le_one_or e path given wanted isBinary s with
    ⟨none, -⟩ | ⟨parser, content, trees, same⟩
  · rw [tree] at none
    cases none
  · rwa [runParser_of_tree (trees.symm.trans tree)] at same

def sharedNodes : List Node :=
  [⟨"import_statement", 0, 9, ⟨0, 0⟩, ⟨0, 9⟩, [], []⟩,
   ⟨"comment", 11, 21, ⟨0, 11⟩, ⟨0, 21⟩, [], []⟩]

def sharedEngine : Engine Unit :=
  ofSettings { structural := ["python"] }
    { load := fun _ s => (none, s), parse := fun _ _ s => (.tree sharedNodes, s) }

theorem tree?_sharedEngine :
    sharedEngine.tree? "a.py" (some "import os  # trailing\n") (some "python") false
      ⟨(), [], []⟩ = some (.python, "import os  # trailing\n", sharedNodes) := by
  have blank : Text.isBlank "import os  # trailing\n" = false := by decide +kernel
  have language : sharedEngine.languageOf "a.py" (some "python") = "python" := by decide +kernel
  have chosen : sharedEngine.registry.select? (Parser.takes "python") =
      some (.structural [.python]) := by decide +kernel
  have named : Language.ofName? "python" = some .python := by decide +kernel
  have kept : Source.withoutZeros "import os  # trailing\n" = "import os  # trailing\n" := by
    decide +kernel
  simp only [tree?, blank, language, chosen, parserTree?, Structure.tree?, named,
    Option.getD_some, Bool.or_false, Bool.false_eq_true, if_false]
  simp [sharedEngine, ofSettings, Grammars.ready, Grammars.run, Ladder.stages, Ladder.climb, kept]

/-- A statement and the comment on its line are two chunks with one id. -/
theorem nodup_ids_chunk_iff_shared_line :
    let chunks := (sharedEngine.chunk "a.py" (some "import os  # trailing\n") (some "python") false
      ⟨(), [], []⟩).1
    Structure.IsOrdered "import os  # trailing\n" sharedNodes ∧ Chunk.NoCollision chunks ∧
      chunks.length = 2 ∧ ¬ (chunks.map (·.id)).Nodup := by
  intro chunks
  have inOrder : Structure.IsOrdered "import os  # trailing\n" sharedNodes := by decide +kernel
  let cut := Structure.chunksOf
    ⟨sharedEngine.settings.maxChunkBytes, sharedEngine.settings.retryLines⟩ "a.py" .python
    "import os  # trailing\n" sharedNodes
  have same : chunks.Perm cut := chunk_of_tree tree?_sharedEngine
  have shown : cut.map (fun c => (c.startLine, c.endLine)) = [(1, 1), (1, 1)] ∧
      Chunk.wholeLines cut = [1, 1] := by
    obtain ⟨placed, ordered⟩ := Structure.spans_of_nodes .python inOrder
    simp only [cut]
    rw [Structure.chunksOf_eq, Structure.spansOf, Span.merge_eq placed ordered]
    decide +kernel
  have first : ∀ c ∈ chunks, c.path = "a.py" ∧ c.startLine = 1 ∧ c.endLine = 1 := by
    intro c member
    have lines : (c.startLine, c.endLine) ∈ cut.map fun c => (c.startLine, c.endLine) :=
      List.mem_map_of_mem (same.mem_iff.mp member)
    rw [shown.1] at lines
    simp only [List.mem_cons, Prod.mk.injEq, List.not_mem_nil, or_false, or_self] at lines
    exact ⟨path_of_mem_chunk member, lines⟩
  have apart : Chunk.NoCollision chunks := by
    intro a one b other _
    rw [(first a one).1, (first a one).2.1, (first a one).2.2, (first b other).1,
      (first b other).2.1, (first b other).2.2]
  have length : chunks.length = 2 := by
    rw [same.length_eq]
    simpa using congrArg List.length shown.1
  refine ⟨inOrder, apart, length, fun distinct => ?_⟩
  have wellPlaced : ∀ found text nodes,
      sharedEngine.tree? "a.py" (some "import os  # trailing\n") (some "python") false
        ⟨(), [], []⟩ = some (found, text, nodes) → Structure.IsOrdered text nodes := by
    intro found text nodes other
    cases tree?_sharedEngine.symm.trans other
    exact inOrder
  have lines : (Chunk.wholeLines chunks).Perm (Chunk.wholeLines cut) := (same.filter _).map _
  have twice := lines.nodup_iff.mp ((nodup_ids_chunk_iff apart wellPlaced).1.mp distinct)
  rw [shown.2] at twice
  exact absurd twice (by decide)

end Engine
end SourceIndex
