import SourceIndex.Engine.Basic
import SourceIndex.Proofs.Chunk.Cover
import SourceIndex.Proofs.Chunk.Order
/-!
# What the recovery ladder decides

A file in a language with a grammar has the chunks of the first tree that any text of the ladder
gives, and no chunk if none does. Only a grammar that cannot be loaded leaves the file to windows of
lines. Nothing is asked of the grammars, which may fail at any use.
-/

namespace SourceIndex
variable {γ : Type} {g : Grammars γ}

/-! ### Texts in a row -/

def Parse.isRootless : Parse → Bool
  | failed _ => true
  | noTree => true
  | tree _ => false

/-- What a grammar makes of texts in a row, and the state that this leaves. -/
def Grammars.parses (g : Grammars γ) (grammar : String) : List String → γ → List Parse × γ
  | [], state => ([], state)
  | text :: rest, state =>
    let (result, state) := g.parse grammar text state
    let (results, state) := g.parses grammar rest state
    (result :: results, state)

namespace Ladder

def texts (retryLines : Nat) (content : String) : List String :=
  let stripped := Source.withoutZeros content
  let sanitized := Source.sanitize stripped
  [stripped, sanitized, Text.unlines ((Text.splitOn '\n' sanitized).take retryLines)]

theorem map_stages {retryLines : Int} (positive : 1 ≤ retryLines) (content : String) :
    (stages retryLines content).map (·.2) = texts retryLines.toNat content := by
  have few (sanitized : String) : firstLines retryLines sanitized =
      Text.unlines ((Text.splitOn '\n' sanitized).take retryLines.toNat) := by
    have forward : ¬ retryLines < 0 := by omega
    simp only [firstLines, clampOffset, forward, if_false]
    rw [← List.take_eq_take_min]
  simp [stages, texts, few]

/-- Where texts that are tried one after the other stop: at the first one that gives a tree, with
the tree, or after the last one without a tree. -/
def StopsAt (g : Grammars γ) (grammar : String) (texts : List String) (state : γ) :
    Option (String × List Node) → γ → Prop
  | none, after =>
    (∀ result ∈ (g.parses grammar texts state).1, result.isRootless = true) ∧
      after = (g.parses grammar texts state).2
  | some (text, nodes), after =>
    ∃ before later, texts = before ++ text :: later ∧
      (∀ result ∈ (g.parses grammar before state).1, result.isRootless = true) ∧
      g.parse grammar text (g.parses grammar before state).2 = (.tree nodes, after)

variable {grammar : String} {state after : γ} {rest : List String}

variable {text : String} {root : Option (String × List Node)} {next : γ}

theorem stopsAt_nil : StopsAt g grammar [] state root after ↔ root = none ∧ after = state := by
  cases root with
  | none => simp [StopsAt, Grammars.parses]
  | some root => simp [StopsAt]

theorem stopsAt_of_tree {nodes : List Node}
    (parsed : g.parse grammar text state = (.tree nodes, next)) :
    StopsAt g grammar (text :: rest) state root after ↔
      root = some (text, nodes) ∧ after = next := by
  constructor
  · intro stops
    cases root with
    | none =>
      have first := stops.1 (.tree nodes) (by simp [Grammars.parses, parsed])
      cases first
    | some root =>
      obtain ⟨found, others⟩ := root
      obtain ⟨before, later, shape, all, tree⟩ := stops
      cases before with
      | nil =>
        cases shape
        cases parsed.symm.trans tree
        exact ⟨rfl, rfl⟩
      | cons first before =>
        cases shape
        have first := all (.tree nodes) (by simp [Grammars.parses, parsed])
        cases first
  · intro here
    rw [here.1, here.2]
    exact ⟨[], rest, rfl, by simp [Grammars.parses], parsed⟩

/-- A text without a tree leaves it to the texts after it. -/
theorem stopsAt_of_rootless {result : Parse}
    (parsed : g.parse grammar text state = (result, next)) (rootless : result.isRootless = true) :
    StopsAt g grammar (text :: rest) state root after ↔
      StopsAt g grammar rest next root after := by
  cases root with
  | none => simp [StopsAt, Grammars.parses, parsed, rootless]
  | some root =>
    obtain ⟨found, nodes⟩ := root
    constructor
    · intro stops
      obtain ⟨before, later, shape, all, tree⟩ := stops
      cases before with
      | nil =>
        cases shape
        cases parsed.symm.trans tree
        cases rootless
      | cons first before =>
        cases shape
        simp only [Grammars.parses, parsed, List.forall_mem_cons] at all tree
        exact ⟨before, later, rfl, all.2, tree⟩
    · intro stops
      obtain ⟨before, later, shape, all, tree⟩ := stops
      refine ⟨text :: before, later, by rw [shape]; rfl, ?_⟩
      simp only [Grammars.parses, parsed, List.forall_mem_cons]
      exact ⟨⟨rootless, all⟩, tree⟩

/-- Texts stop in one place only. -/
theorem StopsAt.unique {texts : List String} {other : Option (String × List Node)} {last : γ}
    (stops : StopsAt g grammar texts state root after)
    (stops' : StopsAt g grammar texts state other last) : root = other ∧ after = last := by
  induction texts generalizing state with
  | nil =>
    have here := stopsAt_nil.mp stops
    have there := stopsAt_nil.mp stops'
    exact ⟨here.1.trans there.1.symm, here.2.trans there.2.symm⟩
  | cons text rest ih =>
    cases parsed : g.parse grammar text state with
    | mk result next =>
      cases result with
      | failed reason =>
        have here := (stopsAt_of_rootless parsed rfl).mp stops
        have there := (stopsAt_of_rootless parsed rfl).mp stops'
        exact ih here there
      | noTree =>
        have here := (stopsAt_of_rootless parsed rfl).mp stops
        have there := (stopsAt_of_rootless parsed rfl).mp stops'
        exact ih here there
      | tree nodes =>
        have here := (stopsAt_of_tree parsed).mp stops
        have there := (stopsAt_of_tree parsed).mp stops'
        exact ⟨here.1.trans there.1.symm, here.2.trans there.2.symm⟩

theorem stopsAt_climb (grammar path : String) (retryLines : Int) (stages : List (Stage × String))
    (s : Session γ) :
    StopsAt g grammar (stages.map (·.2)) s.state (climb g grammar path retryLines stages s).1
      (climb g grammar path retryLines stages s).2.state := by
  induction stages generalizing s with
  | nil => exact ⟨by simp [Grammars.parses], rfl⟩
  | cons stage rest ih =>
    obtain ⟨stage, source⟩ := stage
    have parsed : g.parse grammar source s.state =
        ((g.run grammar source s).1, (g.run grammar source s).2.state) := rfl
    unfold climb
    generalize g.run grammar source s = ran at parsed
    obtain ⟨result, next⟩ := ran
    cases result with
    | failed reason => exact (stopsAt_of_rootless parsed rfl).mpr (ih _)
    | noTree => exact (stopsAt_of_rootless parsed rfl).mpr (ih _)
    | tree nodes =>
      refine (stopsAt_of_tree parsed).mpr ⟨rfl, ?_⟩
      simp only
      split
      · rfl
      · rfl

end Ladder

/-! ### The chunks of a file -/

theorem Chunk.sortByLines_of_splitGeneric {path content language parser : String}
    {linesPerChunk maxChunkBytes : Int} {chunks : List Chunk}
    (split : splitGeneric path content language linesPerChunk maxChunkBytes parser = .ok chunks) :
    sortByLines chunks = chunks := by
  obtain ⟨exact', apart⟩ := pairwise_splitGeneric split
  apply List.mergeSort_of_pairwise
  refine apart.imp_of_mem fun {a b} first _ strict => ?_
  have forward := (exact' a first).le
  simp only [startsNoLater, Bool.or_eq_true, decide_eq_true_eq]
  omega

namespace Structure
variable {languages : List Language} {limits : Limits} {path content name : String}
  {language : Language} {s : Session γ}

theorem parse_of_not_loaded (named : Language.ofName? name = some language)
    (among : language ∈ languages) {reason : String}
    (failed : (g.ready (language.grammarFor path) s).1 = some reason) :
    parse g languages limits path content name s =
      (.error (.noGrammar (language.grammarFor path) reason),
        (g.ready (language.grammarFor path) s).2) := by
  unfold parse
  simp only [named, List.contains_iff_mem.mpr among, if_true]
  generalize g.ready (language.grammarFor path) s = loaded at failed
  obtain ⟨result, next⟩ := loaded
  cases failed
  rfl

def chunksOfRoot (limits : Limits) (path : String) (language : Language) :
    Option (String × List Node) → List Chunk
  | none => []
  | some (text, nodes) => chunksOf limits path language text nodes

theorem parse_of_loaded (named : Language.ofName? name = some language)
    (among : language ∈ languages) (ready : (g.ready (language.grammarFor path) s).1 = none) :
    parse g languages limits path content name s =
      let climbed := Ladder.climb g (language.grammarFor path) path limits.retryLines
        (Ladder.stages limits.retryLines content) (g.ready (language.grammarFor path) s).2
      (.ok (chunksOfRoot limits path language climbed.1), climbed.2) := by
  unfold parse
  simp only [named, List.contains_iff_mem.mpr among, if_true]
  generalize g.ready (language.grammarFor path) s = loaded at ready
  obtain ⟨result, next⟩ := loaded
  cases ready
  simp only
  generalize Ladder.climb g (language.grammarFor path) path limits.retryLines
    (Ladder.stages limits.retryLines content) next = climbed
  obtain ⟨root, last⟩ := climbed
  cases root with
  | none => rfl
  | some root => rfl

end Structure

namespace Engine
variable {settings : ChunkSettings} {path content : String} {given : Option String}
  {language : Language}

theorem select?_registry {name : String} (named : Language.ofName? name = some language)
    (among : language ∈ settings.languagesWithGrammar) :
    settings.registry.select? (Parser.takes name) =
      some (.structural settings.languagesWithGrammar) := by
  have filled : settings.languagesWithGrammar.isEmpty = false := by
    rw [List.isEmpty_eq_false_iff]
    exact List.ne_nil_of_mem among
  simp [ChunkSettings.registry, Registry.select?, filled, Parser.takes, Structure.supports, named,
    among]

section
variable {e : Engine γ} {languages : List Language} {name : String} {s : Session γ}

theorem runParser_of_not_loaded (named : Language.ofName? name = some language)
    (among : language ∈ languages) {reason : String}
    (failed : (e.grammars.ready (language.grammarFor path) s).1 = some reason)
    {chunks : List Chunk} (split : e.windows path content name = .ok chunks) :
    (e.runParser (.structural languages) path content name s).1 = chunks ∧
      (e.runParser (.structural languages) path content name s).2.state =
        (e.grammars.ready (language.grammarFor path) s).2.state := by
  simp only [runParser, Structure.parse_of_not_loaded named among failed, fallBack, split]
  simp [Session.note]

theorem runParser_of_loaded (content : String) (retry : 1 ≤ e.settings.retryLines)
    (named : Language.ofName? name = some language) (among : language ∈ languages)
    (ready : (e.grammars.ready (language.grammarFor path) s).1 = none) :
    ∃ root, Ladder.StopsAt e.grammars (language.grammarFor path)
        (Ladder.texts e.settings.retryLines.toNat content)
        (e.grammars.ready (language.grammarFor path) s).2.state root
        (e.runParser (.structural languages) path content name s).2.state ∧
      (e.runParser (.structural languages) path content name s).1 =
        Structure.chunksOfRoot ⟨e.settings.maxChunkBytes, e.settings.retryLines⟩ path language
          root := by
  have stops := Ladder.stopsAt_climb (g := e.grammars) (language.grammarFor path) path
    e.settings.retryLines (Ladder.stages e.settings.retryLines content)
    (e.grammars.ready (language.grammarFor path) s).2
  rw [Ladder.map_stages retry] at stops
  simp only [runParser, Structure.parse_of_loaded named among ready]
  exact ⟨_, stops, rfl⟩

theorem chunk_eq_runParser {parser : Parser} (filled : Text.isBlank content = false)
    (chosen : e.registry.select? (Parser.takes (e.languageOf path given)) = some parser) :
    (e.chunk path (some content) given false s).1 =
        Chunk.sortByLines (e.runParser parser path content (e.languageOf path given) s).1 ∧
      (e.chunk path (some content) given false s).2 =
        (e.runParser parser path content (e.languageOf path given) s).2 := by
  simp only [chunk, filled, chosen]
  exact ⟨rfl, rfl⟩

theorem chunk_of_not_loaded (lines : 1 ≤ e.settings.linesPerChunk)
    (bytes : 1 ≤ e.settings.maxChunkBytes) (filled : Text.isBlank content = false)
    (chosen : e.registry.select? (Parser.takes (e.languageOf path given)) =
      some (.structural languages))
    (named : Language.ofName? (e.languageOf path given) = some language)
    (among : language ∈ languages) {reason : String}
    (failed : (e.grammars.ready (language.grammarFor path) s).1 = some reason) :
    e.windows path content (e.languageOf path given) =
        .ok (e.chunk path (some content) given false s).1 ∧
      (e.chunk path (some content) given false s).2.state =
        (e.grammars.ready (language.grammarFor path) s).2.state := by
  obtain ⟨chunks, session⟩ := chunk_eq_runParser (s := s) filled chosen
  obtain ⟨windows, split⟩ : ∃ windows, e.windows path content (e.languageOf path given) =
      .ok windows := ⟨_, Chunk.splitGeneric_of_positive lines bytes⟩
  obtain ⟨ran, state⟩ := runParser_of_not_loaded named among failed split
  rw [chunks, session, ran, Chunk.sortByLines_of_splitGeneric split]
  exact ⟨split, state⟩

theorem chunk_of_loaded (retry : 1 ≤ e.settings.retryLines)
    (filled : Text.isBlank content = false)
    (chosen : e.registry.select? (Parser.takes (e.languageOf path given)) =
      some (.structural languages))
    (named : Language.ofName? (e.languageOf path given) = some language)
    (among : language ∈ languages)
    (ready : (e.grammars.ready (language.grammarFor path) s).1 = none) :
    let stops := Ladder.StopsAt e.grammars (language.grammarFor path)
      (Ladder.texts e.settings.retryLines.toNat content)
      (e.grammars.ready (language.grammarFor path) s).2.state
    (∃ root after, stops root after) ∧ ∀ root after, stops root after →
      (e.chunk path (some content) given false s).1 = Chunk.sortByLines (Structure.chunksOfRoot
          ⟨e.settings.maxChunkBytes, e.settings.retryLines⟩ path language root) ∧
        (e.chunk path (some content) given false s).2.state = after := by
  obtain ⟨chunks, session⟩ := chunk_eq_runParser (s := s) filled chosen
  obtain ⟨found, stops, ran⟩ := runParser_of_loaded content retry named among ready
  rw [chunks, session, ran]
  refine ⟨⟨found, _, stops⟩, fun root after stops' => ?_⟩
  obtain ⟨same, last⟩ := stops.unique stops'
  exact ⟨by rw [same], last⟩

end

/-- The chunks of a file in a language with a grammar are those of the tree at which the ladder
stops, or its windows of lines if the grammar cannot be loaded. -/
theorem chunk_of_ladder (g : Grammars γ) (lines : 1 ≤ settings.linesPerChunk)
    (bytes : 1 ≤ settings.maxChunkBytes) (retry : 1 ≤ settings.retryLines)
    (filled : Text.isBlank content = false)
    (named : Language.ofName? ((ofSettings settings g).languageOf path given) = some language)
    (among : language ∈ settings.languagesWithGrammar) (s : Session γ) :
    let e := ofSettings settings g
    let grammar := language.grammarFor path
    let loaded := g.ready grammar s
    let result := e.chunk path (some content) given false s
    (∀ reason, loaded.1 = some reason →
      Chunk.splitGeneric path content (e.languageOf path given) settings.linesPerChunk
          settings.maxChunkBytes Chunk.genericParser = .ok result.1 ∧
        result.2.state = loaded.2.state) ∧
    (loaded.1 = none →
      let stops := Ladder.StopsAt g grammar (Ladder.texts settings.retryLines.toNat content)
        loaded.2.state
      (∃ root after, stops root after) ∧ ∀ root after, stops root after →
        result.1 = Chunk.sortByLines (Structure.chunksOfRoot
            ⟨settings.maxChunkBytes, settings.retryLines⟩ path language root) ∧
          result.2.state = after) := by
  have chosen : (ofSettings settings g).registry.select?
      (Parser.takes ((ofSettings settings g).languageOf path given)) =
        some (.structural settings.languagesWithGrammar) := select?_registry named among
  exact ⟨fun reason failed => chunk_of_not_loaded lines bytes filled chosen named among failed,
    fun ready => chunk_of_loaded retry filled chosen named among ready⟩

/-- A grammar that fails at first, then gives no tree, and then one with these nodes. -/
def lateGrammars (nodes : List Node) : Grammars Nat where
  load _ s := (none, s + 1)
  parse _ _ s :=
    (if s = 1 then .failed "interrupted" else if s = 2 then .noTree else .tree nodes, s + 1)

/-- The first line is what is left of a file whose other texts are not parsed. -/
theorem chunk_of_ladder_truncated :
    let settings : ChunkSettings := { structural := ["python"], retryLines := 1 }
    let nodes : List Node := [⟨"expression_statement", 0, 5, ⟨0, 0⟩, ⟨0, 5⟩, [], []⟩]
    let content := "x\x00 = 1\r\ny\x01 = 2"
    let result := (ofSettings settings (lateGrammars nodes)).chunk "a.py" (some content) none false
      ⟨0, [], []⟩
    Ladder.texts 1 content = ["x = 1\r\ny\x01 = 2", "x = 1\ny = 2", "x = 1"] ∧
      result.1 = Chunk.sortByLines (Structure.chunksOf ⟨settings.maxChunkBytes, 1⟩ "a.py" .python
        "x = 1" nodes) ∧ result.2.state = 4 := by
  intro settings nodes content result
  have tried : Ladder.texts 1 content = ["x = 1\r\ny\x01 = 2", "x = 1\ny = 2", "x = 1"] := by
    decide +kernel
  have named : Language.ofName? ((ofSettings settings (lateGrammars nodes)).languageOf "a.py"
      none) = some .python := by decide +kernel
  have stops : Ladder.StopsAt (lateGrammars nodes) "python"
      (Ladder.texts settings.retryLines.toNat content) 1 (some ("x = 1", nodes)) 4 := by
    rw [show settings.retryLines.toNat = 1 from rfl, tried]
    exact ⟨["x = 1\r\ny\x01 = 2", "x = 1\ny = 2"], [], rfl, by decide, rfl⟩
  have lines : 1 ≤ settings.linesPerChunk := by decide
  have filled : Text.isBlank content = false := by decide +kernel
  have decided := (chunk_of_ladder (lateGrammars nodes) lines (by decide) (by decide) filled named
    (by decide +kernel) ⟨0, [], []⟩).2 rfl
  exact ⟨tried, decided.2 _ _ stops⟩

end Engine
end SourceIndex
