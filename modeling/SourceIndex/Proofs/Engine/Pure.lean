import SourceIndex.Engine.Basic
import SourceIndex.Proofs.Chunk.Order
/-!
# What an engine makes of a file depends on the file alone

If grammars load and parse in the same way whatever their state, the chunks of a file do not depend
on what was chunked before. They all have the path of the file and are in the order of their lines.
-/

namespace SourceIndex
variable {γ : Type}

/-! ### Pure grammars -/

/-- Grammars of which the state does not matter. -/
structure Grammars.IsPure (g : Grammars γ) : Prop where
  load : ∀ name state other, (g.load name state).1 = (g.load name other).1
  parse : ∀ name text state other, (g.parse name text state).1 = (g.parse name text other).1

/-- What counts as loaded in a session can be loaded. -/
def Session.IsHonest (g : Grammars γ) (s : Session γ) : Prop :=
  ∀ name ∈ s.loaded, ∀ state, (g.load name state).1 = none

variable {g : Grammars γ}

namespace Grammars

theorem fst_ready (name : String) {s : Session γ} (honest : s.IsHonest g) :
    (g.ready name s).1 = (g.load name s.state).1 := by
  unfold ready
  split
  · rename_i loaded
    rw [honest name (List.contains_iff_mem.mp loaded)]
  · split
    · rename_i reason state failed
      rw [failed]
    · rename_i state done
      rw [done]

theorem isHonest_ready (pure : g.IsPure) (name : String) {s : Session γ}
    (honest : s.IsHonest g) : (g.ready name s).2.IsHonest g := by
  unfold ready
  split
  · exact honest
  · split
    · exact honest
    · rename_i state done
      intro other member
      rcases List.mem_cons.mp member with here | before
      · intro now
        rw [here, pure.load name now s.state, done]
      · exact honest other before

end Grammars

/-! ### The ladder -/

theorem Ladder.fst_climb (pure : g.IsPure) (grammar path : String) (retryLines : Int)
    (stages : List (Stage × String)) (s other : Session γ) :
    (climb g grammar path retryLines stages s).1 =
      (climb g grammar path retryLines stages other).1 := by
  induction stages generalizing s other with
  | nil => rfl
  | cons stage rest ih =>
    obtain ⟨stage, source⟩ := stage
    have same : (g.run grammar source s).1 = (g.run grammar source other).1 :=
      pure.parse grammar source s.state other.state
    unfold climb
    generalize g.run grammar source s = first at same
    generalize g.run grammar source other = second at same
    obtain ⟨result, s⟩ := first
    obtain ⟨result', other⟩ := second
    cases (show result = result' from same)
    cases result with
    | failed reason => exact ih _ _
    | noTree => exact ih _ _
    | tree children => rfl

theorem Ladder.loaded_climb (grammar path : String) (retryLines : Int)
    (stages : List (Stage × String)) (s : Session γ) :
    (climb g grammar path retryLines stages s).2.loaded = s.loaded := by
  induction stages generalizing s with
  | nil => rfl
  | cons stage rest ih =>
    obtain ⟨stage, source⟩ := stage
    have same : (g.run grammar source s).2.loaded = s.loaded := rfl
    unfold climb
    generalize g.run grammar source s = first at same
    obtain ⟨result, next⟩ := first
    cases result with
    | failed reason => exact (ih _).trans same
    | noTree => exact (ih _).trans same
    | tree children =>
      simp only
      split
      · exact same
      · exact same

/-! ### Chunks by syntax -/

namespace Structure
variable {languages : List Language} {limits : Limits} {path content language : String}

theorem fst_parse (pure : g.IsPure) {s other : Session γ} (honest : s.IsHonest g)
    (honest' : other.IsHonest g) :
    (parse g languages limits path content language s).1 =
      (parse g languages limits path content language other).1 := by
  unfold parse
  split
  · rfl
  rename_i found _
  split
  · have same : (g.ready (found.grammarFor path) s).1 = (g.ready (found.grammarFor path) other).1 := by
      rw [Grammars.fst_ready _ honest, Grammars.fst_ready _ honest']
      exact pure.load _ _ _
    simp only
    generalize g.ready (found.grammarFor path) s = first at same
    generalize g.ready (found.grammarFor path) other = second at same
    obtain ⟨reason, s⟩ := first
    obtain ⟨reason', other⟩ := second
    cases (show reason = reason' from same)
    cases reason with
    | some reason => rfl
    | none =>
      simp only
      have climbs := Ladder.fst_climb pure (found.grammarFor path) path limits.retryLines
        (Ladder.stages limits.retryLines content) s other
      generalize Ladder.climb g (found.grammarFor path) path limits.retryLines
        (Ladder.stages limits.retryLines content) s = first at climbs
      generalize Ladder.climb g (found.grammarFor path) path limits.retryLines
        (Ladder.stages limits.retryLines content) other = second at climbs
      obtain ⟨tree, s⟩ := first
      obtain ⟨tree', other⟩ := second
      cases (show tree = tree' from climbs)
      cases tree with
      | none => rfl
      | some tree => rfl
  · rfl

theorem isHonest_parse (pure : g.IsPure) {s : Session γ} (honest : s.IsHonest g) :
    (parse g languages limits path content language s).2.IsHonest g := by
  unfold parse
  split
  · exact honest
  rename_i found _
  split
  · have ready := Grammars.isHonest_ready pure (found.grammarFor path) honest
    simp only
    generalize g.ready (found.grammarFor path) s = first at ready
    obtain ⟨reason, next⟩ := first
    cases reason with
    | some reason => exact ready
    | none =>
      simp only
      have loaded := Ladder.loaded_climb (g := g) (found.grammarFor path) path limits.retryLines
        (Ladder.stages limits.retryLines content) next
      generalize Ladder.climb g (found.grammarFor path) path limits.retryLines
        (Ladder.stages limits.retryLines content) next = climbed at loaded
      obtain ⟨tree, last⟩ := climbed
      have kept : last.IsHonest g := by
        intro name member
        rw [show last.loaded = next.loaded from loaded] at member
        exact ready name member
      cases tree with
      | none => exact kept
      | some tree => exact kept
  · exact honest

end Structure

/-! ### The engine -/

namespace Engine
variable {e : Engine γ} {path content language : String}

theorem fst_fallBack (s other : Session γ) :
    (e.fallBack path content language s).1 = (e.fallBack path content language other).1 := by
  unfold fallBack
  split <;> rfl

theorem loaded_fallBack (s : Session γ) :
    (e.fallBack path content language s).2.loaded = s.loaded := by
  unfold fallBack
  split <;> rfl

theorem isHonest_of_loaded_eq {s other : Session γ} (honest : s.IsHonest g)
    (same : other.loaded = s.loaded) : other.IsHonest g := by
  intro name member
  rw [same] at member
  exact honest name member

theorem fst_runParser (pure : e.grammars.IsPure) (parser : Parser) {s other : Session γ}
    (honest : s.IsHonest e.grammars) (honest' : other.IsHonest e.grammars) :
    (e.runParser parser path content language s).1 =
      (e.runParser parser path content language other).1 := by
  cases parser with
  | structural languages =>
    have same : (Structure.parse e.grammars languages
        ⟨e.settings.maxChunkBytes, e.settings.retryLines⟩ path content language s).1 =
      (Structure.parse e.grammars languages
        ⟨e.settings.maxChunkBytes, e.settings.retryLines⟩ path content language other).1 :=
      Structure.fst_parse pure honest honest'
    simp only [runParser]
    generalize Structure.parse e.grammars languages
      ⟨e.settings.maxChunkBytes, e.settings.retryLines⟩ path content language s = first at same
    generalize Structure.parse e.grammars languages
      ⟨e.settings.maxChunkBytes, e.settings.retryLines⟩ path content language other = second
      at same
    obtain ⟨result, s⟩ := first
    obtain ⟨result', other⟩ := second
    cases (show result = result' from same)
    cases result with
    | ok chunks => rfl
    | error failure => exact fst_fallBack _ _
  | generic =>
    simp only [runParser]
    split
    · rfl
    · exact fst_fallBack _ _

theorem isHonest_runParser (pure : e.grammars.IsPure) (parser : Parser) {s : Session γ}
    (honest : s.IsHonest e.grammars) :
    (e.runParser parser path content language s).2.IsHonest e.grammars := by
  cases parser with
  | structural languages =>
    have kept : (Structure.parse e.grammars languages
        ⟨e.settings.maxChunkBytes, e.settings.retryLines⟩ path content language s).2.IsHonest
          e.grammars := Structure.isHonest_parse pure honest
    simp only [runParser]
    generalize Structure.parse e.grammars languages
      ⟨e.settings.maxChunkBytes, e.settings.retryLines⟩ path content language s = parsed at kept
    obtain ⟨result, next⟩ := parsed
    cases result with
    | ok chunks => exact kept
    | error failure => exact isHonest_of_loaded_eq kept (loaded_fallBack _)
  | generic =>
    simp only [runParser]
    split
    · exact honest
    · exact isHonest_of_loaded_eq honest (loaded_fallBack _)

variable {given wanted : Option String} {isBinary : Bool}

theorem fst_chunk (pure : e.grammars.IsPure) {s other : Session γ}
    (honest : s.IsHonest e.grammars) (honest' : other.IsHonest e.grammars) :
    (e.chunk path given wanted isBinary s).1 = (e.chunk path given wanted isBinary other).1 := by
  unfold chunk
  split
  · rfl
  split
  · rfl
  simp only
  split
  · rfl
  · simp only
    rw [fst_runParser pure _ honest honest']

theorem isHonest_chunk (pure : e.grammars.IsPure) {s : Session γ}
    (honest : s.IsHonest e.grammars) :
    (e.chunk path given wanted isBinary s).2.IsHonest e.grammars := by
  unfold chunk
  split
  · exact honest
  split
  · exact honest
  simp only
  split
  · exact honest
  · exact isHonest_runParser pure _ honest

end Engine

/-! ### Calls one after the other -/

/-- A call of an engine: what it is told of a file. -/
structure Engine.Call where
  path : String
  content : Option String
  language : Option String
  isBinary : Bool

namespace Engine
variable {e : Engine γ}

def answer (e : Engine γ) (call : Call) (s : Session γ) : List Chunk × Session γ :=
  e.chunk call.path call.content call.language call.isBinary s

def after (e : Engine γ) (calls : List Call) (s : Session γ) : Session γ :=
  calls.foldl (fun s call => (e.answer call s).2) s

theorem isHonest_after (pure : e.grammars.IsPure) (calls : List Call) {s : Session γ}
    (honest : s.IsHonest e.grammars) : (e.after calls s).IsHonest e.grammars := by
  induction calls generalizing s with
  | nil => exact honest
  | cons call rest ih => exact ih (isHonest_chunk pure honest)

theorem isHonest_fresh (g : Grammars γ) (state : γ) :
    Session.IsHonest g ⟨state, [], []⟩ := by
  intro name member
  cases member

/-- A call is answered after any others as it is answered by a new engine. -/
theorem fst_answer_after (settings : ChunkSettings) (pure : g.IsPure) (calls : List Call)
    (call : Call) (state other : γ) :
    ((ofSettings settings g).answer call
        ((ofSettings settings g).after calls ⟨state, [], []⟩)).1 =
      ((ofSettings settings g).answer call ⟨other, [], []⟩).1 := by
  have pure' : (ofSettings settings g).grammars.IsPure := pure
  have before := isHonest_after pure' calls (isHonest_fresh _ state)
  exact fst_chunk pure' before (isHonest_fresh _ other)

/-- Grammars that count their uses; all but one fail to load, and it parses nothing but the empty
text. -/
def countingGrammars : Grammars Nat where
  load name s := (if name = "python" then none else some "missing", s + 1)
  parse _ text s := (if text = "" then .tree [] else .noTree, s + 1)

theorem countingGrammars_isPure : countingGrammars.IsPure :=
  ⟨fun _ _ _ => rfl, fun _ _ _ _ => rfl⟩

/-- A module, a component of another language, and the module again. -/
theorem fst_answer_after_mixed :
    let e := ofSettings { structural := ["python", "typescript"] } countingGrammars
    let module : Call := ⟨"a.py", some "x = 1", none, false⟩
    let component : Call := ⟨"b.tsx", some "let x = 1", none, false⟩
    (e.after [module, component] ⟨0, [], []⟩).state = 5 ∧
      (e.after [module, component] ⟨0, [], []⟩).loaded = ["python"] ∧
      (e.answer module (e.after [module, component] ⟨0, [], []⟩)).1 =
        (e.answer module ⟨0, [], []⟩).1 := by
  refine ⟨by decide +kernel, by decide +kernel, ?_⟩
  exact fst_answer_after _ countingGrammars_isPure _ _ 0 0

end Engine

/-! ### Paths of chunks -/

namespace Chunk
variable {path content language parser : String} {c : Chunk}

theorem path_of_mem_splitGeneric {linesPerChunk maxChunkBytes : Int} {chunks : List Chunk}
    (split : splitGeneric path content language linesPerChunk maxChunkBytes parser = .ok chunks)
    (member : c ∈ chunks) : c.path = path := by
  unfold splitGeneric at split
  split at split
  · cases split
  split at split
  · cases split
  split at split
  · rw [Except.ok.injEq] at split
    subst split
    cases member
  · rw [Except.ok.injEq] at split
    subst split
    obtain ⟨part, -, rfl⟩ := List.mem_map.mp member
    rfl

theorem path_of_mem_underCeiling {maxBytes : Int} {whole : Chunk}
    (member : c ∈ underCeiling maxBytes whole) : c.path = whole.path := by
  unfold underCeiling at member
  split at member
  · rw [List.mem_singleton.mp member]
  · obtain ⟨⟨w, name⟩, -, rfl⟩ := List.mem_map.mp member
    rfl

end Chunk

theorem Structure.path_of_mem_chunksOf {limits : Limits} {path text : String}
    {language : Language} {nodes : List Node} {c : Chunk}
    (member : c ∈ chunksOf limits path language text nodes) : c.path = path := by
  unfold chunksOf at member
  obtain ⟨whole, found, part⟩ := List.mem_flatMap.mp member
  obtain ⟨span, -, rfl⟩ := List.mem_map.mp found
  exact Chunk.path_of_mem_underCeiling part

theorem Structure.path_of_mem_parse {languages : List Language} {limits : Limits}
    {path content language : String} {s after : Session γ} {chunks : List Chunk} {c : Chunk}
    (parsed : parse g languages limits path content language s = (.ok chunks, after))
    (member : c ∈ chunks) : c.path = path := by
  unfold parse at parsed
  split at parsed
  · cases parsed
  split at parsed
  · simp only at parsed
    split at parsed
    · cases parsed
    split at parsed
    · cases parsed
      cases member
    · cases parsed
      exact path_of_mem_chunksOf member
  · cases parsed

namespace Engine
variable {e : Engine γ} {path content language : String} {c : Chunk}

theorem path_of_mem_fallBack {s : Session γ}
    (member : c ∈ (e.fallBack path content language s).1) : c.path = path := by
  unfold fallBack at member
  split at member
  · rename_i chunks split
    exact Chunk.path_of_mem_splitGeneric split member
  · cases member

theorem path_of_mem_runParser {parser : Parser} {s : Session γ}
    (member : c ∈ (e.runParser parser path content language s).1) : c.path = path := by
  cases parser with
  | structural languages =>
    simp only [runParser] at member
    split at member
    · rename_i chunks after parsed
      exact Structure.path_of_mem_parse parsed member
    · exact path_of_mem_fallBack member
  | generic =>
    simp only [runParser] at member
    split at member
    · rename_i chunks split
      exact Chunk.path_of_mem_splitGeneric split member
    · exact path_of_mem_fallBack member

theorem path_of_mem_chunk {given wanted : Option String} {isBinary : Bool} {s : Session γ}
    (member : c ∈ (e.chunk path given wanted isBinary s).1) : c.path = path := by
  unfold chunk at member
  split at member
  · cases member
  split at member
  · cases member
  simp only at member
  split at member
  · unfold Chunk.wholeFile at member
    split at member
    · cases member
    · rw [List.mem_singleton.mp member]
      rfl
  · rw [Chunk.sortByLines, List.mem_mergeSort] at member
    exact path_of_mem_runParser member

theorem pairwise_chunk (given wanted : Option String) (isBinary : Bool) (s : Session γ) :
    (e.chunk path given wanted isBinary s).1.Pairwise fun a b => a.startsNoLater b = true := by
  unfold chunk
  split
  · exact List.Pairwise.nil
  split
  · exact List.Pairwise.nil
  simp only
  split
  · unfold Chunk.wholeFile
    split
    · exact List.Pairwise.nil
    · exact List.pairwise_singleton ..
  · exact Chunk.pairwise_sortByLines _

end Engine
end SourceIndex
