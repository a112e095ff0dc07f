import SourceIndex.Proofs.Chunk.Order
import SourceIndex.Proofs.Config.Fields
import SourceIndex.Proofs.Text.Blocks
import SourceIndex.Store.Load
/-!
# Rows that are left out

Every line of the file of chunks holds a chunk or is left out, except for three kinds of lines on
which reading breaks off: a line with an integer of too many digits, one with values that are nested
too deeply, and a row whose first or last line is infinite. Without them the chunks on the lines are
loaded, and what is left out makes no difference.
-/

namespace SourceIndex

namespace ChunkKind

theorem ofName?_eq_some_iff {s : String} {kind : ChunkKind} :
    ofName? s = some kind ↔ s = kind.name := by
  constructor
  · intro found
    have same := List.find?_some found
    exact (beq_iff_eq.mp same).symm
  · rintro rfl
    exact Chunk.ofName?_name kind

end ChunkKind

/-! ### Rows -/

namespace Chunk
variable {fields : Entries Json}

/-- The fields of a row are those of a chunk: a text for whatever stands in its place, an integer
for what can be taken for one, and one of the known kinds. -/
structure IsRow (fields : Entries Json) (c : Chunk) : Prop where
  id : Json.textField "id" fields = .ok c.id
  path : Json.textField "file_path" fields = .ok c.path
  language : Json.textField "language" fields = .ok c.language
  startLine : Json.intField "start_line" fields = .ok c.startLine
  endLine : Json.intField "end_line" fields = .ok c.endLine
  content : Json.textField "content" fields = .ok c.content
  kind : Json.textField "type" fields = .ok c.kind.name
  parser : Json.textField "parser" fields = .ok c.parser
  name : ∀ s, c.name = some s ↔ Entries.get? "name" fields = some (.text s)

theorem ofFields_eq_ok_iff {c : Chunk} : ofFields fields = .ok c ↔ IsRow fields c := by
  simp only [ofFields, bind_eq_ok_iff]
  constructor
  · rintro ⟨id, id', path, path', language, language', startLine, startLine', endLine, endLine',
      content, content', type, type', rest⟩
    cases known : ChunkKind.ofName? type with
    | none =>
      rw [known] at rest
      cases rest
    | some kind =>
      rw [known] at rest
      simp only [bind_eq_ok_iff] at rest
      obtain ⟨_, same, parser, parser', made⟩ := rest
      obtain rfl := Except.ok.inj same
      obtain rfl := Except.ok.inj made
      obtain rfl := ChunkKind.ofName?_eq_some_iff.mp known
      refine ⟨id', path', language', startLine', endLine', content', type', parser', fun s => ?_⟩
      simp only
      split
      · rename_i found
        rw [found]
        simp
      · rename_i other
        exact ⟨fun none => (by cases none), fun found => absurd found (other s)⟩
  · intro row
    refine ⟨_, row.id, _, row.path, _, row.language, _, row.startLine, _, row.endLine, _,
      row.content, _, row.kind, ?_⟩
    rw [ofName?_name]
    simp only [bind_eq_ok_iff]
    refine ⟨_, rfl, _, row.parser, congrArg Except.ok ?_⟩
    have name := row.name
    cases c
    simp only [mk.injEq, true_and]
    split
    · rename_i s found
      exact ((name s).mpr found).symm
    · rename_i other
      exact (Option.eq_none_iff_forall_ne_some.mpr fun s found =>
        other s ((name s).mp found)).symm

/-! #### Infinite lines -/

theorem textField_ne_infinite (key : String) : Json.textField key fields ≠ .error .infinite := by
  unfold Json.textField Json.field
  split
  · exact fun failed => by cases failed
  · exact fun failed => by cases failed

theorem intField_eq_infinite_iff (key : String) : Json.intField key fields = .error .infinite ↔
    ∃ negative, Entries.get? key fields = some (.number (.real (.infinite negative))) := by
  unfold Json.intField Json.field
  cases Entries.get? key fields with
  | none => simp [Except.bind]
  | some value =>
    simp only [Except.bind, Option.some.injEq]
    constructor
    · intro failed
      unfold Json.toInt at failed
      split at failed
      case h_4 negative => exact ⟨negative, rfl⟩
      case h_6 =>
        split at failed
        · cases failed
        · cases failed
      all_goals cases failed
    · rintro ⟨negative, rfl⟩
      rfl

/-- A number of a line is infinite in a row that has been in order up to there. -/
structure HasInfiniteLine (fields : Entries Json) : Prop where
  id : ∃ s, Json.textField "id" fields = .ok s
  path : ∃ s, Json.textField "file_path" fields = .ok s
  language : ∃ s, Json.textField "language" fields = .ok s
  infinite :
    (∃ negative, Entries.get? "start_line" fields = some (.number (.real (.infinite negative)))) ∨
      (∃ n, Json.intField "start_line" fields = .ok n) ∧
        ∃ negative, Entries.get? "end_line" fields = some (.number (.real (.infinite negative)))

theorem ofFields_eq_infinite_iff : ofFields fields = .error .infinite ↔ HasInfiniteLine fields := by
  simp only [ofFields, bind_eq_error_iff, textField_ne_infinite, false_or,
    intField_eq_infinite_iff]
  constructor
  · rintro ⟨id, idThere, path, pathThere, language, languageThere, infinite⟩
    refine ⟨⟨id, idThere⟩, ⟨path, pathThere⟩, ⟨language, languageThere⟩, ?_⟩
    rcases infinite with first | ⟨n, first, last | ⟨m, last, content, -, type, -, rest⟩⟩
    · exact .inl first
    · exact .inr ⟨⟨n, first⟩, last⟩
    · -- Neither the kind nor the parser is read as a number.
      cases known : ChunkKind.ofName? type with
      | none =>
        rw [known] at rest
        cases rest
      | some kind =>
        rw [known] at rest
        simp only [bind_eq_error_iff, textField_ne_infinite, reduceCtorEq, false_or, and_false,
          exists_false, pure, Except.pure] at rest
  · rintro ⟨⟨id, idThere⟩, ⟨path, pathThere⟩, ⟨language, languageThere⟩, infinite⟩
    refine ⟨id, idThere, path, pathThere, language, languageThere, ?_⟩
    rcases infinite with first | ⟨⟨n, first⟩, last⟩
    · exact .inl first
    · exact .inr ⟨n, first, .inl last⟩

end Chunk

namespace Store

/-! ### Lines -/

/-- A chunk stands on a line: an object that has the fields of the chunk. -/
def HasChunk (line : String) (c : Chunk) : Prop :=
  ∃ fields, Json.read (Text.trim line) = .ok (.object fields) ∧ Chunk.IsRow fields c

inductive BreaksOff (line : String) : Prop
  | tooLong (fault : Json.read (Text.trim line) = .error .integerTooLong)
  | tooDeep (fault : Json.read (Text.trim line) = .error .tooDeep)
  | infinite (fields : Entries Json) (object : Json.read (Text.trim line) = .ok (.object fields))
    (line : Chunk.HasInfiniteLine fields)

def breaksOff (line : String) : Bool :=
  match Json.read (Text.trim line) with
  | .ok (.object fields) => Chunk.ofFields fields = .error .infinite
  | .ok _ | .error .malformed => false
  | .error _ => true

theorem breaksOff_iff {line : String} : breaksOff line = true ↔ BreaksOff line := by
  unfold breaksOff
  constructor
  · intro stops
    split at stops
    · rename_i fields object
      rw [decide_eq_true_eq] at stops
      exact .infinite fields object (Chunk.ofFields_eq_infinite_iff.mp stops)
    · cases stops
    · cases stops
    · rename_i fault other failed
      cases fault with
      | malformed => exact absurd rfl other
      | integerTooLong => exact .tooLong failed
      | tooDeep => exact .tooDeep failed
  · rintro (fault | fault | ⟨fields, object, infinite⟩)
    · rw [fault]
    · rw [fault]
    · rw [object]
      exact decide_eq_true (Chunk.ofFields_eq_infinite_iff.mpr infinite)

instance (line : String) : Decidable (BreaksOff line) := decidable_of_iff _ breaksOff_iff

def chunkOn? (line : String) : Option Chunk :=
  match Json.read (Text.trim line) with
  | .ok (.object fields) => (Chunk.ofFields fields).toOption
  | _ => none

theorem chunkOn?_eq_some_iff {line : String} {c : Chunk} :
    chunkOn? line = some c ↔ HasChunk line c := by
  unfold chunkOn? HasChunk
  simp only [← Chunk.ofFields_eq_ok_iff]
  split
  · rename_i fields object
    rw [object]
    simp only [Except.ok.injEq, Json.object.injEq, exists_eq_left']
    exact toOption_eq_some_iff
  · rename_i other
    constructor
    · intro none
      cases none
    · rintro ⟨fields, object, -⟩
      exact absurd object (other fields)

/-! ### Rows on lines -/

def chunksOn (lines : List String) : Except IndexError (List Chunk) :=
  match rowsOf lines with
  | .error fault => .error (.document (.content fault))
  | .ok rows => chunksOf rows

theorem rowsOf_append (first second : List String) : rowsOf (first ++ second) =
    (rowsOf first).bind fun rows => (rowsOf second).map (rows ++ ·) := by
  induction first with
  | nil =>
    rw [List.nil_append, rowsOf]
    cases rowsOf second <;> rfl
  | cons line rest ih =>
    rw [List.cons_append, rowsOf, rowsOf, ih]
    cases rowOf line with
    | error fault => rfl
    | ok row =>
      cases rowsOf rest with
      | error fault => rfl
      | ok rows => cases rowsOf second <;> simp [Except.bind, Except.map]

theorem chunksOf_append (first second : List (Entries Json)) : chunksOf (first ++ second) =
    (chunksOf first).bind fun chunks => (chunksOf second).map (chunks ++ ·) := by
  induction first with
  | nil =>
    rw [List.nil_append, chunksOf]
    cases chunksOf second <;> rfl
  | cons row rest ih =>
    rw [List.cons_append, chunksOf, chunksOf, ih]
    split
    · cases chunksOf rest with
      | error e => rfl
      | ok chunks => cases chunksOf second <;> simp [Except.bind, Except.map]
    · rfl
    · rfl

theorem chunksOn_singleton {line : String} (goesOn : ¬ BreaksOff line) :
    ∃ row, rowOf line = .ok row ∧ chunksOf row.toList = .ok (chunkOn? line).toList := by
  unfold rowOf chunkOn?
  cases read : Json.read (Text.trim line) with
  | error fault =>
    cases fault with
    | malformed => exact ⟨none, rfl, rfl⟩
    | integerTooLong => exact absurd (.tooLong read) goesOn
    | tooDeep => exact absurd (.tooDeep read) goesOn
  | ok value =>
    cases value with
    | object fields =>
      refine ⟨some fields, rfl, ?_⟩
      have finite : Chunk.ofFields fields ≠ .error .infinite := fun infinite =>
        goesOn (.infinite fields read (Chunk.ofFields_eq_infinite_iff.mp infinite))
      simp only [Option.toList_some, chunksOf]
      split
      · rename_i chunk made
        rw [made]
        rfl
      · rename_i infinite
        exact absurd infinite finite
      · rename_i fault other failed
        rw [failed]
        rfl
    | _ => exact ⟨none, rfl, rfl⟩

theorem chunksOn_cons {line : String} (goesOn : ¬ BreaksOff line) (rest : List String) :
    chunksOn (line :: rest) = (chunksOn rest).map ((chunkOn? line).toList ++ ·) := by
  obtain ⟨row, there, chunks⟩ := chunksOn_singleton goesOn
  unfold chunksOn
  rw [rowsOf, there]
  cases rowsOf rest with
  | error fault => rfl
  | ok rows =>
    simp only [Except.map]
    rw [chunksOf_append, chunks]
    cases chunksOf rows <;> rfl

theorem exists_error_chunksOn_cons {line : String} (breaksOff : BreaksOff line)
    (rest : List String) : ∃ e, chunksOn (line :: rest) = .error e := by
  have content {fault : Json.ReadFault} (row : rowOf line = .error fault) :
      ∃ e, chunksOn (line :: rest) = .error e := by
    refine ⟨.document (.content fault), ?_⟩
    rw [chunksOn, rowsOf, row]
  cases breaksOff with
  | tooLong fault => exact content (by rw [rowOf, fault])
  | tooDeep fault => exact content (by rw [rowOf, fault])
  | infinite fields object infinite =>
    have row : rowOf line = .ok (some fields) := by rw [rowOf, object]
    rw [chunksOn, rowsOf, row]
    cases rowsOf rest with
    | error fault => exact ⟨_, rfl⟩
    | ok rows =>
      refine ⟨.infiniteRow, ?_⟩
      simp only [Except.map, Option.toList_some, List.singleton_append, chunksOf,
        Chunk.ofFields_eq_infinite_iff.mpr infinite]

/-- The chunks on some lines are those on the single lines, unless reading breaks off at one. -/
theorem chunksOn_of_forall {lines : List String} (goesOn : ∀ line ∈ lines, ¬ BreaksOff line) :
    chunksOn lines = .ok (lines.filterMap chunkOn?) := by
  induction lines with
  | nil => rfl
  | cons line rest ih =>
    rw [chunksOn_cons (goesOn line (List.mem_cons_self ..)),
      ih fun other member => goesOn other (List.mem_cons_of_mem _ member), List.filterMap_cons]
    cases chunkOn? line <;> rfl

theorem exists_chunksOn_iff (lines : List String) :
    (∃ chunks, chunksOn lines = .ok chunks) ↔ ∀ line ∈ lines, ¬ BreaksOff line := by
  refine ⟨fun read => ?_, fun goesOn => ⟨_, chunksOn_of_forall goesOn⟩⟩
  induction lines with
  | nil => exact fun _ member => by cases member
  | cons line rest ih =>
    obtain ⟨chunks, read⟩ := read
    have goesOn : ¬ BreaksOff line := by
      intro breaksOff
      obtain ⟨e, failed⟩ := exists_error_chunksOn_cons breaksOff rest
      rw [failed] at read
      cases read
    rw [chunksOn_cons goesOn] at read
    cases later : chunksOn rest with
    | error e =>
      rw [later] at read
      cases read
    | ok others =>
      intro other member
      rcases List.mem_cons.mp member with rfl | among
      · exact goesOn
      · exact ih ⟨others, later⟩ other among

theorem chunksOn_insert {line : String} (goesOn : ¬ BreaksOff line) (none : chunkOn? line = none)
    (before after : List String) :
    chunksOn (before ++ line :: after) = chunksOn (before ++ after) := by
  obtain ⟨row, there, chunks⟩ := chunksOn_singleton goesOn
  rw [none, Option.toList_none] at chunks
  unfold chunksOn
  rw [rowsOf_append, rowsOf_append, rowsOf, there]
  cases rowsOf before with
  | error fault => rfl
  | ok first =>
    cases rowsOf after with
    | error fault => rfl
    | ok second =>
      simp only [Except.bind, Except.map]
      rw [chunksOf_append, chunksOf_append, chunksOf_append, chunks]
      cases chunksOf first with
      | error e => rfl
      | ok chunks => cases chunksOf second <;> simp [Except.bind, Except.map]

/-! ### Loading -/

def fileLines (text : String) : List String := Text.splitOn '\n' (Text.universal text)

theorem fileLines_unlines {lines : List String}
    (clear : ∀ line ∈ lines, '\n' ∉ line.toList ∧ '\r' ∉ line.toList) (filled : lines ≠ []) :
    fileLines (Text.unlines lines) = lines := by
  have noReturn : '\r' ∉ (Text.unlines lines).toList := by
    rw [Text.unlines, Text.joinWith, String.toList_ofList]
    intro member
    rcases Text.mem_joinPieces member with same | ⟨piece, among, inside⟩
    · cases same
    · obtain ⟨line, there, rfl⟩ := List.mem_map.mp among
      exact (clear line there).2 inside
  rw [fileLines, Text.universal, Text.universalChars_of_not_mem noReturn, String.ofList_toList,
    Text.splitOn_unlines (fun line member => (clear line member).1) filled]

theorem loadChunks_of_text {s : Store} {d : Disk} {text : String}
    (schema : s.requireSchema d = .ok ()) (there : d.hasAnything s.chunksPath = .ok true)
    (content : d.readAll s.chunksPath = .ok (Text.Utf8.encode text)) :
    s.loadChunks d = (chunksOn (fileLines text)).map Chunk.sortByAddress := by
  have lines : Text.Blocks.Reading.lines ⟨text.toList, none⟩ = fileLines text := rfl
  unfold loadChunks chunksIn readRows chunksOn
  simp only [schema, there, content, Text.Utf8.encode, Text.Blocks.read_encodeChars, lines]
  cases rowsOf (fileLines text) <;> rfl

/-- With a manifest that is supported and any text for the chunks, loading fails just if it breaks
off at a line; else it gives the chunks on the lines, each line that holds one, in the order of
their places. A line without a chunk may be put in anywhere and changes nothing. -/
theorem loadChunks_skips {s : Store} {d : Disk} {text : String}
    (schema : s.requireSchema d = .ok ()) (there : d.hasAnything s.chunksPath = .ok true)
    (content : d.readAll s.chunksPath = .ok (Text.Utf8.encode text)) :
    ((∃ chunks, s.loadChunks d = .ok chunks) ↔ ∀ line ∈ fileLines text, ¬ BreaksOff line) ∧
      (∀ chunks, s.loadChunks d = .ok chunks →
        Chunk.IsSortOf chunks ((fileLines text).filterMap chunkOn?)) ∧
      (∀ line c, chunkOn? line = some c ↔ HasChunk line c) ∧
      ∀ other text' before line after, s.requireSchema other = .ok () →
        other.hasAnything s.chunksPath = .ok true →
        other.readAll s.chunksPath = .ok (Text.Utf8.encode text') →
        fileLines text = before ++ after → fileLines text' = before ++ line :: after →
        ¬ BreaksOff line → chunkOn? line = none → s.loadChunks other = s.loadChunks d := by
  have loads := loadChunks_of_text schema there content
  refine ⟨?_, fun chunks loaded => ?_, fun line c => chunkOn?_eq_some_iff, ?_⟩
  · rw [← exists_chunksOn_iff, loads]
    cases chunksOn (fileLines text) <;> simp [Except.map]
  · rw [loads] at loaded
    cases read : chunksOn (fileLines text) with
    | error e =>
      rw [read] at loaded
      cases loaded
    | ok found =>
      have goesOn := (exists_chunksOn_iff (fileLines text)).mp ⟨found, read⟩
      rw [chunksOn_of_forall goesOn] at loaded
      exact Except.ok.inj loaded ▸ Chunk.isSortOf_sortByAddress _
  · intro other text' before line after schema' there' content' lines lines' goesOn none
    rw [loads, loadChunks_of_text schema' there' content', lines, lines',
      chunksOn_insert goesOn none]

/-! #### A file of rows -/

/-- An index that has just a manifest and a text for the chunks. -/
def rowsDisk (text : String) : Disk where
  items :=
    [(["index"], .directory),
     (["index", "manifest.json"],
       .file (Text.Utf8.encode "\x7b\"schema_version\": 1\x7d") 7),
     (["index", "chunks.jsonl"], .file (Text.Utf8.encode text) 7)]

theorem requireSchema_rowsDisk (text : String) :
    (⟨Disk.pathTo ["index"]⟩ : Store).requireSchema (rowsDisk text) = .ok () := by
  have manifest : (⟨Disk.pathTo ["index"]⟩ : Store).readManifest (rowsDisk text) =
      .ok (some [("schema_version", .int 1)]) := by
    have there : (rowsDisk text).hasAnything (⟨Disk.pathTo ["index"]⟩ : Store).manifestPath =
      .ok true := rfl
    have content : (rowsDisk text).readAll (⟨Disk.pathTo ["index"]⟩ : Store).manifestPath =
      .ok (Text.Utf8.encode "\x7b\"schema_version\": 1\x7d") := rfl
    simp only [readManifest, Disk.readDocument, there, content, Text.Utf8.decode_encode]
    rfl
  rw [requireSchema, manifest]
  rfl

def looseRow : String :=
  "\x7b\"id\":7,\"file_path\":\"a.py\",\"language\":null,\"start_line\":\" +2 \"," ++
    "\"end_line\":9.5,\"content\":\"\",\"type\":\"file\",\"parser\":true\x7d"

def infiniteRow : String :=
  "\x7b\"id\":7,\"file_path\":\"a.py\",\"language\":null,\"start_line\":1e400\x7d"

/-- A line without a chunk is left out, but an infinite line is not. -/
theorem loadChunks_skips_infinite :
    (∃ chunks, (⟨Disk.pathTo ["index"]⟩ : Store).loadChunks
        (rowsDisk (Text.unlines ["[1", looseRow])) = .ok chunks ∧
      Chunk.IsSortOf chunks [⟨"7", "a.py", "None", 2, 9, "", .file, "True", none⟩]) ∧
    ¬ ∃ chunks, (⟨Disk.pathTo ["index"]⟩ : Store).loadChunks
        (rowsDisk (Text.unlines [infiniteRow])) = .ok chunks := by
  have skips (text : String) := @loadChunks_skips ⟨Disk.pathTo ["index"]⟩ (rowsDisk text) text
    (requireSchema_rowsDisk text) rfl rfl
  constructor
  · obtain ⟨succeeds, sorted, -⟩ := skips (Text.unlines ["[1", looseRow])
    rw [fileLines_unlines (by decide +kernel) (by simp)] at succeeds sorted
    obtain ⟨chunks, loaded⟩ := succeeds.mpr (by decide +kernel)
    have rows : ["[1", looseRow].filterMap chunkOn? =
        [⟨"7", "a.py", "None", 2, 9, "", .file, "True", none⟩] := by decide +kernel
    refine ⟨chunks, loaded, ?_⟩
    rw [← rows]
    exact sorted chunks loaded
  · obtain ⟨succeeds, -⟩ := skips (Text.unlines [infiniteRow])
    rw [fileLines_unlines (by decide +kernel) (by simp)] at succeeds
    rw [succeeds]
    decide +kernel

end Store
end SourceIndex
