import SourceIndex.Chunk.Basic
import SourceIndex.Json.Decode
/-!
# Stored chunks

A chunk is stored as an object. Reading one back takes texts for whatever stands in their places
and integers from numbers and texts that hold one.
-/

namespace SourceIndex.Chunk

/-- The object for a chunk. It has a name only if that is not empty. -/
def toJson (c : Chunk) : Json :=
  .object
    ([("id", .text c.id),
      ("file_path", .text c.path),
      ("language", .text c.language),
      ("start_line", .int c.startLine),
      ("end_line", .int c.endLine),
      ("content", .text c.content),
      ("type", .text c.kind.name),
      ("parser", .text c.parser)] ++
      match c.name with
      | some name => if name = "" then [] else [("name", .text name)]
      | none => [])

def ofFields (fields : Entries Json) : Except Json.DecodeFault Chunk := do
  let name := match Entries.get? "name" fields with
    | some (.text s) => some s
    | _ => none
  let id ← Json.textField "id" fields
  let path ← Json.textField "file_path" fields
  let language ← Json.textField "language" fields
  let startLine ← Json.intField "start_line" fields
  let endLine ← Json.intField "end_line" fields
  let content ← Json.textField "content" fields
  let kindName ← Json.textField "type" fields
  let kind ← match ChunkKind.ofName? kindName with
    | some kind => .ok kind
    | none => .error .badValue
  let parser ← Json.textField "parser" fields
  return ⟨id, path, language, startLine, endLine, content, kind, parser, name⟩

def ofJson : Json → Except Json.DecodeFault Chunk
  | .object fields => ofFields fields
  | _ => .error .noFields

end SourceIndex.Chunk
