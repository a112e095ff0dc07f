import SourceIndex.Chunk.Codec
import SourceIndex.Proofs.Json.Fields
/-!
# Chunks are read back

A chunk is read back from its object as it was, but for an empty name, which is not stored.
-/

namespace SourceIndex.Chunk

def normal (c : Chunk) : Chunk := { c with name := c.name.filter (· ≠ "") }

def nameFields (c : Chunk) : List (String × Json) :=
  match c.name with
  | some name => if name = "" then [] else [("name", .text name)]
  | none => []

def fields (c : Chunk) : List (String × Json) :=
  [("id", .text c.id), ("file_path", .text c.path), ("language", .text c.language),
   ("start_line", .int c.startLine), ("end_line", .int c.endLine), ("content", .text c.content),
   ("type", .text c.kind.name), ("parser", .text c.parser)] ++ c.nameFields

theorem toJson_eq (c : Chunk) : c.toJson = .object c.fields := rfl

theorem nameFields_normal (c : Chunk) : c.normal.nameFields = c.nameFields := by
  unfold normal nameFields
  cases c.name with
  | none => rfl
  | some name =>
    by_cases empty : name = ""
    · simp [empty, Option.filter]
    · simp [empty, Option.filter]

/-- Only an empty name is lost, and that is not part of the object. -/
theorem toJson_normal (c : Chunk) : c.normal.toJson = c.toJson := by
  rw [toJson_eq, toJson_eq, fields, fields, nameFields_normal]
  rfl

theorem nameFields_cases (c : Chunk) :
    c.nameFields = [] ∧ c.normal.name = none ∨
      ∃ name, c.nameFields = [("name", .text name)] ∧ c.normal.name = some name := by
  unfold normal nameFields
  cases c.name with
  | none => exact .inl ⟨rfl, rfl⟩
  | some name =>
    by_cases empty : name = ""
    · exact .inl (by simp [empty, Option.filter])
    · exact .inr ⟨name, by simp [empty, Option.filter]⟩

theorem nodup_keys_fields (c : Chunk) : (Entries.keys c.fields).Nodup := by
  unfold fields
  rcases nameFields_cases c with ⟨none, -⟩ | ⟨name, some, -⟩
  · rw [none]
    simp [Entries.keys]
  · rw [some]
    simp [Entries.keys]

theorem storable_toJson (c : Chunk) : Json.Storable 1 c.toJson := by
  rw [toJson_eq]
  refine .object (nodup_keys_fields c) ?_
  intro field member
  unfold fields at member
  rcases List.mem_append.mp member with base | last
  · simp only [List.mem_cons, List.not_mem_nil, or_false] at base
    rcases base with rfl | rfl | rfl | rfl | rfl | rfl | rfl | rfl
    all_goals first
      | exact .text ..
      | exact .whole ..
  · rcases nameFields_cases c with ⟨none, -⟩ | ⟨name, some, -⟩
    · rw [none] at last
      cases last
    · rw [some] at last
      rw [List.mem_singleton.mp last]
      exact .text ..

theorem ofName?_name (kind : ChunkKind) : ChunkKind.ofName? kind.name = some kind := by
  cases kind <;> rfl

theorem get?_name_fields (c : Chunk) :
    Entries.get? "name" c.fields = c.normal.name.map Json.text := by
  unfold fields
  rcases nameFields_cases c with ⟨none, name⟩ | ⟨name, some, same⟩
  · rw [none, name]
    rfl
  · rw [some, same]
    rfl

theorem ofFields_storedObject (c : Chunk) :
    ofFields (Json.storedObject c.fields) = .ok c.normal := by
  have distinct := nodup_keys_fields c
  have name : Entries.get? "name" (Json.storedObject c.fields) = c.normal.name.map Json.text := by
    rw [Json.get?_storedObject distinct, get?_name_fields]
    cases c.normal.name <;> rfl
  have id : Json.textField "id" (Json.storedObject c.fields) = .ok c.id :=
    Json.textField_storedObject distinct rfl
  have path : Json.textField "file_path" (Json.storedObject c.fields) = .ok c.path :=
    Json.textField_storedObject distinct rfl
  have language : Json.textField "language" (Json.storedObject c.fields) = .ok c.language :=
    Json.textField_storedObject distinct rfl
  have startLine : Json.intField "start_line" (Json.storedObject c.fields) = .ok c.startLine :=
    Json.intField_storedObject distinct rfl
  have endLine : Json.intField "end_line" (Json.storedObject c.fields) = .ok c.endLine :=
    Json.intField_storedObject distinct rfl
  have content : Json.textField "content" (Json.storedObject c.fields) = .ok c.content :=
    Json.textField_storedObject distinct rfl
  have kind : Json.textField "type" (Json.storedObject c.fields) = .ok c.kind.name :=
    Json.textField_storedObject distinct rfl
  have parser : Json.textField "parser" (Json.storedObject c.fields) = .ok c.parser :=
    Json.textField_storedObject distinct rfl
  unfold ofFields
  simp only [name, id, path, language, startLine, endLine, content, kind, parser, ofName?_name,
    bind, Except.bind, pure, Except.pure]
  unfold normal
  cases c.name with
  | none => rfl
  | some text =>
    by_cases empty : text = ""
    · simp [empty, Option.filter]
    · simp [empty, Option.filter]

end SourceIndex.Chunk
