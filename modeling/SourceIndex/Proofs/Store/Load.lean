import SourceIndex.Proofs.Chunk.Codec
import SourceIndex.Proofs.HashTree.Codec
import SourceIndex.Proofs.Json.Line
import SourceIndex.Proofs.Text.Blocks
import SourceIndex.Store.Load
/-!
# Stored indexes are loaded

The files of an index, as they are written, are read back: objects that were written to a file, one
on each line, come back in order, the manifest with the current layout, the hash tree, and the
chunks in the order of their addresses.
-/

namespace SourceIndex

open Json (Storable stored)

/-! ### Files of rows -/

namespace Store

theorem rowOf_line {fields : List (String × Json)}
    (storable : Storable Json.maxDepth (.object fields))
    (writable : Json.isWritable (.object fields) = true) :
    rowOf (Json.line (.object fields)) = .ok (some (Json.storedObject fields)) := by
  rw [rowOf, Json.trim_line_object, Json.read_line storable writable]
  rfl

theorem rowOf_empty : rowOf "" = .ok none := by
  have trimmed : Text.trim "" = "" := by decide
  have nothing : Json.read "" = .error .malformed := by
    unfold Json.read Json.readValue
    rfl
  rw [rowOf, trimmed, nothing]

theorem rowsOf_lines {rows : List (List (String × Json))}
    (storable : ∀ row ∈ rows, Storable Json.maxDepth (.object row))
    (writable : ∀ row ∈ rows, Json.isWritable (.object row) = true) :
    rowsOf ((rows.map fun row => Json.line (.object row)) ++ [""]) =
      .ok (rows.map Json.storedObject) := by
  induction rows with
  | nil =>
    show rowsOf [""] = .ok []
    rw [rowsOf, rowOf_empty]
    rfl
  | cons row rest ih =>
    have later := ih (fun other member => storable other (List.mem_cons_of_mem _ member))
      fun other member => writable other (List.mem_cons_of_mem _ member)
    rw [List.map_cons, List.cons_append, rowsOf, rowOf_line (storable row (List.mem_cons_self ..))
      (writable row (List.mem_cons_self ..))]
    simp only
    rw [later]
    rfl

theorem toList_linesOf (values : List Json) :
    (Write.linesOf values).toList = (values.map Json.line).flatMap fun s => s.toList ++ ['\n'] := by
  rw [Write.linesOf, String.toList_join]
  induction values with
  | nil => rfl
  | cons value rest ih =>
    rw [List.map_cons, List.flatMap_cons, List.map_cons, List.flatMap_cons, Json.toList_lineOf, ih]

theorem readRows_linesOf {rows : List (List (String × Json))}
    (storable : ∀ row ∈ rows, Storable Json.maxDepth (.object row))
    (writable : ∀ row ∈ rows, Json.isWritable (.object row) = true) :
    readRows (Text.Utf8.encode (Write.linesOf (rows.map Json.object))) =
      .ok (rows.map Json.storedObject) := by
  have all : ∀ value ∈ rows.map Json.object, Storable Json.maxDepth value := by
    intro value member
    obtain ⟨row, found, rfl⟩ := List.mem_map.mp member
    exact storable row found
  have absent {c : Char} (control : ¬ Json.IsPlain c) :
      ∀ part ∈ (rows.map Json.object).map Json.line, c ∉ part.toList := by
    intro part member
    obtain ⟨value, found, rfl⟩ := List.mem_map.mp member
    exact Json.not_mem_line (all value found) control
  have noReturn : '\r' ∉ (Write.linesOf (rows.map Json.object)).toList := by
    rw [toList_linesOf]
    intro member
    obtain ⟨part, found, inside⟩ := List.mem_flatMap.mp member
    rcases List.mem_append.mp inside with within | last
    · exact absent (by decide) part found within
    · cases List.mem_singleton.mp last
  have lines : (Text.Blocks.Reading.lines ⟨(Write.linesOf (rows.map Json.object)).toList, none⟩) =
      (rows.map fun row => Json.line (.object row)) ++ [""] := by
    unfold Text.Blocks.Reading.lines
    simp only
    rw [Text.universalChars_of_not_mem noReturn, toList_linesOf,
      Text.splitOn_flatMap (absent (by decide)), List.map_map]
    rfl
  unfold readRows
  rw [Text.Utf8.encode, Text.Blocks.read_encodeChars]
  simp only
  rw [lines, rowsOf_lines storable writable]

end Store
/-! ### Files of lines -/

/-- A path leads to a file that holds some values, one on each line. -/
structure HasLines (d : Disk) (p : Path) (values : List Json) : Prop where
  told : Disk.defect? p d.defects.stat = none
  writable : ∀ value ∈ values, value.isWritable = true
  file : ∃ modified, d.lookUp p = .ok (.file (Text.Utf8.encode (Write.linesOf values)) modified)

namespace HasLines
variable {d : Disk} {p : Path} {values : List Json} {value : Json}

theorem hasAnything (has : HasLines d p values) : d.hasAnything p = .ok true := by
  obtain ⟨modified, file⟩ := has.file
  unfold Disk.hasAnything Disk.stat
  rw [has.told]
  simp only
  rw [file]

theorem readAll (has : HasLines d p values) :
    d.readAll p = .ok (Text.Utf8.encode (Write.linesOf values)) := by
  obtain ⟨modified, file⟩ := has.file
  unfold Disk.readAll
  rw [file]

theorem readDocument (has : HasLines d p [value]) (storable : Storable Json.maxDepth value) :
    d.readDocument p = .ok (stored value) := by
  have line : Write.linesOf [value] = Json.lineOf value := by
    rw [← String.toList_inj, Store.toList_linesOf, Json.toList_lineOf]
    simp
  unfold Disk.readDocument
  rw [has.readAll, line]
  simp only
  rw [Text.Utf8.decode_encode]
  simp only
  rw [Json.read_lineOf storable (has.writable value (List.mem_singleton_self _))]
  rfl

end HasLines

/-! ### The manifest -/

namespace Manifest

def fields (m : Manifest) : List (String × Json) :=
  [("schema_version", .int Store.currentSchema),
   ("last_refresh_timestamp", .text m.refreshed.text),
   ("indexed_file_count", .nat m.fileCount),
   ("indexed_chunk_count", .nat m.chunkCount),
   ("root_hash", .text m.rootHash)]

theorem toJson_eq (m : Manifest) : m.toJson = .object m.fields := rfl

theorem nodup_keys_fields (m : Manifest) : (Entries.keys m.fields).Nodup := by
  simp [fields, Entries.keys]

theorem storable_toJson (m : Manifest) : Storable 1 m.toJson := by
  rw [toJson_eq]
  refine .object m.nodup_keys_fields ?_
  intro field member
  simp only [fields, List.mem_cons, List.not_mem_nil, or_false] at member
  rcases member with rfl | rfl | rfl | rfl | rfl
  all_goals first
    | exact .text ..
    | exact .whole ..

end Manifest

namespace Store
variable {s : Store} {d : Disk} {manifest : Manifest}

theorem readManifest_of_hasLines (has : HasLines d s.manifestPath [manifest.toJson]) :
    s.readManifest d = .ok (some (Json.storedObject manifest.fields)) := by
  unfold readManifest
  rw [has.hasAnything]
  simp only
  rw [has.readDocument (manifest.storable_toJson.mono (by decide))]
  rfl

theorem schemaOf_storedObject (manifest : Manifest) :
    schemaOf (Json.storedObject manifest.fields) = some currentSchema := by
  unfold schemaOf
  rw [Json.get?_storedObject manifest.nodup_keys_fields]
  rfl

theorem requireSchema_of_hasLines (has : HasLines d s.manifestPath [manifest.toJson]) :
    s.requireSchema d = .ok () := by
  unfold requireSchema
  rw [readManifest_of_hasLines has]
  simp only
  rw [if_pos (schemaOf_storedObject manifest)]

theorem status_of_hasLines (has : HasLines d s.manifestPath [manifest.toJson]) :
    s.status d = .ok (.ready (some manifest.refreshed.text) (.nat manifest.fileCount)
      (.nat manifest.chunkCount) (some manifest.rootHash)) := by
  unfold status
  rw [readManifest_of_hasLines has]
  simp only [Except.map, statusOf, if_pos (schemaOf_storedObject manifest), textOf, countOf,
    Json.get?_storedObject manifest.nodup_keys_fields]
  rfl

/-! ### The tree -/

theorem loadTree_of_hasLines {tree : HashTree} (regular : tree.IsRegular)
    (has : HasLines d s.treePath [tree.toJson]) : s.loadTree d = .ok (some tree.normal) := by
  have document : d.readDocument s.treePath = .ok (.object (Json.storedObject tree.fields)) :=
    has.readDocument ((HashTree.storable_toJson regular).mono (by decide))
  have loaded : HashTree.load d s.treePath = .ok tree.normal := by
    unfold HashTree.load
    rw [document]
    simp only
    rw [HashTree.ofFields_storedObject regular]
    rfl
  unfold loadTree
  rw [has.hasAnything]
  simp only
  rw [loaded]
  rfl

/-! ### The chunks -/

theorem chunksOf_storedObject (chunks : List Chunk) :
    chunksOf (chunks.map fun chunk => Json.storedObject chunk.fields) =
      .ok (chunks.map Chunk.normal) := by
  induction chunks with
  | nil => rfl
  | cons chunk rest ih =>
    rw [List.map_cons, chunksOf, Chunk.ofFields_storedObject]
    simp only
    rw [ih]
    rfl

theorem chunksIn_of_hasLines {chunks : List Chunk} {p : Path}
    (has : HasLines d p (chunks.map Chunk.toJson)) :
    chunksIn d p = .ok (Chunk.sortByAddress (chunks.map Chunk.normal)) := by
  have rows : chunks.map Chunk.toJson = (chunks.map Chunk.fields).map Json.object := by
    rw [List.map_map]
    rfl
  have storable : ∀ row ∈ chunks.map Chunk.fields, Storable Json.maxDepth (.object row) := by
    intro row member
    obtain ⟨chunk, -, rfl⟩ := List.mem_map.mp member
    exact chunk.storable_toJson.mono (by decide)
  have writable : ∀ row ∈ chunks.map Chunk.fields, Json.isWritable (.object row) = true := by
    intro row member
    refine has.writable _ ?_
    rw [rows]
    exact List.mem_map_of_mem member
  unfold chunksIn
  rw [has.readAll]
  simp only
  rw [rows, readRows_linesOf storable writable]
  simp only
  rw [List.map_map]
  have read := chunksOf_storedObject chunks
  rw [show (chunks.map (Json.storedObject ∘ Chunk.fields)) =
    chunks.map fun chunk => Json.storedObject chunk.fields from rfl, read]
  rfl

theorem loadChunks_of_hasLines {chunks : List Chunk} (schema : s.requireSchema d = .ok ())
    (has : HasLines d s.chunksPath (chunks.map Chunk.toJson)) :
    s.loadChunks d = .ok (Chunk.sortByAddress (chunks.map Chunk.normal)) := by
  unfold loadChunks
  rw [schema]
  simp only
  rw [has.hasAnything]
  simp only
  exact chunksIn_of_hasLines has

end Store
end SourceIndex
