import SourceIndex.Select.Value
import SourceIndex.Store.Survey
/-!
# Summaries

What is told of a refreshed index.
-/

namespace SourceIndex

def changeCounts (changes : List FileChange) : Entries Json :=
  [ChangeKind.added, .modified, .deleted].map fun kind => (kind.name, .nat (kind.count changes))

def ScanCounts.toJson (c : ScanCounts) : Json :=
  .object
    [("total_files_scanned", .nat c.scanned),
     ("processed_files", .nat c.processed),
     ("skipped_files", .nat c.skippedFiles),
     ("failed_files", .nat c.failed),
     ("skipped_directories", .nat c.skippedDirectories),
     ("skipped_symlinks", .nat c.skippedLinks)]

def ScanError.toJson (e : ScanError) : Json :=
  .object
    [("path", .text e.path), ("kind", .text e.kind.name), ("message", .text e.message)]

def Value.Summary.toJson (s : Value.Summary) : Json :=
  .object
    [("total", .nat (s.valuable + s.excluded)),
     ("valuable", .nat s.valuable),
     ("excluded", .nat s.excluded),
     ("by_type", .object (s.bySuffix.map fun (suffix, found) =>
        (suffix, .object
          [("count", .nat found.count), ("average_score", .number (.real found.average))])))]

/-- What is told of a refreshed index. -/
structure Summary where
  survey : Survey
  chunkCount : Nat
  /-- How many files were chunked again. -/
  rechunked : Nat
  dispatch : DispatchStats
  refreshed : Moment

/-- A summary as an object. All of a run counts as one moment, so that no part of it takes any
time. -/
def Summary.toJson (s : Summary) : Json :=
  .object
    (changeCounts s.survey.changes ++
      [("root_hash", .text s.survey.tree.rootHash),
       ("file_count", .nat s.survey.tree.files.length),
       ("chunk_count", .nat s.chunkCount),
       ("rechunked_files", .nat s.rechunked),
       ("value", (Value.summarize (Entries.keys s.survey.tree.files)).toJson),
       ("scan", s.survey.scan.counts.toJson),
       ("errors", .list (s.survey.scan.errors.map ScanError.toJson)),
       ("dispatch", s.dispatch.toJson),
       ("duration_ms", .int 0),
       ("timestamp", .text s.refreshed.text),
       ("refresh_profile", .object
         (["scan_seconds", "tree_seconds", "chunk_seconds", "write_seconds"].map fun key =>
           (key, .int 0)))])

end SourceIndex
