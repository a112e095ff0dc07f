import SourceIndex.Scan.Progress
/-!
# Scanning a workspace

A scan checks the settings and the root, walks the workspace to the end and puts the files in
order.
-/

namespace SourceIndex.Scan

def Walk.finish (rules : Rules) (w : Walk) : Walk :=
  match _h : w.next? rules with
  | some next => Walk.finish rules next
  | none => w
  termination_by w.weight rules
  decreasing_by exact Walk.weight_next _h

def sortFiles (files : List ScannedFile) : List ScannedFile :=
  files.mergeSort fun a b => !(b.file.path < a.file.path)

def Walk.result (rules : Rules) (w : Walk) : Except ScanFailure ScanResult :=
  match w.broken with
  | some e => .error (.file e)
  | none => .ok ⟨rules.root.text, sortFiles w.tally.files, w.tally.errors, w.tally.counts⟩

def rulesFor (config : Config) (previous : Entries FileNode) (disk : Disk) :
    Except ScanFailure Rules :=
  match config.scan.requiredExtensions with
  | .error e => .error (.config e)
  | .ok extensions =>
    (resolveRoot disk config.root.text).map fun root =>
      { root, dataDir := config.dataDir, settings := config.scan, extensions, previous }

/-- What a scan leaves: its result, its messages, and the disk. -/
structure Scanned where
  result : Except ScanFailure ScanResult
  log : List LogLine
  disk : Disk

/-- Scans a workspace. Digests are taken from `previous` for files that have not changed since. -/
def scan (config : Config) (previous : Entries FileNode) (disk : Disk) : Scanned :=
  match rulesFor config previous disk with
  | .error e => ⟨.error e, [], disk⟩
  | .ok rules =>
    let w := (Walk.start rules disk).finish rules
    ⟨w.result rules, w.tally.log, w.tally.disk⟩

end SourceIndex.Scan
