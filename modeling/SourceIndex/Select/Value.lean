import SourceIndex.Entries
import SourceIndex.Number.Binary64
import SourceIndex.Path.Basic
/-!
# The value of a file

Which files are worth chunking, told from their names: sources of known languages, project
manifests and tool settings are, read-me files and licences are not. A score from 0 to 100 ranks
them, and a summary counts the scores by suffix.
-/

namespace SourceIndex.Value

/-! ### Tables -/

def sourceSuffixes : List String :=
  [".js", ".jsx", ".ts", ".tsx", ".vue", ".svelte",
   ".css", ".scss", ".sass", ".less", ".styl",
   ".html", ".htm",
   ".py", ".pyi", ".rb", ".php", ".java", ".c", ".h", ".cpp", ".cc", ".cxx", ".hpp",
   ".cs", ".go", ".rs", ".kt", ".scala", ".clj", ".cljs",
   ".sh", ".bash", ".zsh", ".ps1",
   ".swift", ".m", ".mm", ".dart",
   ".sql", ".graphql", ".yaml", ".yml",
   ".lua", ".pl", ".r"]

def manifestSuffixes : List String := [".json", ".xml", ".toml", ".ini", ".conf"]

/-- Names, in any case, of files that are of value whatever their suffix. -/
def wholeNames : List String :=
  ["dockerfile", "makefile", "cmakelists.txt", ".env.example", ".gitignore", ".eslintrc",
   ".prettierrc"]

/-- What a name may start with, in any case, to be of value. -/
def nameStarts : List String := ["webpack.config.", "rollup.config.", "vite.config."]

def manifestNames : List String :=
  ["package.json", "composer.json", "cargo.toml", "pyproject.toml", "setup.cfg", "pom.xml",
   "tsconfig.json", "jsconfig.json"]

def manifestEnds : List String :=
  [".config.js", ".config.ts", ".config.json",
   "rc.js", "rc.ts", "rc.json", "rc.yaml", "rc.yml"]

def excludedDirectories : List String :=
  ["node_modules", "bower_components", "vendor", "packages",
   ".git", ".svn", ".hg", "CVS",
   "dist", "build", "out", "output", "public", "bin", "obj",
   "coverage", ".nyc_output", "htmlcov",
   "__pycache__", ".pytest_cache", ".tox", "venv", "env", ".env",
   ".cache", "tmp", "temp", ".tmp",
   ".vscode", ".idea", ".vs"]

def excludedNames : List String :=
  [".ds_store", "thumbs.db", "desktop.ini",
   "license", "license.txt", "license.md",
   "changelog", "changelog.txt", "changelog.md",
   "readme", "readme.txt", "readme.md", "readme.rst",
   "contributing", "contributing.md",
   "code_of_conduct.md", "security.md",
   "authors", "contributors", "maintainers"]

def coreSuffixes : List String :=
  [".js", ".jsx", ".ts", ".tsx", ".py", ".java", ".c", ".cpp", ".cs", ".go", ".rs"]

def frontendSuffixes : List String := [".vue", ".svelte", ".css", ".scss", ".sass", ".less"]

def scriptSuffixes : List String := [".sh", ".bash", ".ps1", ".sql"]

/-! ### Names -/

/-- A character as it counts where case does not: capitals as small letters, and the letters that
have an ASCII letter as a case partner as that letter. -/
def foldChar (c : Char) : Char :=
  if c = '\u212a' then 'k'
  else if c = '\u017f' then 's'
  else if c = '\u0130' || c = '\u0131' then 'i'
  else c.toLower

/-- A name without one line feed at its end. -/
def withoutLineEnd (cs : List Char) : List Char :=
  if cs.getLast? = some '\n' then cs.dropLast else cs

/-- Whether a name is of value whatever its suffix. A line feed at the end of a whole name is
overlooked. -/
def isNotedName (name : String) : Bool :=
  let folded := name.toList.map foldChar
  wholeNames.any (fun whole => whole.toList = withoutLineEnd folded) ||
    nameStarts.any (fun start => start.toList.isPrefixOf folded)

/-- Whether a file is a known project manifest or holds a tool's settings. A line feed at the end
of its name is overlooked, one inside the name of a tool's settings is not. -/
def isManifest (path : String) : Bool :=
  let name := withoutLineEnd (Path.lowerName path).toList
  manifestNames.any (fun known => known.toList = name) ||
    !name.contains '\n' && manifestEnds.any fun ending => ending.toList.isSuffixOf name

/-! ### Value and score -/

def isValuable (path : String) : Bool :=
  let name := Path.nameOf path
  let lowered := Text.lower name
  let suffix := Path.lowerSuffix path
  let stem := String.ofList (lowered.toList.take (lowered.length - suffix.length))
  if excludedNames.contains lowered || excludedNames.contains stem then false
  else if isNotedName name then true
  else if sourceSuffixes.contains suffix then true
  else if manifestSuffixes.contains suffix then isManifest path
  else false

def hasExcludedDirectory (path : String) : Bool :=
  (Text.splitOn '/' path).any excludedDirectories.contains

/-- The value of a file from 0, which is none, to 100. -/
def score (path : String) : Nat :=
  if hasExcludedDirectory path || !isValuable path then 0
  else
    let suffix := Path.lowerSuffix path
    if coreSuffixes.contains suffix then 100
    else if frontendSuffixes.contains suffix then 90
    else if scriptSuffixes.contains suffix then 80
    else if isNotedName (Path.nameOf path) then 75
    else if manifestSuffixes.contains suffix then 60
    else 50

/-! ### Summary -/

/-- The scores of the files with one suffix. -/
structure SuffixSummary where
  count : Nat
  /-- The mean score to one decimal place. -/
  average : Binary64
  deriving DecidableEq, Repr

/-- How the scores of some files are spread. Files with score 0 are excluded, all others are
valuable. -/
structure Summary where
  valuable : Nat
  excluded : Nat
  bySuffix : Entries SuffixSummary
  deriving DecidableEq, Repr

def noSuffix : String := "no_extension"

def suffixLabel (path : String) : String :=
  let suffix := Path.lowerSuffix path
  if suffix = "" then noSuffix else suffix

def SuffixSummary.ofScores (scores : List Nat) : SuffixSummary :=
  let total := scores.foldl (· + ·) 0
  ⟨scores.length, (Binary64.ofRatio false total scores.length).roundPlaces 1⟩

/-- The scores of some files, grouped by suffix. -/
def scoresBySuffix (paths : List String) : Entries (List Nat) :=
  paths.foldl
    (fun groups path =>
      let label := suffixLabel path
      Entries.put label ((Entries.get? label groups).getD [] ++ [score path]) groups)
    []

def summarize (paths : List String) : Summary :=
  let scores := paths.map score
  { valuable := (scores.filter (· ≠ 0)).length
    excluded := (scores.filter (· = 0)).length
    bySuffix := (Entries.sort (scoresBySuffix paths)).map fun (suffix, found) =>
      (suffix, .ofScores found) }

end SourceIndex.Value
