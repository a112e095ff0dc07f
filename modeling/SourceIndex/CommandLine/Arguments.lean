import SourceIndex.Log
import SourceIndex.Number.Integer
/-!
# Arguments

The arguments of the command are switches, some of which take values. A switch may be shortened as
long as it stays clear which one is meant, and a single value may follow an equals sign. A word
that looks like a negative number or holds a space is a value although it starts with a dash.
-/

namespace SourceIndex.CommandLine

/-! ### Switches -/

inductive Switch
  | help
  | root
  | dataDir
  | extension
  | maxFileBytes
  | concurrent
  | maxWorkers
  | force
  | status
  | diff
  | logLevel
  deriving DecidableEq, Repr

namespace Switch

def all : List Switch :=
  [help, root, dataDir, extension, maxFileBytes, concurrent, maxWorkers, force, status, diff,
   logLevel]

def name : Switch → String
  | help => "--help"
  | root => "--repo-root"
  | dataDir => "--data-dir"
  | extension => "--ext"
  | maxFileBytes => "--max-file-bytes"
  | concurrent => "--concurrent"
  | maxWorkers => "--max-workers"
  | force => "--force"
  | status => "--status"
  | diff => "--diff"
  | logLevel => "--log-level"

def valueCount : Switch → Nat
  | help | concurrent | force | status => 0
  | root | dataDir | extension | maxFileBytes | maxWorkers | logLevel => 1
  | diff => 2

end Switch

def usage : String :=
  "usage: [--help] [--repo-root PATH] [--data-dir PATH] [--ext SUFFIX]... [--max-file-bytes N]\n" ++
    "       [--concurrent] [--max-workers N] [--force] [--status] [--diff OLD NEW]\n" ++
    "       [--log-level DEBUG|INFO|WARNING|ERROR]\n"

/-! ### Words -/

/-- What a word of the command line is. -/
inductive Word
  | value (s : String)
  /-- A switch, and the value that is attached to it by an equals sign. -/
  | switch (s : Switch) (attached : Option String)
  | unknown
  /-- The start of several switches. -/
  | ambiguous
  deriving DecidableEq, Repr

namespace Word

/-- Whether digits, with at most a decimal point in front of some of them, make up a text; a line
feed may follow. -/
def isUnsigned (cs : List Char) : Bool :=
  let body := if cs.getLast? = some '\n' then cs.dropLast else cs
  let isDigit c := (Text.decimalValue? c).isSome
  let whole := body.takeWhile isDigit
  match body.dropWhile isDigit with
  | [] => !whole.isEmpty
  | '.' :: fraction => !fraction.isEmpty && fraction.all isDigit
  | _ => false

/-- A word with a dash in front of it that is no switch. -/
def dashed (cs : List Char) : Word :=
  if isUnsigned cs.tail || cs.contains ' ' then .value (String.ofList cs) else .unknown

/-- The short switch for help with what is written behind it: the same switch again and again, of
which an equals sign may set off all but the first. Anything else is a value that is attached to
it. -/
def shortHelp (tail : List Char) : Word :=
  let rest := if tail.head? = some '=' then tail.tail else tail
  let asksAgain := !rest.isEmpty && rest.all (· = 'h')
  .switch .help (if tail.isEmpty || asksAgain then none else some (String.ofList rest))

def long (cs : List Char) : Word :=
  let start := String.ofList (cs.takeWhile (· ≠ '='))
  let attached := ((cs.dropWhile (· ≠ '=')).tail?).map String.ofList
  match Switch.all.find? fun other => other.name = start with
  | some found => .switch found attached
  | none =>
    match Switch.all.filter fun other => other.name.startsWith start with
    | [] => dashed cs
    | [found] => .switch found attached
    | _ => .ambiguous

def ofText (s : String) : Word :=
  match s.toList with
  | '-' :: '-' :: rest => long ('-' :: '-' :: rest)
  | '-' :: 'h' :: tail => shortHelp tail
  | '-' :: c :: rest => dashed ('-' :: c :: rest)
  | _ => .value s

end Word

/-! ### Arguments -/

/-- The least grave messages that are shown. -/
inductive Verbosity
  | debug
  | info
  | warning
  | error
  deriving DecidableEq, Repr

def Verbosity.ofName? : String → Option Verbosity
  | "DEBUG" => some debug
  | "INFO" => some info
  | "WARNING" => some warning
  | "ERROR" => some error
  | _ => none

def Verbosity.shows : Verbosity → LogLevel → Bool
  | error, .warning => false
  | _, _ => true

structure Arguments where
  root : String := "."
  dataDir : Option String := none
  extensions : List String := []
  maxFileBytes : Option Int := none
  concurrent : Bool := false
  maxWorkers : Option Int := none
  force : Bool := false
  status : Bool := false
  /-- The files of two trees to compare. -/
  diff : Option (String × String) := none
  verbosity : Verbosity := .warning
  deriving DecidableEq, Repr

/-- The arguments after a switch with its values; none if the values do not fit. -/
def Arguments.set (a : Arguments) : Switch → List String → Option Arguments
  | .root, [v] => some { a with root := v }
  | .dataDir, [v] => some { a with dataDir := some v }
  | .extension, [v] => some { a with extensions := a.extensions ++ [v] }
  | .maxFileBytes, [v] => (Integer.ofText? v).map fun n => { a with maxFileBytes := some n }
  | .concurrent, [] => some { a with concurrent := true }
  | .maxWorkers, [v] => (Integer.ofText? v).map fun n => { a with maxWorkers := some n }
  | .force, [] => some { a with force := true }
  | .status, [] => some { a with status := true }
  | .diff, [old, new] => some { a with diff := some (old, new) }
  | .logLevel, [v] => (Verbosity.ofName? v).map fun level => { a with verbosity := level }
  | _, _ => none

inductive Request
  | run (a : Arguments)
  | help
  /-- The command line breaks the rules. -/
  | misuse
  deriving DecidableEq, Repr

/-- Reads words one after the other. `open?` is a switch that still wants values, with those that
it has; `stray` tells whether there was a word that belongs to no switch. -/
def readWords (a : Arguments) (stray : Bool) (open? : Option (Switch × List String)) :
    List Word → Request
  | [] => if stray || open?.isSome then .misuse else .run a
  | word :: rest =>
    match open?, word with
    | some (switch, got), .value v =>
      if got.length + 1 < switch.valueCount then readWords a stray (some (switch, got ++ [v])) rest
      else
        match a.set switch (got ++ [v]) with
        | some a => readWords a stray none rest
        | none => .misuse
    | some _, _ => .misuse
    | none, .switch .help none => .help
    | none, .switch switch none =>
      if switch.valueCount = 0 then
        match a.set switch [] with
        | some a => readWords a stray none rest
        | none => .misuse
      else readWords a stray (some (switch, [])) rest
    | none, .switch switch (some v) =>
      match a.set switch [v] with
      | some a => readWords a stray none rest
      | none => .misuse
    | none, _ => readWords a true none rest

/-- What a command line asks for. After two dashes alone no word is a switch, so that none belongs
to one. -/
def Request.ofWords (argv : List String) : Request :=
  let words := (argv.takeWhile (· ≠ "--")).map Word.ofText
  if words.contains .ambiguous then .misuse
  else readWords {} (argv.contains "--") none words

end SourceIndex.CommandLine
