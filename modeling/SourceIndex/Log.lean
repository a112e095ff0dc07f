/-!
# Messages

What a run has to tell besides its result: messages, in the order in which they came up.
-/

namespace SourceIndex

inductive LogLevel
  | warning
  | error
  deriving DecidableEq, Repr

def LogLevel.name : LogLevel → String
  | warning => "WARNING"
  | error => "ERROR"

structure LogLine where
  level : LogLevel
  text : String
  deriving DecidableEq, Repr

def LogLine.warning (text : String) : LogLine := ⟨.warning, text⟩

def LogLine.failure (text : String) : LogLine := ⟨.error, text⟩

end SourceIndex
