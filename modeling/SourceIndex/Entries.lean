/-!
# Entries

A finite map from texts that remembers the order in which its keys first arrived: the entries of a
document's object, and the nodes of a hash tree.
-/

namespace SourceIndex

/-- Keys with their values, in order of first arrival. -/
abbrev Entries (α : Type) := List (String × α)

namespace Entries
variable {α : Type}

def get? (key : String) (entries : Entries α) : Option α :=
  (entries.find? fun entry => entry.1 == key).map (·.2)

def has (key : String) (entries : Entries α) : Bool := entries.any fun entry => entry.1 == key

/-- The entries with the value of a key set: in place if the key is there, else at the end. -/
def put (key : String) (value : α) (entries : Entries α) : Entries α :=
  if has key entries then
    entries.map fun entry => if entry.1 == key then (entry.1, value) else entry
  else entries ++ [(key, value)]

def keys (entries : Entries α) : List String := entries.map (·.1)

/-- The entries that a sequence of settings leaves: the last value of each key stays. -/
def ofList (settings : List (String × α)) : Entries α :=
  settings.foldl (fun entries setting => put setting.1 setting.2 entries) []

def sort (entries : Entries α) : Entries α :=
  entries.mergeSort fun a b => !(b.1 < a.1)

end Entries
end SourceIndex
