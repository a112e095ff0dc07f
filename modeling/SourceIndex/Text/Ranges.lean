/-!
# Tables of code point ranges

A property of characters is kept as a list of closed ranges of code points, ascending and apart.
-/

namespace SourceIndex.Text

abbrev Ranges := List (Nat × Nat)

def Ranges.has (table : Ranges) (code : Nat) : Bool :=
  table.any fun range => range.1 ≤ code && code ≤ range.2

end SourceIndex.Text
