/-!
# Bytes

The content of a file, before anything is known of its encoding.
-/

namespace SourceIndex

abbrev Bytes := List UInt8

/-- Where an offset stands in a sequence of the given length: a negative offset counts from the
end, and an offset outside is moved to the nearer end. -/
def clampOffset (length : Nat) (offset : Int) : Nat :=
  if offset < 0 then ((length : Int) + offset).toNat else min offset.toNat length

def Bytes.slice (data : Bytes) (start stop : Int) : Bytes :=
  let first := clampOffset data.length start
  (data.drop first).take (clampOffset data.length stop - first)

def Bytes.startsWith (data start : Bytes) : Bool := start.isPrefixOf data

end SourceIndex
