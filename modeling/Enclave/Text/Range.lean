/-!
# Ranges of code points

A character property is a list of ranges of code points, both ends included, in ascending order.
-/
namespace Enclave.Text

def inRanges (ranges : List (Nat × Nat)) (c : Char) : Bool :=
  ranges.any fun range => range.1 ≤ c.toNat && c.toNat ≤ range.2

end Enclave.Text
