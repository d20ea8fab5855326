import DomTemplate.Text.CodePoint

/-! Sets of characters given by ascending, disjoint ranges with both ends included. -/

namespace DomTemplate

abbrev CodePointRanges := List (CodePoint × CodePoint)

def CodePointRanges.contains (ranges : CodePointRanges) (r : CodePoint) : Bool :=
  ranges.any fun (first, last) => first ≤ r && r ≤ last

end DomTemplate
