/-!
This module contains the blank characters of Unicode, those with the property `White_Space`.
-/

namespace KeyedTables

namespace Text

/--
The ranges of the blank characters, both ends included.
-/
def blankRanges : List (Nat × Nat) :=
  [(0x9, 0xD), (0x20, 0x20), (0x85, 0x85), (0xA0, 0xA0), (0x1680, 0x1680), (0x2000, 0x200A),
    (0x2028, 0x2029), (0x202F, 0x202F), (0x205F, 0x205F), (0x3000, 0x3000)]

def isBlank (c : Char) : Bool :=
  blankRanges.any fun (first, last) => decide (first ≤ c.toNat) && decide (c.toNat ≤ last)

def allBlank (s : String) : Bool :=
  s.toList.all isBlank

end Text

end KeyedTables
