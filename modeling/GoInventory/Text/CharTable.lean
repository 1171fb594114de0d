/-!
# Tables of characters

A property of characters is kept as a list of closed ranges of code points.
Membership is a search through the ranges, so that what a table says is exactly
the disjunction that it spells.
-/

namespace GoInventory.Text

/-- Closed ranges of code points. -/
abbrev CharTable := List (Nat × Nat)

/-- Some range of the table contains the character. -/
def CharTable.holds (table : CharTable) (c : Char) : Bool :=
  table.any fun r => r.1 ≤ c.toNat && c.toNat ≤ r.2

/-- A character of the white space property (Unicode 16): blanks, line breaks
and the spaces of typography. -/
def isSpaceChar (c : Char) : Bool :=
  CharTable.holds
    [(0x09, 0x0D), (0x20, 0x20), (0x85, 0x85), (0xA0, 0xA0), (0x1680, 0x1680),
      (0x2000, 0x200A),
     (0x2028, 0x2029), (0x202F, 0x202F), (0x205F, 0x205F), (0x3000, 0x3000)] c

end GoInventory.Text
