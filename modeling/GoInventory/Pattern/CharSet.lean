import GoInventory.Text.CaseFold
import GoInventory.Text.DecimalDigit
import GoInventory.Text.Letter
import GoInventory.Text.WordChar

/-!
# Sets of characters in patterns

What stands for one character in a pattern: a character, a range, a named class,
or a combination of these. Sets are kept as they are built, and membership is
decided by recursion on them. A set that ignores case holds a character when it
holds some case variant of it.
-/

namespace GoInventory.Pattern

/-- The classes that have a name. The first four are those of Unicode, the
others are ASCII only. -/
inductive NamedClass where
  | decimalDigit | whiteSpace | word | letter
  | asciiAlnum | asciiAlpha | ascii | asciiBlank | asciiControl
      | asciiDigit | asciiGraph
  | asciiLower | asciiPrint | asciiPunct | asciiSpace | asciiUpper | asciiWord
      | asciiHexDigit
deriving DecidableEq, Repr

namespace NamedClass

/-- The character is in the class. -/
def holds : NamedClass → Char → Bool
  | decimalDigit, c => Text.isDecimalDigit c
  | whiteSpace, c => Text.isSpaceChar c
  | word, c => Text.isWordChar c
  | letter, c => Text.isLetter c
  | asciiAlnum, c => c.isAlphanum
  | asciiAlpha, c => c.isAlpha
  | ascii, c => c.toNat < 0x80
  | asciiBlank, c => c == ' ' || c == '\t'
  | asciiControl, c => c.toNat < 0x20 || c.toNat == 0x7F
  | asciiDigit, c => c.isDigit
  | asciiGraph, c => 0x21 ≤ c.toNat && c.toNat ≤ 0x7E
  | asciiLower, c => c.isLower
  | asciiPrint, c => 0x20 ≤ c.toNat && c.toNat ≤ 0x7E
  | asciiPunct, c => 0x21 ≤ c.toNat && c.toNat ≤ 0x7E && !c.isAlphanum
  | asciiSpace, c => c == ' ' || (0x09 ≤ c.toNat && c.toNat ≤ 0x0D)
  | asciiUpper, c => c.isUpper
  | asciiWord, c => c.isAlphanum || c == '_'
  | asciiHexDigit, c => c.isDigit || ('a' ≤ c && c ≤ 'f') || ('A' ≤ c && c ≤ 'F')

/-- The class that a name between `[:` and `:]` stands for. -/
def ofAsciiName? (name : List Char) : Option NamedClass :=
  [("alnum", asciiAlnum), ("alpha", asciiAlpha), ("ascii", ascii),
    ("blank", asciiBlank),
   ("cntrl", asciiControl), ("digit", asciiDigit), ("graph", asciiGraph),
   ("lower", asciiLower),
   ("print", asciiPrint), ("punct", asciiPunct), ("space", asciiSpace),
   ("upper", asciiUpper),
   ("word", asciiWord), ("xdigit", asciiHexDigit)].lookup (String.ofList name)

/-- A property name without regard to case, blanks, hyphens and underscores. -/
def looseName (name : List Char) : String :=
  String.ofList ((name.filter fun c => !(c == ' ' || c == '-' || c == '_')).map
    Char.toLower)

/-- The class that a property name stands for. -/
def ofProperty? (name : List Char) : Option NamedClass :=
  [("l", letter), ("letter", letter), ("nd", decimalDigit),
    ("decimalnumber", decimalDigit),
   ("whitespace", whiteSpace)].lookup (looseName name)

end NamedClass

/-- A set of characters as it is built in a pattern. -/
inductive CharSet where
  | nothing
  | anything
  | single (c : Char)
  | range (first last : Char)
  | named (cls : NamedClass)
  | union (a b : CharSet)
  | inter (a b : CharSet)
  | diff (a b : CharSet)
  | symmDiff (a b : CharSet)
  | compl (a : CharSet)
  | folded (a : CharSet)
deriving DecidableEq, Repr

namespace CharSet

/-- The character is in the set. -/
def holds : CharSet → Char → Bool
  | nothing, _ => false
  | anything, _ => true
  | single d, c => c == d
  | range first last, c => first ≤ c && c ≤ last
  | named cls, c => cls.holds c
  | union a b, c => a.holds c || b.holds c
  | inter a b, c => a.holds c && b.holds c
  | diff a b, c => a.holds c && !b.holds c
  | symmDiff a b, c => a.holds c != b.holds c
  | compl a, c => !a.holds c
  | folded a, c => (Text.caseVariants c).any a.holds

/-- The set, without regard to case if so wished. -/
def foldIf (ignoreCase : Bool) (a : CharSet) : CharSet :=
  if ignoreCase then folded a else a

/-- The set, or all other characters if so wished. -/
def complIf (negated : Bool) (a : CharSet) : CharSet :=
  if negated then compl a else a

end CharSet

end GoInventory.Pattern
