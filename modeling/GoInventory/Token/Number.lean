import GoInventory.Token.Basic

/-!
# Number literals

A number is read in two steps. First it is cut from the text: everything that
could belong to a number is taken, so that `12abc` is one faulty number and not
a number and a name. Then the text is classified: a radix mark, digits with
underscores anywhere among them, at most one point, and an exponent that
follows `e` in decimal and `p` in hexadecimal numbers; a final `i` makes the
number imaginary.
-/

namespace GoInventory

namespace Number

/-- A character that continues a number whatever stands before it. -/
def isPart (c : Char) : Bool :=
  c.isAlphanum || c == '_' || c == '.'

/-- A sign of an exponent. -/
def isSign (c : Char) : Bool :=
  c == '+' || c == '-'

/-- A letter after which a number may go on with a sign. -/
def takesSign (hex : Bool) (c : Char) : Bool :=
  if hex then c == 'p' || c == 'P' else c == 'e' || c == 'E'

/-- How many characters the run of number characters has at the head of the text. -/
def runLength (hex : Bool) : List Char → Nat
  | c :: s :: rest =>
    if takesSign hex c && isSign s then runLength hex rest + 2
    else if isPart c then runLength hex (s :: rest) + 1
    else 0
  | [c] => if isPart c then 1 else 0
  | [] => 0

/-- The text starts with the mark of a hexadecimal number. -/
def startsHex : List Char → Bool
  | '0' :: 'x' :: _ | '0' :: 'X' :: _ => true
  | _ => false

/-- How many characters at the head of the text are taken as one number. -/
def munch (text : List Char) : Nat :=
  runLength (startsHex text) text

/-- The base in which the digits of a number are read. -/
inductive Radix where
  | binary | octal | decimal | hex
deriving DecidableEq, Repr

namespace Radix

/-- A digit of the radix, letters in lower case. -/
def isDigit : Radix → Char → Bool
  | binary, c => c == '0' || c == '1'
  | octal, c => '0' ≤ c && c ≤ '7'
  | decimal, c => c.isDigit
  | hex, c => c.isDigit || ('a' ≤ c && c ≤ 'f')

/-- Numbers of this radix may have a point. -/
def hasPoint : Radix → Bool
  | decimal | hex => true
  | binary | octal => false

/-- The letter that opens the exponent. -/
def isExponentMark : Radix → Char → Bool
  | decimal, c => c == 'e'
  | hex, c => c == 'p'
  | _, _ => false

/-- The radix that a text in lower case is marked with, and the text
after the mark. -/
def split : List Char → Radix × List Char
  | '0' :: 'x' :: rest => (hex, rest)
  | '0' :: 'b' :: rest => (binary, rest)
  | '0' :: 'o' :: rest => (octal, rest)
  | text => (decimal, text)

end Radix

/-- The text without a sign at its head. -/
def dropSign : List Char → List Char
  | '+' :: rest => rest
  | '-' :: rest => rest
  | text => text

/-- An exponent after its mark: an optional sign, then digits, at least one. -/
def isExponent (text : List Char) : Bool :=
  let digits := dropSign text
  digits.all (fun c => c == '_' || c.isDigit) && digits.any Char.isDigit

/-- The kind of the number whose text (in lower case, after the radix mark)
is given, when `digit` and `point` say whether a digit and the point have
been read before. -/
def kindFrom (radix : Radix) (digit point : Bool) : List Char → Option LiteralKind
  | [] =>
    if !digit then none
    else if !point then some .int
    else if radix == .hex then none
    else some .float
  | c :: rest =>
    if c == '_' then kindFrom radix digit point rest
    else if c == '.' && !point && radix.hasPoint then kindFrom radix digit true rest
    else if radix.isExponentMark c then
      if digit && isExponent rest then some .float else none
    else if radix.isDigit c then kindFrom radix true point rest
    else none

/-- The number's text without the mark of an imaginary number, if it has it. -/
def withoutImaginaryMark (text : List Char) : Option (List Char) :=
  if text.getLast? == some 'i' then some text.dropLast else none

/-- The kind of a number that is not marked imaginary. -/
def realKind (text : List Char) : Option LiteralKind :=
  let (radix, digits) := Radix.split (text.map Char.toLower)
  kindFrom radix false false digits

/-- The kind of literal that a number's text is, if it is well formed. -/
def classify (text : List Char) : Option LiteralKind :=
  match withoutImaginaryMark text with
  | some body => (realKind body).map fun _ => .imaginary
  | none => realKind text

end Number

end GoInventory
