import GoInventory.Source.Diagnostic
import GoInventory.Text.DecimalDigit
import GoInventory.Text.Letter
import GoInventory.Token.Number

/-!
# Lexemes

A source text is cut into lexemes: tokens, blanks, line breaks, comments, and
faulty pieces. The cut is always the longest one that the table of tokens
allows, and nothing is lost: the texts of the lexemes, one after the other, are
the source text (`flatMap_text_cut`).
-/

namespace GoInventory

/-- The classes of lexemes. Blanks, line breaks and comments are no tokens; a
byte order mark is none at the very start of a source. -/
inductive LexemeClass where
  | byteOrderMark
  | blank
  | lineBreak
  | lineComment
  | blockComment
  | ident
  | literal (kind : LiteralKind)
  | keyword (word : Keyword)
  | op (operator : Operator)
  | fault (fault : LexFault)
deriving DecidableEq, Repr

/-- A piece of source text and what it is. -/
structure Lexeme where
  cls : LexemeClass
  text : List Char
deriving DecidableEq, Repr

/-- How far a quoted literal reaches after its opening quote. -/
structure QuotedExtent where
  closed : Bool
  length : Nat
deriving DecidableEq, Repr

namespace QuotedExtent

/-- The same extent with `n` more characters before it. -/
def shift (n : Nat) (e : QuotedExtent) : QuotedExtent :=
  ⟨e.closed, e.length + n⟩

/-- The extent of a literal that ends at its first unescaped `quote`. A line
feed or the end of the text before it leaves the literal open; a backslash takes
the next character with it, if that one is on the same line. -/
def scan (quote : Char) : List Char → QuotedExtent
  | [] => ⟨false, 0⟩
  | ['\\'] => ⟨false, 1⟩
  | '\\' :: c :: rest => if c == '\n' then ⟨false, 1⟩ else (scan quote rest).shift 2
  | c :: rest =>
    if c == '\n' then ⟨false, 0⟩
    else if c == quote then ⟨true, 1⟩
    else (scan quote rest).shift 1

end QuotedExtent

namespace Lexeme

/-- A blank within a line. -/
def isBlank (c : Char) : Bool :=
  c == ' ' || c == '\t'

/-- A character that ends a line. -/
def isLineEnd (c : Char) : Bool :=
  c == '\n' || c == '\r'

/-- A character that an identifier can start with. -/
def isIdentStart (c : Char) : Bool :=
  c == '_' || Text.isLetter c

/-- A character that an identifier can go on with. -/
def isIdentPart (c : Char) : Bool :=
  isIdentStart c || Text.isDecimalDigit c

/-- The number of characters up to and with the end of a block comment, the
opening not included. -/
def commentLength? : List Char → Option Nat
  | '*' :: '/' :: _ => some 2
  | _ :: rest => (commentLength? rest).map (· + 1)
  | [] => none

/-- A class, and how many characters after the first belong to the lexeme. -/
abbrev Cut := LexemeClass × Nat

/-- A quoted literal whose opening quote is followed by `rest`. -/
def cutQuoted (quote : Char) (kind : LiteralKind) (unterminated : LexFault)
    (rest : List Char) : Cut :=
  let extent := QuotedExtent.scan quote rest
  (if extent.closed then .literal kind else .fault unterminated, extent.length)

/-- A rune literal is a quoted literal that is not empty. -/
def cutRune (rest : List Char) : Cut :=
  match cutQuoted '\x27' .rune .unterminatedRune rest with
  | (.literal kind, n) => (if n ≤ 1 then .fault .invalidToken else .literal kind, n)
  | cut => cut

/-- A raw string reaches to the next back quote. -/
def cutRawString (rest : List Char) : Cut :=
  let body := (rest.takeWhile (· != '\x60')).length
  if body < rest.length then (.literal .rawString, body + 1)
  else (.fault .unterminatedString, body)

/-- A number, whose first character is part of `text`. -/
def cutNumber (text : List Char) : Cut :=
  let n := Number.munch text
  match Number.classify (text.take n) with
  | some kind => (.literal kind, n - 1)
  | none => (.fault .invalidNumber, n - 1)

/-- An identifier or keyword that starts with `c`. -/
def cutWord (c : Char) (rest : List Char) : Cut :=
  let part := rest.takeWhile isIdentPart
  match Keyword.ofSpelling? (String.ofList (c :: part)) with
  | some word => (.keyword word, part.length)
  | none => (.ident, part.length)

/-- An operator, or a character that starts no token. -/
def cutOperator (text : List Char) : Cut :=
  match Operator.leading? text with
  | some operator => (.op operator, operator.spelling.length - 1)
  | none => (.fault .invalidToken, 0)

/-- The first lexeme of `c :: rest`. -/
def cutFirst (c : Char) (rest : List Char) : Cut :=
  if isBlank c then (.blank, (rest.takeWhile isBlank).length)
  else if c == '\n' then (.lineBreak, 0)
  else if c == '\r' then (.lineBreak, if rest.head? == some '\n' then 1 else 0)
  else if c == '\uFEFF' then (.byteOrderMark, 0)
  else if isIdentStart c then cutWord c rest
  else if c.isDigit then cutNumber (c :: rest)
  else if c == '\x22' then cutQuoted '\x22' .string .unterminatedString rest
  else if c == '\x27' then cutRune rest
  else if c == '\x60' then cutRawString rest
  else if c == '.' && rest.head?.any Char.isDigit then cutNumber (c :: rest)
  else if c == '/' && rest.head? == some '/' then
    (.lineComment, (rest.takeWhile (!isLineEnd ·)).length)
  else if c == '/' && rest.head? == some '*' then
    match commentLength? rest.tail with
    | some n => (.blockComment, n + 1)
    | none => (.fault .unterminatedComment, rest.length)
  else cutOperator (c :: rest)

/-- The lexemes of a source text. -/
def cut : List Char → List Lexeme
  | [] => []
  | c :: rest =>
    let (cls, n) := cutFirst c rest
    ⟨cls, c :: rest.take n⟩ :: cut (rest.drop n)
termination_by source => source.length
decreasing_by
  simp only [List.length_cons, List.length_drop]
  omega

/-- Cutting loses nothing. -/
theorem flatMap_text_cut (source : List Char) :
    (cut source).flatMap text = source := by
  fun_induction cut source with
  | case1 => rfl
  | case2 c rest cls n h ih =>
    rw [List.flatMap_cons, ih]
    simp

end Lexeme

end GoInventory
