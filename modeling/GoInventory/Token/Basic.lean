import GoInventory.Source.Span
import GoInventory.Text.Quoted

/-!
# Tokens

The words of Go source text: identifiers, literals, keywords, and the operators
and delimiters, which are one table here. Each keyword and operator has one
spelling. Operators are listed longest spelling first, so that the first one
that a text starts with is the longest one that it starts with.
-/

namespace GoInventory

/-- The reserved words. -/
inductive Keyword where
  | «break» | case | chan | const | «continue» | default | defer | «else»
      | fallthrough | «for»
  | func | go | goto | «if» | «import» | interface | map | package | range
      | «return» | select
  | struct | switch | type | var
deriving DecidableEq, Repr

namespace Keyword

/-- The word as it stands in a source text. -/
def spelling : Keyword → String
  | «break» => "break"
  | case => "case"
  | chan => "chan"
  | const => "const"
  | «continue» => "continue"
  | default => "default"
  | defer => "defer"
  | «else» => "else"
  | fallthrough => "fallthrough"
  | «for» => "for"
  | func => "func"
  | go => "go"
  | goto => "goto"
  | «if» => "if"
  | «import» => "import"
  | interface => "interface"
  | map => "map"
  | package => "package"
  | range => "range"
  | «return» => "return"
  | select => "select"
  | struct => "struct"
  | switch => "switch"
  | type => "type"
  | var => "var"

/-- All keywords. -/
def all : List Keyword :=
  [«break», case, chan, const, «continue», default, defer, «else», fallthrough, «for»,
    func, go, goto,
   «if», «import», interface, map, package, range, «return», select, struct,
     switch, type, var]

/-- The keyword with this spelling. -/
def ofSpelling? (word : String) : Option Keyword :=
  all.find? (·.spelling == word)

/-- The name of the keyword in a listing of tokens. -/
def label (k : Keyword) : String :=
  "Kw" ++ k.spelling.capitalize

end Keyword

/-- Operators and delimiters. -/
inductive Operator where
  | ellipsis | shlAssign | shrAssign | andNotAssign
  | addAssign | subAssign | mulAssign | divAssign | modAssign | andAssign
      | orAssign | xorAssign
  | shl | shr | andNot | logicalAnd | logicalOr | equal | notEqual | lessEqual
      | greaterEqual
  | increment | decrement | define | arrow
  | assign | plus | minus | star | slash | percent | ampersand | pipe | caret
      | tilde | bang
  | less | greater
  | openParen | closeParen | openBracket | closeBracket | openBrace | closeBrace
  | comma | semicolon | colon | dot
deriving DecidableEq, Repr

namespace Operator

/-- The operator as it stands in a source text. -/
def spelling : Operator → List Char
  | ellipsis => ['.', '.', '.']
  | shlAssign => ['<', '<', '=']
  | shrAssign => ['>', '>', '=']
  | andNotAssign => ['&', '^', '=']
  | addAssign => ['+', '=']
  | subAssign => ['-', '=']
  | mulAssign => ['*', '=']
  | divAssign => ['/', '=']
  | modAssign => ['%', '=']
  | andAssign => ['&', '=']
  | orAssign => ['|', '=']
  | xorAssign => ['^', '=']
  | shl => ['<', '<']
  | shr => ['>', '>']
  | andNot => ['&', '^']
  | logicalAnd => ['&', '&']
  | logicalOr => ['|', '|']
  | equal => ['=', '=']
  | notEqual => ['!', '=']
  | lessEqual => ['<', '=']
  | greaterEqual => ['>', '=']
  | increment => ['+', '+']
  | decrement => ['-', '-']
  | define => [':', '=']
  | arrow => ['<', '-']
  | assign => ['=']
  | plus => ['+']
  | minus => ['-']
  | star => ['*']
  | slash => ['/']
  | percent => ['%']
  | ampersand => ['&']
  | pipe => ['|']
  | caret => ['^']
  | tilde => ['~']
  | bang => ['!']
  | less => ['<']
  | greater => ['>']
  | openParen => ['(']
  | closeParen => [')']
  | openBracket => ['[']
  | closeBracket => [']']
  | openBrace => ['\x7b']
  | closeBrace => ['\x7d']
  | comma => [',']
  | semicolon => [';']
  | colon => [':']
  | dot => ['.']

/-- All operators, longest spelling first. -/
def all : List Operator :=
  [ellipsis, shlAssign, shrAssign, andNotAssign,
   addAssign, subAssign, mulAssign, divAssign, modAssign, andAssign,
     orAssign, xorAssign,
   shl, shr, andNot, logicalAnd, logicalOr, equal, notEqual, lessEqual, greaterEqual,
   increment, decrement, define, arrow,
   assign, plus, minus, star, slash, percent, ampersand, pipe, caret, tilde, bang,
     less, greater,
   openParen, closeParen, openBracket, closeBracket, openBrace, closeBrace,
   comma, semicolon, colon, dot]

/-- The longest operator that the text starts with. -/
def leading? (text : List Char) : Option Operator :=
  all.find? (·.spelling.isPrefixOf text)

/-- The name of the operator in a listing of tokens. -/
def label : Operator → String
  | ellipsis => "Ellipsis"
  | shlAssign => "ShlAssign"
  | shrAssign => "ShrAssign"
  | andNotAssign => "AndNotAssign"
  | addAssign => "AddAssign"
  | subAssign => "SubAssign"
  | mulAssign => "MulAssign"
  | divAssign => "DivAssign"
  | modAssign => "ModAssign"
  | andAssign => "AndAssign"
  | orAssign => "OrAssign"
  | xorAssign => "XorAssign"
  | shl => "Shl"
  | shr => "Shr"
  | andNot => "AndNot"
  | logicalAnd => "LAnd"
  | logicalOr => "LOr"
  | equal => "EqEq"
  | notEqual => "NotEq"
  | lessEqual => "Le"
  | greaterEqual => "Ge"
  | increment => "Inc"
  | decrement => "Dec"
  | define => "Define"
  | arrow => "Arrow"
  | assign => "Assign"
  | plus => "Plus"
  | minus => "Minus"
  | star => "Star"
  | slash => "Slash"
  | percent => "Percent"
  | ampersand => "Amp"
  | pipe => "Pipe"
  | caret => "Caret"
  | tilde => "Tilde"
  | bang => "Bang"
  | less => "Lt"
  | greater => "Gt"
  | openParen => "LParen"
  | closeParen => "RParen"
  | openBracket => "LBrack"
  | closeBracket => "RBrack"
  | openBrace => "LBrace"
  | closeBrace => "RBrace"
  | comma => "Comma"
  | semicolon => "Semi"
  | colon => "Colon"
  | dot => "Dot"

end Operator

/-- The kinds of literal. -/
inductive LiteralKind where
  | int | float | imaginary | rune | string | rawString
deriving DecidableEq, Repr

/-- The name of a literal of this kind in a listing of tokens. -/
def LiteralKind.label : LiteralKind → String
  | int => "IntLit"
  | float => "FloatLit"
  | imaginary => "ImagLit"
  | rune => "RuneLit"
  | string => "StringLit"
  | rawString => "RawStringLit"

/-- What a token is, without its place. Identifiers and literals carry their
source text; `error` is a piece of text that is no token, so that the stream
still covers the source. -/
inductive Tok where
  | ident (name : String)
  | literal (kind : LiteralKind) (text : String)
  | keyword (word : Keyword)
  | op (operator : Operator)
  | error
deriving DecidableEq, Repr

namespace Tok

/-- The source text of an identifier or literal. -/
def text? : Tok → Option String
  | ident name => some name
  | literal _ text => some text
  | keyword _ | op _ | error => none

/-- The name of this kind of token in a listing. -/
def label : Tok → String
  | ident _ => "Ident"
  | literal kind _ => kind.label
  | keyword word => word.label
  | op operator => operator.label
  | error => "Error"

/-- How a message names the token: its text in quotes, or else its label. -/
def describe (t : Tok) : String :=
  match t.text? with
  | some text => Text.quote text
  | none => t.label

/-- A statement may end with this token, so a line break after it stands
for a semicolon. -/
def canEndStatement : Tok → Bool
  | ident _ | literal _ _ => true
  | keyword .break | keyword .continue | keyword .fallthrough | keyword .return =>
    true
  | op .increment | op .decrement | op .closeParen | op .closeBracket
      | op .closeBrace => true
  | _ => false

/-- An opening bracket of any kind. -/
def isOpening : Tok → Bool
  | op .openParen | op .openBracket | op .openBrace => true
  | _ => false

/-- A closing bracket of any kind. -/
def isClosing : Tok → Bool
  | op .closeParen | op .closeBracket | op .closeBrace => true
  | _ => false

/-- A string literal of either kind. -/
def isString : Tok → Bool
  | literal .string _ | literal .rawString _ => true
  | _ => false

end Tok

/-- A token in its place: byte offsets of its first byte and of the
byte after it. -/
structure Token where
  start : Nat
  tok : Tok
  stop : Nat
deriving DecidableEq, Repr

namespace Token

/-- The span of a token, as messages and trees record it. -/
def span (t : Token) : Span :=
  Span.clamp t.start t.stop

/-- A semicolon that no byte of the source spells, at an offset. -/
def insertedSemicolon (offset : Nat) : Token :=
  ⟨offset, .op .semicolon, offset⟩

end Token

end GoInventory
