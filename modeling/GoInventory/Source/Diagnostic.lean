import GoInventory.Source.Span

/-!
# Diagnostics

What is wrong with a source text, and where. A text that cannot be read gives
a `ParseFailure`: all lexical faults in order, or else the one fault that
stopped the parser. Its message is that of the first diagnostic, with the
number of the others.
-/

namespace GoInventory

/-- Why a piece of text is no token. -/
inductive LexFault where
  | invalidToken
  | invalidNumber
  | unterminatedString
  | unterminatedRune
  | unterminatedComment
deriving DecidableEq, Repr

/-- The wording of a lexical fault. -/
def LexFault.message : LexFault → String
  | invalidToken => "invalid token"
  | invalidNumber => "invalid numeric literal"
  | unterminatedString => "unterminated string"
  | unterminatedRune => "unterminated rune literal"
  | unterminatedComment => "unterminated comment"

/-- Which stage found the fault. -/
inductive Stage where
  | lexical
  | syntactic
deriving DecidableEq, Repr

/-- The word that opens a report of this stage. -/
def Stage.word : Stage → String
  | lexical => "lex"
  | syntactic => "syntax"

/-- One fault of a source text. -/
structure Diagnostic where
  stage : Stage
  span : Span
  message : String
deriving DecidableEq, Repr

namespace Diagnostic

/-- The report of a lexical fault. -/
def ofLexFault (fault : LexFault) (span : Span) : Diagnostic :=
  ⟨.lexical, span, fault.message⟩

/-- One line that says what is wrong and where. -/
def text (d : Diagnostic) : String :=
  s!"{d.stage.word} error at {d.span.start}..{d.span.stop}: {d.message}"

end Diagnostic

/-- A source text that could not be read. -/
structure ParseFailure where
  diagnostics : List Diagnostic
deriving DecidableEq, Repr

namespace ParseFailure

/-- The first diagnostic stands for the failure. -/
def first? (f : ParseFailure) : Option Diagnostic :=
  f.diagnostics.head?

/-- The first diagnostic, and how many more there are. -/
def message (f : ParseFailure) : String :=
  match f.diagnostics with
  | [] => "parse failed"
  | [only] => only.text
  | first :: rest => s!"{first.text} (and {rest.length} more)"

/-- Where the first diagnostic starts. -/
def position (f : ParseFailure) (source : String) : Position :=
  match f.first? with
  | none => ⟨1, 1⟩
  | some d => d.span.position source

end ParseFailure

end GoInventory
