import GoInventory.Source.Diagnostic
import GoInventory.Token.Basic

/-!
# Syntax errors

The parser stops at the first thing that is wrong. Most often the source has one
token where the grammar asks for another; a few faults concern a whole
construct. The wording of each is in `SyntaxFault.message` and nowhere else.
-/

namespace GoInventory

/-- What the grammar asks for at some place. -/
inductive Expected where
  | package
  | packageEnd
  | declaration
  | declarationEnd
  | specEnd
  | groupClose
  | identifier
  | stringLiteral
  | constantValue
  | variableTypeOrValue
  | expression
  | parametersOpen
  | parameterEnd
  | typeParameterEnd
  | typeArgumentEnd
  | type
  | arrayLength
  | closeBracket
  | mapKeyOpen
  | chanKeyword
  | closeParen
  | structOpen
  | structMember
  | structMemberEnd
  | interfaceOpen
  | interfaceElementEnd
deriving DecidableEq, Repr

/-- How a message names what was expected. -/
def Expected.text : Expected → String
  | package => "'package'"
  | packageEnd => "';' after package clause"
  | declaration => "declaration"
  | declarationEnd => "';' after top level declaration"
  | specEnd => "';' or ')'"
  | groupClose => "')'"
  | identifier => "identifier"
  | stringLiteral => "string literal"
  | constantValue => "'=' in constant declaration"
  | variableTypeOrValue => "type or '=' in variable declaration"
  | expression => "expression"
  | parametersOpen => "'('"
  | parameterEnd => "',' or ')' in parameter list"
  | typeParameterEnd => "',' or ']' in type parameter list"
  | typeArgumentEnd => "',' or ']' in type arguments"
  | type => "type"
  | arrayLength => "array length"
  | closeBracket => "']'"
  | mapKeyOpen => "'[' after map"
  | chanKeyword => "'chan'"
  | closeParen => "')'"
  | structOpen => "'\x7b' after struct"
  | structMember => "field name or embedded type"
  | structMemberEnd => "';' or '\x7d' in struct type"
  | interfaceOpen => "'\x7b' after interface"
  | interfaceElementEnd => "';' or '\x7d' in interface type"

/-- What stands in the source instead. -/
inductive Found where
  | newline
  | token (tok : Tok)
  | endOfInput
deriving DecidableEq, Repr

/-- How a message names what was found. -/
def Found.text : Found → String
  | newline => "newline"
  | token tok => tok.describe
  | endOfInput => "EOF"

/-- Why a sequence of tokens is no source file. -/
inductive SyntaxFault where
  | mismatch (expected : Expected) (found : Found)
  | noReceiver
  | multipleReceivers
  | unclosedBody
  | unclosedExpression
  | emptyTypeArguments
  | emptyTypeParameters
  | mixedParameters
  | missingParameterType
deriving DecidableEq, Repr

/-- The wording of a fault. -/
def SyntaxFault.message : SyntaxFault → String
  | mismatch expected found =>
    "expected " ++ expected.text ++ ", found " ++ found.text
  | noReceiver => "method has no receiver"
  | multipleReceivers => "method has multiple receivers"
  | unclosedBody => "unexpected EOF: unclosed '\x7b' in function body"
  | unclosedExpression => "unexpected EOF in expression"
  | emptyTypeArguments => "empty type argument list"
  | emptyTypeParameters => "empty type parameter list"
  | mixedParameters => "mixed named and unnamed parameters"
  | missingParameterType => "missing parameter type"

/-- A fault in its place. -/
structure SyntaxError where
  span : Span
  fault : SyntaxFault
deriving DecidableEq, Repr

/-- The report of a syntax error. -/
def SyntaxError.diagnostic (e : SyntaxError) : Diagnostic :=
  ⟨.syntactic, e.span, e.fault.message⟩

end GoInventory
