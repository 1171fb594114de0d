import GoInventory.Syntax.Lookahead

/-!
# Readers of tokens

The grammar is written once, for every monad in which the tokens of a file can
be read (`TokenReader`). Parsers are one such monad: they take tokens from a
cursor. What a reader does with a single token is its own matter; the three
kinds of list that the grammar is made of are the same for all.

The lists count down from a bound on the items that there can be, of which each
takes at least one token. It is up to the reader what the bound is, and what
happens when it is used up (`TokenReader.spent`).
-/

namespace GoInventory

/-- A monad in which tokens can be read. -/
class TokenReader (m : Type → Type) where
  /-- The `n`-th token ahead, counted from zero. -/
  peek? (n : Nat) : m (Option Tok)
  /-- The span of the next token. -/
  here : m Span
  /-- The span from the start of `first` to the end of the token read last. -/
  since (first : Span) : m Span
  /-- Stop with an error. -/
  fail {α : Type} (span : Span) (fault : SyntaxFault) : m α
  /-- Stop, since something else was expected here. -/
  unexpected {α : Type} (expected : Expected) : m α
  /-- Pass over the next token, if there is one. -/
  advance : m Unit
  /-- Pass over the next token if it is this one. -/
  eat (tok : Tok) : m Bool
  /-- An identifier. -/
  ident : m Ident
  /-- A string literal of either kind. -/
  stringLit : m StringLit
  /-- A semicolon or the end of the source. -/
  terminator (expected : Expected) : m Unit
  /-- The shape of the next entry of a parameter list. -/
  entryShape : m EntryShape
  /-- Whether the next member of a struct is embedded. -/
  isEmbedded? : m (Option Bool)
  /-- Whether the next element of an interface is a method. -/
  atMethod : m Bool
  /-- Whether an opening bracket is next that opens type parameters. -/
  atTypeParameters : m Bool
  /-- The length of an array, up to the closing bracket. -/
  arrayLength : m LengthExpr
  /-- Pass over the rest of a body, up to the brace that closes it. -/
  skipBody (start : Span) : m Unit
  /-- Pass over initializers. -/
  skipExpressions (start : Span) : m Unit
  /-- Run a reader that takes a bound on its steps. -/
  bounded {α : Type} (p : Nat → m α) : m α
  /-- Run a reader that takes a bound on how deep it is nested. -/
  nested {α : Type} (p : Nat → m α) : m α
  /-- What is done when the bound is used up; `p` is what would be done at the
  end of the source. -/
  spent {α : Type} (p : m α) : m α

/-- Parsers read the tokens ahead of a cursor. A bound that is used up means
that no token is left. -/
instance : TokenReader Parser where
  peek? := AtCursor.peek?
  here := AtCursor.here
  since := AtCursor.since
  fail := AtCursor.fail
  unexpected := AtCursor.unexpected
  advance := AtCursor.advance
  eat := AtCursor.eat
  ident := AtCursor.ident
  stringLit := AtCursor.stringLit
  terminator := AtCursor.terminator
  entryShape := Parser.ask (·.entryShape)
  isEmbedded? := Parser.ask (·.isEmbedded?)
  atMethod := Parser.ask (·.atMethod)
  atTypeParameters := Parser.ask (·.atTypeParameters)
  arrayLength := AtCursor.arrayLength
  skipBody := AtCursor.skipBody
  skipExpressions := AtCursor.skipExpressions
  bounded := AtCursor.bounded
  nested := AtCursor.nested
  spent := id

namespace TokenReader

variable {m : Type → Type} [Monad m] [TokenReader m] {α : Type}

/-- A result that does not depend on the tokens. -/
def ofExcept : Except SyntaxError α → m α
  | .ok a => pure a
  | .error e => fail e.span e.fault

/-- The next token is this one. -/
def isNext (tok : Tok) : m Bool := do
  return (← peek? 0) == some tok

/-- Pass over this token, which the grammar demands. -/
def expect (tok : Tok) (expected : Expected) : m Unit := do
  if ← eat tok then pure () else unexpected expected

/-- Items up to `close`, with commas between them and perhaps one after the last. -/
def commaItems (close : Operator) (itemEnd : Expected) (item : m α) : Nat → m (List α)
  | 0 => spent (unexpected itemEnd)
  | bound + 1 => do
    if ← eat (.op close) then
      pure []
    else
      let first ← item
      if ← eat (.op .comma) then
        let others ← commaItems close itemEnd item bound
        pure (first :: others)
      else
        expect (.op close) itemEnd
        pure [first]

/-- Items up to `close`, with commas between them and perhaps one after the last. -/
def commaList (close : Operator) (itemEnd : Expected) (item : m α) : m (List α) :=
  bounded (commaItems close itemEnd item)

/-- The end of a member: a semicolon, which is taken, or `close`, which is not. -/
def memberEnd (close : Operator) (expected : Expected) : m Unit := do
  if ← eat (.op .semicolon) then pure ()
  else if ← isNext (.op close) then pure ()
  else unexpected expected

/-- Items up to `close`, each followed by a semicolon or by `close`. -/
def memberItems (close : Operator) (itemEnd : Expected) (item : m α) :
    Nat → m (List α)
  | 0 => spent (unexpected itemEnd)
  | bound + 1 => do
    if ← eat (.op close) then
      pure []
    else
      let first ← item
      memberEnd close itemEnd
      let others ← memberItems close itemEnd item bound
      pure (first :: others)

/-- Items up to `close`, each followed by a semicolon or by `close`. -/
def memberList (close : Operator) (itemEnd : Expected) (item : m α) : m (List α) :=
  bounded (memberItems close itemEnd item)

/-- One item or more, with the operator `separator` between them. -/
def separatedItems (separator : Operator) (item : m α) : Nat → m (List α)
  | 0 => spent (pure [])
  | bound + 1 => do
    let first ← item
    if ← eat (.op separator) then
      let others ← separatedItems separator item bound
      pure (first :: others)
    else
      pure [first]

/-- One item or more, with the operator `separator` between them. -/
def separatedList (separator : Operator) (item : m α) : m (List α) :=
  bounded (separatedItems separator item)

/-- Names with commas between them. -/
def identList : m (List Ident) :=
  separatedList .comma ident

end TokenReader

namespace Parser

export TokenReader (peek? here since fail unexpected advance eat ident stringLit
  terminator entryShape isEmbedded?
  atMethod atTypeParameters arrayLength skipBody skipExpressions bounded nested spent
    ofExcept isNext expect
  commaItems commaList memberEnd memberItems memberList separatedItems
    separatedList identList)

end Parser

end GoInventory
