import GoInventory.Token.Lexeme

/-!
# The token stream

Reading the lexemes of a source in order gives its tokens. Blanks and comments
are passed over. A line break after a token that can end a statement is read as
a semicolon, placed at the break; so is the end of the source, and a break
inside a block comment. A faulty lexeme is read as an error token together with
its fault, so tokens and diagnostics stay in step.

`readings` reads a whole source at once. `Lexer` reads it token by token and
hands out the diagnostics found on the way.
-/

namespace GoInventory

namespace Lexeme

/-- The number of bytes in the lexeme. -/
def byteLength (l : Lexeme) : Nat :=
  Text.byteLength l.text

/-- The byte offset, within the lexeme, of its first line end. -/
def lineEnd? (l : Lexeme) : Option Nat :=
  let before := l.text.takeWhile (!isLineEnd ·)
  if before.length < l.text.length then some (Text.byteLength before) else none

/-- What reading a lexeme comes to. -/
inductive Effect where
  | pass
  | semicolon (offset : Nat)
  | token (tok : Tok)
  | fault (fault : LexFault)
deriving DecidableEq, Repr

/-- The effect of reading a lexeme at an offset, when `canEnd` says whether the
token before it can end a statement. -/
def effect (canEnd : Bool) (offset : Nat) (l : Lexeme) : Effect :=
  match l.cls with
  | .byteOrderMark => if offset == 0 then .pass else .fault .invalidToken
  | .blank | .lineComment => .pass
  | .lineBreak | .blockComment =>
    match canEnd, l.lineEnd? with
    | true, some n => .semicolon (offset + n)
    | _, _ => .pass
  | .ident => .token (.ident (String.ofList l.text))
  | .literal kind => .token (.literal kind (String.ofList l.text))
  | .keyword word => .token (.keyword word)
  | .op operator => .token (.op operator)
  | .fault fault => .fault fault

end Lexeme

/-- A token as it was read; an error token comes with its fault. -/
structure Reading where
  token : Token
  fault? : Option LexFault
deriving DecidableEq, Repr

namespace Reading

/-- The diagnostic of a faulty reading. -/
def diagnostic? (r : Reading) : Option Diagnostic :=
  r.fault?.map (Diagnostic.ofLexFault · r.token.span)

/-- The reading of an inserted semicolon. -/
def semicolon (offset : Nat) : Reading :=
  ⟨.insertedSemicolon offset, none⟩

/-- The reading of a token. -/
def ofTok (start : Nat) (tok : Tok) (stop : Nat) : Reading :=
  ⟨⟨start, tok, stop⟩, none⟩

/-- The reading of a faulty lexeme. -/
def ofFault (start : Nat) (fault : LexFault) (stop : Nat) : Reading :=
  ⟨⟨start, .error, stop⟩, some fault⟩

end Reading

/-- All readings of the lexemes from an offset on. -/
def readings (canEnd : Bool) (offset : Nat) : List Lexeme → List Reading
  | [] => if canEnd then [.semicolon offset] else []
  | l :: rest =>
    let stop := offset + l.byteLength
    match l.effect canEnd offset with
    | .pass => readings canEnd stop rest
    | .semicolon place => .semicolon place :: readings false stop rest
    | .token tok => .ofTok offset tok stop :: readings tok.canEndStatement stop rest
    | .fault fault => .ofFault offset fault stop :: readings false stop rest

/-- The tokens of a source text and the faults found in it. -/
structure Tokenized where
  tokens : List Token
  diagnostics : List Diagnostic
deriving DecidableEq, Repr

/-- Read a whole source text. -/
def tokenize (source : String) : Tokenized :=
  let all := readings false 0 (Lexeme.cut source.toList)
  ⟨all.map (·.token), all.filterMap (·.diagnostic?)⟩

/-- A lexer between two tokens: the lexemes ahead and their offset, whether
the last token can end a statement, and the diagnostics found since they
were last taken. -/
structure Lexer where
  ahead : List Lexeme
  offset : Nat
  canEnd : Bool
  found : List Diagnostic
deriving DecidableEq, Repr

namespace Lexer

/-- A lexer at the start of a source text. -/
def ofSource (source : String) : Lexer :=
  ⟨Lexeme.cut source.toList, 0, false, []⟩

/-- The first reading from an offset on, and the lexer after it. -/
def nextFrom (found : List Diagnostic) (canEnd : Bool) (offset : Nat) :
    List Lexeme → Option (Token × Lexer)
  | [] =>
    if canEnd then some (.insertedSemicolon offset, ⟨[], offset, false, found⟩)
      else none
  | l :: rest =>
    let stop := offset + l.byteLength
    match l.effect canEnd offset with
    | .pass => nextFrom found canEnd stop rest
    | .semicolon place => some (.insertedSemicolon place, ⟨rest, stop, false, found⟩)
    | .token tok =>
      some (⟨offset, tok, stop⟩, ⟨rest, stop, tok.canEndStatement, found⟩)
    | .fault fault =>
      let diagnostic := Diagnostic.ofLexFault fault (Span.clamp offset stop)
      some (⟨offset, .error, stop⟩, ⟨rest, stop, false, found ++ [diagnostic]⟩)

/-- The next token, or none at the end. -/
def next? (lexer : Lexer) : Option (Token × Lexer) :=
  nextFrom lexer.found lexer.canEnd lexer.offset lexer.ahead

/-- The diagnostics found since the last time, and the lexer without them. -/
def takeDiagnostics (lexer : Lexer) : List Diagnostic × Lexer :=
  (lexer.found, { lexer with found := [] })

end Lexer

end GoInventory
