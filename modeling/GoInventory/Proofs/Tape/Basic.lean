import GoInventory.Syntax.FileParser

/-!
# Reading tokens by position

A cursor keeps the tokens ahead, so it cannot look past them, and a parser that
runs out of steps gives the error that the end of the tokens would give. A tape
has all tokens of a file and a position among them. Its readers look tokens up
by their index, cut slices and count brackets, and what can go wrong there is
told apart from a syntax error: a reader crashes (`Halt.crashed`) if an index or
slice is out of range, a count falls below zero or the position passes the end.

Every loop and every recursion is given a number of rounds. A reader that needs
more of them is exhausted (`Halt.exhausted`), so one that is not, however many
rounds it has from some number on, comes to an end.

The grammar is that of `TokenReader`. What is said here is how single tokens are
read (`OnTape`).
-/

namespace GoInventory

/-- All tokens of a file, a position among them, where the token before the
position ended, and the length of the source. -/
structure Tape where
  tokens : Array Token
  pos : Nat
  lastStop : Nat
  sourceLength : Nat

/-- How a reader stops without a value: it rejects the tokens, it crashes, or
its rounds do not suffice. -/
inductive Halt where
  | rejected (e : SyntaxError)
  | crashed
  | exhausted

/-- A reader of a part of a tape. It is told the number of rounds that there are
for each loop. -/
abbrev TapeReader := ReaderT Nat (StateT Tape (Except Halt))

namespace Tape

/-- The tape at its first token. -/
def start (tokens : Array Token) (sourceLength : Nat) : Tape :=
  ⟨tokens, 0, 0, sourceLength⟩

/-- The position is that of a token, or right behind the last one. -/
def InRange (t : Tape) : Prop :=
  t.pos ≤ t.tokens.size

/-- The number of tokens left. -/
def left (t : Tape) : Nat :=
  t.tokens.size - t.pos

/-- The `n`-th token ahead, counted from zero. -/
def peek? (t : Tape) (n : Nat) : Option Tok :=
  (t.tokens[t.pos + n]?).map (·.tok)

/-- The span of the token at the position, or the empty span at the end
of the source. -/
def here (t : Tape) : Span :=
  match t.tokens[t.pos]? with
  | none => .point t.sourceLength
  | some u => u.span

/-- What stands at the position. -/
def found (t : Tape) : Found :=
  match t.tokens[t.pos]? with
  | none => .endOfInput
  | some u =>
    if u.tok == .op .semicolon && u.span.isEmpty then .newline else .token u.tok

/-- The tape one position further, behind the token `u`. -/
def after (t : Tape) (u : Token) : Tape :=
  { t with pos := t.pos + 1, lastStop := u.stop }

/-- The index of the bracket that brings the count of open brackets to zero. The
first of the tokens has the index `i`, and `depth` brackets are open before it.
There is none if a bracket closes that was not opened. -/
def closeFrom (i depth : Nat) : List Token → Option Nat
  | [] => none
  | u :: rest =>
    if u.tok.isOpening then closeFrom (i + 1) (depth + 1) rest
    else if u.tok.isClosing then
      match depth with
      | 0 => none
      | 1 => some i
      | outer + 2 => closeFrom (i + 1) (outer + 1) rest
    else closeFrom (i + 1) depth rest

/-- The index of the bracket that closes the one with the index `i`. -/
def matchingClose (t : Tape) (i : Nat) : Option Nat :=
  closeFrom i 0 (t.tokens.toList.drop i)

/-- With a name and an opening bracket next: do the brackets belong to an array
or slice type? -/
def bracketsStartType (t : Tape) : Bool :=
  match t.peek? 2 with
  | some (.op .closeBracket) | some (.op .ellipsis) => true
  | _ =>
    match t.matchingClose (t.pos + 1) with
    | some close => (t.tokens[close + 1]?).any (·.tok.startsType)
    | none => false

/-- What the entry of a parameter list at the position looks like. -/
def entryShape (t : Tape) : EntryShape :=
  .ofTokens t.bracketsStartType (t.peek? 0) (t.peek? 1)

/-- Whether the struct member at the position is embedded. There is no answer if
no member can start here. -/
def isEmbedded? (t : Tape) : Option Bool :=
  embeds? t.bracketsStartType (t.peek? 0) (t.peek? 1)

/-- A method of an interface starts at the position. -/
def atMethod (t : Tape) : Bool :=
  opensMethod (t.peek? 0) (t.peek? 1)

/-- An opening bracket stands at the position, and it opens type parameters. -/
def atTypeParameters (t : Tape) : Bool :=
  t.peek? 0 == some (.op .openBracket)
    && declaresTypes (t.peek? 1) (t.peek? 2) (t.peek? 3)

end Tape

/-! What a reader does on a tape. -/

namespace OnTape

variable {α : Type}

/-- Stop, since something is out of range. -/
def crash : TapeReader α :=
  throw .crashed

/-- Stop, since no rounds are left. -/
def exhausted : TapeReader α :=
  throw .exhausted

/-- Stop with an error. -/
def fail (span : Span) (fault : SyntaxFault) : TapeReader α :=
  throw (.rejected ⟨span, fault⟩)

/-- Give what a function finds on the tape. -/
def ask (f : Tape → α) : TapeReader α := do
  return f (← get)

/-- Stop, since something else was expected here. -/
def unexpected (expected : Expected) : TapeReader α := do
  let t ← get
  fail t.here (.mismatch expected t.found)

/-- The `n`-th token ahead. -/
def peek? (n : Nat) : TapeReader (Option Tok) :=
  ask (·.peek? n)

/-- The span of the next token. -/
def here : TapeReader Span :=
  ask (·.here)

/-- The span from the start of `first` to the end of the token read last. -/
def since (first : Span) : TapeReader Span :=
  ask fun t => .clamp first.start (max t.lastStop first.start)

/-- Take a token away, if there is one. The position must not pass the
end of the tape. -/
def bump : TapeReader (Option Token) := fun _ t =>
  match t.tokens[t.pos]? with
  | none => .ok (none, t)
  | some u =>
    if t.pos + 1 ≤ t.tokens.size then .ok (some u, t.after u) else .error .crashed

/-- Pass over the next token, if there is one. -/
def advance : TapeReader Unit := do
  let _ ← bump

/-- Pass over the next token if it is this one. -/
def eat (tok : Tok) : TapeReader Bool := do
  if (← peek? 0) == some tok then
    advance
    return true
  else
    return false

/-- An identifier. -/
def ident : TapeReader Ident := do
  let span ← here
  match ← peek? 0 with
  | some (.ident name) =>
    advance
    return ⟨name, span⟩
  | _ => unexpected .identifier

/-- A string literal of either kind. -/
def stringLit : TapeReader StringLit := do
  let span ← here
  match ← peek? 0 with
  | some (.literal .string text) =>
    advance
    return ⟨.interpreted, text, span⟩
  | some (.literal .rawString text) =>
    advance
    return ⟨.raw, text, span⟩
  | _ => unexpected .stringLiteral

/-- A semicolon or the end of the source. -/
def terminator (expected : Expected) : TapeReader Unit := do
  match ← peek? 0 with
  | none => return ()
  | some tok => if tok = .op .semicolon then advance else unexpected expected

/-! ## Rounds -/

/-- Run a reader that counts down from the number of rounds. -/
def bounded (p : Nat → TapeReader α) : TapeReader α := fun rounds =>
  p rounds rounds

/-! ## Regions -/

/-- The tokens from one index up to another one, which have to be in order
and in range. -/
def slice (start stop : Nat) : TapeReader (List Token) := fun _ t =>
  if start ≤ stop ∧ stop ≤ t.tokens.size
    then .ok ((t.tokens.extract start stop).toList, t) else .error .crashed

/-- The last of some tokens, by its index. -/
def lastOf (run : List Token) : TapeReader Token :=
  match run[run.length - 1]? with
  | some u => pure u
  | none => crash

/-- Pass over tokens up to a position. -/
def advanceTo (stop : Nat) : Nat → TapeReader Unit
  | 0 => exhausted
  | rounds + 1 => do
    if (← ask (·.pos)) < stop then
      advance
      advanceTo stop rounds
    else
      return ()

/-- The length of an array, up to the closing bracket. -/
def arrayLength : TapeReader LengthExpr := do
  let t ← ask id
  match t.matchingClose (t.pos - 1) with
  | none => unexpected .closeBracket
  | some close =>
    match ← slice t.pos close with
    | [] => unexpected .arrayLength
    | first :: more =>
      let last ← lastOf (first :: more)
      bounded (advanceTo close)
      return .ofTokens (.clamp first.start last.stop) (first :: more)

/-- One less of a count, which must not fall below zero. -/
def lower : Nat → TapeReader Nat
  | 0 => crash
  | outer + 1 => return outer

/-- Pass over tokens until `depth` open braces are closed. -/
def closeBraces (start : Span) (depth : Nat) : Nat → TapeReader Unit
  | 0 => exhausted
  | rounds + 1 => do
    if depth = 0 then
      return ()
    else
      match ← bump with
      | none => fail start .unclosedBody
      | some u =>
        if u.tok = .op .openBrace then
          closeBraces start (depth + 1) rounds
        else if u.tok = .op .closeBrace then
          let outer ← lower depth
          closeBraces start outer rounds
        else
          closeBraces start depth rounds

/-- Pass over the rest of a body that starts at `start`, up to the brace
that closes it. -/
def skipBody (start : Span) : TapeReader Unit :=
  bounded (closeBraces start 1)

/-- Pass over tokens up to a semicolon or closing bracket outside all brackets,
or to the end. The result is how many brackets are left open, and how many
tokens were taken. -/
def scanExpressions (depth taken : Nat) : Nat → TapeReader (Nat × Nat)
  | 0 => exhausted
  | rounds + 1 => do
    match ← peek? 0 with
    | none => return (depth, taken)
    | some tok =>
      if tok.isOpening then
        advance
        scanExpressions (depth + 1) (taken + 1) rounds
      else if tok.isClosing then
        if depth = 0 then
          return (depth, taken)
        else
          let outer ← lower depth
          advance
          scanExpressions outer (taken + 1) rounds
      else if tok = .op .semicolon ∧ depth = 0 then
        return (depth, taken)
      else
        advance
        scanExpressions depth (taken + 1) rounds

/-- Pass over the initializers that start at `start`; there has to be one
token or more. -/
def skipExpressions (start : Span) : TapeReader Unit := do
  let extent ← bounded (scanExpressions 0 0)
  if extent.1 > 0 then
    fail start .unclosedExpression
  else if extent.2 = 0 then
    unexpected .expression
  else
    return ()

end OnTape

/-- Tapes are read by position. A reader whose rounds are used up stops. -/
instance : TokenReader TapeReader where
  peek? := OnTape.peek?
  here := OnTape.here
  since := OnTape.since
  fail := OnTape.fail
  unexpected := OnTape.unexpected
  advance := OnTape.advance
  eat := OnTape.eat
  ident := OnTape.ident
  stringLit := OnTape.stringLit
  terminator := OnTape.terminator
  entryShape := OnTape.ask (·.entryShape)
  isEmbedded? := OnTape.ask (·.isEmbedded?)
  atMethod := OnTape.ask (·.atMethod)
  atTypeParameters := OnTape.ask (·.atTypeParameters)
  arrayLength := OnTape.arrayLength
  skipBody := OnTape.skipBody
  skipExpressions := OnTape.skipExpressions
  bounded := OnTape.bounded
  nested := OnTape.bounded
  spent _ := OnTape.exhausted

/-- The reader of files. -/
def TapeReader.file : TapeReader SourceFile :=
  TokenReader.file

end GoInventory
