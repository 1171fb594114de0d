import GoInventory.Syntax.Cursor

/-!
# Looking ahead

Two questions about types need more than the next token. Whether brackets after
a name are an array type or type arguments is decided by what follows the
bracket that closes them, and an array length is everything up to that bracket.
Both searches count brackets of all kinds alike.

Bodies of functions and initializers are not parsed: a body ends at the brace
that closes it, an initializer at the semicolon or closing bracket that stands
outside all brackets opened in it.
-/

namespace GoInventory

namespace Tok

/-- A token that a type can start with. -/
def startsType : Tok → Bool
  | ident _ => true
  | op .star | op .openBracket | op .openParen | op .arrow => true
  | keyword .func | keyword .map | keyword .chan | keyword .struct
      | keyword .interface => true
  | _ => false

end Tok

/-- The tokens up to the bracket that closes the brackets opened before
them, and the tokens from that bracket on; `depth` brackets are to be
closed before it. -/
def enclosed? (depth : Nat) : List Token → Option (List Token × List Token)
  | [] => none
  | t :: rest =>
    if t.tok.isOpening then
      (enclosed? (depth + 1) rest).map fun r => (t :: r.1, r.2)
    else if t.tok.isClosing then
      match depth with
      | 0 => some ([], t :: rest)
      | outer + 1 => (enclosed? outer rest).map fun r => (t :: r.1, r.2)
    else
      (enclosed? depth rest).map fun r => (t :: r.1, r.2)

/-- What an array length written with these tokens is. -/
def LengthExpr.ofTokens (span : Span) : List Token → LengthExpr
  | [⟨start, .ident name, stop⟩] => .ident ⟨name, .clamp start stop⟩
  | [⟨start, .ident pkg, stop⟩, ⟨_, .op .dot, _⟩, ⟨start', .ident sel, stop'⟩] =>
    .selector span ⟨pkg, .clamp start stop⟩ ⟨sel, .clamp start' stop'⟩
  | [⟨_, .literal kind text, _⟩] => .literal span kind text
  | _ => .other span

/-- With an opening bracket next, after the name in a type declaration:
does it open type parameters, and not an array length? The tokens are those
after the bracket. -/
def declaresTypes : Option Tok → Option Tok → Option Tok → Bool
  | some (.ident _), some next, last =>
    match next with
    | .ident _ | .op .comma | .op .tilde | .op .arrow => true
    | .keyword .interface | .keyword .func | .keyword .map | .keyword .chan
        | .keyword .struct => true
    | .op .openBracket => last == some (.op .closeBracket)
    | _ => false
  | _, _, _ => false

/-- What an entry of a parameter list looks like. -/
inductive EntryShape where
  | bare
  | typed
  | unnamed
deriving DecidableEq, Repr

namespace EntryShape

/-- The shape of an entry that starts with a name, given the token after the
name; `isArray` says whether brackets there belong to an array or slice type. -/
def afterName (isArray : Bool) : Option Tok → EntryShape
  | none | some (.op .comma) | some (.op .closeParen) => .bare
  | some (.op .dot) => .unnamed
  | some (.op .openBracket) => if isArray then .typed else .unnamed
  | some (.op .ellipsis) => .typed
  | some tok => if tok.startsType then .typed else .unnamed

/-- The shape of an entry that starts with these tokens. -/
def ofTokens (isArray : Bool) (first second : Option Tok) : EntryShape :=
  match first with
  | some (.ident _) => afterName isArray second
  | _ => .unnamed

end EntryShape

/-- Whether a struct member that starts with a name is embedded, given the token
after the name. -/
def embedsAfterName (isArray : Bool) : Option Tok → Bool
  | none | some (.op .semicolon) | some (.op .closeBrace) | some (.op .dot) => true
  | some (.op .openBracket) => !isArray
  | some tok => tok.isString

/-- Whether a struct member that starts with these tokens is embedded, so that
it has a type and no name of its own. There is no answer if no member can
start with them. -/
def embeds? (isArray : Bool) (first second : Option Tok) : Option Bool :=
  match first with
  | some (.op .star) => some true
  | some (.ident _) => some (embedsAfterName isArray second)
  | _ => none

/-- An element of an interface that starts with these tokens is a method. -/
def opensMethod : Option Tok → Option Tok → Bool
  | some (.ident _), some (.op .openParen) => true
  | _, _ => false

namespace Cursor

/-- With a name and an opening bracket next: do the brackets belong to an array
or slice type, of which the name is a field or parameter? Otherwise they hold
the type arguments of the name. -/
def bracketsStartType (c : Cursor) : Bool :=
  match c.peek? 2 with
  | some (.op .closeBracket) | some (.op .ellipsis) => true
  | _ =>
    match enclosed? 0 (c.rest.drop 2) with
    | some (_, _ :: next :: _) => next.tok.startsType
    | _ => false

/-- With an opening bracket next, after the name in a type declaration: does it
open type parameters? -/
def bracketsDeclareTypes (c : Cursor) : Bool :=
  declaresTypes (c.peek? 1) (c.peek? 2) (c.peek? 3)

/-- An opening bracket stands at the cursor, and it opens type parameters. -/
def atTypeParameters (c : Cursor) : Bool :=
  c.peek? 0 == some (.op .openBracket) && c.bracketsDeclareTypes

/-- The shape of the parameter entry at the cursor. -/
def entryShape (c : Cursor) : EntryShape :=
  .ofTokens c.bracketsStartType (c.peek? 0) (c.peek? 1)

/-- Whether the struct member at the cursor is embedded. -/
def isEmbedded? (c : Cursor) : Option Bool :=
  embeds? c.bracketsStartType (c.peek? 0) (c.peek? 1)

/-- A method of an interface starts at the cursor. -/
def atMethod (c : Cursor) : Bool :=
  opensMethod (c.peek? 0) (c.peek? 1)

end Cursor

/-- The stop of the token that closes the block and the tokens after it; `depth`
braces are open inside the block. -/
def blockEnd? (depth : Nat) : List Token → Option (Token × List Token)
  | [] => none
  | t :: rest =>
    match t.tok, depth with
    | .op .openBrace, _ => blockEnd? (depth + 1) rest
    | .op .closeBrace, 0 => some (t, rest)
    | .op .closeBrace, outer + 1 => blockEnd? outer rest
    | _, _ => blockEnd? depth rest

/-- How far an initializer reaches: its tokens, the tokens after it, and how
many brackets it leaves open. -/
structure ExprExtent where
  taken : List Token
  rest : List Token
  depth : Nat

namespace ExprExtent

/-- The same extent with one token more at its head. -/
def cons (t : Token) (e : ExprExtent) : ExprExtent :=
  { e with taken := t :: e.taken }

/-- Everything up to a semicolon or closing bracket outside all brackets,
or to the end. -/
def scan (depth : Nat) : List Token → ExprExtent
  | [] => ⟨[], [], depth⟩
  | t :: rest =>
    if t.tok.isOpening then (scan (depth + 1) rest).cons t
    else if t.tok.isClosing then
      match depth with
      | 0 => ⟨[], t :: rest, 0⟩
      | outer + 1 => (scan outer rest).cons t
    else if t.tok == .op .semicolon && depth == 0 then ⟨[], t :: rest, 0⟩
    else (scan depth rest).cons t

end ExprExtent

namespace AtCursor

variable {α : Type}

/-- The length of an array, up to the closing bracket. -/
def arrayLength : Parser LengthExpr := fun c =>
  match enclosed? 0 c.rest with
  | none => unexpected .closeBracket c
  | some ([], _) => unexpected .arrayLength c
  | some (first :: more, rest) =>
    let last := (first :: more).getLast (by simp)
    .ok (.ofTokens (.clamp first.start last.stop) (first :: more), c.after last rest)

/-- Pass over the rest of a body that starts at `start`, up to the brace
that closes it. -/
def skipBody (start : Span) : Parser Unit := fun c =>
  match blockEnd? 0 c.rest with
  | none => fail start .unclosedBody c
  | some (last, rest) => .ok ((), c.after last rest)

/-- Pass over the initializers that start at `start`; there has to be one
token or more. -/
def skipExpressions (start : Span) : Parser Unit := fun c =>
  let extent := ExprExtent.scan 0 c.rest
  if extent.depth > 0 then
    fail start .unclosedExpression c
  else
    match extent.taken.getLast? with
    | none => unexpected .expression c
    | some last => .ok ((), c.after last extent.rest)

/-- Run a parser that takes a bound on its steps with as many steps as there are
tokens ahead, and one more. -/
def bounded (p : Nat → Parser α) : Parser α := fun c =>
  p (c.rest.length + 1) c

/-- Run a parser that takes a bound on its depth with as much depth as there are
tokens ahead. -/
def nested (p : Nat → Parser α) : Parser α := fun c =>
  p c.rest.length c

end AtCursor

end GoInventory
