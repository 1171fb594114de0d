import GoInventory.Syntax.Fault
import GoInventory.Syntax.Tree

/-!
# Reading tokens

A `Cursor` stands between two tokens of a file. A `Parser` takes what it can
from the cursor and either gives a value or stops with the first syntax error.
This module has the parsers that take single tokens.
-/

namespace GoInventory

/-- A place between two tokens: the tokens ahead, where the last token ended,
and the length of the source. -/
structure Cursor where
  rest : List Token
  lastStop : Nat
  sourceLength : Nat
deriving Repr

namespace Cursor

/-- A cursor before the first token. -/
def start (tokens : List Token) (sourceLength : Nat) : Cursor :=
  ⟨tokens, 0, sourceLength⟩

/-- The `n`-th token ahead, counted from zero. -/
def peek? (c : Cursor) (n : Nat) : Option Tok :=
  (c.rest[n]?).map (·.tok)

/-- The span of the next token, or the empty span at the end of the source. -/
def here (c : Cursor) : Span :=
  match c.rest with
  | [] => .point c.sourceLength
  | t :: _ => t.span

/-- The cursor after `t`, which was read just before `rest`. -/
def after (c : Cursor) (t : Token) (rest : List Token) : Cursor :=
  { c with rest := rest, lastStop := t.stop }

/-- The span from the start of `first` to the end of the token read last. -/
def since (c : Cursor) (first : Span) : Span :=
  .clamp first.start (max c.lastStop first.start)

/-- What stands next. An inserted semicolon is a line break to the reader
of a message. -/
def found (c : Cursor) : Found :=
  match c.rest with
  | [] => .endOfInput
  | t :: _ =>
    if t.tok == .op .semicolon && t.span.isEmpty then .newline else .token t.tok

/-- The error that something else was expected here. -/
def mismatch (c : Cursor) (expected : Expected) : SyntaxError :=
  ⟨c.here, .mismatch expected c.found⟩

end Cursor

/-- A parser of a part of a file: it takes tokens from a cursor and gives a
value and the cursor after them, or stops with an error. -/
def Parser (α : Type) : Type :=
  Cursor → Except SyntaxError (α × Cursor)

namespace Parser

variable {α β : Type}

/-- One parser after the other. -/
@[always_inline, inline]
def andThen (p : Parser α) (f : α → Parser β) : Parser β := fun c =>
  match p c with
  | .ok (a, c') => f a c'
  | .error e => .error e

/-- A parser that takes nothing. -/
@[always_inline, inline]
def give (a : α) : Parser α := fun c =>
  .ok (a, c)

instance : Monad Parser where
  pure := give
  bind := andThen

theorem bind_apply (p : Parser α) (f : α → Parser β) (c : Cursor) :
    (p >>= f) c = match p c with
      | .ok (a, c') => f a c'
      | .error e => .error e := rfl

/-- If the first parser gives a value, the second goes on from there. -/
theorem bind_ok {p : Parser α} {f : α → Parser β} {c c' : Cursor} {a : α}
    (h : p c = .ok (a, c')) : (p >>= f) c = f a c' := by
  rw [bind_apply, h]

/-- If the first parser stops, so do both. -/
theorem bind_error {p : Parser α} {f : α → Parser β} {c : Cursor} {e : SyntaxError}
    (h : p c = .error e) : (p >>= f) c = .error e := by
  rw [bind_apply, h]

/-- Both parsers succeed exactly if the first gives a value from which the
second succeeds. -/
theorem bind_eq_ok_iff {p : Parser α} {f : α → Parser β} {c c' : Cursor} {b : β} :
    (p >>= f) c = .ok (b, c') ↔ ∃ a d, p c = .ok (a, d) ∧ f a d = .ok (b, c') := by
  rw [bind_apply]
  cases p c with
  | error e => simp
  | ok r =>
    obtain ⟨a, d⟩ := r
    constructor
    · intro h
      exact ⟨a, d, rfl, h⟩
    · rintro ⟨a', d', heq, h⟩
      cases heq
      exact h

/-- Give what a function finds at the cursor. -/
def ask (f : Cursor → α) : Parser α := fun c =>
  .ok (f c, c)

end Parser

/-! What a parser does at a cursor. -/

namespace AtCursor

open Parser

variable {α : Type}

/-- Stop with an error. -/
def fail (span : Span) (fault : SyntaxFault) : Parser α := fun _ =>
  .error ⟨span, fault⟩

/-- Stop, since something else was expected here. -/
def unexpected (expected : Expected) : Parser α := fun c =>
  .error (c.mismatch expected)

/-- The `n`-th token ahead. -/
def peek? (n : Nat) : Parser (Option Tok) :=
  ask (·.peek? n)

/-- The span of the next token. -/
def here : Parser Span :=
  ask (·.here)

/-- The span from the start of `first` to the end of the token read last. -/
def since (first : Span) : Parser Span :=
  ask (·.since first)

/-- Pass over the next token, if there is one. -/
def advance : Parser Unit := fun c =>
  match c.rest with
  | [] => .ok ((), c)
  | t :: rest => .ok ((), c.after t rest)

/-- Pass over the next token if it is this one. -/
def eat (tok : Tok) : Parser Bool := fun c =>
  match c.rest with
  | [] => .ok (false, c)
  | t :: rest => if t.tok = tok then .ok (true, c.after t rest) else .ok (false, c)

/-- An identifier. -/
def ident : Parser Ident := fun c =>
  match c.rest with
  | ⟨start, .ident name, stop⟩ :: rest =>
    .ok (⟨name, .clamp start stop⟩, c.after ⟨start, .ident name, stop⟩ rest)
  | _ => unexpected .identifier c

/-- A string literal of either kind. -/
def stringLit : Parser StringLit := fun c =>
  match c.rest with
  | ⟨start, .literal .string text, stop⟩ :: rest =>
    .ok (⟨.interpreted, text, .clamp start stop⟩,
      c.after ⟨start, .literal .string text, stop⟩ rest)
  | ⟨start, .literal .rawString text, stop⟩ :: rest =>
    .ok (⟨.raw, text, .clamp start stop⟩,
      c.after ⟨start, .literal .rawString text, stop⟩ rest)
  | _ => unexpected .stringLiteral c

/-- A semicolon or the end of the source. -/
def terminator (expected : Expected) : Parser Unit := fun c =>
  match c.rest with
  | [] => .ok ((), c)
  | t :: rest =>
    if t.tok = .op .semicolon then .ok ((), c.after t rest) else unexpected expected c

end AtCursor

end GoInventory
