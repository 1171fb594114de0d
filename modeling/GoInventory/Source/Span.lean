import GoInventory.Text.Bytes

/-!
# Spans of source text

A span is a pair of byte offsets, the end exclusive. Offsets are recorded up to
4 GiB; a larger one is recorded as the bound itself, so that a span can always
be written down. Positions shown to a reader are lines and columns counted from
one, columns in bytes, and only a line feed ends a line.
-/

namespace GoInventory

/-- A range of byte offsets; `stop` is the first offset after it. -/
structure Span where
  start : Nat
  stop : Nat
deriving DecidableEq, Repr, Inhabited

namespace Span

/-- The largest offset that a span records. -/
def maxOffset : Nat := 4294967295

/-- The span between two offsets, each cut to `maxOffset`. -/
def clamp (start stop : Nat) : Span :=
  ⟨min start maxOffset, min stop maxOffset⟩

/-- The empty span at an offset. -/
def point (offset : Nat) : Span :=
  clamp offset offset

/-- The smallest span that covers both. -/
def cover (a b : Span) : Span :=
  ⟨min a.start b.start, max a.stop b.stop⟩

/-- The number of bytes covered; a span that ends before it starts covers none. -/
def length (s : Span) : Nat :=
  s.stop - s.start

/-- Nothing is covered. -/
def isEmpty (s : Span) : Bool :=
  s.length == 0

end Span

/-- Line and column, both counted from one. -/
structure Position where
  line : Nat
  column : Nat
deriving DecidableEq, Repr

namespace Position

/-- The byte that ends a line. -/
def lineFeed : UInt8 := 10

/-- The position just after the given bytes. -/
def after (before : List UInt8) : Position where
  line := before.count lineFeed + 1
  column := (before.reverse.takeWhile (· != lineFeed)).length + 1

/-- As readers write it. -/
def text (p : Position) : String :=
  s!"{p.line}:{p.column}"

end Position

/-- Where the span starts in a source text; an offset behind the end
counts as the end. -/
def Span.position (s : Span) (source : String) : Position :=
  Position.after ((Text.bytes source).take s.start)

end GoInventory
