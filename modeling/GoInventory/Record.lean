import GoInventory.Text.Bytes

/-!
# Records and where they are written

A record is a list of values. It is written as one line with blanks between
the values, or with a NUL after every value. A sink keeps what is written to
it, up to its limit if it has one: a write that does not fit is cut off at the
limit and fails.
-/

namespace GoInventory

/-- How a record is written. -/
inductive OutputEncoding where
  | lines
  | nulTerminated
deriving DecidableEq, Repr

/-- The name of the encoding. -/
def OutputEncoding.label : OutputEncoding → String
  | lines => "Lines"
  | nulTerminated => "NulTerminated"

/-- Values with a blank between them. -/
def blankJoin : List String → List Char
  | [] => []
  | [only] => only.toList
  | first :: rest => first.toList ++ ' ' :: blankJoin rest

/-- The written form of a record. -/
def OutputEncoding.encode : OutputEncoding → List String → List Char
  | lines, values => blankJoin values ++ ['\n']
  | nulTerminated, values => values.flatMap fun value => value.toList ++ ['\x00']

/-- The bytes written so far, and how many there may be in all. -/
structure Sink where
  written : List UInt8
  limit : Option Nat
deriving DecidableEq, Repr

namespace Sink

/-- A sink without a limit. -/
def unlimited : Sink := ⟨[], none⟩

/-- A sink that takes so many bytes. -/
def withLimit (limit : Option Nat) : Sink := ⟨[], limit⟩

/-- Write bytes; what does not fit is dropped, and then the write has failed. -/
def write (sink : Sink) (bytes : List UInt8) : Bool × Sink :=
  match sink.limit with
  | none => (true, { sink with written := sink.written ++ bytes })
  | some limit =>
    let room := limit - sink.written.length
    (bytes.length ≤ room, { sink with written := sink.written ++ bytes.take room })

/-- Write a record. -/
def writeRecord (sink : Sink) (encoding : OutputEncoding) (values : List String) :
    Bool × Sink :=
  sink.write (Text.encode (encoding.encode values))

end Sink

end GoInventory
