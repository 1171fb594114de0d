import Std.Data.HashMap

/-!
# Symbol tables

A symbol table numbers distinct texts in the order in which they are first seen.
Texts are looked up by a hash, and those with the same hash share a bucket, so
the numbering does not depend on which hash is used.
-/

namespace GoInventory

/-- The number of a text in a symbol table. -/
structure Symbol where
  index : Nat
deriving DecidableEq, Repr

/-- How a symbol is shown. -/
def Symbol.text (s : Symbol) : String :=
  s!"Symbol({s.index})"

/-- Texts in the order of their numbers, and for each hash the symbols of the
texts that have it. -/
structure SymbolTable (hash : String → UInt64) where
  strings : Array String
  buckets : Std.HashMap UInt64 (List Symbol)

namespace SymbolTable

variable {hash : String → UInt64}

/-- A table without symbols. -/
def empty : SymbolTable hash := ⟨#[], ∅⟩

/-- The text of a symbol. -/
def resolve? (table : SymbolTable hash) (s : Symbol) : Option String :=
  table.strings[s.index]?

/-- The symbols whose text has this hash. -/
def bucket (table : SymbolTable hash) (h : UInt64) : List Symbol :=
  table.buckets.getD h []

/-- The symbol of a text that is in the table. -/
def find? (table : SymbolTable hash) (text : String) : Option Symbol :=
  (table.bucket (hash text)).find? fun s => table.resolve? s == some text

/-- The symbol of a text, which is entered if it is new. -/
def intern (table : SymbolTable hash) (text : String) : Symbol × SymbolTable hash :=
  match table.find? text with
  | some s => (s, table)
  | none =>
    let s : Symbol := ⟨table.strings.size⟩
    let h := hash text
    (s, ⟨table.strings.push text, table.buckets.insert h (table.bucket h ++ [s])⟩)

/-- The number of symbols. -/
def size (table : SymbolTable hash) : Nat :=
  table.strings.size

/-- There are no symbols. -/
def isEmpty (table : SymbolTable hash) : Bool :=
  table.strings.isEmpty

end SymbolTable

end GoInventory
