import GoInventory.Text.Bytes

/-!
# Struct tags

A tag is a list of entries `key:"value"` with blanks between them, the value
written as an interpreted string. Reading stops without an error at the first
thing that is no entry; what was read before it stays. An entry whose value
has a bad escape is kept without a value, so it hides later entries of its key
and nothing else.
-/

namespace GoInventory

namespace EscapedText

/-- The value of a hexadecimal digit. -/
def hexValue? (c : Char) : Option Nat :=
  if c.isDigit then some (c.toNat - '0'.toNat)
  else if 'a' ≤ c && c ≤ 'f' then some (c.toNat - 'a'.toNat + 10)
  else if 'A' ≤ c && c ≤ 'F' then some (c.toNat - 'A'.toNat + 10)
  else none

/-- The number that a run of hexadecimal digits spells. -/
def hexNumber? (digits : List Char) : Option Nat :=
  digits.foldl (fun acc c => return 16 * (← acc) + (← hexValue? c)) (some 0)

/-- The value of an octal digit. -/
def octalValue? (c : Char) : Option Nat :=
  if '0' ≤ c && c ≤ '7' then some (c.toNat - '0'.toNat) else none

/-- The byte that three octal digits spell. -/
def octalByte? (a b c : Char) : Option UInt8 := do
  let n := 64 * (← octalValue? a) + 8 * (← octalValue? b) + (← octalValue? c)
  if n < 256 then some (UInt8.ofNat n) else none

/-- The UTF-8 form of the character with this number. -/
def codePointBytes? (n : Nat) : Option (List UInt8) :=
  if n.isValidChar then some (String.utf8EncodeChar (Char.ofNat n)) else none

/-- The byte that a backslash and this letter stand for. -/
def simpleEscape? : Char → Option UInt8
  | 'a' => some 0x07
  | 'b' => some 0x08
  | 'f' => some 0x0C
  | 'n' => some 0x0A
  | 'r' => some 0x0D
  | 't' => some 0x09
  | 'v' => some 0x0B
  | '\\' => some 0x5C
  | '\x22' => some 0x22
  | _ => none

/-- The bytes that the body of an interpreted string spells. There are none if
it has a bad escape, an unescaped quote or a line feed. -/
def bytes? : List Char → Option (List UInt8)
  | [] => some []
  | '\\' :: 'x' :: a :: b :: rest => do
    let n ← hexNumber? [a, b]
    return UInt8.ofNat n :: (← bytes? rest)
  | '\\' :: 'u' :: a :: b :: c :: d :: rest => do
    let encoded ← codePointBytes? (← hexNumber? [a, b, c, d])
    return encoded ++ (← bytes? rest)
  | '\\' :: 'U' :: a :: b :: c :: d :: e :: f :: g :: h :: rest => do
    let encoded ← codePointBytes? (← hexNumber? [a, b, c, d, e, f, g, h])
    return encoded ++ (← bytes? rest)
  | '\\' :: e :: rest =>
    match simpleEscape? e with
    | some byte => do return byte :: (← bytes? rest)
    | none =>
      match rest with
      | b :: c :: rest' => do return (← octalByte? e b c) :: (← bytes? rest')
      | _ => none
  | c :: rest =>
    if c == '\\' || c == '\x22' || c == '\n' then none
    else do return String.utf8EncodeChar c ++ (← bytes? rest)

/-- The body of a literal in double quotes. -/
def body? : List Char → Option (List Char)
  | '\x22' :: rest =>
    if rest.getLast? == some '\x22' then some rest.dropLast else none
  | _ => none

/-- The text that an interpreted string literal, with its quotes, stands for. -/
def unquote? (literal : List Char) : Option String := do
  Text.decode? (← bytes? (← body? literal))

end EscapedText

/-- An entry of a tag; the value is missing if its escapes are bad. -/
structure TagEntry where
  key : String
  value? : Option String
deriving DecidableEq, Repr

/-- The entries of a tag, in order. -/
structure StructTag where
  entries : List TagEntry
deriving DecidableEq, Repr

namespace StructTag

/-- A character of a key. -/
def isKeyChar (c : Char) : Bool :=
  c.toNat > 0x20 && c != ':' && c != '\x22' && c.toNat != 0x7F

/-- The body of a value up to the quote that closes it, and the text
after that quote. -/
def splitValue? : List Char → Option (List Char × List Char)
  | '\\' :: c :: rest => (splitValue? rest).map fun r => ('\\' :: c :: r.1, r.2)
  | c :: rest =>
    if c == '\x22' then some ([], rest)
    else (splitValue? rest).map fun r => (c :: r.1, r.2)
  | [] => none

/-- The first entry of a tag, its value still in quotes, and the text after it. -/
def splitEntry? (raw : List Char) : Option ((List Char × List Char) × List Char) :=
  let text := raw.dropWhile (· == ' ')
  let key := text.takeWhile isKeyChar
  match key, text.drop key.length with
  | _ :: _, ':' :: '\x22' :: rest =>
    (splitValue? rest).map fun r => ((key, '\x22' :: r.1 ++ ['\x22']), r.2)
  | _, _ => none

/-- At most `bound` entries from the head of a tag, each value still in quotes. -/
def entriesWithin : Nat → List Char → List (List Char × List Char)
  | 0, _ => []
  | bound + 1, raw =>
    match splitEntry? raw with
    | none => []
    | some (entry, rest) => entry :: entriesWithin bound rest

/-- Read a tag. An entry takes at least one character, so their number
bounds the entries. -/
def parse (raw : String) : StructTag :=
  ⟨(entriesWithin raw.length raw.toList).map fun entry =>
    ⟨String.ofList entry.1, EscapedText.unquote? entry.2⟩⟩

/-- The value of the first entry with this key, if it has one. -/
def get? (tag : StructTag) (key : String) : Option String :=
  (tag.entries.find? (·.key == key)).bind (·.value?)

/-- The entries that have a value. -/
def toList (tag : StructTag) : List (String × String) :=
  tag.entries.filterMap fun entry => entry.value?.map (entry.key, ·)

/-- The number of entries that have a value. -/
def size (tag : StructTag) : Nat :=
  tag.toList.length

/-- No entry has a value. -/
def isEmpty (tag : StructTag) : Bool :=
  tag.toList.isEmpty

/-- The value of the first entry with this key in a tag that is not yet read. -/
def lookup? (raw key : String) : Option String :=
  (parse raw).get? key

end StructTag

end GoInventory
