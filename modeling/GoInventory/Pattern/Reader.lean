import GoInventory.Pattern.Regex

/-!
# Reading patterns

The written form of a regular expression, read from left to right. Options such
as `(?i)` hold from where they stand to the end of the group, over all its
alternatives. A pattern that does not follow the rules is no pattern at all;
which rule it breaks is not recorded.

Nesting is limited: groups, repetitions, alternatives, sequences and bracketed
sets count, and no more than `maxDepth` of them may lie one inside the other.

Not every pattern of this kind is read. Of the properties of characters only
those of letters, decimal digits and white space have names here; the other
general categories (`\p{Lu}`) and the scripts (`\p{Greek}`) have none, and
matching by bytes (`(?-u:a)`) cannot be asked for. Such patterns are refused. On
the other hand a pattern is not refused for its size, however large it gets when
its repetitions are written out, as in `(a{1000}){1000}`. Listings do not depend
on this: they take a filter as the answers that it gives.
-/

namespace GoInventory.Pattern

/-- The options of a pattern. -/
structure Options where
  /-- Letters match in either case. -/
  ignoreCase : Bool
  /-- `^` and `$` hold at every line. -/
  multiLine : Bool
  /-- `.` matches a line feed too. -/
  dotAll : Bool
  /-- Blanks and comments in the pattern mean nothing. -/
  verbose : Bool
deriving DecidableEq, Repr

/-- The options before any is set. -/
def Options.initial : Options := ⟨false, false, false, false⟩

/-- The state of reading: the text ahead, the options in force, and the names of
groups so far. -/
structure Scan where
  rest : List Char
  options : Options
  names : List (List Char)

/-- A reader of a part of a pattern. -/
abbrev Reader := StateT Scan Option

/-- An expression and how deep it is nested. -/
structure Node where
  regex : Regex
  depth : Nat

namespace Node

/-- The expressions one after the other. -/
def sequence : List Node → Node
  | [] => ⟨.empty, 0⟩
  | [only] => only
  | nodes =>
    ⟨nodes.foldr (fun n r => .seq n.regex r) .empty,
      (nodes.map (·.depth)).foldl max 0 + 1⟩

/-- One of the expressions. -/
def choice : List Node → Node
  | [] => ⟨.empty, 0⟩
  | [only] => only
  | first :: rest =>
    ⟨rest.foldl (fun r n => .alt r n.regex) first.regex,
      ((first :: rest).map (·.depth)).foldl max 0 + 1⟩

/-- The expression in a group. -/
def nested (n : Node) : Node :=
  ⟨n.regex, n.depth + 1⟩

/-- The expression repeated. -/
def repeated (least : Nat) (most : Option Nat) (n : Node) : Node :=
  ⟨.rep least most n.regex, n.depth + 1⟩

end Node

/-- A set of characters and how deep it is nested. -/
structure SetNode where
  set : CharSet
  depth : Nat

namespace SetNode

/-- All characters of the sets. -/
def all : List SetNode → SetNode
  | [] => ⟨.nothing, 0⟩
  | [only] => only
  | first :: rest =>
    ⟨rest.foldl (fun s n => .union s n.set) first.set,
      ((first :: rest).map (·.depth)).foldl max 0 + 1⟩

end SetNode

/-- The ways to combine two sets within brackets. -/
inductive SetOperator where
  | inter | diff | symmDiff
deriving DecidableEq, Repr

/-- The combination of two sets. -/
def SetOperator.apply : SetOperator → CharSet → CharSet → CharSet
  | inter, a, b => .inter a b
  | diff, a, b => .diff a b
  | symmDiff, a, b => .symmDiff a b

/-- What a single character or an escape stands for. -/
inductive Primitive where
  | char (c : Char)
  | set (s : CharSet)
  | anchor (a : Anchor)

/-- The deepest nesting of a pattern. -/
def maxDepth : Nat := 250

/-- The largest number that can be written in a pattern. -/
def maxNumber : Nat := 4294967295

/-- A text without the blanks and comments at its head; in a comment, up to the
end of the line. -/
def dropBlanks (inComment : Bool) : List Char → List Char
  | [] => []
  | c :: rest =>
    if inComment then dropBlanks (c != '\n') rest
    else if Text.isSpaceChar c then dropBlanks false rest
    else if c == '#' then dropBlanks true rest
    else c :: rest

/-- A character that has a meaning of its own in patterns. -/
def isMeta (c : Char) : Bool :=
  ['\\', '.', '+', '*', '?', '(', ')', '|', '[', ']', '\x7b', '\x7d', '^', '$',
    '#', '&', '-',
   '~'].contains c

/-- A character that stands for itself after a backslash. -/
def isEscapable (c : Char) : Bool :=
  isMeta c || (c.toNat < 0x80 && !c.isAlphanum && c != '<' && c != '>')

/-- A character of the name of a group. -/
def isNameChar (first : Bool) (c : Char) : Bool :=
  if first then c == '_' || Text.isLetter c
  else c == '_' || c == '.' || c == '[' || c
    == ']' || Text.isLetter c || Text.isDecimalDigit c

/-- A hexadecimal digit's value. -/
def hexDigitValue? (c : Char) : Option Nat :=
  if c.isDigit then some (c.toNat - '0'.toNat)
  else if 'a' ≤ c && c ≤ 'f' then some (c.toNat - 'a'.toNat + 10)
  else if 'A' ≤ c && c ≤ 'F' then some (c.toNat - 'A'.toNat + 10)
  else none

namespace Reader

/-- The next character. -/
def peek : Reader (Option Char) :=
  return (← get).rest.head?

/-- Pass over the next character. -/
def bump : Reader Unit :=
  modify fun s => { s with rest := s.rest.tail }

/-- Pass over blanks and comments, if they mean nothing. -/
def blanks : Reader Unit :=
  modify fun s => if s.options.verbose then { s with rest := dropBlanks false s.rest }
    else s

/-- Pass over the next character and the blanks after it. -/
def step : Reader Unit := do
  bump
  blanks

/-- As `step`, but something has to follow. -/
def stepInside : Reader Unit := do
  step
  guard (← peek).isSome

/-- The character after the next one, blanks left out if they mean nothing. -/
def peekAfter : Reader (Option Char) := do
  let s ← get
  let rest := s.rest.tail
  return (if s.options.verbose then dropBlanks false rest else rest).head?

/-- Pass over the given text, if it stands here. -/
def eatText (text : List Char) : Reader Bool := do
  let s ← get
  if text.isPrefixOf s.rest then
    set { s with rest := s.rest.drop text.length }
    return true
  return false

/-- Run a reader that takes a bound with the number of characters ahead,
and one more. -/
def bounded {α : Type} (p : Nat → Reader α) : Reader α := do
  p ((← get).rest.length + 1)

/-- Characters of a class, each with the blanks after it. -/
def takeRun (p : Char → Bool) : Nat → Reader (List Char)
  | 0 => return []
  | bound + 1 => do
    match ← peek with
    | some c =>
      if p c then
        step
        return c :: (← takeRun p bound)
      return []
    | none => return []

/-- Pass over white space. -/
def spaces : Reader Unit :=
  modify fun s => { s with rest := s.rest.dropWhile Text.isSpaceChar }

/-- A decimal number, perhaps with white space around it. -/
def decimal : Reader Nat := do
  spaces
  let digits ← bounded (takeRun Char.isDigit)
  spaces
  blanks
  guard !digits.isEmpty
  let n := digits.foldl (fun n c => 10 * n + (c.toNat - '0'.toNat)) 0
  guard (n ≤ maxNumber)
  return n

/-- Pass over the mark of a repetition that prefers fewer rounds; whether a text
matches does not depend on it. -/
def lazyMark : Reader Unit := do
  if (← peek) == some '?' then
    bump

/-- The rounds of a repetition in braces. -/
def counts : Reader (Nat × Option Nat) := do
  stepInside
  let least ← decimal
  let most ←
    if (← peek) == some ',' then
      stepInside
      if (← peek) == some '\x7d' then pure none else pure (some (← decimal))
    else
      pure (some least)
  guard ((← peek) == some '\x7d')
  step
  lazyMark
  guard (most.all (least ≤ ·))
  return (least, most)

/-- The repetitions that follow an expression. -/
def repetitions (n : Node) : Nat → Reader Node
  | 0 => failure
  | bound + 1 => do
    blanks
    match ← peek with
    | some '?' => bump; lazyMark; repetitions (n.repeated 0 (some 1)) bound
    | some '*' => bump; lazyMark; repetitions (n.repeated 0 none) bound
    | some '+' => bump; lazyMark; repetitions (n.repeated 1 none) bound
    | some '\x7b' =>
      let (least, most) ← counts
      repetitions (n.repeated least most) bound
    | _ => return n

/-- The character with a number in hexadecimal digits. -/
def charOfHex (digits : List Char) : Reader Char := do
  guard !digits.isEmpty
  let n ← digits.foldlM (fun n c => return 16 * n + (← hexDigitValue? c)) 0
  guard (decide n.isValidChar)
  return Char.ofNat n

/-- So many hexadecimal digits. -/
def fixedDigits : Nat → Reader (List Char)
  | 0 => return []
  | n + 1 => do
    let some c ← peek | failure
    guard (hexDigitValue? c).isSome
    step
    return c :: (← fixedDigits n)

/-- A character by its number, after the letter of the escape, in braces or of
the given width. -/
def numberedChar (width : Nat) : Reader Char := do
  stepInside
  if (← peek) == some '\x7b' then
    step
    let digits ← bounded (takeRun (· != '\x7d'))
    guard ((← peek) == some '\x7d')
    step
    charOfHex digits
  else
    charOfHex (← fixedDigits width)

/-- A property of characters, after the letter of the escape. -/
def property (negated : Bool) : Reader CharSet := do
  stepInside
  let name ←
    if (← peek) == some '\x7b' then
      step
      let name ← bounded (takeRun (· != '\x7d'))
      guard ((← peek) == some '\x7d')
      bump
      pure name
    else
      let some c ← peek | failure
      guard (c != '\\')
      step
      pure [c]
  let some cls := NamedClass.ofProperty? name | failure
  return .complIf negated (.foldIf (← get).options.ignoreCase (.named cls))

/-- The kind of word boundary that braces after it choose, if they
hold no number. -/
def boundaryKind : Reader Anchor := do
  if (← peek) != some '\x7b' then
    return .wordBoundary
  let before ← get
  stepInside
  let isLetterOrHyphen (c : Char) : Bool := c.isAlpha || c == '-'
  if !(← peek).any isLetterOrHyphen then
    set before
    return .wordBoundary
  let name ← bounded (takeRun isLetterOrHyphen)
  guard ((← peek) == some '\x7d')
  bump
  match String.ofList name with
  | "start" => return .wordStart
  | "end" => return .wordEnd
  | "start-half" => return .wordStartHalf
  | "end-half" => return .wordEndHalf
  | _ => failure

/-- What a backslash and the text after it stand for. -/
def escape : Reader Primitive := do
  bump
  let some c ← peek | failure
  match c with
  | 'x' => return .char (← numberedChar 2)
  | 'u' => return .char (← numberedChar 4)
  | 'U' => return .char (← numberedChar 8)
  | 'p' => return .set (← property false)
  | 'P' => return .set (← property true)
  | _ =>
    bump
    if isEscapable c then
      return .char c
    match c with
    | 'd' => return .set (.named .decimalDigit)
    | 'D' => return .set (.compl (.named .decimalDigit))
    | 's' => return .set (.named .whiteSpace)
    | 'S' => return .set (.compl (.named .whiteSpace))
    | 'w' => return .set (.named .word)
    | 'W' => return .set (.compl (.named .word))
    | 'a' => return .char '\x07'
    | 'f' => return .char '\x0c'
    | 'n' => return .char '\n'
    | 'r' => return .char '\r'
    | 't' => return .char '\t'
    | 'v' => return .char '\x0b'
    | 'A' => return .anchor .textStart
    | 'z' => return .anchor .textEnd
    | 'b' => return .anchor (← boundaryKind)
    | 'B' => return .anchor .notWordBoundary
    | '<' => return .anchor .wordStart
    | '>' => return .anchor .wordEnd
    | _ => failure

/-- One character or escape inside brackets. -/
def setPrimitive : Reader Primitive := do
  let some c ← peek | failure
  if c == '\\' then
    escape
  else
    bump
    return .char c

/-- A character, an escape or a range inside brackets. -/
def setItem : Reader SetNode := do
  let first ← setPrimitive
  blanks
  let some next ← peek | failure
  let after ← peekAfter
  if next != '-' || after == some ']' || after == some '-' then
    match first with
    | .char c => return ⟨.single c, 0⟩
    | .set s => return ⟨s, 0⟩
    | .anchor _ => failure
  else
    stepInside
    match first, ← setPrimitive with
    | .char a, .char b =>
      guard (decide (a ≤ b))
      return ⟨.range a b, 0⟩
    | _, _ => failure

/-- A class such as `[:alpha:]`, if the text here is one. -/
def asciiClass? : Reader (Option SetNode) := do
  let s ← get
  match s.rest with
  | '[' :: ':' :: text =>
    let (negated, text) := match text with
      | '^' :: text => (true, text)
      | text => (false, text)
    let name := text.takeWhile (· != ':')
    match text.drop name.length, NamedClass.ofAsciiName? name with
    | ':' :: ']' :: rest, some cls =>
      set { s with rest := rest }
      return some ⟨.complIf negated (.foldIf s.options.ignoreCase (.named cls)), 0⟩
    | _, _ => return none
  | _ => return none

/-- Hyphens at the head of a set stand for themselves. -/
def leadingHyphens : Nat → Reader (List SetNode)
  | 0 => return []
  | bound + 1 => do
    if (← peek) == some '-' then
      stepInside
      return ⟨.single '-', 0⟩ :: (← leadingHyphens bound)
    return []

/-- The set of the items, combined with what stands to the left of the
last operator. -/
def combined (left : Option (SetNode × SetOperator)) (items : List SetNode) :
    Reader SetNode := do
  let right := SetNode.all items
  match left with
  | none => return right
  | some (l, operator) =>
    let fold := CharSet.foldIf (← get).options.ignoreCase
    return ⟨operator.apply (fold l.set) (fold right.set), max l.depth right.depth + 1⟩

/-- The operator that stands here, if any. -/
def setOperator? : Reader (Option SetOperator) := do
  if ← eatText ['&', '&'] then return some .inter
  if ← eatText ['-', '-'] then return some .diff
  if ← eatText ['~', '~'] then return some .symmDiff
  return none

/-- The rest of a set up to the bracket that closes it; `inner` reads a
set inside it. -/
def setItems (inner : Reader SetNode) (left : Option (SetNode × SetOperator))
    (items : List SetNode) : Nat → Reader SetNode
  | 0 => failure
  | bound + 1 => do
    blanks
    match ← peek with
    | none => failure
    | some ']' =>
      bump
      combined left items
    | some '[' =>
      match ← asciiClass? with
      | some cls => setItems inner left (items ++ [cls]) bound
      | none => setItems inner left (items ++ [← inner]) bound
    | some _ =>
      match ← setOperator? with
      | some operator =>
        setItems inner (some (← combined left items, operator)) [] bound
      | none => setItems inner left (items ++ [← setItem]) bound

/-- A set in brackets; `inner` reads a set inside it. -/
def setForm (inner : Reader SetNode) : Reader SetNode := do
  stepInside
  let negated := (← peek) == some '^'
  if negated then
    stepInside
  let hyphens ← bounded leadingHyphens
  let items ←
    if hyphens.isEmpty && (← peek) == some ']' then
      stepInside
      pure [⟨.single ']', 0⟩]
    else
      pure hyphens
  let content ← bounded (setItems inner none items)
  let set := CharSet.complIf negated (.foldIf (← get).options.ignoreCase content.set)
  return ⟨set, content.depth + 1⟩

/-- A set in brackets in which no set is nested more than so deep. -/
def setWithin : Nat → Reader SetNode
  | 0 => failure
  | depth + 1 => setForm (setWithin depth)

/-- The letters of options up to the character after them. -/
def optionLetters (seen : List Char) : Nat → Reader (List Char)
  | 0 => failure
  | bound + 1 => do
    let some c ← peek | failure
    if c == ':' || c == ')' then
      guard (seen.getLast? != some '-')
      return seen
    guard (['i', 'm', 's', 'U', 'u', 'x', '-'].contains c)
    guard !(seen.contains c)
    bump
    optionLetters (seen ++ [c]) bound

/-- The options after one letter; a greedy and a lazy repetition match
the same texts. -/
def setOption (value : Bool) (o : Options) : Char → Option Options
  | 'i' => some { o with ignoreCase := value }
  | 'm' => some { o with multiLine := value }
  | 's' => some { o with dotAll := value }
  | 'x' => some { o with verbose := value }
  | 'U' => some o
  | 'u' => if value then some o else none
  | _ => none

/-- The options after these letters, those after a hyphen being switched off. -/
def applyOptions (o : Options) (letters : List Char) : Option Options := do
  let on := letters.takeWhile (· != '-')
  let off := (letters.dropWhile (· != '-')).drop 1
  off.foldlM (setOption false) (← on.foldlM (setOption true) o)

/-- The name of a group, up to the bracket after it. -/
def groupName : Reader Unit := do
  let s ← get
  let name := s.rest.takeWhile (· != '>')
  guard (name.length < s.rest.length)
  guard ((name.head?.any (isNameChar true)) && name.tail.all (isNameChar false))
  guard !(s.names.contains name)
  set { s with rest := s.rest.drop (name.length + 1), names := name :: s.names }

/-- The rest of a group; the options in force before it hold again after it. -/
def groupBody (inner : Reader Node) (outside : Options) : Reader Node := do
  let body ← inner
  guard ((← peek) == some ')')
  modify fun s => { s with options := outside }
  bump
  return body.nested

/-- A group, or a setting of options, which stands for no expression. -/
def group (inner : Reader Node) : Reader (Option Node) := do
  let outside := (← get).options
  bump
  blanks
  if (← eatText ['?', '=']) then failure
  if (← eatText ['?', '!']) then failure
  if (← eatText ['?', '<', '=']) then failure
  if (← eatText ['?', '<', '!']) then failure
  if (← eatText ['?', 'P', '<']) then
    groupName
    return some (← groupBody inner outside)
  if (← eatText ['?', '<']) then
    groupName
    return some (← groupBody inner outside)
  if (← eatText ['?']) then
    let letters ← bounded (optionLetters [])
    let options ← applyOptions outside letters
    let close ← peek
    bump
    modify fun s => { s with options := options }
    if close == some ')' then
      guard !letters.isEmpty
      return none
    return some (← groupBody inner outside)
  return some (← groupBody inner outside)

/-- What a single character or escape stands for outside brackets. -/
def primitive : Reader Node := do
  let options := (← get).options
  let some c ← peek | failure
  let single (c : Char) : Node := ⟨.chars (.foldIf options.ignoreCase (.single c)), 0⟩
  match c with
  | '\\' =>
    match ← escape with
    | .char c => return single c
    | .set s => return ⟨.chars s, 0⟩
    | .anchor a => return ⟨.anchor a, 0⟩
  | '.' =>
    bump
    return ⟨.chars (if options.dotAll then .anything else .compl (.single '\n')), 0⟩
  | '^' =>
    bump
    return ⟨.anchor (if options.multiLine then .lineStart else .textStart), 0⟩
  | '$' =>
    bump
    return ⟨.anchor (if options.multiLine then .lineEnd else .textEnd), 0⟩
  | c =>
    bump
    return single c

/-- The items of a sequence, up to a bar, a closing parenthesis or the end. -/
def items (inner : Reader Node) : Nat → Reader (List Node)
  | 0 => failure
  | bound + 1 => do
    blanks
    match ← peek with
    | none | some '|' | some ')' => return []
    | some '?' | some '*' | some '+' | some '\x7b' => failure
    | some '(' =>
      match ← group inner with
      | none => return ⟨.empty, 0⟩ :: (← items inner bound)
      | some n =>
        let n ← bounded (repetitions n)
        return n :: (← items inner bound)
    | some '[' =>
      let set ← bounded setWithin
      let n ← bounded (repetitions ⟨.chars set.set, set.depth⟩)
      return n :: (← items inner bound)
    | some _ =>
      let n ← bounded (repetitions (← primitive))
      return n :: (← items inner bound)

/-- Sequences with bars between them. -/
def branches (inner : Reader Node) : Nat → Reader (List Node)
  | 0 => failure
  | bound + 1 => do
    let first := Node.sequence (← bounded (items inner))
    if (← peek) == some '|' then
      bump
      return first :: (← branches inner bound)
    return [first]

/-- An expression in which no group is nested more than so deep. -/
def exprWithin : Nat → Reader Node
  | 0 => failure
  | depth + 1 => return .choice (← bounded (branches (exprWithin depth)))

end Reader

/-- The expression that a pattern stands for, if it is well formed. -/
def parse? (pattern : String) : Option Regex := do
  let (node, after) ← (Reader.bounded Reader.exprWithin).run
    ⟨pattern.toList, .initial, []⟩
  guard (after.rest.isEmpty && node.depth ≤ maxDepth)
  return node.regex

end GoInventory.Pattern
