import GoInventory.Syntax.Tree

/-!
# Types as text

The canonical text of a type depends on its structure alone: blanks and comments
of the source are gone, and the members of a struct or interface are left out
(`struct\x7b\x7d`, `interface\x7b\x7d`). A few forms have no canonical text; the
first of them, in the order in which the text would be written, is the error.
-/

namespace GoInventory

/-- The forms of type that have no canonical text. -/
inductive UnsupportedForm where
  | paren
  | union
  | ellipsisLength
  | lengthExpression
deriving DecidableEq, Repr

/-- The name of the form in a message. -/
def UnsupportedForm.text : UnsupportedForm → String
  | paren => "parenthesized type"
  | union => "constraint union"
  | ellipsisLength => "[...] array length"
  | lengthExpression => "array length expression"

/-- A type that has no canonical text, because of the form at a span. -/
structure UnsupportedType where
  form : UnsupportedForm
  span : Span
deriving DecidableEq, Repr

/-- The wording of the error. -/
def UnsupportedType.message (e : UnsupportedType) : String :=
  s!"unsupported type expression: {e.form.text} at {e.span.start}..{e.span.stop}"

/-- Texts with a comma and a blank between them. -/
def commaJoin : List String → String
  | [] => ""
  | [only] => only
  | first :: rest => first ++ ", " ++ commaJoin rest

/-- The text of a type name. -/
def TypeName.text : TypeName → String
  | plain name => name.name
  | qualified _ pkg name => pkg.name ++ "." ++ name.name

/-- The text of an array length in an array type with the span `whole`. -/
def ArrayLength.render (whole : Span) : ArrayLength → Except UnsupportedType String
  | ellipsis => .error ⟨.ellipsisLength, whole⟩
  | expr (.ident name) => .ok name.name
  | expr (.selector _ pkg sel) => .ok (pkg.name ++ "." ++ sel.name)
  | expr (.literal _ _ text) => .ok text
  | expr (.other span) => .error ⟨.lengthExpression, span⟩

/-- What precedes the element type of a channel. -/
def ChanDir.text : ChanDir → String
  | both => "chan "
  | send => "chan<- "
  | receive => "<-chan "

/-- Names before the type they share. -/
def namedText (names : List Ident) (type : String) : String :=
  if names.isEmpty then type else commaJoin (names.map (·.name)) ++ " " ++ type

/-- The results stand without parentheses: there is one, and it has no name. -/
def isBareResult : List (Field TypeExpr) → Bool
  | [field] => field.names.isEmpty
  | _ => false

/-- What follows the parameters of a function type, given the results
and their texts. -/
def resultText (results : List (Field TypeExpr)) (texts : List String) : String :=
  if results.isEmpty then ""
  else if isBareResult results then " " ++ commaJoin texts
  else " (" ++ commaJoin texts ++ ")"

mutual

/-- The canonical text of a type. -/
def TypeExpr.render : TypeExpr → Except UnsupportedType String
  | .named name => .ok name.text
  | .applied _ base args => do
    let texts ← renderTypes args
    return base.text ++ "[" ++ commaJoin texts ++ "]"
  | .pointer _ elem => return "*" ++ (← elem.render)
  | .array span length elem => do
    let lengthText ← length.render span
    return "[" ++ lengthText ++ "]" ++ (← elem.render)
  | .slice _ elem => return "[]" ++ (← elem.render)
  | .map _ key value => do
    let keyText ← key.render
    return "map[" ++ keyText ++ "]" ++ (← value.render)
  | .chan _ dir elem => return dir.text ++ (← elem.render)
  | .func _ ⟨params, results, _⟩ => do
    let paramTexts ← renderFields params
    let resultTexts ← renderFields results
    return "func(" ++ commaJoin paramTexts ++ ")" ++ resultText results resultTexts
  | .struct _ _ => .ok "struct\x7b\x7d"
  | .interface _ _ => .ok "interface\x7b\x7d"
  | .variadic _ elem => return "..." ++ (← elem.render)
  | .paren span _ => .error ⟨.paren, span⟩
  | .union span _ => .error ⟨.union, span⟩

/-- The texts of types, in order. -/
def renderTypes : List TypeExpr → Except UnsupportedType (List String)
  | [] => .ok []
  | type :: rest => do
    let text ← type.render
    return text :: (← renderTypes rest)

/-- The texts of parameters or results, in order. -/
def renderFields : List (Field TypeExpr) → Except UnsupportedType (List String)
  | [] => .ok []
  | ⟨names, type, _, _⟩ :: rest => do
    let text ← type.render
    return namedText names text :: (← renderFields rest)

end

end GoInventory
