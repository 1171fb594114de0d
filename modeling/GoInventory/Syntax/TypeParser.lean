import GoInventory.Syntax.Forms

/-!
# Parsing types

The forms of types, made into trees. Each has a reader that takes the reader of
types (`inner`) as an argument, since the forms contain types. `typeExpr` ties
the knot by counting down from a bound on how deep types can be nested. For
parsers this is the number of tokens ahead. It is enough, because a form always
takes a token before it asks for the types inside it; when the count is used up
no token is left, and the error is the one that the end of the source gives.
-/

namespace GoInventory

namespace TokenReader

variable {m : Type → Type} [Monad m] [TokenReader m]

section Forms

variable (inner : m TypeExpr)

/-- The name of a type, plain or of another package. -/
def typeName : m TypeName :=
  typeNameOf ident (fun name => pure (.plain name))
    fun span pkg name => pure (.qualified span pkg name)

/-- The type arguments of a name, which are in brackets of which the first has
been read. There has to be one. -/
def typeArguments (start : Span) (base : TypeName) : m TypeExpr :=
  typeArgumentsOf inner start fun span args => pure (.applied span base args)

/-- The name of a type, with its type arguments if it has any. -/
def namedType : m TypeExpr :=
  namedOf typeName (fun base => pure (.named base)) (typeArguments inner)

/-- What stands between the brackets of an array type, the first of which
has been read. -/
def arrayBound : m ArrayLength :=
  arrayBoundOf .ellipsis do
    let length ← arrayLength
    pure (.expr length)

/-- An array or slice type. -/
def bracketType : m TypeExpr :=
  bracketOf arrayBound inner (fun span elem => pure (.slice span elem))
    fun span length elem => pure (.array span length elem)

/-- A map type. -/
def mapType : m TypeExpr :=
  mapOf inner fun span key value => pure (.map span key value)

/-- A channel type that starts with its keyword. -/
def chanType : m TypeExpr :=
  chanOf inner fun span dir elem => pure (.chan span dir elem)

/-- A channel type that starts with an arrow. -/
def receiveType : m TypeExpr :=
  receiveOf inner fun span elem => pure (.chan span .receive elem)

/-- The type of a parameter, which may be variadic. -/
def paramType : m TypeExpr :=
  paramTypeOf inner fun span elem => pure (.variadic span elem)

/-- A parameter with a name and a type. -/
def typedEntry : m ParamEntry :=
  typedEntryOf ident (paramType inner) fun span name type =>
    pure (.typed name type span)

/-- A parameter with a type and no name. -/
def unnamedEntry : m ParamEntry :=
  spanned (paramType inner) fun span type => pure (.unnamed type span)

/-- A parameter that is a name on its own. -/
def bareEntry : m ParamEntry := do
  let name ← ident
  pure (.bare name)

/-- One entry of a parameter list. -/
def paramEntry : m ParamEntry :=
  announcedEntry bareEntry (typedEntry inner) (unnamedEntry inner)

/-- Parameters in parentheses. -/
def parameters : m (List (Field TypeExpr)) :=
  parametersOf (paramEntry inner) fun entries => ofExcept (ParamEntry.group entries)

/-- A result without parentheses. -/
def bareResult : m (List (Field TypeExpr)) :=
  spanned inner fun span type => pure [⟨[], type, none, span⟩]

/-- The results of a function. -/
def results : m (List (Field TypeExpr)) :=
  announcedResults (parameters inner) (bareResult inner)

/-- Parameters and results. -/
def signature : m (Signature TypeExpr) :=
  signatureOf (parameters inner) (results inner) fun span params results =>
    pure ⟨params, results, span⟩

/-- A function type. -/
def funcType : m TypeExpr :=
  behindToken (signature inner) fun span sig => pure (.func span sig)

/-- A term of a constraint. -/
def term : m (Term TypeExpr) :=
  termOf inner fun tilde type => pure ⟨tilde, type⟩

/-- A constraint: terms with bars between them. A single term without a tilde is
just its type. -/
def constraint : m TypeExpr :=
  constraintOf (term inner) fun span terms =>
    match terms with
    | [⟨false, type⟩] => pure type
    | terms => pure (.union span terms)

/-- The tag of a struct member, if it has one. -/
def tag? : m (Option StringLit) :=
  ifString stringLit

/-- The names of a struct member; an embedded one has none. -/
def memberNames : m (List Ident) :=
  announcedNames [] identList

/-- A member of a struct. -/
def structMember : m (Field TypeExpr) :=
  structMemberOf memberNames inner tag? fun span names type tag =>
    pure ⟨names, type, tag, span⟩

/-- A struct type. -/
def structType : m TypeExpr :=
  bracedOf .structOpen .structMemberEnd (structMember inner) fun span fields =>
    pure (.struct span fields)

/-- A method of an interface. -/
def method : m (Field TypeExpr) :=
  methodOf ident (signature inner) fun span name sig =>
    pure ⟨[name], .func sig.span sig, none, span⟩

/-- A constraint that is embedded in an interface. -/
def embeddedElement : m (Field TypeExpr) :=
  spanned (constraint inner) fun span type => pure ⟨[], type, none, span⟩

/-- An element of an interface: a method, or a constraint that is embedded. -/
def interfaceElement : m (Field TypeExpr) :=
  announcedElement (method inner) (embeddedElement inner)

/-- An interface type. -/
def interfaceType : m TypeExpr :=
  bracedOf .interfaceOpen .interfaceElementEnd (interfaceElement inner)
    fun span elems => pure (.interface span elems)

/-- A type in parentheses. -/
def parenType : m TypeExpr :=
  parenOf inner fun span elem => pure (.paren span elem)

/-- A pointer type. -/
def pointerType : m TypeExpr :=
  behindToken inner fun span elem => pure (.pointer span elem)

/-- A type, given a reader of the types in it. -/
def typeForm : m TypeExpr :=
  announcedForm {
    named := namedType inner
    pointer := pointerType inner
    bracket := bracketType inner
    map := mapType inner
    chan := chanType inner
    receive := receiveType inner
    func := funcType inner
    struct := structType inner
    interface := interfaceType inner
    paren := parenType inner
  }

/-- Type parameters that share a constraint. -/
def typeParameter : m (Field TypeExpr) :=
  typeParameterOf identList (constraint inner) fun span names type =>
    pure ⟨names, type, none, span⟩

/-- Groups of type parameters in brackets; there has to be one. -/
def typeParameters : m (List (Field TypeExpr)) :=
  typeParametersOf (typeParameter inner) pure

end Forms

/-- A type in which no type is nested more than `depth` deep. -/
def typeWithin : Nat → m TypeExpr
  | 0 => spent (unexpected .type)
  | depth + 1 => typeForm (typeWithin depth)

/-- A type. -/
def typeExpr : m TypeExpr :=
  nested typeWithin

end TokenReader

namespace Parser

export TokenReader (typeName typeArguments namedType arrayBound bracketType mapType
  chanType receiveType paramType typedEntry unnamedEntry bareEntry paramEntry
  parameters bareResult results signature funcType term constraint tag? memberNames
  structMember structType method embeddedElement interfaceElement interfaceType
  parenType pointerType typeForm typeParameter typeParameters typeWithin typeExpr)

end Parser

end GoInventory
