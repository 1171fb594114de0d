import GoInventory.Syntax.Parameter
import GoInventory.Syntax.TokenReader

/-!
# The forms of the grammar

Which tokens types and declarations are made of, and in which order their parts
are read. What becomes of the parts is left open: a form takes the readers of
its parts, and is told what to make of them (`make`). Parsers make trees of them
and builders the cells of an arena, and neither says anything about tokens.
-/

namespace GoInventory

/-- A reader for each form of type. -/
structure TypeForms (m : Type → Type) (τ : Type) where
  named : m τ
  pointer : m τ
  bracket : m τ
  map : m τ
  chan : m τ
  receive : m τ
  func : m τ
  struct : m τ
  interface : m τ
  paren : m τ

/-- A reader for each kind of declaration. -/
structure DeclKinds (m : Type → Type) (δ : Type) where
  imports : m δ
  consts : m δ
  vars : m δ
  types : m δ
  func : m δ

namespace TokenReader

variable {m : Type → Type} [Monad m] [TokenReader m]
variable {α β δ ε ι κ ν π ρ σ τ φ χ : Type}

/-! ## Choices

What is read next depends on the tokens ahead. -/

/-- The form of type that the next token announces. -/
def announcedForm (forms : TypeForms m τ) : m τ := do
  match ← peek? 0 with
  | some (.ident _) => forms.named
  | some (.op .star) => forms.pointer
  | some (.op .openBracket) => forms.bracket
  | some (.keyword .map) => forms.map
  | some (.keyword .chan) => forms.chan
  | some (.op .arrow) => forms.receive
  | some (.keyword .func) => forms.func
  | some (.keyword .struct) => forms.struct
  | some (.keyword .interface) => forms.interface
  | some (.op .openParen) => forms.paren
  | _ => unexpected .type

/-- Results: a list in parentheses, one bare type, or nothing. -/
def announcedResults (parenthesized bare : m (List φ)) : m (List φ) := do
  match ← peek? 0 with
  | some (.op .openParen) => parenthesized
  | some tok => if tok.startsType then bare else pure []
  | none => pure []

/-- The kind of entry of a parameter list that comes next. -/
def announcedEntry (bare typed unnamed : m ε) : m ε := do
  match ← entryShape with
  | .bare => bare
  | .typed => typed
  | .unnamed => unnamed

/-- The names of a struct member, or that it is embedded. -/
def announcedNames (embedded : ν) (names : m ν) : m ν := do
  match ← isEmbedded? with
  | some true => pure embedded
  | some false => names
  | none => unexpected .structMember

/-- An element of an interface: a method, or what is embedded. -/
def announcedElement (method embedded : m φ) : m φ := do
  if ← atMethod then method else embedded

/-- The kind of declaration that the next token announces. -/
def announcedDecl (kinds : DeclKinds m δ) : m δ := do
  match ← peek? 0 with
  | some (.keyword .import) => kinds.imports
  | some (.keyword .const) => kinds.consts
  | some (.keyword .var) => kinds.vars
  | some (.keyword .type) => kinds.types
  | some (.keyword .func) => kinds.func
  | _ => unexpected .declaration

/-- What a token announces, if it is next. -/
def ifNext (tok : Tok) (p : m α) : m (Option α) := do
  if ← isNext tok then
    let a ← p
    pure (some a)
  else
    pure none

/-- A string literal, if one is next. -/
def ifString (lit : m σ) : m (Option σ) := do
  match ← peek? 0 with
  | some tok =>
    if tok.isString then
      let lit ← lit
      pure (some lit)
    else
      pure none
  | none => pure none

/-- A type, if one is next. -/
def ifType (type : m τ) : m (Option τ) := do
  match ← peek? 0 with
  | some tok =>
    if tok.startsType then
      let type ← type
      pure (some type)
    else
      pure none
  | none => pure none

/-- A name or a dot, if one of them is next; `dot` is told where the dot is. -/
def ifName (dot : Span → m ι) (name : m ι) : m (Option ι) := do
  match ← peek? 0 with
  | some (.op .dot) =>
    let span ← here
    advance
    let dot ← dot span
    pure (some dot)
  | some (.ident _) =>
    let name ← name
    pure (some name)
  | _ => pure none

/-! ## Types -/

/-- Something, and the span that it covers. -/
def spanned (part : m α) (make : Span → α → m β) : m β := do
  let start ← here
  let a ← part
  let span ← since start
  make span a

/-- Something behind the token that announces it, and the span of both. -/
def behindToken (part : m α) (make : Span → α → m β) : m β := do
  let start ← here
  advance
  let a ← part
  let span ← since start
  make span a

/-- The name of a type, plain or of another package. -/
def typeNameOf (name : m ι) (plain : ι → m β) (qualified : Span → ι → ι → m β) :
    m β := do
  let start ← here
  let first ← name
  if ← eat (.op .dot) then
    let name ← name
    let span ← since start
    qualified span first name
  else
    plain first

/-- Type arguments in brackets, the first of which has been read. There has to
be an argument. -/
def typeArgumentsOf (arg : m τ) (start : Span) (make : Span → List τ → m β) :
    m β := do
  let args ← commaList .closeBracket .typeArgumentEnd arg
  let span ← since start
  if args.isEmpty then
    fail span .emptyTypeArguments
  else
    make span args

/-- The name of a type, with its type arguments if it has any. -/
def namedOf (base : m α) (plain : α → m β) (applied : Span → α → m β) : m β := do
  let start ← here
  let base ← base
  if ← eat (.op .openBracket) then
    applied start base
  else
    plain base

/-- What stands between the brackets of an array type, the first of which
has been read. -/
def arrayBoundOf (ellipsis : α) (length : m α) : m α := do
  if ← eat (.op .ellipsis) then
    pure ellipsis
  else
    length

/-- An array or slice type. -/
def bracketOf (bound : m α) (elem : m τ) (slice : Span → τ → m β)
    (array : Span → α → τ → m β) : m β := do
  let start ← here
  advance
  if ← eat (.op .closeBracket) then
    let elem ← elem
    let span ← since start
    slice span elem
  else
    let length ← bound
    expect (.op .closeBracket) .closeBracket
    let elem ← elem
    let span ← since start
    array span length elem

/-- A map type. -/
def mapOf (elem : m τ) (make : Span → τ → τ → m β) : m β := do
  let start ← here
  advance
  expect (.op .openBracket) .mapKeyOpen
  let key ← elem
  expect (.op .closeBracket) .closeBracket
  let value ← elem
  let span ← since start
  make span key value

/-- A channel type that starts with its keyword. -/
def chanOf (elem : m τ) (make : Span → ChanDir → τ → m β) : m β := do
  let start ← here
  advance
  let sends ← eat (.op .arrow)
  let elem ← elem
  let span ← since start
  make span (if sends then .send else .both) elem

/-- A channel type that starts with an arrow. -/
def receiveOf (elem : m τ) (make : Span → τ → m β) : m β := do
  let start ← here
  advance
  expect (.keyword .chan) .chanKeyword
  let elem ← elem
  let span ← since start
  make span elem

/-- A type in parentheses. -/
def parenOf (elem : m τ) (make : Span → τ → m β) : m β := do
  let start ← here
  advance
  let elem ← elem
  expect (.op .closeParen) .closeParen
  let span ← since start
  make span elem

/-- The type of a parameter, which may be variadic. -/
def paramTypeOf (type : m τ) (variadic : Span → τ → m τ) : m τ := do
  let start ← here
  if ← eat (.op .ellipsis) then
    let elem ← type
    let span ← since start
    variadic span elem
  else
    type

/-- A parameter with a name and a type. -/
def typedEntryOf (name : m ι) (type : m τ) (make : Span → ι → τ → m ε) : m ε := do
  let start ← here
  let name ← name
  let type ← type
  let span ← since start
  make span name type

/-- Parameters in parentheses. -/
def parametersOf (entry : m ε) (group : List ε → m β) : m β := do
  expect (.op .openParen) .parametersOpen
  let entries ← commaList .closeParen .parameterEnd entry
  group entries

/-- Parameters and results. -/
def signatureOf (params results : m π) (make : Span → π → π → m χ) : m χ := do
  let start ← here
  let params ← params
  let results ← results
  let span ← since start
  make span params results

/-- A term of a constraint. -/
def termOf (type : m τ) (make : Bool → τ → m κ) : m κ := do
  let tilde ← eat (.op .tilde)
  let type ← type
  make tilde type

/-- A constraint: terms with bars between them. -/
def constraintOf (term : m κ) (make : Span → List κ → m τ) : m τ :=
  spanned (separatedList .pipe term) make

/-- A member of a struct. -/
def structMemberOf (names : m ν) (type : m τ) (tag : m σ)
    (make : Span → ν → τ → σ → m φ) : m φ := do
  let start ← here
  let names ← names
  let type ← type
  let tag ← tag
  let span ← since start
  make span names type tag

/-- Members or elements in braces, behind the keyword that announces them. -/
def bracedOf (opened itemEnd : Expected) (item : m φ) (make : Span → List φ → m β) :
    m β := do
  let start ← here
  advance
  expect (.op .openBrace) opened
  let items ← memberList .closeBrace itemEnd item
  let span ← since start
  make span items

/-- A method of an interface. -/
def methodOf (name : m ι) (sig : m χ) (make : Span → ι → χ → m φ) : m φ := do
  let start ← here
  let name ← name
  let sig ← sig
  let span ← since start
  make span name sig

/-- Type parameters that share a constraint. -/
def typeParameterOf (names : m ν) (constraint : m τ) (make : Span → ν → τ → m φ) :
    m φ := do
  let start ← here
  let names ← names
  let type ← constraint
  let span ← since start
  make span names type

/-- Groups of type parameters in brackets; there has to be one. -/
def typeParametersOf (param : m φ) (make : List φ → m β) : m β := do
  advance
  let params ← commaList .closeBracket .typeParameterEnd param
  let after ← here
  if params.isEmpty then
    fail after .emptyTypeParameters
  else
    make params

/-! ## Declarations -/

/-- The body of a function, with its braces. -/
def block : m Span := do
  let start ← here
  advance
  skipBody start
  since start

/-- The initializers of a declaration. -/
def expressions : m Span := do
  let start ← here
  skipExpressions start
  since start

/-- The initializers of a value declaration, if it has any. -/
def values? : m (Option Span) := do
  if ← eat (.op .assign) then
    let span ← expressions
    pure (some span)
  else
    pure none

/-- The body of a function, if it has one. -/
def body? : m (Option Span) :=
  ifNext (.op .openBrace) block

/-- One import. -/
def importSpecOf (name : m ι) (path : m σ) (make : ι → σ → m β) : m β := do
  let name ← name
  let path ← path
  make name path

/-- Names with their type and initializers. -/
def valueSpecOf (names : m ν) (type : m τ) (make : ν → τ → Option Span → m β) :
    m β := do
  let names ← names
  let type ← type
  let values ← values?
  make names type values

/-- The type parameters of a type declaration, if it has any. -/
def specTypeParametersOf (params : m ρ) (none : ρ) : m ρ := do
  if ← atTypeParameters then params else pure none

/-- The type parameters of a function, if it has any. -/
def funcTypeParametersOf (params : m ρ) (none : ρ) : m ρ := do
  if ← isNext (.op .openBracket) then params else pure none

/-- A type definition or alias. -/
def typeSpecOf (name : m ι) (params : m ρ) (type : m τ)
    (make : ι → ρ → Bool → τ → m β) : m β := do
  let name ← name
  let params ← params
  let isAlias ← eat (.op .assign)
  let type ← type
  make name params isAlias type

/-- A spec in parentheses; at the end of the source the closing one is missing. -/
def groupedSpec (spec : m σ) : m σ := do
  match ← peek? 0 with
  | none => unexpected .groupClose
  | some _ => spec

/-- A keyword and its spec, or its specs in parentheses; `spec` is told which. -/
def groupOf (spec : Bool → m σ) (make : Span → List σ → Bool → m δ) : m δ := do
  let start ← here
  advance
  if ← eat (.op .openParen) then
    let specs ← memberList .closeParen .specEnd (groupedSpec (spec true))
    let span ← since start
    make span specs true
  else
    let only ← spec false
    let span ← since start
    make span [only] false

/-- The only one of the groups of parameters that `groups` reads. -/
def onlyReceiver (groups : m (List φ)) : m φ := do
  let span ← here
  match ← groups with
  | [] => fail span .noReceiver
  | [only] => pure only
  | _ => fail span .multipleReceivers

/-- A function or method. -/
def funcDeclOf (receiver : m α) (name : m ι) (params : m ρ) (sig : m χ)
    (make : Span → α → ι → ρ → χ → Option Span → m δ) : m δ := do
  let start ← here
  advance
  let receiver ← receiver
  let name ← name
  let params ← params
  let sig ← sig
  let body ← body?
  let span ← since start
  make span receiver name params sig body

/-- Pass over semicolons. -/
def semicolonItems : Nat → m Unit
  | 0 => spent (pure ())
  | bound + 1 => do
    if ← eat (.op .semicolon) then semicolonItems bound else pure ()

/-- Pass over semicolons. -/
def semicolons : m Unit :=
  bounded semicolonItems

/-- Declarations up to the end of the file. -/
def declItems (decl : m δ) : Nat → m (List δ)
  | 0 => spent (unexpected .declaration)
  | bound + 1 => do
    semicolons
    match ← peek? 0 with
    | none => pure []
    | some _ =>
      let first ← decl
      terminator .declarationEnd
      let others ← declItems decl bound
      pure (first :: others)

/-- Declarations up to the end of the file. -/
def declList (decl : m δ) : m (List δ) :=
  bounded (declItems decl)

/-- A package clause and declarations. -/
def fileOf (name : m ι) (decl : m δ) (make : ι → List δ → m β) : m β := do
  semicolons
  expect (.keyword .package) .package
  let package ← name
  terminator .packageEnd
  let decls ← declList decl
  make package decls

end TokenReader

namespace Parser

export TokenReader (announcedForm announcedResults announcedEntry announcedNames
  announcedElement announcedDecl ifNext ifString ifType ifName spanned behindToken
  typeNameOf typeArgumentsOf namedOf arrayBoundOf bracketOf mapOf chanOf receiveOf
  parenOf paramTypeOf typedEntryOf parametersOf signatureOf termOf constraintOf
  structMemberOf bracedOf methodOf typeParameterOf typeParametersOf block expressions
  values? body? importSpecOf valueSpecOf specTypeParametersOf funcTypeParametersOf
  typeSpecOf groupedSpec groupOf onlyReceiver funcDeclOf semicolonItems semicolons
  declItems declList fileOf)

end Parser

end GoInventory
