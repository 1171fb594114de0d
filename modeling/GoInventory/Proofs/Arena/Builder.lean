import GoInventory.Proofs.Arena.Store
import GoInventory.Syntax.FileParser

/-!
# Parsing into an arena

A builder reads tokens like a parser, and puts every part of the file into an
arena as soon as it has read it. Nodes hold numbers of other nodes, so what a
builder gives is a number, a list of numbers that is not yet in the arena, or
the place of a list that is.

Builders are readers of tokens (`TokenReader`). They have the forms that parsers
have, and differ in what they make of the parts (`Builder.keep`).
-/

namespace GoInventory

open Arena

/-- A parser that changes an arena as it goes. -/
abbrev Builder (hash : String → UInt64) (α : Type) : Type :=
  StateT (Arena hash) Parser α

/-- An entry of a parameter list, the parts of which are in the arena. -/
inductive EntryRef where
  | bare (name : IdentRef) (span : Span)
  | typed (name : IdentRef) (type : NodeId .type) (span : Span)
  | unnamed (type : NodeId .type) (span : Span)

namespace EntryRef

/-- The entry has both a name and a type. -/
def isTyped : EntryRef → Bool
  | typed _ _ _ => true
  | bare _ _ | unnamed _ _ => false

end EntryRef

namespace Builder

variable {hash : String → UInt64} {α : Type}

/-- Read tokens and leave the arena as it is. -/
def read (p : Parser α) : Builder hash α := fun A => p >>= fun a => pure (a, A)

/-- Put something into the arena and read nothing. -/
def keep (s : Store hash α) : Builder hash α := fun A => pure (s A)

end Builder

open Builder in
/-- Builders read as parsers do. -/
instance {hash : String → UInt64} : TokenReader (Builder hash) where
  peek? n := read (.peek? n)
  here := read .here
  since first := read (.since first)
  fail span fault := read (.fail span fault)
  unexpected expected := read (.unexpected expected)
  advance := read .advance
  eat tok := read (.eat tok)
  ident := read .ident
  stringLit := read .stringLit
  terminator expected := read (.terminator expected)
  entryShape := read .entryShape
  isEmbedded? := read .isEmbedded?
  atMethod := read .atMethod
  atTypeParameters := read .atTypeParameters
  arrayLength := read .arrayLength
  skipBody start := read (.skipBody start)
  skipExpressions start := read (.skipExpressions start)
  bounded b := fun A c => b (c.rest.length + 1) A c
  nested b := fun A c => b c.rest.length A c
  spent := id

namespace Builder

open TokenReader

variable {hash : String → UInt64}

/-! ## Names and literals -/

/-- An identifier. -/
def ident : Builder hash IdentRef := do
  let name ← TokenReader.ident
  keep name.store

/-- A string literal of either kind. -/
def stringLit : Builder hash StringRef := do
  let lit ← TokenReader.stringLit
  keep lit.store

/-- Names with commas between them. -/
def identList : Builder hash (List IdentRef) :=
  separatedList .comma ident

/-- Names with commas between them, as a list of the arena. -/
def nameList : Builder hash (ListRef .nameItem) := do
  let names ← identList
  keep (list (names.map .nameItem))

/-- The length of an array, up to the closing bracket. -/
def arrayLength : Builder hash (NodeId .length) := do
  let length ← TokenReader.arrayLength
  keep length.store

/-! ## Types -/

section Forms

variable (inner : Builder hash (NodeId .type))

/-- The name of a type, plain or of another package. -/
def typeName : Builder hash (NodeId .type) :=
  typeNameOf ident (fun name => keep (alloc (.type (.plain name) name.span)))
    fun span pkg name => keep (alloc (.type (.qualified pkg name) span))

/-- The type arguments of a name, the node of which has been made. -/
def typeArguments (start : Span) (base : NodeId .type) :
    Builder hash (NodeId .type) :=
  typeArgumentsOf inner start fun span args => do
    let r ← keep (list (args.map .typeItem))
    keep (alloc (.type (.applied base r) span))

/-- The name of a type, with its type arguments if it has any. -/
def namedType : Builder hash (NodeId .type) :=
  namedOf typeName pure (typeArguments inner)

/-- What stands between the brackets of an array type, the first of which
has been read. -/
def arrayBound : Builder hash LengthRef :=
  arrayBoundOf .ellipsis do
    let length ← arrayLength
    pure (.expr length)

/-- An array or slice type. -/
def bracketType : Builder hash (NodeId .type) :=
  bracketOf arrayBound inner
    (fun span elem => keep (alloc (.type (.slice elem) span)))
    fun span length elem => keep (alloc (.type (.array length elem) span))

/-- A map type. -/
def mapType : Builder hash (NodeId .type) :=
  mapOf inner fun span key value => keep (alloc (.type (.map key value) span))

/-- A channel type that starts with its keyword. -/
def chanType : Builder hash (NodeId .type) :=
  chanOf inner fun span dir elem => keep (alloc (.type (.chan dir elem) span))

/-- A channel type that starts with an arrow. -/
def receiveType : Builder hash (NodeId .type) :=
  receiveOf inner fun span elem => keep (alloc (.type (.chan .receive elem) span))

/-- The type of a parameter, which may be variadic. -/
def paramType : Builder hash (NodeId .type) :=
  paramTypeOf inner fun span elem => keep (alloc (.type (.variadic elem) span))

/-- A parameter that is a name on its own. -/
def bareEntry : Builder hash EntryRef := do
  let name ← ident
  pure (.bare name name.span)

/-- A parameter with a name and a type. -/
def typedEntry : Builder hash EntryRef :=
  typedEntryOf ident (paramType inner) fun span name type =>
    pure (.typed name type span)

/-- A parameter with a type and no name. -/
def unnamedEntry : Builder hash EntryRef :=
  spanned (paramType inner) fun span type => pure (.unnamed type span)

/-- One entry of a parameter list. -/
def paramEntry : Builder hash EntryRef :=
  announcedEntry bareEntry (typedEntry inner) (unnamedEntry inner)

/-- Make the field of an entry in a list without names. A name on its own is the
name of a type. -/
def settleUnnamed : EntryRef → Store hash (NodeId .field)
  | .bare name span => do
    let type ← alloc (.type (.plain name) name.span)
    alloc (.field ⟨.empty, type, none⟩ span)
  | .typed _ type span | .unnamed type span =>
    alloc (.field ⟨.empty, type, none⟩ span)

/-- Make the fields of a list in which every entry needs a name. `pending`
are the names that still wait for their type, and `start` is where the first
of them starts. -/
def resolveNamed (pending : List IdentRef) (start : Option Nat) :
    List EntryRef → Builder hash (List (NodeId .field))
  | [] =>
    match pending.getLast? with
    | none => pure []
    | some last => fail last.span .missingParameterType
  | .bare name span :: rest =>
    resolveNamed (pending ++ [name]) (start.or (some span.start)) rest
  | .typed name type span :: rest => do
    let names ← keep (list ((pending ++ [name]).map .nameItem))
    let field ← keep
      (alloc (.field ⟨names, type, none⟩ ⟨start.getD span.start, span.stop⟩))
    let others ← resolveNamed [] none rest
    pure (field :: others)
  | .unnamed _ span :: _ => fail span .mixedParameters

/-- Make the fields of the entries of a list. -/
def resolve (entries : List EntryRef) : Builder hash (List (NodeId .field)) :=
  if entries.any EntryRef.isTyped then resolveNamed [] none entries
    else keep (entries.mapM settleUnnamed)

/-- Parameters in parentheses. -/
def parameters : Builder hash (List (NodeId .field)) :=
  parametersOf (paramEntry inner) resolve

/-- A result without parentheses. -/
def bareResult : Builder hash (List (NodeId .field)) :=
  spanned inner fun span type => do
    let field ← keep (alloc (.field ⟨.empty, type, none⟩ span))
    pure [field]

/-- The results of a function. -/
def results : Builder hash (List (NodeId .field)) :=
  announcedResults (parameters inner) (bareResult inner)

/-- Parameters and results, with the span of the node that is made. -/
def signature : Builder hash (NodeId .signature × Span) :=
  signatureOf (parameters inner) (results inner) fun span params results => do
    let params ← keep (list (params.map .fieldItem))
    let results ← keep (list (results.map .fieldItem))
    let id ← keep (alloc (.signature params results span))
    pure (id, span)

/-- A function type. -/
def funcType : Builder hash (NodeId .type) :=
  behindToken (signature inner) fun span sig =>
    keep (alloc (.type (.func sig.1) span))

/-- A term of a constraint. -/
def term : Builder hash (Cell .termItem) :=
  termOf inner fun tilde type => pure (.termItem tilde type)

/-- A constraint: terms with bars between them. A single term without a tilde is
just its type. -/
def constraint : Builder hash (NodeId .type) :=
  constraintOf (term inner) fun span terms =>
    match terms with
    | [.termItem false type] => pure type
    | terms => do
      let r ← keep (list terms)
      keep (alloc (.type (.union r) span))

/-- The tag of a struct member, if it has one. -/
def tag? : Builder hash (Option StringRef) :=
  ifString stringLit

/-- The names of a struct member; an embedded one has none. -/
def memberNames : Builder hash (ListRef .nameItem) :=
  announcedNames .empty nameList

/-- A member of a struct. -/
def structMember : Builder hash (NodeId .field) :=
  structMemberOf memberNames inner tag? fun span names type tag =>
    keep (alloc (.field ⟨names, type, tag⟩ span))

/-- A struct type. -/
def structType : Builder hash (NodeId .type) :=
  bracedOf .structOpen .structMemberEnd (structMember inner) fun span fields => do
    let r ← keep (list (fields.map .fieldItem))
    keep (alloc (.type (.struct r) span))

/-- A method of an interface. Its type has the span of its signature. -/
def method : Builder hash (NodeId .field) :=
  methodOf ident (signature inner) fun span name sig => do
    let type ← keep (alloc (.type (.func sig.1) sig.2))
    let names ← keep (list [.nameItem name])
    keep (alloc (.field ⟨names, type, none⟩ span))

/-- A constraint that is embedded in an interface. -/
def embeddedElement : Builder hash (NodeId .field) :=
  spanned (constraint inner) fun span type =>
    keep (alloc (.field ⟨.empty, type, none⟩ span))

/-- An element of an interface: a method, or a constraint that is embedded. -/
def interfaceElement : Builder hash (NodeId .field) :=
  announcedElement (method inner) (embeddedElement inner)

/-- An interface type. -/
def interfaceType : Builder hash (NodeId .type) :=
  bracedOf .interfaceOpen .interfaceElementEnd (interfaceElement inner)
    fun span elems => do
      let r ← keep (list (elems.map .fieldItem))
      keep (alloc (.type (.interface r) span))

/-- A type in parentheses. -/
def parenType : Builder hash (NodeId .type) :=
  parenOf inner fun span elem => keep (alloc (.type (.paren elem) span))

/-- A pointer type. -/
def pointerType : Builder hash (NodeId .type) :=
  behindToken inner fun span elem => keep (alloc (.type (.pointer elem) span))

/-- A type, given a builder of the types in it. -/
def typeForm : Builder hash (NodeId .type) :=
  announcedForm {
    named := namedType inner
    pointer := pointerType inner
    bracket := bracketType inner
    map := mapType inner
    chan := chanType inner
    receive := receiveType inner
    func := funcType inner
    struct := structType inner
    interface := interfaceType inner
    paren := parenType inner
  }

/-- Type parameters that share a constraint. -/
def typeParameter : Builder hash (NodeId .field) :=
  typeParameterOf identList (constraint inner) fun span names type => do
    let names ← keep (list (names.map .nameItem))
    keep (alloc (.field ⟨names, type, none⟩ span))

/-- Groups of type parameters in brackets; there has to be one. -/
def typeParameters : Builder hash (ListRef .fieldItem) :=
  typeParametersOf (typeParameter inner) fun params =>
    keep (list (params.map .fieldItem))

end Forms

/-- A type in which no type is nested more than `depth` deep. -/
def typeWithin : Nat → Builder hash (NodeId .type)
  | 0 => unexpected .type
  | depth + 1 => typeForm (typeWithin depth)

/-- A type. -/
def typeExpr : Builder hash (NodeId .type) :=
  nested typeWithin

/-! ## Declarations -/

/-- The name that an import is given, if any. -/
def importName? : Builder hash (Option IdentRef) :=
  ifName (fun span => keep (Ident.store ⟨".", span⟩)) ident

/-- One import. -/
def importSpec : Builder hash SpecNode :=
  importSpecOf importName? stringLit fun name path => pure (.imports name path)

/-- The type of a value declaration, if it has one. -/
def valueType? : Builder hash (Option (NodeId .type)) :=
  ifType typeExpr

/-- Names with their type and initializers. `missing` says, given whether there
is a type, what is missing if there are no initializers. -/
def valueSpec (missing : Bool → Option Expected) : Builder hash SpecNode :=
  valueSpecOf nameList valueType? fun names type values =>
    match values, missing type.isSome with
    | none, some expected => unexpected expected
    | _, _ => pure (.values names type values)

/-- Constants. They need a value, unless they stand in a group without a type. -/
def constSpec (grouped : Bool) : Builder hash SpecNode :=
  valueSpec fun typed => if grouped && !typed then none else some .constantValue

/-- Variables. They need a type or a value. -/
def varSpec : Builder hash SpecNode :=
  valueSpec fun typed => if typed then none else some .variableTypeOrValue

/-- The type parameters of a type declaration, if it has any. -/
def specTypeParameters : Builder hash (ListRef .fieldItem) :=
  specTypeParametersOf (typeParameters typeExpr) .empty

/-- A type definition or alias. -/
def typeSpec : Builder hash SpecNode :=
  typeSpecOf ident specTypeParameters typeExpr fun name typeParams isAlias type =>
    pure (.type name typeParams isAlias type)

/-- A keyword and its spec, or its specs in parentheses; `spec` is told which. -/
def group (kind : GroupKind) (spec : Bool → Builder hash SpecNode) :
    Builder hash (NodeId .decl) :=
  groupOf spec fun span specs grouped => do
    let r ← keep (list (specs.map .specItem))
    keep (alloc (.decl (.group kind r grouped) span))

/-- The receiver of a method, which has to be one group of parameters. -/
def receiver : Builder hash (NodeId .field) :=
  onlyReceiver (parameters typeExpr)

/-- The receiver of a method, if there is one. -/
def receiver? : Builder hash (Option (NodeId .field)) :=
  ifNext (.op .openParen) receiver

/-- The type parameters of a function, if it has any. -/
def funcTypeParameters : Builder hash (ListRef .fieldItem) :=
  funcTypeParametersOf (typeParameters typeExpr) .empty

/-- A function or method. -/
def funcDecl : Builder hash (NodeId .decl) :=
  funcDeclOf receiver? ident funcTypeParameters (signature typeExpr)
    fun span receiver name typeParams sig body =>
      keep (alloc (.decl (.func receiver name typeParams sig.1 body) span))

/-- A top-level declaration. -/
def decl : Builder hash (NodeId .decl) :=
  announcedDecl {
    imports := group .imports fun _ => importSpec
    consts := group .consts constSpec
    vars := group .vars fun _ => varSpec
    types := group .types fun _ => typeSpec
    func := funcDecl
  }

/-- A whole file. -/
def file : Builder hash StoredFile :=
  fileOf ident decl fun package decls => do
    let r ← keep (list (decls.map .declItem))
    pure ⟨package, r⟩

end Builder

/-- Read a source text into a new arena. -/
def buildSource (hash : String → UInt64) (source : String) :
    Except ParseFailure (StoredFile × Arena hash) :=
  let lexed := tokenize source
  if lexed.diagnostics.isEmpty then
    match Builder.file .empty
      (.start lexed.tokens (Text.byteLength source.toList)) with
    | .ok (stored, _) => .ok stored
    | .error e => .error ⟨[e.diagnostic]⟩
  else
    .error ⟨lexed.diagnostics⟩

end GoInventory
