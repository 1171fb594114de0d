import GoInventory.Syntax.TypeParser
import GoInventory.Token.Stream

/-!
# Parsing files

A file is a package clause and a sequence of declarations, and is made into a
tree like the types in it. `parseSource` reads a source text. Lexical faults
come first: if there is one, the parser is not run.
-/

namespace GoInventory

namespace TokenReader

variable {m : Type → Type} [Monad m] [TokenReader m]

/-- The name that an import is given, if any. -/
def importName? : m (Option Ident) :=
  ifName (fun span => pure ⟨".", span⟩) ident

/-- One import. -/
def importSpec : m ImportSpec :=
  importSpecOf importName? stringLit fun name path => pure ⟨name, path⟩

/-- The type of a value declaration, if it has one. -/
def valueType? : m (Option TypeExpr) :=
  ifType typeExpr

/-- Names with their type and initializers. -/
def valueSpec : m ValueSpec :=
  valueSpecOf identList valueType? fun names type values => pure ⟨names, type, values⟩

/-- Constants. They need a value, unless they stand in a group without a type,
where they repeat the spec before. -/
def constSpec (grouped : Bool) : m ValueSpec := do
  let spec ← valueSpec
  if spec.values.isNone && !(grouped && spec.type.isNone) then
    unexpected .constantValue
  else
    pure spec

/-- Variables. They need a type or a value. -/
def varSpec : m ValueSpec := do
  let spec ← valueSpec
  if spec.values.isNone && spec.type.isNone then
    unexpected .variableTypeOrValue
  else
    pure spec

/-- The type parameters of a type declaration, if it has any. -/
def specTypeParameters : m (List (Field TypeExpr)) :=
  specTypeParametersOf (typeParameters typeExpr) []

/-- A type definition or alias. -/
def typeSpec : m TypeSpec :=
  typeSpecOf ident specTypeParameters typeExpr fun name typeParams isAlias type =>
    pure ⟨name, typeParams, isAlias, type⟩

/-- A keyword and its spec, or its specs in parentheses; `spec` is told which. -/
def group {σ : Type} (spec : Bool → m σ) : m (Group σ) :=
  groupOf spec fun span specs grouped => pure ⟨specs, grouped, span⟩

/-- The receiver of a method, which has to be one group of parameters. -/
def receiver : m (Field TypeExpr) :=
  onlyReceiver (parameters typeExpr)

/-- The receiver of a method, if there is one. -/
def receiver? : m (Option (Field TypeExpr)) :=
  ifNext (.op .openParen) receiver

/-- The type parameters of a function, if it has any. -/
def funcTypeParameters : m (List (Field TypeExpr)) :=
  funcTypeParametersOf (typeParameters typeExpr) []

/-- A function or method. -/
def funcDecl : m FuncDecl :=
  funcDeclOf receiver? ident funcTypeParameters (signature typeExpr)
    fun span receiver name typeParams sig body =>
      pure ⟨receiver, name, typeParams, sig, body, span⟩

/-- A top-level declaration. -/
def decl : m Decl :=
  announcedDecl {
    imports := do
      let specs ← group fun _ => importSpec
      pure (.imports specs)
    consts := do
      let specs ← group constSpec
      pure (.consts specs)
    vars := do
      let specs ← group fun _ => varSpec
      pure (.vars specs)
    types := do
      let specs ← group fun _ => typeSpec
      pure (.types specs)
    func := do
      let func ← funcDecl
      pure (.func func)
  }

/-- A whole file. -/
def file : m SourceFile :=
  fileOf ident decl fun package decls => pure ⟨package, decls⟩

end TokenReader

namespace Parser

export TokenReader (importName? importSpec valueType? valueSpec constSpec varSpec
  specTypeParameters typeSpec group receiver receiver? funcTypeParameters funcDecl
  decl)

/-- The parser of files. -/
def file : Parser SourceFile :=
  TokenReader.file

end Parser

/-- The file that a sequence of tokens is; `sourceLength` is where its
end is reported. -/
def parseTokens (tokens : List Token) (sourceLength : Nat) :
    Except SyntaxError SourceFile :=
  (Parser.file (.start tokens sourceLength)).map (·.1)

/-- The file that a source text is. -/
def parseSource (source : String) : Except ParseFailure SourceFile :=
  let read := tokenize source
  if read.diagnostics.isEmpty then
    match parseTokens read.tokens (Text.byteLength source.toList) with
    | .ok file => .ok file
    | .error e => .error ⟨[e.diagnostic]⟩
  else
    .error ⟨read.diagnostics⟩

end GoInventory
