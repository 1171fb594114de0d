import GoInventory.Token.Basic

/-!
# The syntax tree

The top level of a Go source file: package clause, imports, constants,
variables, types and functions, with every type expression in full. Function
bodies and initializers are kept as spans only.

Groups of names that share a type occur in many places (parameters, results,
type parameters, struct members, interface elements), so `Field` is one type for
all of them. It takes the type of types as a parameter, which lets `TypeExpr`
contain fields of itself.
-/

namespace GoInventory

/-- An identifier in its place. -/
structure Ident where
  name : String
  span : Span
deriving DecidableEq, Repr

/-- The two ways to write a string. -/
inductive StringKind where
  | raw
  | interpreted
deriving DecidableEq, Repr

/-- A string literal; the text includes its delimiters. -/
structure StringLit where
  kind : StringKind
  text : String
  span : Span
deriving DecidableEq, Repr

/-- The length of an array, as far as it is understood: a constant's name, plain
or of another package, or one literal. Anything else is kept as a span. -/
inductive LengthExpr where
  | ident (name : Ident)
  | selector (span : Span) (pkg sel : Ident)
  | literal (span : Span) (kind : LiteralKind) (text : String)
  | other (span : Span)
deriving DecidableEq, Repr

/-- The span of a length. -/
def LengthExpr.span : LengthExpr → Span
  | ident name => name.span
  | selector span _ _ | literal span _ _ | other span => span

/-- What stands between the brackets of an array type. -/
inductive ArrayLength where
  | expr (length : LengthExpr)
  | ellipsis
deriving DecidableEq, Repr

/-- The directions of a channel. -/
inductive ChanDir where
  | both
  | send
  | receive
deriving DecidableEq, Repr

/-- The name of a type, plain or of another package. -/
inductive TypeName where
  | plain (name : Ident)
  | qualified (span : Span) (pkg name : Ident)
deriving DecidableEq, Repr

/-- The span of a type name. -/
def TypeName.span : TypeName → Span
  | plain name => name.span
  | qualified span _ _ => span

/-- Names that share a type. There are none for an unnamed parameter and for an
embedded member; a tag occurs on struct members only. -/
structure Field (τ : Type) where
  names : List Ident
  type : τ
  tag : Option StringLit
  span : Span
deriving DecidableEq, Repr

/-- Parameters and results. A single bare result is one field without names. -/
structure Signature (τ : Type) where
  params : List (Field τ)
  results : List (Field τ)
  span : Span
deriving DecidableEq, Repr

/-- One term of a constraint. -/
structure Term (τ : Type) where
  tilde : Bool
  type : τ
deriving DecidableEq, Repr

/-- Type expressions. -/
inductive TypeExpr where
  | named (name : TypeName)
  | applied (span : Span) (base : TypeName) (args : List TypeExpr)
  | pointer (span : Span) (elem : TypeExpr)
  | array (span : Span) (length : ArrayLength) (elem : TypeExpr)
  | slice (span : Span) (elem : TypeExpr)
  | map (span : Span) (key value : TypeExpr)
  | chan (span : Span) (dir : ChanDir) (elem : TypeExpr)
  | func (span : Span) (signature : Signature TypeExpr)
  | struct (span : Span) (fields : List (Field TypeExpr))
  | interface (span : Span) (elems : List (Field TypeExpr))
  | variadic (span : Span) (elem : TypeExpr)
  | paren (span : Span) (elem : TypeExpr)
  | union (span : Span) (terms : List (Term TypeExpr))
deriving Repr

/-- The span of a type. -/
def TypeExpr.span : TypeExpr → Span
  | named name => name.span
  | applied span _ _ | pointer span _ | array span _ _ | slice span _ | map span _ _
  | chan span _ _ | func span _ | struct span _ | interface span _ | variadic span _
  | paren span _ | union span _ => span

/-- One import; the name is an alias, `_`, or `.`. -/
structure ImportSpec where
  name : Option Ident
  path : StringLit
deriving Repr

/-- Constants or variables declared together; initializers are kept
as their span. -/
structure ValueSpec where
  names : List Ident
  type : Option TypeExpr
  values : Option Span
deriving Repr

/-- A type definition or an alias. -/
structure TypeSpec where
  name : Ident
  typeParams : List (Field TypeExpr)
  isAlias : Bool
  type : TypeExpr
deriving Repr

/-- A declaration of one spec, or of several in parentheses. -/
structure Group (σ : Type) where
  specs : List σ
  grouped : Bool
  span : Span
deriving Repr

/-- A function, or a method if it has a receiver. A function without a body is
implemented elsewhere. -/
structure FuncDecl where
  receiver : Option (Field TypeExpr)
  name : Ident
  typeParams : List (Field TypeExpr)
  signature : Signature TypeExpr
  body : Option Span
  span : Span
deriving Repr

/-- A top-level declaration. -/
inductive Decl where
  | imports (group : Group ImportSpec)
  | consts (group : Group ValueSpec)
  | vars (group : Group ValueSpec)
  | types (group : Group TypeSpec)
  | func (decl : FuncDecl)
deriving Repr

/-- The span of a declaration. -/
def Decl.span : Decl → Span
  | imports group => group.span
  | consts group | vars group => group.span
  | types group => group.span
  | func decl => decl.span

/-- A source file: its package name and its declarations in order. -/
structure SourceFile where
  package : Ident
  decls : List Decl
deriving Repr

end GoInventory
