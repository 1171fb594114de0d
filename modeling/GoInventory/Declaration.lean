import GoInventory.Syntax.Tree

/-!
# Declarations

What a file declares, as far as an inventory is concerned: functions, values and
types, in the order of the source. Imports declare nothing. A group of constants
or variables is one declaration of all its names, and none if it is empty; each
type of a group is a declaration of its own.
-/

namespace GoInventory

/-- Variables or constants. -/
inductive ValueKind where
  | var
  | const
deriving DecidableEq, Repr

/-- The members of a declared type, if it is a struct or an interface. -/
inductive Underlying where
  | struct (fields : List (Field TypeExpr))
  | interface (elems : List (Field TypeExpr))
  | other
deriving Repr

namespace Underlying

/-- What a declared type is. -/
def ofType : TypeExpr → Underlying
  | .struct _ fields => struct fields
  | .interface _ elems => interface elems
  | _ => other

/-- The members in the tree, embedded ones included. -/
def members : Underlying → List (Field TypeExpr)
  | struct fields => fields
  | interface elems => elems
  | other => []

end Underlying

/-- The headings of an inventory. -/
inductive Heading where
  | functions
  | values
  | types
deriving DecidableEq, Repr

/-- A declaration. A method goes by its bare name. -/
inductive Declaration where
  | function (name : String) (hasReceiver : Bool)
  | value (kind : ValueKind) (names : List String)
  | type (name : String) (underlying : Underlying)
deriving Repr

namespace Declaration

/-- The declared names in the order of the source. -/
def names : Declaration → List String
  | function name _ => [name]
  | value _ names => names
  | type name _ => [name]

/-- The heading that the declaration is listed under. -/
def heading : Declaration → Heading
  | function _ _ => .functions
  | value _ _ => .values
  | type _ _ => .types

/-- A group of variables or constants, unless it has no names. -/
def ofValues (kind : ValueKind) (group : Group ValueSpec) : List Declaration :=
  let names := group.specs.flatMap fun spec => spec.names.map (·.name)
  if names.isEmpty then [] else [value kind names]

/-- A declared type. -/
def ofTypeSpec (spec : TypeSpec) : Declaration :=
  type spec.name.name (.ofType spec.type)

end Declaration

/-- What a declaration of the tree declares. -/
def Decl.declarations : Decl → List Declaration
  | imports _ => []
  | consts group => Declaration.ofValues .const group
  | vars group => Declaration.ofValues .var group
  | types group => group.specs.map Declaration.ofTypeSpec
  | func decl => [.function decl.name.name decl.receiver.isSome]

/-- What a file declares. -/
def SourceFile.declarations (file : SourceFile) : List Declaration :=
  file.decls.flatMap (·.declarations)

namespace Decl

/-- The types of fields, one for each group. -/
def fieldTypes (fields : List (Field TypeExpr)) : List TypeExpr :=
  fields.map (·.type)

/-- The types that stand directly in a declaration. For a type these are the
type itself, the constraints of its parameters, and the types of its members
if it has any. -/
def rootTypes : Decl → List TypeExpr
  | imports _ => []
  | consts group | vars group => group.specs.filterMap (·.type)
  | types group => group.specs.flatMap fun spec =>
    spec.type :: fieldTypes spec.typeParams
      ++ fieldTypes (Underlying.ofType spec.type).members
  | func decl =>
    fieldTypes decl.receiver.toList ++ fieldTypes decl.typeParams ++
      fieldTypes decl.signature.params ++ fieldTypes decl.signature.results

end Decl

/-- The types that stand directly in the declarations of a file. -/
def SourceFile.rootTypes (file : SourceFile) : List TypeExpr :=
  file.decls.flatMap (·.rootTypes)

end GoInventory
