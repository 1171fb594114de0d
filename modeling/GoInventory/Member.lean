import GoInventory.Declaration
import GoInventory.StructTag

/-!
# Members

The named members of a struct or interface, one for each name. Fields that share
a type share their tag too. Embedded members have no name and are left out. A
method of an interface has no type and no tag here.
-/

namespace GoInventory

/-- A named member of a struct or interface. -/
structure Member where
  name : String
  type? : Option TypeExpr
  rawTag : String
deriving Repr

/-- A text without the given character at its ends. -/
def trimEnds (c : Char) (text : List Char) : List Char :=
  ((text.dropWhile (· == c)).reverse.dropWhile (· == c)).reverse

/-- The content of a tag literal. A raw literal has no carriage returns; an
interpreted literal with bad escapes keeps its text as written, without the
quotes at its ends. -/
def StringLit.tagText (lit : StringLit) : String :=
  let text := lit.text.toList
  match lit.kind with
  | .raw => String.ofList ((trimEnds '\x60' text).filter (· != '\r'))
  | .interpreted =>
    (EscapedText.unquote? text).getD (String.ofList (trimEnds '\x22' text))

/-- The content of a tag that may be missing. -/
def tagText (tag : Option StringLit) : String :=
  match tag with
  | none => ""
  | some lit => lit.tagText

namespace Member

/-- The members that a field of a struct declares. -/
def ofField (field : Field TypeExpr) : List Member :=
  field.names.map fun name => ⟨name.name, some field.type, tagText field.tag⟩

/-- The members that an element of an interface declares. -/
def ofElement (elem : Field TypeExpr) : List Member :=
  elem.names.map fun name => ⟨name.name, none, ""⟩

end Member

/-- The named members of a struct or interface. -/
def Underlying.named : Underlying → List Member
  | struct fields => fields.flatMap Member.ofField
  | interface elems => elems.flatMap Member.ofElement
  | other => []

namespace Declaration

/-- The members of the declaration, if it is a type of this name. -/
def membersOf (typeName : String) : Declaration → List Member
  | type name underlying => if name == typeName then underlying.named else []
  | _ => []

/-- The declaration is a type of this name that cannot have members. -/
def lacksMembers (typeName : String) : Declaration → Bool
  | type name .other => name == typeName
  | _ => false

end Declaration

end GoInventory
