import GoInventory.Member
import GoInventory.TypeText

/-!
# Columns

A column picks one value of a member: its name, the text of its type, its whole
tag, or one value of its tag. Columns are written `name`, `type`, `tags` and
`tag[KEY]`, and each column has just one written form.
-/

namespace GoInventory

/-- What a listing of members shows. -/
inductive Column where
  | name
  | type
  | tags
  | tag (key : String)
deriving DecidableEq, Repr

namespace Column

/-- The written form of a column. -/
def text : Column → String
  | name => "name"
  | type => "type"
  | tags => "tags"
  | tag key => "tag[" ++ key ++ "]"

/-- The key in `tag[KEY]`, which is not empty and has no closing bracket. -/
def tagKey? (spec : List Char) : Option (List Char) :=
  match spec with
  | 't' :: 'a' :: 'g' :: '[' :: rest =>
    if rest.getLast? == some ']' && !rest.dropLast.isEmpty
      && !rest.dropLast.contains ']' then
      some rest.dropLast
    else
      none
  | _ => none

/-- The column with this written form. -/
def ofText? (spec : String) : Option Column :=
  if spec == "name" then some name
  else if spec == "type" then some type
  else if spec == "tags" then some tags
  else (tagKey? spec.toList).map fun key => tag (String.ofList key)

/-- The columns with these written forms, or the first text that is none. -/
def ofTexts : List String → Except String (List Column)
  | [] => .ok []
  | spec :: rest =>
    match ofText? spec with
    | none => .error spec
    | some column => return column :: (← ofTexts rest)

/-- The value that the column shows of a member. -/
def value (column : Column) (member : Member) : Except UnsupportedType String :=
  match column with
  | name => .ok member.name
  | type =>
    match member.type? with
    | none => .ok ""
    | some declared => declared.render
  | tags => .ok member.rawTag
  | tag key => .ok ((StructTag.lookup? member.rawTag key).getD "")

/-- The values that the columns show of a member, in order. -/
def values (columns : List Column) (member : Member) :
    Except UnsupportedType (List String) :=
  columns.mapM (·.value member)

end Column

end GoInventory
