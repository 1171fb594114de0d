import GoInventory.Column
import GoInventory.InspectError
import GoInventory.NameFilter
import GoInventory.Record

/-!
# Settings

What a listing selects and how it is written.
-/

namespace GoInventory

/-- The columns with these written forms, or the error that names the first
that is none. -/
def Column.ofSpecs (specs : List String) : Except InspectError (List Column) :=
  match ofTexts specs with
  | .error spec => .error (.unknownColumn spec)
  | .ok columns => .ok columns

/-- The settings of a listing of members. -/
structure MemberSettings where
  filter : NameFilter
  columns : List Column
  encoding : OutputEncoding

namespace MemberSettings

/-- Every member, by its name, one per line. -/
def standard : MemberSettings :=
  ⟨.all, [.name], .lines⟩

end MemberSettings

end GoInventory
