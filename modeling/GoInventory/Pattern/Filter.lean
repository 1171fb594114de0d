import GoInventory.Pattern.Reader
import GoInventory.Settings

/-!
# Filters by patterns

A pattern selects the names in which it matches somewhere. Without a pattern, or
with the empty one, every name is selected. Settings are checked before any file
is read: first the pattern, then the columns.
-/

namespace GoInventory

namespace NameFilter

/-- The filter by a pattern; there is none if the pattern is malformed. -/
def ofPattern? : Option String → Option NameFilter
  | none => some all
  | some pattern =>
    if pattern.isEmpty then some all
    else (Pattern.parse? pattern).map fun regex => ⟨regex.isMatch⟩

/-- The filter by a pattern, or the error that the pattern is malformed. -/
def ofPattern (pattern : Option String) : Except InspectError NameFilter :=
  match ofPattern? pattern with
  | none => .error .invalidPattern
  | some filter => .ok filter

end NameFilter

/-- The settings that are asked for; without columns, the name is shown. -/
def MemberSettings.ofSpecs (pattern : Option String) (columns : List String)
    (encoding : OutputEncoding) : Except InspectError MemberSettings := do
  let filter ← NameFilter.ofPattern pattern
  let columns ← Column.ofSpecs columns
  return ⟨filter, if columns.isEmpty then [.name] else columns, encoding⟩

end GoInventory
