/-!
# Name filters

A filter selects names. A listing asks it for every name whether that one is
selected, and nothing else, so a filter is kept as the answers that it gives.
What it is made of is another matter: `Pattern.Filter` makes filters from
regular expressions.
-/

namespace GoInventory

/-- Selects names. -/
structure NameFilter where
  /-- The name is selected. -/
  selects : String → Bool

namespace NameFilter

/-- The filter that selects every name. -/
def all : NameFilter :=
  ⟨fun _ => true⟩

end NameFilter

end GoInventory
