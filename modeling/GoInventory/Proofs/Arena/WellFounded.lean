import GoInventory.Proofs.Arena.Building
import GoInventory.Proofs.Arena.Moves
import GoInventory.Proofs.Arena.Printing
import GoInventory.Proofs.Arena.Size

/-!
# Sources are kept in well-founded forests

A source that is parsed into an arena leaves a forest there
(`buildSource_kept`): no number leads nowhere, every node has one place in the
tree, and the types below a type have smaller numbers. So whoever reads the
arena comes to an end, and finds what is in the file.

This takes together what is known of arenas. The source is parsed and then put
into the arena, as far as the outcome goes (`buildSource_eq`). Putting it there
is a sequence of moves (`SourceFile.moves_store`), and moves keep the forest as
long as the numbers suffice (`Arena.Steps.forest`), which they do because there
are no more things of a kind than tokens (`fits_store`).
-/

namespace GoInventory

open Interrupt (ofRender)

variable {hash : String → UInt64}

/-- The arena keeps the file: it is a forest that hangs from the file, and
readers come to an end and find the file in it. -/
structure Arena.Keeps (A : Arena hash) (stored : StoredFile) (file : SourceFile) :
  Prop where
  forest : A.Forest stored.links
  holds : A.HoldsFile stored file
  /-- The text of every type is written, unless there is none. -/
  written : ∀ (id : NodeId .type) (rounds : Nat), A.Has (.node id) →
    id.raw.toNat < rounds → Safe (A.render rounds id)
  /-- If a tree is known for the type, it is the text of that. -/
  text : ∀ (id : NodeId .type) (t : TypeExpr) (rounds : Nat), A.HoldsType id t →
    id.raw.toNat < rounds →
    A.render rounds id = ofRender t.render
  /-- The declarations are found, and so are their members. -/
  declared : ∃ refs, A.declarations stored = .ok refs ∧
    List.Forall₂ A.HoldsDeclaration refs file.declarations ∧
    ∀ typeName, List.Forall₂
      (fun ref declaration => ∃ members, A.projectFields typeName ref = .ok members ∧
      List.Forall₂ A.HoldsMember members (declaration.membersOf typeName))
        refs file.declarations

theorem keeps_of_fits {file : SourceFile}
    (hfits : (file.store (.empty : Arena hash)).2.Fits) :
    (file.store (.empty : Arena hash)).2.Keeps
      (file.store (.empty : Arena hash)).1 file := by
  -- at the start nothing is held, and at the end only what the file itself links to
  have hsteps := file.moves_store (.empty : Arena hash) 0
  have hforest : (file.store (.empty : Arena hash)).2.Forest
      (file.store (.empty : Arena hash)).1.links := by
    have hheld := hsteps.forest hfits (by exact .empty)
    rwa [add_zero] at hheld
  have hholds := ((file.stores hfits) (.empty : Arena hash)).2 (.refl _)
  obtain ⟨refs, hrefs, hdeclared⟩ := Arena.declarations_of_holds hholds
  refine ⟨hforest, hholds,
    fun id rounds hhas hlt => Arena.safe_render hforest rounds hhas hlt,
    fun id t rounds htype hlt => Arena.render_of_holds hforest rounds htype hlt, refs,
      hrefs, hdeclared, fun typeName => ?_⟩
  exact hdeclared.imp fun ref declaration h => Arena.projectFields_of_holds h typeName

/-- **A source shorter than 2³² - 1 bytes is kept in a well-founded forest.** -/
theorem buildSource_kept (hash : String → UInt64) {source : String}
    {file : SourceFile} (hlength : Text.byteLength source.toList < 2 ^ 32 - 1)
    (hparse : parseSource source = .ok file) :
    ∃ (stored : StoredFile) (A : Arena hash),
      buildSource hash source = .ok (stored, A) ∧ A.Keeps stored file := by
  refine ⟨_, _, ?_, keeps_of_fits (fits_store hlength hparse)⟩
  rw [buildSource_eq, hparse]
  rfl

/-- A source with parameters of all kinds, nested types and names that occur
more than once. -/
def sampleKept : String :=
  "package p\ntype T[K any] struct \x7b a, b map[K]p.T[K, []int] \"t\"; T \x7d\n" ++
    "func (t T) f(a, b int, c ...func(T) T) (interface \x7b ~int | T; f() \x7d, [n]a)\n"

/-- Texts of the same length share a bucket. -/
def lengthHash (text : String) : UInt64 := .ofNat text.length

theorem buildSource_kept_sampleKept :
    ∃ file stored A, parseSource sampleKept = .ok file ∧
      Text.byteLength sampleKept.toList < 2 ^ 32 - 1 ∧
      buildSource lengthHash sampleKept = .ok (stored, A) ∧ A.Keeps stored file := by
  have hlength : Text.byteLength sampleKept.toList < 2 ^ 32 - 1 := by decide +kernel
  have hok : (parseSource sampleKept).isOk = true := by decide +kernel
  cases hparse : parseSource sampleKept with
  | error e =>
    rw [hparse] at hok
    cases hok
  | ok file =>
    obtain ⟨stored, A, hbuild, hkeeps⟩ := buildSource_kept lengthHash hlength hparse
    exact ⟨file, stored, A, rfl, hlength, hbuild, hkeeps⟩

end GoInventory
