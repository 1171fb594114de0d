import GoInventory.Proofs.Declaration.Joining
import GoInventory.Proofs.Syntax.FileBare

/-!
# Layout

Where the tokens of a source stand, and whether a semicolon is written or stands
for the end of a line, does not matter to what is listed. Two sources with the
same tokens are both refused, or both are accepted and their trees are the same
up to spans (`parseSource_layout`).

Everything that an inventory shows is read off the tree without looking at
spans, so it is the same as well (`SourceFile.Alike`): what is declared, the
members and their tags, and the texts of all types. Where a type has no
canonical text, the form that has none is the same.
-/

namespace GoInventory

/-! ## The types of a file -/

namespace TypeExpr

/-- The type and all types that stand in it, each before those that stand in it. -/
def nested (t : TypeExpr) : List TypeExpr :=
  t :: t.children.attach.flatMap fun c => c.1.nested
termination_by sizeOf t
decreasing_by exact sizeOf_child_lt c.2

theorem nested_eq (t : TypeExpr) : t.nested = t :: t.children.flatMap nested := by
  conv => rhs; rw [← List.attach_map_subtype_val t.children, List.flatMap_map]
  rw [nested]

theorem children_mapOffsets (g : Nat → Nat) (t : TypeExpr) :
    (t.mapOffsets g).children = t.children.map (mapOffsets g) := by
  cases t with
  | func s sig =>
    simp [mapOffsets_func, Signature.mapOffsets, children, Function.comp_def,
      Field.mapOffsets]
  | applied | struct | interface => simp [mapOffsets, children, Field.mapOffsets]
  | union => simp [mapOffsets, children, Term.mapOffsets]
  | named | pointer | array | slice | map | chan | variadic | paren =>
    simp [mapOffsets, children]

theorem nested_mapOffsets (g : Nat → Nat) (t : TypeExpr) :
    (t.mapOffsets g).nested = t.nested.map (mapOffsets g) := by
  induction t using induction_children with
  | h t ih =>
    rw [nested_eq, nested_eq, children_mapOffsets, List.flatMap_map, List.map_cons,
      List.map_flatMap]
    exact congrArg _ (List.flatMap_congr ih)

end TypeExpr

/-- All types that stand in a file, in the order of the source. -/
def SourceFile.allTypes (file : SourceFile) : List TypeExpr :=
  file.rootTypes.flatMap TypeExpr.nested

/-! ## Files that show the same -/

/-- The two files are the same up to spans, and so is everything that is
shown of them. -/
structure SourceFile.Alike (file file' : SourceFile) : Prop where
  tree : file.eraseSpans = file'.eraseSpans
  declarations : file.declarations.map (Declaration.mapOffsets forget)
    = file'.declarations.map (Declaration.mapOffsets forget)
  members : ∀ typeName, (file.membersOf typeName).map (fun m => (m.name, m.rawTag))
    = (file'.membersOf typeName).map fun m => (m.name, m.rawTag)
  values : ∀ typeName columns,
    (file.membersOf typeName).map
      (fun m => (Column.values columns m).mapError (·.form))
      = (file'.membersOf typeName).map
        fun m => (Column.values columns m).mapError (·.form)
  texts : file.allTypes.map (fun t => t.render.mapError (·.form))
    = file'.allTypes.map fun t => t.render.mapError (·.form)

/-- The form of an error does not depend on its place. -/
theorem mapError_form_mapOffsets {α : Type} (g : Nat → Nat)
    (x : Except UnsupportedType α) :
    (x.mapError (·.mapOffsets g)).mapError (·.form) = x.mapError (·.form) := by
  cases x <;> rfl

section Views

variable (g : Nat → Nat) (file : SourceFile)

theorem SourceFile.declarations_mapOffsets :
    (file.mapOffsets g).declarations
      = file.declarations.map (Declaration.mapOffsets g) := by
  simp only [declarations, mapOffsets, List.flatMap_map, List.map_flatMap,
    Decl.declarations_mapOffsets]

theorem SourceFile.membersOf_mapOffsets (typeName : String) :
    (file.mapOffsets g).membersOf typeName
      = (file.membersOf typeName).map (Member.mapOffsets g) := by
  simp only [membersOf, declarations_mapOffsets, List.flatMap_map, List.map_flatMap,
    Declaration.membersOf_mapOffsets]

theorem SourceFile.allTypes_mapOffsets :
    (file.mapOffsets g).allTypes = file.allTypes.map (TypeExpr.mapOffsets g) := by
  have hroots : (file.mapOffsets g).rootTypes
      = file.rootTypes.map (TypeExpr.mapOffsets g) := by
    simp only [rootTypes, mapOffsets, List.flatMap_map, List.map_flatMap,
      Decl.rootTypes_mapOffsets]
  simp only [allTypes, hroots, List.flatMap_map, List.map_flatMap,
    TypeExpr.nested_mapOffsets]

end Views

/-- What is shown of a file can be read off the tree without its spans. -/
theorem SourceFile.alike_of_eraseSpans {file file' : SourceFile}
    (h : file.eraseSpans = file'.eraseSpans) : file.Alike file' := by
  have hmembers : ∀ typeName, (file.membersOf typeName).map (Member.mapOffsets forget)
      = (file'.membersOf typeName).map (Member.mapOffsets forget) := by
    intro typeName
    rw [← membersOf_mapOffsets, ← membersOf_mapOffsets]
    exact congrArg (membersOf typeName) h
  refine ⟨h, ?_, fun typeName => ?_, fun typeName columns => ?_, ?_⟩
  · rw [← declarations_mapOffsets, ← declarations_mapOffsets]
    exact congrArg declarations h
  · have hshown :=
      congrArg (List.map fun m : Member => (m.name, m.rawTag)) (hmembers typeName)
    rwa [List.map_map, List.map_map] at hshown
  · have hshown :=
      congrArg (List.map fun m => (Column.values columns m).mapError (·.form))
      (hmembers typeName)
    simpa only [List.map_map, Function.comp_def, Column.values_mapOffsets,
      mapError_form_mapOffsets] using hshown
  · have htypes : file.allTypes.map (TypeExpr.mapOffsets forget)
        = file'.allTypes.map (TypeExpr.mapOffsets forget) := by
      rw [← allTypes_mapOffsets, ← allTypes_mapOffsets]
      exact congrArg allTypes h
    have hshown := congrArg (List.map fun t => t.render.mapError (·.form)) htypes
    simpa only [List.map_map, Function.comp_def, TypeExpr.render_mapOffsets,
      mapError_form_mapOffsets] using hshown

/-! ## Sources with the same tokens -/

/-- The source is free of lexical faults, and these are its tokens, wherever
they stand. A semicolon is one of them whether it is written or stands for the
end of a line. -/
structure LexesTo (source : String) (toks : List Tok) : Prop where
  quiet : (tokenize source).diagnostics = []
  toks_eq : (tokenize source).tokens.map (·.tok) = toks

/-- A source without lexical faults is accepted or not, as its tokens are. -/
theorem toOption_parseSource {source : String}
    (h : (tokenize source).diagnostics = []) :
    (parseSource source).toOption
      = (parseTokens (tokenize source).tokens
        (Text.byteLength source.toList)).toOption := by
  unfold parseSource
  dsimp only
  rw [h, List.isEmpty_nil, if_pos rfl]
  cases parseTokens (tokenize source).tokens (Text.byteLength source.toList) <;> rfl

/-- **Layout does not change what is listed.** Two sources with the same tokens
are both refused, or both are accepted and show the same. -/
theorem parseSource_layout {source source' : String} {toks : List Tok}
    (h : LexesTo source toks) (h' : LexesTo source' toks) :
    ((∃ failure, parseSource source = .error failure) ∧
      ∃ failure, parseSource source' = .error failure) ∨
    ∃ file file', parseSource source = .ok file ∧ parseSource source' = .ok file' ∧
      file.Alike file' := by
  have hsame := parseTokens_congr (tokens_within source) (tokens_within source')
    (h.toks_eq.trans h'.toks_eq.symm)
  rw [← toOption_parseSource h.quiet, ← toOption_parseSource h'.quiet] at hsame
  cases hfirst : parseSource source with
  | error failure =>
    cases hsecond : parseSource source' with
    | error failure' => exact Or.inl ⟨⟨failure, rfl⟩, failure', rfl⟩
    | ok file' =>
      rw [hfirst, hsecond] at hsame
      cases hsame
  | ok file =>
    cases hsecond : parseSource source' with
    | error failure' =>
      rw [hfirst, hsecond] at hsame
      cases hsame
    | ok file' =>
      rw [hfirst, hsecond] at hsame
      exact Or.inr ⟨file, file', rfl, rfl,
        SourceFile.alike_of_eraseSpans (Option.some.inj hsame)⟩

/-- A source in lines, with a comment. -/
def sampleSpread : String :=
  "package p // one\ntype T struct \x7b\n\ta, b [n+1]int \"k\"\n\tc (T) \x7d\nfunc f(x, y T, z ...T)\n"

/-- The same tokens in one line. -/
def samplePacked : String :=
  "package p;type T struct\x7ba,b[n+1]int\"k\";c(T)\x7d;func f(x,y T,z...T);"

/-- The two samples differ in every span and show the same. -/
theorem parseSource_layout_samples :
    ∃ toks, LexesTo sampleSpread toks ∧ LexesTo samplePacked toks ∧
      ∃ file file', parseSource sampleSpread = .ok file ∧
        parseSource samplePacked = .ok file' ∧
        file.Alike file' := by
  have hpacked : LexesTo samplePacked ((tokenize samplePacked).tokens.map (·.tok)) :=
    ⟨by decide +kernel, rfl⟩
  have hspread : LexesTo sampleSpread ((tokenize samplePacked).tokens.map (·.tok)) :=
    ⟨by decide +kernel, by decide +kernel⟩
  have hok : (parseSource sampleSpread).toOption.isSome = true := by decide +kernel
  refine ⟨_, hspread, hpacked, ?_⟩
  rcases parseSource_layout hspread hpacked with ⟨⟨failure, herror⟩, -⟩ | haccepted
  · rw [herror] at hok
    cases hok
  · exact haccepted

end GoInventory
