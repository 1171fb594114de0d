import GoInventory.Proofs.Listing.FailFast
import GoInventory.Proofs.Syntax.Accounting
import Mathlib.Data.List.Flatten

/-!
# Every declared name under one heading

The names that a file declares are the identifiers that its declarations bind,
from left to right; each belongs under one heading (`Binding`). The declarations
of an inventory carry just these names in this order
(`SourceFile.headedNames_declarations`), so the three listings of a file share
its declared names among them.

An inventory can also be taken one declaration at a time, by a cursor that keeps
the specs left of a group of types beside the declarations that are still ahead
(`DeclarationCursor`). One step of it hands out the first of the declarations
that remain and leaves the others (`DeclarationCursor.next?_cases`), so all its
steps hand out all of them.
-/

namespace GoInventory

/-- A name that is bound at the top level of a file, and the heading that it
belongs under. -/
structure Binding where
  heading : Heading
  name : Ident

namespace Decl

/-- The names that a declaration of the tree binds. An import binds none. -/
def bindings : Decl → List Binding
  | imports _ => []
  | consts group | vars group =>
    group.specs.flatMap fun spec => spec.names.map fun name => ⟨.values, name⟩
  | types group => group.specs.map fun spec => ⟨.types, spec.name⟩
  | func decl => [⟨.functions, decl.name⟩]

/-- The functions and methods of the declaration. -/
def funcs : Decl → List FuncDecl
  | func decl => [decl]
  | _ => []

/-- The constants or variables of the declaration. -/
def valueGroups : Decl → List (ValueKind × Group ValueSpec)
  | consts group => [(.const, group)]
  | vars group => [(.var, group)]
  | _ => []

/-- The types of the declaration. -/
def typeSpecs : Decl → List TypeSpec
  | types group => group.specs
  | _ => []

end Decl

namespace SourceFile

/-- The names that a file binds at its top level. -/
def bindings (file : SourceFile) : List Binding :=
  file.decls.flatMap (·.bindings)

/-- The declared names of a file. -/
def declaredNames (file : SourceFile) : List String :=
  file.bindings.map (·.name.name)

/-- The declared names that belong under a heading. -/
def namesUnder (file : SourceFile) (heading : Heading) : List String :=
  (file.bindings.filter (·.heading == heading)).map (·.name.name)

end SourceFile

/-- The names of all specs of a group. -/
def Group.valueNames (group : Group ValueSpec) : List String :=
  group.specs.flatMap fun spec => spec.names.map (·.name)

namespace Declaration

/-- The name of a function and whether it has a receiver. -/
def function? : Declaration → Option (String × Bool)
  | function name hasReceiver => some (name, hasReceiver)
  | _ => none

/-- The kind and the names of values. -/
def value? : Declaration → Option (ValueKind × List String)
  | value kind names => some (kind, names)
  | _ => none

/-- The name of a type and what it is. -/
def type? : Declaration → Option (String × Underlying)
  | type name underlying => some (name, underlying)
  | _ => none

/-- The names of a declaration, each with its heading. -/
def headedNames (d : Declaration) : List (Heading × String) :=
  d.names.map (d.heading, ·)

end Declaration

/-! ## One declaration at a time -/

/-- A place between two declarations of an inventory: the declarations of
the tree that are ahead, and before them the specs that are left of a
group of types. -/
structure DeclarationCursor where
  decls : List Decl
  typeSpecs : List TypeSpec

namespace DeclarationCursor

/-- Before the first declaration of a file. -/
def start (file : SourceFile) : DeclarationCursor :=
  ⟨file.decls, []⟩

/-- The next declaration, and the place behind it. Imports and values without a
name are passed over, and a group of types is opened. -/
def nextFrom : List Decl → List TypeSpec → Option (Declaration × DeclarationCursor)
  | decls, spec :: specs => some (.ofTypeSpec spec, ⟨decls, specs⟩)
  | [], [] => none
  | .imports _ :: decls, [] => nextFrom decls []
  | .types group :: decls, [] => nextFrom decls group.specs
  | .func decl :: decls, [] =>
    some (.function decl.name.name decl.receiver.isSome, ⟨decls, []⟩)
  | .consts group :: decls, [] =>
    if group.valueNames.isEmpty then nextFrom decls []
      else some (.value .const group.valueNames, ⟨decls, []⟩)
  | .vars group :: decls, [] =>
    if group.valueNames.isEmpty then nextFrom decls []
      else some (.value .var group.valueNames, ⟨decls, []⟩)

/-- The next declaration, and the place behind it. -/
def next? (c : DeclarationCursor) : Option (Declaration × DeclarationCursor) :=
  nextFrom c.decls c.typeSpecs

/-- From this place, these declarations are handed out, and then no more. -/
inductive Yields : DeclarationCursor → List Declaration → Prop
  | done {c : DeclarationCursor} : c.next? = none → Yields c []
  | more {c c' : DeclarationCursor} {d : Declaration} {ds : List Declaration} :
      c.next? = some (d, c') →
    Yields c' ds → Yields c (d :: ds)

/-- The declarations that remain. -/
def remaining (c : DeclarationCursor) : List Declaration :=
  c.typeSpecs.map .ofTypeSpec ++ c.decls.flatMap (·.declarations)

/-- **What one step does**: it hands out the first of the declarations that
remain and leaves the others. -/
theorem next?_cases (c : DeclarationCursor) :
    (c.next? = none ∧ c.remaining = []) ∨
      ∃ d c', c.next? = some (d, c') ∧ c.remaining = d :: c'.remaining := by
  obtain ⟨decls, typeSpecs⟩ := c
  show (nextFrom decls typeSpecs = none ∧ _) ∨
    ∃ d c', nextFrom decls typeSpecs = some (d, c') ∧ _
  unfold remaining
  dsimp only
  fun_induction nextFrom decls typeSpecs with
  | case1 decls spec specs => exact Or.inr ⟨_, _, rfl, rfl⟩
  | case2 => exact Or.inl ⟨rfl, rfl⟩
  | case3 group decls ih => exact ih
  | case4 group decls ih => exact ih
  | case5 decl decls => exact Or.inr ⟨_, _, rfl, rfl⟩
  | case6 group decls hempty ih | case8 group decls hempty ih =>
    have hnone : ∀ kind, Declaration.ofValues kind group = [] :=
      fun kind => if_pos hempty
    simpa only [List.map_nil, List.nil_append, List.flatMap_cons, Decl.declarations,
      hnone] using ih
  | case7 group decls hsome | case9 group decls hsome =>
    have hone : ∀ kind, Declaration.ofValues kind group
        = [.value kind group.valueNames] := fun kind => if_neg hsome
    refine Or.inr ⟨_, _, rfl, ?_⟩
    simp only [List.map_nil, List.nil_append, List.flatMap_cons, Decl.declarations,
      hone, List.singleton_append]

/-- **What all steps do**: they hand out the declarations that remain. -/
theorem yields_iff {c : DeclarationCursor} {ds : List Declaration} :
    c.Yields ds ↔ ds = c.remaining := by
  constructor
  · intro h
    induction h with
    | @done c hnext =>
      rcases c.next?_cases with ⟨-, hempty⟩ | ⟨d, c', hsome, -⟩
      · exact hempty.symm
      · rw [hnext] at hsome
        cases hsome
    | @more c c' d ds hnext _ ih =>
      rcases c.next?_cases with ⟨hnone, -⟩ | ⟨d', c'', hsome, hremaining⟩
      · rw [hnext] at hnone
        cases hnone
      · rw [hnext] at hsome
        cases hsome
        rw [hremaining, ih]
  · intro h
    induction ds generalizing c with
    | nil =>
      rcases c.next?_cases with ⟨hnone, -⟩ | ⟨d, c', -, hremaining⟩
      · exact .done hnone
      · rw [hremaining] at h
        cases h
    | cons d ds ih =>
      rcases c.next?_cases with ⟨-, hempty⟩ | ⟨d', c', hsome, hremaining⟩
      · rw [hempty] at h
        cases h
      · rw [hremaining] at h
        cases h
        exact .more hsome (ih rfl)

end DeclarationCursor

/-! ## The names of declarations -/

/-- A declaration of the tree declares the names that it binds. -/
theorem Decl.headedNames_declarations (d : Decl) :
    d.declarations.flatMap (·.headedNames)
      = d.bindings.map fun b => (b.heading, b.name.name) := by
  have hvalues : ∀ (kind : ValueKind) (group : Group ValueSpec),
      (Declaration.ofValues kind group).flatMap (·.headedNames)
        = group.valueNames.map (Heading.values, ·) := by
    intro kind group
    unfold Declaration.ofValues
    dsimp only
    split
    next hempty => rw [Group.valueNames, List.isEmpty_iff.mp hempty]; rfl
    next => exact List.append_nil _
  cases d with
  | imports group => rfl
  | consts group | vars group =>
    simp only [declarations, bindings, hvalues, Group.valueNames, List.map_flatMap,
      List.map_map, Function.comp_def]
  | types group =>
    rw [declarations, bindings, List.flatMap_map, List.map_map, List.map_eq_flatMap]
    rfl
  | func decl => rfl

theorem Decl.functions_declarations (d : Decl) :
    d.declarations.filterMap (·.function?)
    = d.funcs.map fun decl => (decl.name.name, decl.receiver.isSome) := by
  cases d with
  | imports group | func decl => rfl
  | consts group | vars group =>
    unfold declarations Declaration.ofValues
    dsimp only
    split <;> rfl
  | types group =>
    rw [declarations, List.filterMap_map]
    exact List.filterMap_eq_nil_iff.mpr fun _ _ => rfl

theorem Decl.values_declarations (d : Decl) : d.declarations.filterMap (·.value?)
    = (d.valueGroups.map fun g => (g.1, g.2.valueNames)).filter
      fun v => !v.2.isEmpty := by
  have hvalues : ∀ (kind : ValueKind) (group : Group ValueSpec),
      (Declaration.ofValues kind group).filterMap (·.value?)
        = [(kind, group.valueNames)].filter fun v => !v.2.isEmpty := by
    intro kind group
    show (if group.valueNames.isEmpty then []
      else [Declaration.value kind group.valueNames]).filterMap _ = _
    rw [List.filter_singleton]
    cases group.valueNames.isEmpty <;> rfl
  cases d with
  | imports group | func decl => rfl
  | consts group | vars group => exact hvalues _ group
  | types group =>
    rw [declarations, List.filterMap_map]
    exact List.filterMap_eq_nil_iff.mpr fun _ _ => rfl

theorem Decl.types_declarations (d : Decl) : d.declarations.filterMap (·.type?)
    = d.typeSpecs.map fun spec => (spec.name.name, .ofType spec.type) := by
  cases d with
  | imports group | func decl => rfl
  | consts group | vars group =>
    unfold declarations Declaration.ofValues
    dsimp only
    split <;> rfl
  | types group =>
    rw [declarations, List.filterMap_map, ← List.filterMap_eq_map]
    rfl

/-- Under a heading stand the names of a declaration that belongs there. -/
theorem Declaration.filter_headedNames (d : Declaration) (heading : Heading) :
    (d.headedNames.filter (·.1 == heading)).map (·.2) = if d.heading
      == heading then d.names else [] := by
  unfold headedNames
  rw [List.filter_map, List.map_map]
  by_cases hd : (d.heading == heading) = true
  · have hkeep : ∀ name ∈ d.names, ((·.1 == heading) ∘ (d.heading, ·)) name = true :=
      fun _ _ => hd
    rw [if_pos hd, List.filter_eq_self.mpr hkeep]
    exact List.map_id _
  · have hdrop : ∀ name ∈ d.names, ¬ ((·.1 == heading) ∘ (d.heading, ·)) name
        = true := fun _ _ => hd
    rw [if_neg hd, List.filter_eq_nil_iff.mpr hdrop]
    rfl

namespace SourceFile

variable (file : SourceFile)

/-- **The declarations of a file carry the names that it binds**, each under its
heading and in order. -/
theorem headedNames_declarations :
    file.declarations.flatMap (·.headedNames)
      = file.bindings.map fun b => (b.heading, b.name.name) := by
  unfold declarations bindings
  rw [List.flatMap_assoc, List.map_flatMap]
  exact List.flatMap_congr fun d _ => d.headedNames_declarations

/-- Without a filter, the names under a heading are selected. -/
theorem selectedNames_all (heading : Heading) :
    file.selectedNames heading .all = file.namesUnder heading := by
  have hunder : file.namesUnder heading
      = ((file.declarations.flatMap (·.headedNames)).filter (·.1 == heading)).map
        (·.2) := by
    rw [headedNames_declarations, List.filter_map, List.map_map]
    rfl
  have hall : ∀ names : List String, names.filter NameFilter.all.selects = names :=
    fun names =>
    List.filter_eq_self.mpr fun _ _ => rfl
  rw [hunder]
  unfold selectedNames
  induction file.declarations with
  | nil => rfl
  | cons d ds ih =>
    rw [List.flatMap_cons, List.filter_append, List.map_append, ← ih,
      List.filter_cons, d.filter_headedNames]
    split
    next => rw [List.flatMap_cons, hall]
    next => rfl

theorem namesUnder_sublist (heading : Heading) :
    (file.namesUnder heading).Sublist file.declaredNames :=
  List.filter_sublist.map _

/-- Each occurrence of a declared name belongs under exactly one heading. -/
theorem namesUnder_perm :
    (file.namesUnder .functions
      ++ (file.namesUnder .values ++ file.namesUnder .types)).Perm
      file.declaredNames := by
  unfold namesUnder declaredNames
  rw [← List.map_append, ← List.map_append]
  refine List.Perm.map _ ?_
  induction file.bindings with
  | nil => exact .nil
  | cons b bs ih =>
    obtain ⟨heading, name⟩ := b
    cases heading with
    | functions => exact ih.cons _
    | values => exact List.perm_middle.trans (ih.cons _)
    | types =>
      refine .trans ?_ (ih.cons _)
      show (_ ++ (_ ++ _ :: _)).Perm _
      rw [← List.append_assoc, ← List.append_assoc]
      exact List.perm_middle

/-- One function of an inventory for each function of the tree. -/
theorem functions_declarations : file.declarations.filterMap (·.function?)
    = (file.decls.flatMap (·.funcs)).map
      fun decl => (decl.name.name, decl.receiver.isSome) := by
  unfold declarations
  rw [List.filterMap_flatMap, List.map_flatMap]
  exact List.flatMap_congr fun d _ => d.functions_declarations

/-- One declaration of values for each group that binds a name, and it carries
all its names. -/
theorem values_declarations : file.declarations.filterMap (·.value?)
    = ((file.decls.flatMap (·.valueGroups)).map fun g => (g.1, g.2.valueNames)).filter
      fun v => !v.2.isEmpty := by
  unfold declarations
  rw [List.filterMap_flatMap, List.map_flatMap, List.filter_flatMap]
  exact List.flatMap_congr fun d _ => d.values_declarations

/-- One type of an inventory for each type of the tree. -/
theorem types_declarations : file.declarations.filterMap (·.type?)
    = (file.decls.flatMap (·.typeSpecs)).map
      fun spec => (spec.name.name, .ofType spec.type) := by
  unfold declarations
  rw [List.filterMap_flatMap, List.map_flatMap]
  exact List.flatMap_congr fun d _ => d.types_declarations

end SourceFile

/-! ## Names in the source -/

/-- The leaves of a tree stand in its tokens in the same order. -/
theorem Grammar.Accounted.leaves_sublist {F : Placement} {run : List Token}
    {parts : List Part} (h : Accounted F run parts) :
    ((parts.filterMap Part.leaf?).map (·.tok)).Sublist (run.map (·.tok)) := by
  induction h with
  | nil => exact .slnil
  | mark _ _ ih => exact ih.cons _
  | leaf _ _ _ ih => exact ih.cons_cons _
  | skipped _ _ ih =>
    rw [List.map_append]
    exact ih.trans (List.sublist_append_right _ _)

/-- The names that a declaration binds are among its parts. -/
theorem Decl.bindings_sublist_parts (d : Decl) :
    (d.bindings.flatMap (·.name.parts)).Sublist d.parts := by
  cases d with
  | imports group => exact List.nil_sublist _
  | consts group | vars group =>
    rw [bindings, List.flatMap_assoc]
    refine List.Sublist.flatMap_right _ fun spec _ => ?_
    rw [List.flatMap_map, ValueSpec.parts, List.append_assoc]
    exact List.sublist_append_left _ _
  | types group =>
    rw [bindings, List.flatMap_map]
    refine List.Sublist.flatMap_right _ fun spec _ => ?_
    rw [TypeSpec.parts, List.append_assoc]
    exact List.sublist_append_left _ _
  | func decl =>
    rw [bindings, List.flatMap_singleton, parts, FuncDecl.parts, List.append_assoc,
      List.append_assoc, List.append_assoc]
    exact (List.sublist_append_left _ _).trans (List.sublist_append_right _ _)

/-- The names that a file declares stand in the source in the same order. -/
theorem bindings_sublist_tokens {source : String} {file : SourceFile}
    (h : parseSource source = .ok file) :
    (file.bindings.map fun b => Tok.ident b.name.name).Sublist
      ((tokenize source).tokens.map (·.tok)) := by
  obtain ⟨hplaced, -⟩ := Token.tokenize_placed source
  have hrun : Grammar.FileRun .anywhere file (tokenize source).tokens :=
    fileRun_of_parseTokens (parseTokens_of_parseSource h) trivial
  have hparts : (file.bindings.flatMap (·.name.parts)).Sublist file.parts := by
    rw [SourceFile.bindings, List.flatMap_assoc]
    have hdecls := List.Sublist.flatMap_right file.decls
      fun d _ => d.bindings_sublist_parts
    exact hdecls.trans (List.sublist_append_right _ _)
  have hleaves :
    ((file.bindings.flatMap (·.name.parts)).filterMap Part.leaf?).map (·.tok)
      = file.bindings.map fun b => Tok.ident b.name.name := by
    rw [List.filterMap_flatMap, List.map_flatMap, List.map_eq_flatMap]
    rfl
  rw [← hleaves]
  have haccounted := hrun.accounted fun t ht => (hplaced t ht).noDotName
  exact ((hparts.filterMap _).map _).trans haccounted.leaves_sublist

/-! ## Listings -/

/-- The member names of a struct or interface, each with the group that it
stands in. A group without names is an embedded member. -/
def memberNames (groups : List (Field TypeExpr)) : List (Field TypeExpr × Ident) :=
  (groups.filter (!·.names.isEmpty)).flatMap fun group => group.names.map (group, ·)

theorem memberNames_map (f : Field TypeExpr → Ident → Member)
    (groups : List (Field TypeExpr)) :
    (memberNames groups).map (fun m => f m.1 m.2)
      = groups.flatMap fun group => group.names.map (f group) := by
  unfold memberNames
  induction groups with
  | nil => rfl
  | cons group groups ih =>
    by_cases hnames : group.names = []
    · rw [List.filter_cons_of_neg (by simp [hnames]), ih, List.flatMap_cons, hnames]
      rfl
    · rw [List.filter_cons_of_pos (by simp [hnames]), List.flatMap_cons,
        List.map_append, ih, List.map_map, List.flatMap_cons]
      rfl

/-- A declared type has its own members under its own name. -/
theorem Declaration.membersOf_ofTypeSpec (spec : TypeSpec) :
    (Declaration.ofTypeSpec spec).membersOf spec.name.name
      = (Underlying.ofType spec.type).named :=
  if_pos (beq_self_eq_true _)

/-- Each type of the tree is among the declarations of the file. -/
theorem SourceFile.ofTypeSpec_mem {file : SourceFile} {spec : TypeSpec}
    (h : spec ∈ file.decls.flatMap (·.typeSpecs)) :
    .ofTypeSpec spec ∈ file.declarations := by
  obtain ⟨d, hd, hspec⟩ := List.mem_flatMap.mp h
  refine List.mem_flatMap.mpr ⟨d, hd, ?_⟩
  cases d with
  | types group => exact List.mem_map_of_mem hspec
  | imports | consts | vars | func => cases hspec

/-- How the declared names of a file are listed. The declarations are handed out
one by one: a function for each function of the tree, values for each group that
binds a name, and a type for each spec. The names that they carry are those that
the file binds, and these stand in its tokens in the same order. A listing
writes the names under its heading, which are some of the declared names in
their order, and the three listings together have each of them once. A type of
the tree that is a struct or an interface has a member for each name in its
groups, and any other type has none. -/
structure ListedOnce (source : String) (file : SourceFile) : Prop where
  inTreeOrder : ∀ ds, (DeclarationCursor.start file).Yields ds ↔
    ds = file.declarations
  functions : file.declarations.filterMap (·.function?)
    = (file.decls.flatMap (·.funcs)).map
      fun decl => (decl.name.name, decl.receiver.isSome)
  values : file.declarations.filterMap (·.value?)
    = ((file.decls.flatMap (·.valueGroups)).map fun g => (g.1, g.2.valueNames)).filter
      fun v => !v.2.isEmpty
  types : file.declarations.filterMap (·.type?)
    = (file.decls.flatMap (·.typeSpecs)).map
      fun spec => (spec.name.name, .ofType spec.type)
  headed : file.declarations.flatMap (·.headedNames)
    = file.bindings.map fun b => (b.heading, b.name.name)
  inSource : (file.bindings.map fun b => Tok.ident b.name.name).Sublist
    ((tokenize source).tokens.map (·.tok))
  output : ∀ fs path, readText fs path = .ok source → ∀ heading,
    ((listNames fs heading .all [path]).play .unlimited).failure? = none ∧
    ((listNames fs heading .all [path]).play .unlimited).output
      = lineBytes (file.namesUnder heading)
  inOrder : ∀ heading, (file.namesUnder heading).Sublist file.declaredNames
  once : (file.namesUnder .functions
    ++ (file.namesUnder .values ++ file.namesUnder .types)).Perm file.declaredNames
  declared : ∀ spec ∈ file.decls.flatMap (·.typeSpecs),
    .ofTypeSpec spec ∈ file.declarations
  structMembers : ∀ spec ∈ file.decls.flatMap (·.typeSpecs), ∀ span fields,
    spec.type = .struct span fields →
      (Declaration.ofTypeSpec spec).membersOf spec.name.name
      = (memberNames fields).map fun m => ⟨m.2.name, some m.1.type, tagText m.1.tag⟩
  interfaceMembers : ∀ spec ∈ file.decls.flatMap (·.typeSpecs), ∀ span elems,
    spec.type = .interface span elems →
      (Declaration.ofTypeSpec spec).membersOf spec.name.name
      = (memberNames elems).map fun m => ⟨m.2.name, none, ""⟩
  otherMembers : ∀ spec ∈ file.decls.flatMap (·.typeSpecs),
    (∀ span fields, spec.type ≠ .struct span fields) →
    (∀ span elems, spec.type ≠ .interface span elems) →
      (Declaration.ofTypeSpec spec).membersOf spec.name.name = []

/-- The names under a heading are what is listed of a file. -/
theorem listNames_single {fs : FileSystem} {path : String} {file : SourceFile}
    (h : load fs path = .ok file) (heading : Heading) :
    ((listNames fs heading .all [path]).play .unlimited).failure? = none ∧
      ((listNames fs heading .all [path]).play .unlimited).output
        = lineBytes (file.namesUnder heading) := by
  rw [Script.play_unlimited]
  obtain ⟨hfailure, hbytes⟩ := @listNames_facts fs heading .all [path]
  refine ⟨hfailure.trans ?_, hbytes.trans ?_⟩
  · simp [loadError?, h]
  · rw [← file.selectedNames_all]
    simp [listedFiles, h, Except.isOk, Except.toBool, Except.toOption]

/-- **Every declared name is listed exactly once, in the order of the source,
under one heading.** -/
theorem names_listedOnce {source : String} {file : SourceFile}
    (h : parseSource source = .ok file) : ListedOnce source file where
  inTreeOrder _ := DeclarationCursor.yields_iff
  functions := file.functions_declarations
  values := file.values_declarations
  types := file.types_declarations
  headed := file.headedNames_declarations
  inSource := bindings_sublist_tokens h
  output := by
    intro fs path hread heading
    refine listNames_single ?_ heading
    rw [load_eq, hread]
    show parseText path source = .ok file
    rw [parseText, h]
  inOrder := file.namesUnder_sublist
  once := file.namesUnder_perm
  declared _ hspec := SourceFile.ofTypeSpec_mem hspec
  structMembers := by
    intro spec _ span fields htype
    rw [Declaration.membersOf_ofTypeSpec, htype,
      memberNames_map fun f name => ⟨name.name, some f.type, tagText f.tag⟩]
    rfl
  interfaceMembers := by
    intro spec _ span elems htype
    rw [Declaration.membersOf_ofTypeSpec, htype, memberNames_map
      fun _ name => ⟨name.name, none, ""⟩]
    rfl
  otherMembers := by
    intro spec _ hstruct hinterface
    rw [Declaration.membersOf_ofTypeSpec]
    cases htype : spec.type with
    | struct span fields => exact absurd htype (hstruct span fields)
    | interface span elems => exact absurd htype (hinterface span elems)
    | _ => rfl

/-- A source with imports between groups, an empty group, a group of types
with an alias and an embedded member, and a method that shares its name
with a member. -/
def sampleHeadings : String :=
  "package p\nimport \"m\"\nconst (a, b = 1, 2; c = 3)\nvar ()\n" ++
    "type (A = T; S struct \x7b x, y int \"t\"; E \x7d; I interface \x7b f(); E \x7d)\n" ++
    "import \"n\"\nfunc (s S) f() \x7b\x7d\nvar d T\n"

/-- The names, the texts of types and the tags of the members that declarations
of this name have. -/
def SourceFile.memberTexts (file : SourceFile) (typeName : String) :
    List (Option (List String)) :=
  (file.declarations.flatMap (·.membersOf typeName)).map fun m =>
    (Column.values [.name, .type, .tags] m).toOption

/-- In the sample the struct has two members that share their type and tag, and
the interface has one. -/
theorem names_listedOnce_sampleHeadings :
    ∃ file, parseSource sampleHeadings = .ok file ∧ ListedOnce sampleHeadings file ∧
      file.declaredNames = ["a", "b", "c", "A", "S", "I", "f", "d"] ∧
      file.memberTexts "S" = [some ["x", "int", "t"], some ["y", "int", "t"]] ∧
      file.memberTexts "I" = [some ["f", "", ""]] := by
  have hsome : ((parseSource sampleHeadings).toOption.map fun file =>
      (file.declaredNames, file.memberTexts "S", file.memberTexts "I"))
        = some (["a", "b", "c", "A", "S", "I", "f", "d"],
          [some ["x", "int", "t"], some ["y", "int", "t"]],
            [some ["f", "", ""]]) := by
    decide +kernel
  cases hparse : parseSource sampleHeadings with
  | error e =>
    rw [hparse] at hsome
    cases hsome
  | ok file =>
    rw [hparse] at hsome
    obtain ⟨hnames, hmembers⟩ := Prod.mk.inj (Option.some.inj hsome)
    exact ⟨file, rfl, names_listedOnce hparse, hnames, Prod.mk.inj hmembers⟩

end GoInventory
