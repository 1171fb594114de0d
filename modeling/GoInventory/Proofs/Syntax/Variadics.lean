import GoInventory.Proofs.Syntax.Accounting
import GoInventory.Proofs.Syntax.Grouping
import GoInventory.Proofs.Syntax.Nodes

/-!
# Variadic types

A variadic type is meant to be the type of the last parameter of a function. The
parser reads it wherever it reads the type of a parameter, so in a parsed file
it is always the type of a group in a list in parentheses: parameters, results,
or the receiver of a method (`SourceFile.HasList`). No other type that stands in
a type or in a declaration is variadic.

Where in the list it stands, and how many names it has, is up to the source. A
list of the file is written in the source as entries, and a variadic type is at
the end of the groups, with one name or none, exactly if it is at the end of the
entries and does not share its type with a name before it (`variadicAtEnd_iff`).
-/

namespace GoInventory

/-- The type is that of a variadic parameter. -/
def TypeExpr.isVariadic : TypeExpr → Bool
  | variadic _ _ => true
  | _ => false

/-- What a list of parameters is for. -/
inductive ListRole where
  | params
  | results
  | receiver
deriving DecidableEq, Repr

/-- A list of parameters in a file, by groups. -/
structure ParamList where
  role : ListRole
  groups : List (Field TypeExpr)

/-- The lists of a signature. -/
def Signature.lists (sig : Signature TypeExpr) : List ParamList :=
  [⟨.params, sig.params⟩, ⟨.results, sig.results⟩]

/-- The lists that stand directly in a type. -/
def TypeExpr.lists : TypeExpr → List ParamList
  | func _ sig => sig.lists
  | _ => []

/-- The lists that stand directly in a declaration. -/
def Decl.lists : Decl → List ParamList
  | func decl => decl.receiver.toList.map (⟨.receiver, [·]⟩) ++ decl.signature.lists
  | _ => []

/-- The list stands in the file, at some depth. -/
def SourceFile.HasList (file : SourceFile) (l : ParamList) : Prop :=
  (∃ d ∈ file.decls, l ∈ d.lists) ∨ ∃ t, file.HasType t ∧ l ∈ t.lists

namespace ParamList

/-- Some group of the list is variadic. -/
def IsVariadic (l : ParamList) : Prop :=
  ∃ f ∈ l.groups, f.type.isVariadic = true

/-- Only the last group can be variadic, and then it has at most one name. -/
def VariadicAtEnd (groups : List (Field TypeExpr)) : Prop :=
  (∀ f ∈ groups.dropLast, f.type.isVariadic = false) ∧
    ∀ f ∈ groups.getLast?, f.type.isVariadic = true → f.names.length ≤ 1

instance (l : ParamList) : Decidable l.IsVariadic :=
  inferInstanceAs (Decidable (∃ f ∈ l.groups, f.type.isVariadic = true))

instance (groups : List (Field TypeExpr)) : Decidable (VariadicAtEnd groups) :=
  inferInstanceAs (Decidable (_ ∧ ∀ f ∈ groups.getLast?, f.type.isVariadic = true →
    f.names.length ≤ 1))

end ParamList

namespace ParamEntry

/-- The entry has a variadic type. -/
def isVariadic (e : ParamEntry) : Bool :=
  e.type?.any TypeExpr.isVariadic

/-- Only the last entry can be variadic, and then no name before it waits
for its type. -/
def VariadicAtEnd (entries : List ParamEntry) : Prop :=
  (∀ e ∈ entries.dropLast, e.isVariadic = false) ∧
    ∀ e ∈ entries.getLast?, e.isVariadic = true → e.isTyped = true →
      ∀ before ∈ entries.dropLast.getLast?, before.type? ≠ none

end ParamEntry

/-! ## Groups and entries -/

namespace ParamEntry

theorem StandsAlone.isVariadic_eq {e : ParamEntry} {f : Field TypeExpr}
    (h : StandsAlone e f) :
    e.isVariadic = f.type.isVariadic ∧ e.isTyped = false ∧ f.names = [] := by
  cases h <;> exact ⟨rfl, rfl, rfl⟩

theorem isVariadic_of_waiting {e : ParamEntry} (h : e.type? = none) :
    e.isVariadic = false := by
  rw [isVariadic, h]
  rfl

theorem isVariadic_of_type? {e : ParamEntry} {t : TypeExpr} (h : e.type? = some t) :
    e.isVariadic = t.isVariadic := by
  rw [isVariadic, h]
  rfl

/-- A run has a variadic entry exactly if its group is variadic. -/
theorem Shares.forall_isVariadic_iff {run : List ParamEntry} {f : Field TypeExpr}
    (h : Shares run f) :
    (∀ e ∈ run, e.isVariadic = false) ↔ f.type.isVariadic = false := by
  obtain ⟨front, last, rfl, hfront, hlast, -⟩ := h.exists_last
  rw [List.forall_mem_append, List.forall_mem_singleton, isVariadic_of_type? hlast]
  exact and_iff_right fun e he => isVariadic_of_waiting (hfront e he)

theorem forall_isVariadic_of_runs {runs : List (List ParamEntry)}
    {fields : List (Field TypeExpr)} (h : List.Forall₂ Shares runs fields) :
    (∀ e ∈ runs.flatten, e.isVariadic = false) ↔ ∀ f ∈ fields,
      f.type.isVariadic = false := by
  induction h with
  | nil => exact iff_of_true nofun nofun
  | cons hrun _ ih =>
    rw [List.flatten_cons, List.forall_mem_append, List.forall_mem_cons,
      hrun.forall_isVariadic_iff, ih]

/-- The last of the groups belongs to the last of what they were made from. -/
theorem exists_of_concat {α β : Type} {R : α → β → Prop} {as : List α} {bs : List β}
    {b : β} (h : List.Forall₂ R as (bs ++ [b])) :
    ∃ front a, as = front ++ [a] ∧ List.Forall₂ R front bs ∧ R a b := by
  have hfront := List.forall₂_take_append as bs [b] h
  have hlast := List.forall₂_drop_append as bs [b] h
  obtain ⟨a, hab, hdrop⟩ : ∃ a, R a b ∧ as.drop bs.length = [a] := by
    generalize as.drop bs.length = tail at hlast
    obtain _ | ⟨hab, hnone⟩ := hlast
    cases hnone
    exact ⟨_, hab, rfl⟩
  exact ⟨as.take bs.length, a, by rw [← hdrop, List.take_append_drop], hfront, hab⟩

theorem forall_isVariadic_of_alone {entries : List ParamEntry}
    {fields : List (Field TypeExpr)} (h : List.Forall₂ StandsAlone entries fields) :
    (∀ e ∈ entries, e.isVariadic = false) ↔ ∀ f ∈ fields,
      f.type.isVariadic = false := by
  induction h with
  | nil => exact iff_of_true nofun nofun
  | cons he _ ih =>
    rw [List.forall_mem_cons, List.forall_mem_cons, he.isVariadic_eq.1, ih]

/-- A group has at most one name exactly if no name waits right before the entry
with its type. -/
theorem Shares.length_names_le_one_iff {runs : List (List ParamEntry)}
    {fields : List (Field TypeExpr)} {front : List ParamEntry} {last : ParamEntry}
    {f : Field TypeExpr} (hruns : List.Forall₂ Shares runs fields)
    (h : Shares (front ++ [last]) f) (hfront : ∀ e ∈ front, e.type? = none) :
    f.names.length ≤ 1 ↔ ∀ before ∈ (runs.flatten ++ front).getLast?,
      before.type? ≠ none := by
  have hlength := h.length_names
  rw [List.length_append, List.length_singleton] at hlength
  obtain rfl | ⟨front, waiting, rfl⟩ := List.eq_nil_or_concat front
  · -- what stands before is the end of another run, which has a type
    refine iff_of_true (Nat.le_of_eq hlength) fun before hbefore => ?_
    obtain rfl | ⟨fields, g, rfl⟩ := List.eq_nil_or_concat fields
    · cases hruns
      cases hbefore
    · rw [List.concat_eq_append] at hruns
      obtain ⟨earlier, run, rfl, -, hrun⟩ := exists_of_concat hruns
      obtain ⟨others, settled, rfl, -, htype, -⟩ := hrun.exists_last
      rw [List.append_nil, List.flatten_append, List.flatten_singleton,
        ← List.append_assoc, List.getLast?_concat] at hbefore
      cases hbefore
      rw [htype]
      nofun
  · rw [List.concat_eq_append] at hlength hfront ⊢
    rw [← List.append_assoc, List.getLast?_concat]
    refine iff_of_false (by simp [hlength]) fun hall => ?_
    exact hall waiting rfl (hfront waiting (by simp))

/-- **Grouping keeps a variadic type where it is written.** -/
theorem variadicAtEnd_iff {entries : List ParamEntry} {fields : List (Field TypeExpr)}
    (h : group entries = .ok fields) :
    ParamList.VariadicAtEnd fields ↔ VariadicAtEnd entries := by
  obtain rfl | ⟨fields, f, rfl⟩ := List.eq_nil_or_concat fields
  · rw [eq_nil_of_group h]
    exact iff_of_true ⟨nofun, nofun⟩ ⟨nofun, nofun⟩
  rw [List.concat_eq_append] at h ⊢
  unfold ParamList.VariadicAtEnd VariadicAtEnd
  rcases group_eq_ok h with halone | ⟨runs, rfl, hruns⟩
  · obtain ⟨front, e, rfl, hfront, he⟩ := exists_of_concat halone
    obtain ⟨-, htyped, hnames⟩ := he.isVariadic_eq
    rw [List.dropLast_concat, List.dropLast_concat, forall_isVariadic_of_alone hfront]
    simp [hnames, htyped]
  · obtain ⟨earlier, run, rfl, hearlier, hrun⟩ := exists_of_concat hruns
    obtain ⟨front, last, rfl, hfront, hlast, htyped⟩ := hrun.exists_last
    have hwaiting : ∀ e ∈ front, e.isVariadic = false :=
      fun e he => isVariadic_of_waiting (hfront e he)
    rw [List.flatten_append, List.flatten_singleton, ← List.append_assoc,
      List.dropLast_concat,
      List.dropLast_concat, List.forall_mem_append,
        forall_isVariadic_of_runs hearlier, and_iff_left hwaiting]
    simp only [List.getLast?_concat, Option.mem_some_iff, forall_eq',
      isVariadic_of_type? hlast, htyped, true_implies,
      hrun.length_names_le_one_iff hearlier hfront]

end ParamEntry

/-! ## The places of variadic types -/

open Grammar

/-- Every run is a part of these tokens. -/
def Placement.partOf (tokens : List Token) : Placement where
  allows := fun run => run <:+: tokens
  fits := fun _ run => run <:+: tokens
  allows_left := fun h => (List.prefix_append _ _).isInfix.trans h
  allows_right := fun h => (List.suffix_append _ _).isInfix.trans h
  fits_extent := fun h _ _ => h
  fits_since := fun h _ _ => h
  fits_join := fun h _ _ _ _ => h

theorem ignoresSpans_partOf (tokens : List Token) : IgnoresSpans (.partOf tokens) :=
  fun h => (List.suffix_append _ _).isInfix.trans h

/-- The groups are written in the source as these entries in parentheses. -/
def WrittenAs (source : String) (entries : List ParamEntry)
    (groups : List (Field TypeExpr)) : Prop :=
  ∃ lp run groups', lp :: run <:+: (tokenize source).tokens ∧
    lp.tok = .op .openParen ∧
    Listed (ClearEntry (.partOf (tokenize source).tokens)
      (Spells (.partOf (tokenize source).tokens)))
      .comma .closeParen entries run ∧
    ParamEntry.group entries = .ok groups' ∧
    groups'.map (Field.mapOffsets forget) = groups.map (Field.mapOffsets forget)

theorem TypeExpr.isVariadic_mapOffsets (g : Nat → Nat) (t : TypeExpr) :
    (t.mapOffsets g).isVariadic = t.isVariadic := by
  cases t <;> simp [mapOffsets, isVariadic]

theorem ParamList.variadicAtEnd_mapOffsets (g : Nat → Nat)
    (groups : List (Field TypeExpr)) :
    VariadicAtEnd (groups.map (Field.mapOffsets g)) ↔ VariadicAtEnd groups := by
  simp [VariadicAtEnd, ← List.map_dropLast, Field.mapOffsets,
    TypeExpr.isVariadic_mapOffsets]

/-- What is at the end of the groups is at the end of the entries that they
are written as. -/
theorem WrittenAs.variadicAtEnd_iff {source : String} {entries : List ParamEntry}
    {groups : List (Field TypeExpr)} (h : WrittenAs source entries groups) :
    ParamList.VariadicAtEnd groups ↔ ParamEntry.VariadicAtEnd entries := by
  obtain ⟨lp, run, groups', -, -, -, hgroup, heq⟩ := h
  rw [← ParamEntry.variadicAtEnd_iff hgroup,
    ← ParamList.variadicAtEnd_mapOffsets forget groups', heq,
    ParamList.variadicAtEnd_mapOffsets]

namespace Grammar

variable {F : Placement}

/-- A plain type is not variadic. -/
theorem IsPlain.isVariadic_eq_false {t : TypeExpr} (h : IsPlain F t) :
    t.isVariadic = false := by
  cases h with
  | constraint hconstraint =>
    cases hconstraint with
    | plain htype =>
      obtain ⟨e, hspells⟩ := htype
      cases spells_iff.mp hspells <;> rfl
    | union => rfl
  | method => rfl

variable {source : String}

theorem Params.written {groups : List (Field TypeExpr)} {run : List Token}
    (h : Params (.partOf (tokenize source).tokens)
      (Spells (.partOf (tokenize source).tokens)) groups run)
    (hrun : run <:+: (tokenize source).tokens) :
    ∃ entries, WrittenAs source entries groups := by
  obtain ⟨lp, more, entries, groups', rfl, hlp, hlisted, hgroup, heq⟩ :=
    h.entries (ignoresSpans_partOf _) shaped_spells
  exact ⟨entries, lp, more, groups', hrun, hlp, hlisted, hgroup, heq⟩

/-- A list of a signature with a variadic group is written in parentheses. -/
theorem Sig.written {sig : Signature TypeExpr} {run : List Token} {e : Ending}
    {l : ParamList}
    (h : Sig (.partOf (tokenize source).tokens)
      (Spells (.partOf (tokenize source).tokens)) sig run e)
    (hl : l ∈ sig.lists) (hvariadic : l.IsVariadic) :
    ∃ entries, WrittenAs source entries l.groups := by
  obtain @⟨params, results, s, paramRun, resultRun, _, hparams, hresults, hfits⟩ := h
  have hsplit : paramRun ++ resultRun <:+: (tokenize source).tokens := hfits
  rcases List.mem_cons.mp hl with rfl | hl
  · exact hparams.written ((List.prefix_append _ _).isInfix.trans hsplit)
  · obtain rfl := List.mem_singleton.mp hl
    obtain ⟨f, hf, hdots⟩ := hvariadic
    cases hresults with
    | none => cases hf
    | listed hlisted =>
      exact hlisted.written ((List.suffix_append _ _).isInfix.trans hsplit)
    | bare _ hbare _ =>
      rw [List.mem_singleton.mp hf,
        (IsPlain.of_spells hbare).isVariadic_eq_false] at hdots
      cases hdots

/-- A list of a declaration with a variadic group is written in parentheses. -/
theorem DeclRun.written {d : Decl} {run : List Token} {l : ParamList}
    (h : DeclRun (.partOf (tokenize source).tokens) d run) (hl : l ∈ d.lists)
    (hvariadic : l.IsVariadic) : ∃ entries, WrittenAs source entries l.groups := by
  cases h with
  | imports | consts | vars | types => cases hl
  | func hfunc =>
    obtain @⟨receiver, name, typeParams, sig, body, s, kw, t, receiverRun, typeRun,
      sigRun, bodyRun, _, -, hreceiver,
      -, -, hsig, -, hfits⟩ := hfunc
    rcases List.mem_append.mp hl with hl | hl
    · obtain ⟨f, hf, rfl⟩ := List.mem_map.mp hl
      cases hreceiver with
      | none => cases hf
      | some hparams =>
        obtain rfl : f = _ := by simpa using hf
        refine hparams.written (List.IsInfix.trans ?_ hfits)
        exact ⟨[kw], t :: (typeRun ++ (sigRun ++ bodyRun)), by simp⟩
    · exact hsig.written hl hvariadic

end Grammar

/-- A type that stands in another one is that type, or a child of one that
stands in it. -/
theorem TypeExpr.Within.parent {u t : TypeExpr} (h : u.Within t) :
    u = t ∨ ∃ v : TypeExpr, v.Within t ∧ u ∈ v.children := by
  induction h with
  | self => exact Or.inl rfl
  | @child t c hc _ ih =>
    rcases ih with rfl | ⟨v, hv, hu⟩
    · exact Or.inr ⟨t, .self, hc⟩
    · exact Or.inr ⟨v, .child hc hv, hu⟩

namespace SourceFile

/-- Variadic types are the types of last parameters only. -/
def VariadicsFinal (file : SourceFile) : Prop :=
  ∀ l, file.HasList l → l.IsVariadic →
    l.role = .params ∧ ParamList.VariadicAtEnd l.groups

/-- Where the variadic types of a file stand. Each is the type of a group of
some list, and no type that does not stand in a list is variadic. A list with a
variadic group is written in parentheses, and the variadic types are those of
last parameters if and only if the source has them there. -/
structure VariadicsPlaced (source : String) (file : SourceFile) : Prop where
  listed : ∀ t, file.HasType t → t.isVariadic = true →
    ∃ l, file.HasList l ∧ t ∈ l.groups.map (·.type)
  unlisted_decl : ∀ d ∈ file.decls, ∀ t ∈ d.unlistedTypes, t.isVariadic = false
  unlisted_type : ∀ u, file.HasType u → ∀ t ∈ u.unlistedChildren, t.isVariadic = false
  written : ∀ l, file.HasList l → l.IsVariadic →
    ∃ entries, WrittenAs source entries l.groups
  final_iff : file.VariadicsFinal ↔ ∀ l, file.HasList l → l.IsVariadic →
    l.role = .params ∧ ∃ entries, WrittenAs source entries l.groups ∧
      ParamEntry.VariadicAtEnd entries

/-- A type of a file stands directly in a declaration, or in another
type of the file. -/
theorem HasType.cases {file : SourceFile} {t : TypeExpr} (h : file.HasType t) :
    (∃ d ∈ file.decls, t ∈ d.topTypes) ∨ ∃ u, file.HasType u ∧ t ∈ u.children := by
  obtain ⟨d, hd, top, htop, hwithin⟩ := h
  rcases hwithin.parent with rfl | ⟨u, hu, hchild⟩
  · exact Or.inl ⟨d, hd, htop⟩
  · exact Or.inr ⟨u, ⟨d, hd, top, htop, hu⟩, hchild⟩

end SourceFile

/-- The types of a signature are those of its lists. -/
theorem Signature.exists_list {sig : Signature TypeExpr} {t : TypeExpr}
    (h : t ∈ sig.params.map (·.type) ++ sig.results.map (·.type)) :
    ∃ l ∈ sig.lists, t ∈ l.groups.map (·.type) := by
  rcases List.mem_append.mp h with h | h
  · exact ⟨_, List.mem_cons_self, h⟩
  · exact ⟨_, List.mem_cons_of_mem _ List.mem_cons_self, h⟩

theorem TypeExpr.unlisted_or_listed {u t : TypeExpr} (h : t ∈ u.children) :
    t ∈ u.unlistedChildren ∨ ∃ l ∈ u.lists, t ∈ l.groups.map (·.type) := by
  rcases mem_children h with hplain | ⟨s, sig, rfl, hlist⟩
  · exact Or.inl hplain
  · exact Or.inr (Signature.exists_list hlist)

theorem Decl.unlisted_or_listed {d : Decl} {t : TypeExpr} (h : t ∈ d.topTypes) :
    t ∈ d.unlistedTypes ∨ ∃ l ∈ d.lists, t ∈ l.groups.map (·.type) := by
  cases d with
  | imports | consts | vars | types => exact Or.inl h
  | func decl =>
    rcases List.mem_append.mp h with h | h
    · rcases List.mem_append.mp h with h | h
      · obtain ⟨f, hf, rfl⟩ := List.mem_map.mp h
        exact Or.inr ⟨⟨.receiver, [f]⟩,
          List.mem_append_left _ (List.mem_map.mpr ⟨f, hf, rfl⟩), by simp⟩
      · exact Or.inl h
    · obtain ⟨l, hl, ht⟩ := Signature.exists_list h
      exact Or.inr ⟨l, List.mem_append_right _ hl, ht⟩

/-- **Variadic types are the types of parameters, results and receivers only, in
the places where the source has them.** -/
theorem variadicsPlaced_of_parseSource {source : String} {file : SourceFile}
    (h : parseSource source = .ok file) : file.VariadicsPlaced source := by
  have hrun : FileRun (.partOf (tokenize source).tokens) file
      (tokenize source).tokens :=
    fileRun_of_parseTokens (parseTokens_of_parseSource h) (List.infix_refl _)
  have hdecl : ∀ d ∈ file.decls, ∀ t ∈ d.unlistedTypes, t.isVariadic = false := by
    intro d hd t ht
    obtain ⟨part, hpart⟩ := hrun.decl_of_mem hd
    exact (IsPlain.of_declRun hpart ht).isVariadic_eq_false
  have htype : ∀ u, file.HasType u → ∀ t ∈ u.unlistedChildren,
      t.isVariadic = false := by
    intro u hu t ht
    exact ((IsNode.of_fileRun hrun hu).unlistedChild ht).isVariadic_eq_false
  have hwritten : ∀ l, file.HasList l → l.IsVariadic →
      ∃ entries, WrittenAs source entries l.groups := by
    intro l hl hvariadic
    rcases hl with ⟨d, hd, hl⟩ | ⟨t, ht, hl⟩
    · obtain ⟨part, hpart⟩ := hrun.decl_of_mem hd
      exact hpart.written hl hvariadic
    · cases t with
      | func s sig =>
        obtain ⟨part, e, hsig⟩ := (IsNode.of_fileRun hrun ht).signature
        exact hsig.written hl hvariadic
      | _ => cases hl
  refine ⟨fun t ht hdots => ?_, hdecl, htype, hwritten, ?_⟩
  · rcases ht.cases with ⟨d, hd, htop⟩ | ⟨u, hu, hchild⟩
    · rcases Decl.unlisted_or_listed htop with hplain | ⟨l, hl, hmem⟩
      · rw [hdecl d hd t hplain] at hdots
        cases hdots
      · exact ⟨l, Or.inl ⟨d, hd, hl⟩, hmem⟩
    · rcases TypeExpr.unlisted_or_listed hchild with hplain | ⟨l, hl, hmem⟩
      · rw [htype u hu t hplain] at hdots
        cases hdots
      · exact ⟨l, Or.inr ⟨u, hu, hl⟩, hmem⟩
  · constructor
    · intro hfinal l hl hvariadic
      obtain ⟨hrole, hend⟩ := hfinal l hl hvariadic
      obtain ⟨entries, hentries⟩ := hwritten l hl hvariadic
      exact ⟨hrole, entries, hentries, hentries.variadicAtEnd_iff.mp hend⟩
    · intro hsource l hl hvariadic
      obtain ⟨hrole, entries, hentries, hend⟩ := hsource l hl hvariadic
      exact ⟨hrole, hentries.variadicAtEnd_iff.mpr hend⟩

/-- A function whose last parameter is variadic. -/
def sampleLastVariadic : String :=
  "package p\nfunc f(a int, b ...string)\n"

/-- In the sample the variadic type is that of the last parameter. -/
theorem variadicsPlaced_sampleLastVariadic :
    ∃ file, parseSource sampleLastVariadic = .ok file ∧
      file.VariadicsPlaced sampleLastVariadic ∧
      ∃ l, file.HasList l ∧ l.IsVariadic ∧ l.role = .params ∧
        ParamList.VariadicAtEnd l.groups := by
  have hsample : (parseSource sampleLastVariadic).toOption.any
    (fun file => file.decls.any fun d =>
      d.lists.any fun l => decide (l.IsVariadic ∧ l.role = .params ∧
        ParamList.VariadicAtEnd l.groups)) = true := by
    decide +kernel
  obtain ⟨file, hfile, hany⟩ := exists_ok_of_any hsample
  obtain ⟨d, hd, hlists⟩ := List.any_eq_true.mp hany
  obtain ⟨l, hl, hplaced⟩ := List.any_eq_true.mp hlists
  exact ⟨file, hfile, variadicsPlaced_of_parseSource hfile, l, Or.inl ⟨d, hd, hl⟩,
    of_decide_eq_true hplaced⟩

/-- Some list of a declaration has a variadic type that is not that of a
last parameter. -/
def SourceFile.misplacesVariadic (file : SourceFile) : Bool :=
  file.decls.any fun d =>
    d.lists.any fun l => decide (l.IsVariadic ∧
      ¬ (l.role = .params ∧ ParamList.VariadicAtEnd l.groups))

theorem SourceFile.not_final_of_misplacesVariadic {source : String}
    (h : (parseSource source).toOption.any misplacesVariadic = true) :
    ∃ file, parseSource source = .ok file ∧ ¬ file.VariadicsFinal := by
  obtain ⟨file, hfile, hany⟩ := exists_ok_of_any h
  obtain ⟨d, hd, hlists⟩ := List.any_eq_true.mp hany
  obtain ⟨l, hl, hmisplaced⟩ := List.any_eq_true.mp hlists
  obtain ⟨hvariadic, hnot⟩ := of_decide_eq_true hmisplaced
  exact ⟨file, hfile, fun hfinal => hnot (hfinal l (Or.inl ⟨d, hd, hl⟩) hvariadic)⟩

/-- A function with a variadic type before another parameter. -/
def sampleEarlyVariadic : String :=
  "package p\nfunc f(a ...int, b int)\n"

/-- A function with a variadic result. -/
def sampleVariadicResult : String :=
  "package p\nfunc f() (a ...int)\n"

/-- A method with a variadic receiver. -/
def sampleVariadicReceiver : String :=
  "package p\nfunc (a ...T) m()\n"

/-- A function with a variadic type for two names. -/
def sampleSharedVariadic : String :=
  "package p\nfunc f(a, b ...int)\n"

/-- **Variadic types are accepted where they are not those of last parameters**,
in each of these ways. -/
theorem variadics_not_final :
    (∃ file, parseSource sampleEarlyVariadic = .ok file ∧ ¬ file.VariadicsFinal) ∧
    (∃ file, parseSource sampleVariadicResult = .ok file ∧ ¬ file.VariadicsFinal) ∧
    (∃ file, parseSource sampleVariadicReceiver = .ok file ∧ ¬ file.VariadicsFinal) ∧
    ∃ file, parseSource sampleSharedVariadic = .ok file ∧ ¬ file.VariadicsFinal := by
  refine ⟨?_, ?_, ?_, ?_⟩
  all_goals
    apply SourceFile.not_final_of_misplacesVariadic
    decide +kernel

end GoInventory
