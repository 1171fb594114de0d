import GoInventory.Syntax.Parameter
import Mathlib.Data.List.Forall2

/-!
# Groups of parameters

What the grouping of parameter entries comes to, for every list of entries. If
no entry has both a name and a type, each entry is a parameter of its own.
Otherwise the list falls into runs, each of them names that wait for a type and
then a name with the type, and each run is one group (`Shares`). There are such
runs exactly if no entry is a type on its own and the last entry has a type
(`exists_runs`); if not, the first type on its own is to blame, or else the last
name (`groupNamed_of_unnamed`, `groupNamed_of_bare`).

The induction is along the entries, with the names that still wait for their
type put back before the list as the bare entries they come from.
-/

namespace GoInventory

/-- The names of a group, each with the type that it gets. -/
def Field.typings {τ : Type} (f : Field τ) : List (Ident × τ) :=
  f.names.map (·, f.type)

namespace ParamEntry

/-- The name of an entry, if it has one. -/
def name? : ParamEntry → Option Ident
  | bare name | typed name _ _ => some name
  | unnamed _ _ => none

/-- The type that is written in an entry, if there is one. -/
def type? : ParamEntry → Option TypeExpr
  | bare _ => none
  | typed _ type _ | unnamed type _ => some type

/-- Where an entry stands; a name on its own is all of its entry. -/
def span : ParamEntry → Span
  | bare name => name.span
  | typed _ _ span | unnamed _ span => span

/-- The entry is a type on its own. -/
def isUnnamed : ParamEntry → Bool
  | unnamed _ _ => true
  | bare _ | typed _ _ _ => false

/-- The entry makes a parameter without a name, where it stands. -/
inductive StandsAlone : ParamEntry → Field TypeExpr → Prop
  | bare (name : Ident) :
      StandsAlone (.bare name) ⟨[], .named (.plain name), none, name.span⟩
  | unnamed (type : TypeExpr) (span : Span) :
      StandsAlone (.unnamed type span) ⟨[], type, none, span⟩

/-- The entries of the run make the group: each has a name, only the
last has a type, and the group reaches from the start of the first to
the end of the last. -/
structure Shares (run : List ParamEntry) (f : Field TypeExpr) : Prop where
  names : run.map name? = f.names.map some
  waiting : ∀ e ∈ run.dropLast, e.type? = none
  type : run.getLast?.bind type? = some f.type
  tag : f.tag = none
  start : run.head?.map (·.span.start) = some f.span.start
  stop : run.getLast?.map (·.span.stop) = some f.span.stop

/-- The groups of a list in which every entry has a name. -/
structure Groups (entries : List ParamEntry) (fields : List (Field TypeExpr)) :
  Prop where
  named : ∀ f ∈ fields, f.names ≠ []
  names : (fields.flatMap (·.names)).map some = entries.map name?
  types : ∀ i < entries.length, ∃ n t, (fields.flatMap Field.typings)[i]?
    = some (n, t) ∧
    entries[i]?.bind name? = some n ∧ (entries.drop i).findSome? type? = some t
  length : fields.length = entries.countP isTyped
  runs : ∃ runs, entries = runs.flatten ∧ List.Forall₂ Shares runs fields

/-! ## Runs -/

/-- Names that wait for their type and a name with the type make a group. -/
theorem shares_pending (pending : List Ident) (name : Ident) (type : TypeExpr)
    (span : Span) :
    Shares (pending.map bare ++ [typed name type span])
      ⟨pending ++ [name], type, none, ⟨groupStart pending span, span.stop⟩⟩ where
  names := by simp [name?, Function.comp_def]
  waiting := by simp [type?]
  type := by simp [type?]
  tag := rfl
  start := by cases pending <;> rfl
  stop := by simp [ParamEntry.span]

namespace Shares

variable {run : List ParamEntry} {f : Field TypeExpr}

theorem length_names (h : Shares run f) : f.names.length = run.length := by
  simpa using (congrArg List.length h.names).symm

/-- A run is some entries without a type, and one with a name and the type. -/
theorem exists_last (h : Shares run f) : ∃ front last, run = front ++ [last] ∧
    (∀ e ∈ front, e.type? = none) ∧ last.type? = some f.type ∧
      last.isTyped = true := by
  have htype := h.type
  obtain rfl | ⟨front, last, rfl⟩ := List.eq_nil_or_concat run
  · cases htype
  rw [List.concat_eq_append] at htype
  have hwaiting := h.waiting
  have hnames := h.names
  rw [List.concat_eq_append] at hwaiting hnames ⊢
  rw [List.dropLast_concat] at hwaiting
  rw [List.getLast?_concat, Option.bind_some] at htype
  refine ⟨front, last, rfl, hwaiting, htype, ?_⟩
  have hname : last.name? ∈ f.names.map some := by
    rw [← hnames]
    simp
  cases last with
  | bare name => cases htype
  | typed name type span => rfl
  | unnamed type span =>
    obtain ⟨n, -, hn⟩ := List.mem_map.mp hname
    cases hn

theorem names_ne_nil (h : Shares run f) : f.names ≠ [] := by
  obtain ⟨front, last, rfl, -⟩ := h.exists_last
  have hlength := h.length_names
  intro hnil
  rw [hnil] at hlength
  simp at hlength

/-- The last entry of a run is its only one that has both a name and a type. -/
theorem countP_isTyped (h : Shares run f) : run.countP isTyped = 1 := by
  obtain ⟨front, last, rfl, hfront, -, hlast⟩ := h.exists_last
  have hnone : front.countP isTyped = 0 := by
    refine List.countP_eq_zero.mpr fun e he htyped => ?_
    have htype := hfront e he
    cases e with
    | typed => cases htype
    | bare | unnamed => cases htyped
  rw [List.countP_append, hnone]
  simp [hlast]

/-- From any place in a run, the first type is that of the group. -/
theorem findSome?_drop (h : Shares run f) {i : Nat} (hi : i < run.length)
    (more : List ParamEntry) :
    (run.drop i ++ more).findSome? type? = some f.type := by
  obtain ⟨front, last, rfl, hfront, hlast, -⟩ := h.exists_last
  have hle : i ≤ front.length := by
    rw [List.length_append, List.length_singleton] at hi
    omega
  have hnone : (front.drop i).findSome? type? = none :=
    List.findSome?_eq_none_iff.mpr fun e he => hfront e (List.mem_of_mem_drop he)
  rw [List.drop_append_of_le_length hle, List.append_assoc,
    List.findSome?_append, hnone]
  simp [hlast]

end Shares

/-- Runs that make groups have all that is to be said about the groups. -/
theorem groups_of_runs {runs : List (List ParamEntry)}
    {fields : List (Field TypeExpr)} (h : List.Forall₂ Shares runs fields) :
    Groups runs.flatten fields := by
  induction h with
  | nil => exact ⟨nofun, rfl, nofun, rfl, [], rfl, .nil⟩
  | @cons run f runs fields hrun hruns ih =>
    refine ⟨?_, ?_, ?_, ?_, run :: runs, rfl, .cons hrun hruns⟩
    · exact List.forall_mem_cons.mpr ⟨hrun.names_ne_nil, ih.named⟩
    · rw [List.flatMap_cons, List.map_append, ih.names, ← hrun.names,
        List.flatten_cons, List.map_append]
    · intro i hi
      have htypings : f.typings.length = run.length := by
        rw [Field.typings, List.length_map, hrun.length_names]
      rw [List.flatten_cons, List.flatMap_cons]
      rcases Nat.lt_or_ge i run.length with hinside | hbeyond
      · -- the place is in the first run, whose last entry has the type
        have hname : i < f.names.length := hrun.length_names ▸ hinside
        refine ⟨f.names[i], f.type, ?_, ?_, ?_⟩
        · rw [List.getElem?_append_left (htypings ▸ hinside), Field.typings,
            List.getElem?_map, List.getElem?_eq_getElem hname]
          rfl
        · have hentry := congrArg (·[i]?) hrun.names
          simp only [List.getElem?_map, List.getElem?_eq_getElem hname] at hentry
          rw [List.getElem?_append_left hinside]
          cases hget : run[i]? with
          | none => rw [hget] at hentry; cases hentry
          | some e => rw [hget] at hentry; exact Option.some.inj hentry
        · rw [List.drop_append_of_le_length (Nat.le_of_lt hinside)]
          exact hrun.findSome?_drop hinside _
      · rw [List.flatten_cons, List.length_append] at hi
        obtain ⟨n, t, hpair, hname, htype⟩ := ih.types (i - run.length) (by omega)
        refine ⟨n, t, ?_, ?_, ?_⟩
        · rwa [List.getElem?_append_right (htypings ▸ hbeyond), htypings]
        · rwa [List.getElem?_append_right hbeyond]
        · rwa [List.drop_append, List.drop_eq_nil_of_le hbeyond, List.nil_append]
    · rw [List.flatten_cons, List.countP_append, hrun.countP_isTyped,
        List.length_cons, ih.length]
      omega

/-! ## Grouping -/

theorem name?_eq_none_iff {e : ParamEntry} : e.name? = none ↔ e.isUnnamed = true := by
  cases e <;> simp [name?, isUnnamed]

/-- A type on its own is refused, whatever stands before it. -/
theorem groupNamed_of_unnamed {entries : List ParamEntry} {u : ParamEntry}
    (h : entries.find? isUnnamed = some u) :
    ∀ pending, groupNamed pending entries = .error ⟨u.span, .mixedParameters⟩ := by
  induction entries with
  | nil => cases h
  | cons e rest ih =>
    intro pending
    cases e with
    | bare name => exact ih h _
    | typed name type span => rw [groupNamed, ih h]; rfl
    | unnamed type span => cases h; rfl

/-- If every entry has a name and the last one a type, the list falls into runs. -/
theorem exists_runs {entries : List ParamEntry} (h : ∀ e ∈ entries, e.name? ≠ none) :
    ∀ pending, (∀ e ∈ (pending.map bare ++ entries).getLast?, e.type? ≠ none) →
      ∃ fields runs, groupNamed pending entries = .ok fields ∧
        pending.map bare ++ entries = runs.flatten ∧
        List.Forall₂ Shares runs fields := by
  induction entries with
  | nil =>
    intro pending hlast
    obtain rfl | ⟨front, name, rfl⟩ := List.eq_nil_or_concat pending
    · exact ⟨[], [], rfl, rfl, .nil⟩
    · exact absurd rfl (hlast (bare name) (by simp))
  | cons e rest ih =>
    intro pending hlast
    obtain ⟨hname, hrest⟩ := List.forall_mem_cons.mp h
    cases e with
    | bare name =>
      have hsplit : pending.map bare ++ bare name :: rest
          = (pending ++ [name]).map bare ++ rest := by simp
      rw [hsplit] at hlast ⊢
      exact ih hrest (pending ++ [name]) hlast
    | typed name type span =>
      -- the type settles the names that wait, and the rest starts anew
      have hlast' : ∀ e ∈ rest.getLast?, e.type? ≠ none := by
        intro e he
        refine hlast e ?_
        rw [List.getLast?_append, List.getLast?_cons, Option.mem_def.mp he]
        rfl
      obtain ⟨fields, runs, hok, hflat, hruns⟩ := ih hrest [] hlast'
      refine ⟨_ :: fields, _ :: runs, ?_, ?_,
        .cons (shares_pending pending name type span) hruns⟩
      · rw [groupNamed, hok]
        rfl
      · rw [List.flatten_cons, ← hflat]
        simp
    | unnamed type span => exact absurd rfl hname

/-- A name at the end waits for a type in vain. -/
theorem groupNamed_of_bare {entries : List ParamEntry}
    (h : ∀ e ∈ entries, e.name? ≠ none) {name : Ident} :
    ∀ pending, (pending.map bare ++ entries).getLast? = some (bare name) →
      groupNamed pending entries = .error ⟨name.span, .missingParameterType⟩ := by
  induction entries with
  | nil =>
    intro pending hlast
    obtain rfl | ⟨front, last, rfl⟩ := List.eq_nil_or_concat pending
    · cases hlast
    · simp only [List.concat_eq_append, List.append_nil, List.map_append,
        List.map_cons, List.map_nil,
        List.getLast?_concat, Option.some.injEq, bare.injEq] at hlast
      simp [groupNamed, hlast]
  | cons e rest ih =>
    intro pending hlast
    obtain ⟨hname, hrest⟩ := List.forall_mem_cons.mp h
    cases e with
    | bare waiting =>
      have hsplit : pending.map bare ++ bare waiting :: rest
          = (pending ++ [waiting]).map bare ++ rest := by simp
      rw [hsplit] at hlast
      exact ih hrest (pending ++ [waiting]) hlast
    | typed settled type span =>
      have hlast' : rest.getLast? = some (bare name) := by
        rw [List.getLast?_append, List.getLast?_cons] at hlast
        cases hget : rest.getLast? with
        | none => rw [hget] at hlast; cases hlast
        | some e => rw [hget] at hlast; exact hlast
      rw [groupNamed, ih hrest [] hlast']
      rfl
    | unnamed type span => exact absurd rfl hname

/-! ## Lists of entries -/

/-- Without an entry that has both a name and a type, every entry is a parameter. -/
theorem group_of_untyped {entries : List ParamEntry}
    (h : ∀ e ∈ entries, e.isTyped = false) :
    ∃ fields, group entries = .ok fields ∧
      List.Forall₂ StandsAlone entries fields := by
  have hany : entries.any isTyped = false :=
    List.any_eq_false.mpr fun e he => by simp [h e he]
  refine ⟨entries.map asUnnamed, by rw [group, hany]; rfl, ?_⟩
  rw [List.forall₂_map_right_iff, List.forall₂_same]
  intro e he
  cases e with
  | bare name => exact .bare name
  | typed name type span => cases h _ he
  | unnamed type span => exact .unnamed type span

theorem group_of_typed {entries : List ParamEntry}
    (h : ∃ e ∈ entries, e.isTyped = true) :
    group entries = groupNamed [] entries := by
  rw [group, if_pos (List.any_eq_true.mpr h)]

/-- A list with an entry that has both a name and a type has a type on its own,
or can be grouped, or ends with a name on its own. -/
theorem group_cases {entries : List ParamEntry} (h : ∃ e ∈ entries, e.isTyped = true) :
    (∃ u, entries.find? isUnnamed = some u ∧
      group entries = .error ⟨u.span, .mixedParameters⟩) ∨
    ((∀ e ∈ entries, e.name? ≠ none) ∧
      (∃ last, entries.getLast? = some last ∧ last.type? ≠ none) ∧
      ∃ fields, group entries = .ok fields ∧ Groups entries fields) ∨
    ((∀ e ∈ entries, e.name? ≠ none) ∧ ∃ name, entries.getLast? = some (bare name) ∧
      group entries = .error ⟨name.span, .missingParameterType⟩) := by
  rw [group_of_typed h]
  cases hfind : entries.find? isUnnamed with
  | some u => exact Or.inl ⟨u, rfl, groupNamed_of_unnamed hfind []⟩
  | none =>
    have hnames : ∀ e ∈ entries, e.name? ≠ none := fun e he hnone =>
      List.find?_eq_none.mp hfind e he (name?_eq_none_iff.mp hnone)
    obtain ⟨e, he, -⟩ := h
    obtain ⟨last, hlast⟩ : ∃ last, entries.getLast? = some last :=
      Option.isSome_iff_exists.mp (List.getLast?_isSome.mpr (List.ne_nil_of_mem he))
    by_cases htype : last.type? = none
    · refine Or.inr (Or.inr ⟨hnames, ?_⟩)
      cases last with
      | bare name => exact ⟨name, hlast, groupNamed_of_bare hnames [] hlast⟩
      | typed | unnamed => cases htype
    · refine Or.inr (Or.inl ⟨hnames, ⟨last, hlast, htype⟩, ?_⟩)
      obtain ⟨fields, runs, hok, hflat, hruns⟩ := exists_runs hnames [] fun e he => by
        cases hlast.symm.trans he
        exact htype
      have hentries : entries = runs.flatten := hflat
      exact ⟨fields, hok, hentries ▸ groups_of_runs hruns⟩

/-- What can be grouped is a list of entries that each stand alone, or falls
into runs that each make a group. -/
theorem group_eq_ok {entries : List ParamEntry} {fields : List (Field TypeExpr)}
    (h : group entries = .ok fields) :
    List.Forall₂ StandsAlone entries fields ∨ ∃ runs, entries = runs.flatten ∧
    List.Forall₂ Shares runs fields := by
  by_cases htyped : ∃ e ∈ entries, e.isTyped = true
  · rcases group_cases htyped with ⟨u, -, herror⟩ | ⟨-, -, fields', hok, hgroups⟩
      | ⟨-, name, -, herror⟩
    · cases herror.symm.trans h
    · cases hok.symm.trans h
      exact Or.inr hgroups.runs
    · cases herror.symm.trans h
  · obtain ⟨fields', hok, halone⟩ :=
      group_of_untyped fun e he => Bool.eq_false_iff.mpr fun h => htyped ⟨e, he, h⟩
    cases hok.symm.trans h
    exact Or.inl halone

theorem eq_nil_of_group {entries : List ParamEntry} (h : group entries = .ok []) :
    entries = [] := by
  rcases group_eq_ok h with halone | ⟨runs, rfl, hruns⟩
  · cases halone
    rfl
  · cases hruns
    rfl

/-- What grouping the entries of a parameter list has to give. If no entry has
both a name and a type, each of them is a parameter without a name. Otherwise
the list can be grouped exactly if no entry is a type on its own and the last
one has a type, and a list that cannot be is blamed on the first type on its
own, or else on the last name. -/
structure Resolves (entries : List ParamEntry)
  (result : Except SyntaxError (List (Field TypeExpr))) : Prop where
  untyped : (∀ e ∈ entries, e.isTyped = false) →
    ∃ fields, result = .ok fields ∧ List.Forall₂ StandsAlone entries fields
  succeeds_iff : (∃ e ∈ entries, e.isTyped = true) →
    ((∃ fields, result = .ok fields) ↔
      (∀ e ∈ entries, e.name? ≠ none) ∧ ∃ last, entries.getLast? = some last ∧
        last.type? ≠ none)
  groups : (∃ e ∈ entries, e.isTyped = true) → ∀ fields, result = .ok fields →
    Groups entries fields
  fails : ∀ e, result = .error e →
    (∃ u, entries.find? isUnnamed = some u ∧
      e.diagnostic = ⟨.syntactic, u.span, "mixed named and unnamed parameters"⟩) ∨
    (entries.find? isUnnamed = none ∧
      ∃ n, (entries.filterMap name?).getLast? = some n ∧
      e.diagnostic = ⟨.syntactic, n.span, "missing parameter type"⟩)

/-- The last name of a list that ends with a name on its own. -/
theorem getLast?_names {entries : List ParamEntry} {name : Ident}
    (h : entries.getLast? = some (bare name)) :
    (entries.filterMap name?).getLast? = some name := by
  obtain ⟨front, rfl⟩ := List.getLast?_eq_some_iff.mp h
  simp [List.filterMap_append, name?]

/-- **Parameters are grouped faithfully**, for every list of entries. -/
theorem group_resolves (entries : List ParamEntry) :
    Resolves entries (group entries) := by
  refine ⟨group_of_untyped, fun htyped => ?_, fun htyped fields hok => ?_,
    fun e herror => ?_⟩
  · rcases group_cases htyped with ⟨u, hfind, herror⟩
      | ⟨hnames, hlast, fields, hok, -⟩ | ⟨-, name, hlast, herror⟩
    · rw [herror]
      refine iff_of_false nofun fun hboth => ?_
      have hunnamed := List.find?_some hfind
      exact hboth.1 u (List.mem_of_find?_eq_some hfind)
        (name?_eq_none_iff.mpr hunnamed)
    · exact iff_of_true ⟨fields, hok⟩ ⟨hnames, hlast⟩
    · rw [herror]
      refine iff_of_false nofun ?_
      rintro ⟨-, last, hlast', htype⟩
      cases hlast.symm.trans hlast'
      exact htype rfl
  · rcases group_cases htyped with ⟨u, -, herror⟩ | ⟨-, -, fields', hok', hgroups⟩
      | ⟨-, name, -, herror⟩
    · cases herror.symm.trans hok
    · cases hok'.symm.trans hok
      exact hgroups
    · cases herror.symm.trans hok
  · by_cases htyped : ∃ e ∈ entries, e.isTyped = true
    · rcases group_cases htyped with ⟨u, hfind, h⟩ | ⟨-, -, fields, hok, -⟩
        | ⟨hnames, name, hlast, h⟩
      · cases h.symm.trans herror
        exact Or.inl ⟨u, hfind, rfl⟩
      · cases hok.symm.trans herror
      · cases h.symm.trans herror
        refine Or.inr ⟨List.find?_eq_none.mpr
          fun e he hunnamed => ?_, name, getLast?_names hlast, rfl⟩
        exact hnames e he (name?_eq_none_iff.mpr hunnamed)
    · obtain ⟨fields, hok, -⟩ := group_of_untyped fun e he =>
        Bool.eq_false_iff.mpr fun h => htyped ⟨e, he, h⟩
      cases hok.symm.trans herror

end ParamEntry

end GoInventory
