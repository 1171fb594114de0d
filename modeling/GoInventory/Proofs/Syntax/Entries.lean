import GoInventory.Proofs.Syntax.Offsets
import GoInventory.Proofs.Syntax.Shape

/-!
# Entries of a parameter list

The parser reads a parameter list entry by entry and groups the entries
afterwards; the grammar knows groups only. The two views meet here. The tokens
of a list of groups are the tokens of a list of entries, which are grouped to
the same fields up to spans (`Params.entries`), and entries that can be grouped
are the tokens of the groups (`params_of_entries`).
-/

namespace GoInventory.Grammar

section Rules

variable (F : Placement) (R : TypeExpr → List Token → Ending → Prop)

/-- The tokens of an entry. -/
inductive EntryRun : ParamEntry → List Token → Prop
  | bare {n : Ident} {t : Token} : IsIdent F n t → EntryRun (.bare n) [t]
  | typed {n : Ident} {type : TypeExpr} {s : Span} {t : Token} {run : List Token} :
    IsIdent F n t → ParamType F R type run → F.fits s (t :: run) →
    EntryRun (.typed n type s) (t :: run)
  | unnamed {type : TypeExpr} {s : Span} {run : List Token} :
    ParamType F R type run → F.fits s run → EntryRun (.unnamed type s) run

/-- The tokens of an entry that can be told from its tokens: a name on
its own is bare. -/
def ClearEntry (entry : ParamEntry) (run : List Token) : Prop :=
  EntryRun F R entry run ∧
    ∀ type s, entry = .unnamed type s → ∀ t name, run = [t] → t.tok ≠ .ident name

end Rules

variable {F : Placement} {R : TypeExpr → List Token → Ending → Prop}

/-! ## From groups to entries -/

/-- Whether a span fits a run depends on the run only, and carries over to the
end of the run. -/
def IgnoresSpans (F : Placement) : Prop :=
  ∀ {s s' : Span} {a b : List Token}, F.fits s (a ++ b) → F.fits s' b

theorem ignoresSpans_anywhere : IgnoresSpans .anywhere :=
  fun _ => trivial

/-- The entries of names that share a type: the last one has it, the
others wait for it. -/
def namedEntries (type : TypeExpr) (s : Span) : List Ident → List ParamEntry
  | [] => []
  | [last] => [.typed last type s]
  | n :: rest => .bare n :: namedEntries type s rest

/-- The entries of one group stand before the entries of the next. `tail` with
`tailRun` is what comes behind the typed entry of the group. -/
theorem listed_namedEntries (hF : IgnoresSpans F) {names : List Ident}
    {nameRun run tailRun : List Token} {type : TypeExpr} {s s' : Span}
    {tail : List ParamEntry} (hnames : Separated (IdentRun F) .comma names nameRun)
    (htype : ParamType F R type run) (hfits : F.fits s' (nameRun ++ run))
    (htail : ∀ entry part, ClearEntry F R entry part →
      Listed (ClearEntry F R) .comma .closeParen (entry :: tail) (part ++ tailRun)) :
    Listed (ClearEntry F R) .comma .closeParen (namedEntries type s names ++ tail)
      (nameRun ++ run ++ tailRun) := by
  induction hnames with
  | @one n part hn =>
    obtain ⟨t, rfl, ht⟩ := hn
    exact htail _ _ ⟨.typed ht htype (hF (a := []) hfits), fun _ _ h => by cases h⟩
  | @cons n rest part more sep hn hsep hmore ih =>
    obtain ⟨t, rfl, ht⟩ := hn
    have hbare : ClearEntry F R (.bare n) [t] := ⟨.bare ht, fun _ _ h => by cases h⟩
    have hlisted := Listed.cons hbare hsep (ih (hF (a := [t, sep]) hfits))
    cases rest with
    | nil => cases hmore
    | cons n' rest => simpa [namedEntries] using hlisted

/-- The names of a group are collected before its type. -/
theorem groupNamed_namedEntries (type : TypeExpr) (s : Span) {names : List Ident}
    (hne : names ≠ []) (tail : List ParamEntry) :
    ∀ waiting : List Ident,
      ∃ s', ParamEntry.groupNamed waiting (namedEntries type s names ++ tail)
      = (ParamEntry.groupNamed [] tail).map
        (⟨waiting ++ names, type, none, s'⟩ :: ·) := by
  induction names with
  | nil => exact absurd rfl hne
  | cons n rest ih =>
    intro waiting
    cases rest with
    | nil => exact ⟨_, rfl⟩
    | cons n' rest =>
      obtain ⟨s', h⟩ := ih (List.cons_ne_nil _ _) (waiting ++ [n])
      refine ⟨s', h.trans ?_⟩
      simp

theorem any_isTyped_namedEntries {type : TypeExpr} {s : Span} {names : List Ident}
    (hne : names ≠ []) :
    (namedEntries type s names).any ParamEntry.isTyped = true := by
  induction names with
  | nil => exact absurd rfl hne
  | cons n rest ih =>
    cases rest with
    | nil => rfl
    | cons n' rest =>
      rw [namedEntries, List.any_cons, ih (List.cons_ne_nil _ _), Bool.or_true]
      exact List.cons_ne_nil _ _

theorem Separated.ne_nil {α : Type} {item : α → List Token → Prop}
    {separator : Operator} {as : List α} {run : List Token}
    (h : Separated item separator as run) : as ≠ [] := by
  cases h <;> exact List.cons_ne_nil _ _

/-- Groups of named parameters are lists of entries of which the last in each
group is typed. -/
theorem entries_of_named (hF : IgnoresSpans F) {fields : List (Field TypeExpr)}
    {run : List Token} (h : Listed (NamedParams F R) .comma .closeParen fields run) :
    ∃ entries fields', Listed (ClearEntry F R) .comma .closeParen entries run ∧
      ParamEntry.groupNamed [] entries = .ok fields' ∧
      fields'.map (Field.mapOffsets forget) = fields.map (Field.mapOffsets forget) ∧
      (entries.any ParamEntry.isTyped = true ∨ entries = []) := by
  induction h with
  | none ht => exact ⟨[], [], .none ht, rfl, rfl, Or.inr rfl⟩
  | last hf ht =>
    obtain @⟨names, type, s, nameRun, typeRun, hnames, htype, hfits⟩ := hf
    obtain ⟨s', hgroup⟩ := groupNamed_namedEntries type s hnames.ne_nil [] []
    refine ⟨namedEntries type s names ++ [], _,
      listed_namedEntries hF hnames htype hfits
        fun _ _ he => .last he ht, hgroup, rfl, Or.inl ?_⟩
    rw [List.append_nil]
    exact any_isTyped_namedEntries hnames.ne_nil
  | cons hf hsep _ ih =>
    obtain @⟨names, type, s, nameRun, typeRun, hnames, htype, hfits⟩ := hf
    obtain ⟨entries, fields', hlisted, hgroup, hfields, -⟩ := ih
    obtain ⟨s', hgroup'⟩ := groupNamed_namedEntries type s hnames.ne_nil entries []
    rw [hgroup] at hgroup'
    refine ⟨namedEntries type s names ++ entries, _,
      listed_namedEntries hF hnames htype hfits
        fun _ _ he => .cons he hsep hlisted, hgroup', ?_, Or.inl ?_⟩
    · rw [List.map_cons, List.map_cons, hfields]
      rfl
    · rw [List.any_append, any_isTyped_namedEntries hnames.ne_nil, Bool.true_or]

/-- A parameter without a name is bare if its type is just a name. -/
theorem entry_of_unnamed (hF : IgnoresSpans F) (hR : Shaped R) {f : Field TypeExpr}
    {run : List Token} (h : UnnamedParam F R f run) :
    ∃ entry, ClearEntry F R entry run ∧ entry.isTyped = false ∧
      entry.asUnnamed.mapOffsets forget = f.mapOffsets forget := by
  obtain @⟨type, s, _, htype, hfits⟩ := h
  by_cases hlone : ∃ t name, run = [t] ∧ t.tok = .ident name
  · obtain ⟨t, name, rfl, ht⟩ := hlone
    cases htype with
    | plain hplain =>
      obtain ⟨e, hplain⟩ := hplain
      obtain ⟨n, rfl, rfl⟩ := hR.single hplain ht
      exact ⟨.bare n, ⟨.bare ⟨ht, hF (a := []) hfits⟩, fun _ _ h => by cases h⟩,
        rfl, rfl⟩
    | variadic hdots => rw [hdots] at ht; cases ht
  · refine ⟨.unnamed type s, ⟨.unnamed htype hfits, ?_⟩, rfl, rfl⟩
    intro _ _ _ t name hrun ht
    exact hlone ⟨t, name, hrun, ht⟩

/-- Parameters without names are lists of entries of which none is typed. -/
theorem entries_of_unnamed (hF : IgnoresSpans F) (hR : Shaped R)
    {fields : List (Field TypeExpr)} {run : List Token}
    (h : Listed (UnnamedParam F R) .comma .closeParen fields run) :
    ∃ entries, Listed (ClearEntry F R) .comma .closeParen entries run ∧
      entries.any ParamEntry.isTyped = false ∧
      (entries.map ParamEntry.asUnnamed).map (Field.mapOffsets forget)
        = fields.map (Field.mapOffsets forget) := by
  induction h with
  | none ht => exact ⟨[], .none ht, rfl, rfl⟩
  | last hf ht =>
    obtain ⟨entry, hentry, huntyped, hfield⟩ := entry_of_unnamed hF hR hf
    exact ⟨[entry], .last hentry ht, by simp [huntyped], by simp [hfield]⟩
  | cons hf hsep _ ih =>
    obtain ⟨entry, hentry, huntyped, hfield⟩ := entry_of_unnamed hF hR hf
    obtain ⟨entries, hlisted, huntyped', hfields⟩ := ih
    refine ⟨entry :: entries,
      .cons hentry hsep hlisted, by simp [huntyped, huntyped'], ?_⟩
    rw [List.map_cons, List.map_cons, hfields, hfield, List.map_cons]

/-- **Parameters are entries that are grouped to them, up to spans.** -/
theorem Params.entries (hF : IgnoresSpans F) (hR : Shaped R)
    {fields : List (Field TypeExpr)} {run : List Token} (h : Params F R fields run) :
    ∃ lp more entries fields', run = lp :: more ∧ lp.tok = .op .openParen ∧
      Listed (ClearEntry F R) .comma .closeParen entries more ∧
      ParamEntry.group entries = .ok fields' ∧
      fields'.map (Field.mapOffsets forget)
        = fields.map (Field.mapOffsets forget) := by
  cases h with
  | @unnamed lp more hlp hlist =>
    obtain ⟨entries, hlisted, huntyped, hfields⟩ := entries_of_unnamed hF hR hlist
    refine ⟨lp, more, entries, _, rfl, hlp, hlisted, ?_, hfields⟩
    unfold ParamEntry.group
    rw [huntyped]
    rfl
  | @named lp more hlp hlist =>
    obtain ⟨entries, fields', hlisted, hgroup, hfields, htyped⟩ :=
      entries_of_named hF hlist
    refine ⟨lp, more, entries, fields', rfl, hlp, hlisted, ?_, hfields⟩
    unfold ParamEntry.group
    rcases htyped with htyped | rfl
    · rw [htyped]
      exact hgroup
    · exact hgroup

/-! ## From entries to groups -/

section Grouping

/-- Names that wait for their type, each with the comma behind it. -/
inductive Waiting (F : Placement) : List Ident → List Token → Prop
  | nil : Waiting F [] []
  | cons {n : Ident} {names : List Ident} {t sep : Token} {run : List Token} :
      IsIdent F n t →
    sep.tok = .op .comma → Waiting F names run →
      Waiting F (n :: names) (t :: sep :: run)

namespace Waiting

theorem concat {names : List Ident} {run : List Token} {n : Ident} {t sep : Token}
    (h : Waiting F names run) (ht : IsIdent F n t) (hsep : sep.tok = .op .comma) :
    Waiting F (names ++ [n]) (run ++ [t, sep]) := by
  induction h with
  | nil => exact .cons ht hsep .nil
  | cons ht' hsep' _ ih => exact .cons ht' hsep' ih

theorem separated {names : List Ident} {run : List Token} {n : Ident} {t : Token}
    (h : Waiting F names run) (ht : IsIdent F n t) :
    Separated (IdentRun F) .comma (names ++ [n]) (run ++ [t]) := by
  induction h with
  | nil => exact .one ⟨t, rfl, ht⟩
  | @cons n' names t' sep run ht' hsep _ ih =>
    have hhead : IdentRun F n' [t'] := ⟨t', rfl, ht'⟩
    have hall := Separated.cons hhead hsep ih
    exact hall

/-- The names that wait, and a typed entry, are a group. -/
theorem group {waiting : List Ident} {wrun run : List Token} {n : Ident} {t : Token}
    {type : TypeExpr} {s : Span} (h : Waiting F waiting wrun) (ht : IsIdent F n t)
    (htype : ParamType F R type run) (hs : F.fits s (t :: run))
    (hok : F.allows (wrun ++ t :: run)) :
    NamedParams F R
      ⟨waiting ++ [n], type, none, ⟨ParamEntry.groupStart waiting s, s.stop⟩⟩
      (wrun ++ t :: run) := by
  have hrun : wrun ++ t :: run = (wrun ++ [t]) ++ run := by simp
  rw [hrun]
  refine .mk (h.separated ht) htype ?_
  rw [← hrun]
  cases h with
  | nil => exact hs
  | @cons n' names t' sep more ht' _ _ =>
    have hrun' : t' :: sep :: more ++ t :: run
        = [t'] ++ (sep :: more) ++ (t :: run) := by simp
    rw [hrun'] at hok ⊢
    exact F.fits_join hok (List.cons_ne_nil _ _) (List.cons_ne_nil _ _) ht'.2 hs

end Waiting

/-- Entries that need names are grouped to named parameters; the names in
`waiting` stand before them. -/
theorem named_of_entries {entries : List ParamEntry} {run : List Token}
    (h : Listed (EntryRun F R) .comma .closeParen entries run) :
    ∀ {waiting : List Ident} {wrun : List Token} {fields : List (Field TypeExpr)},
      Waiting F waiting wrun → F.allows (wrun ++ run) →
      ParamEntry.groupNamed waiting entries = .ok fields →
      Listed (NamedParams F R) .comma .closeParen fields (wrun ++ run) := by
  induction h with
  | none ht =>
    intro waiting wrun fields hw _ hgroup
    cases hw with
    | nil =>
      cases hgroup
      exact .none ht
    | cons =>
      unfold ParamEntry.groupNamed at hgroup
      simp [List.getLast?_cons] at hgroup
  | last he ht =>
    intro waiting wrun fields hw hok hgroup
    cases he with
    | bare => simp [ParamEntry.groupNamed] at hgroup
    | typed hn htype hs =>
      cases hgroup
      rw [← List.append_assoc] at hok ⊢
      exact .last (hw.group hn htype hs (F.allows_left hok)) ht
    | unnamed => cases hgroup
  | @cons entry entries part more sep he hsep _ ih =>
    intro waiting wrun fields hw hok hgroup
    cases he with
    | @bare n t hn =>
      -- the name joins those that wait for a type
      have hrun : wrun ++ ([t] ++ sep :: more) = (wrun ++ [t, sep]) ++ more := by simp
      rw [hrun] at hok ⊢
      exact ih (hw.concat hn hsep) hok hgroup
    | @typed n type s t part hn htype hs =>
      -- the type settles the names so far, and the rest starts with none waiting
      rw [← List.append_assoc] at hok ⊢
      have hmore : F.allows more := by
        have hright := F.allows_right hok
        exact F.allows_right (a := [sep]) hright
      cases hrest : ParamEntry.groupNamed [] entries with
      | error e =>
        rw [ParamEntry.groupNamed, hrest] at hgroup
        cases hgroup
      | ok others =>
        rw [ParamEntry.groupNamed, hrest] at hgroup
        cases hgroup
        exact .cons (hw.group hn htype hs (F.allows_left hok)) hsep
          (ih .nil hmore hrest)
    | unnamed => cases hgroup

variable (hplain : ∀ {n t}, IsIdent F n t → R (.named (.plain n)) [t] .name)

include hplain

/-- Entries of which none is typed are parameters without names. -/
theorem unnamed_of_entries {entries : List ParamEntry} {run : List Token}
    (h : Listed (EntryRun F R) .comma .closeParen entries run)
    (huntyped : entries.any ParamEntry.isTyped = false) :
    Listed (UnnamedParam F R) .comma .closeParen
      (entries.map ParamEntry.asUnnamed) run := by
  have hitem : ∀ {entry part}, EntryRun F R entry part → entry.isTyped = false →
      UnnamedParam F R entry.asUnnamed part := by
    intro entry part he hentry
    cases he with
    | bare hn => exact .mk (.plain ⟨_, hplain hn⟩) hn.2
    | typed => cases hentry
    | unnamed htype hs => exact .mk htype hs
  induction h with
  | none ht => exact .none ht
  | last he ht =>
    rw [List.any_cons, Bool.or_eq_false_iff] at huntyped
    exact .last (hitem he huntyped.1) ht
  | cons he hsep _ ih =>
    rw [List.any_cons, Bool.or_eq_false_iff] at huntyped
    exact .cons (hitem he huntyped.1) hsep (ih huntyped.2)

/-- **Entries that can be grouped are parameters.** -/
theorem params_of_entries {entries : List ParamEntry} {lp : Token} {run : List Token}
    {fields : List (Field TypeExpr)} (hlp : lp.tok = .op .openParen)
    (h : Listed (EntryRun F R) .comma .closeParen entries run) (hok : F.allows run)
    (hgroup : ParamEntry.group entries = .ok fields) :
    Params F R fields (lp :: run) := by
  unfold ParamEntry.group at hgroup
  split at hgroup
  next => exact .named hlp (named_of_entries h .nil hok hgroup)
  next huntyped =>
    cases hgroup
    exact .unnamed hlp (unnamed_of_entries hplain h (Bool.eq_false_iff.mpr huntyped))

end Grouping

end GoInventory.Grammar
