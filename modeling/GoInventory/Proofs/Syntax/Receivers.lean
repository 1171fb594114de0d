import GoInventory.Proofs.Syntax.Accounting
import GoInventory.Proofs.Syntax.Completeness
import GoInventory.Proofs.Syntax.Grouping
import GoInventory.Proofs.Syntax.Joining

/-!
# Receivers of methods

A method has to have one receiver. The parser reads the list in front of the
name of the method like any list of parameters, groups it, and asks for one
group. Here this is compared with the entries of the list, each of which
declares one parameter.

A list without an entry is refused, and so is a list of two or more entries,
unless all of them are names that share one type. Such a list is one group and
passes as one receiver, with all its names (`ReceiversCounted`).

A refusal is only seen if the parser comes to the method, which means that it
has read all that stands before (`ComesTo`). The error then goes through the
loop over the declarations to the result (`file_error`).
-/

namespace GoInventory

namespace ParamEntry

/-- The entries are names on their own and then a name with the type
that they share. -/
def ShareType (entries : List ParamEntry) : Prop :=
  ∃ front last, entries = front ++ [last] ∧ (∀ e ∈ front, e.type? = none) ∧
    last.isTyped = true

/-- A list that makes one group has one entry, or names that share a type. -/
theorem of_group_singleton {entries : List ParamEntry} {f : Field TypeExpr}
    (h : group entries = .ok [f]) :
    (entries.length = 1 ∧ f.names.length ≤ 1) ∨
      (2 ≤ entries.length ∧ ShareType entries ∧ f.names.length = entries.length) := by
  rcases group_eq_ok h with halone | ⟨runs, rfl, hruns⟩
  · obtain _ | ⟨hentry, hnone⟩ := halone
    cases hnone
    refine Or.inl ⟨rfl, ?_⟩
    cases hentry <;> exact Nat.zero_le _
  · obtain _ | ⟨hrun, hnone⟩ := hruns
    cases hnone
    rw [List.flatten_singleton]
    obtain ⟨front, last, rfl, hfront, -, hlast⟩ := hrun.exists_last
    have hlength := hrun.length_names
    rcases Nat.lt_or_ge (front ++ [last]).length 2 with hlt | hge
    · rw [List.length_append, List.length_singleton] at hlt hlength ⊢
      exact Or.inl ⟨by omega, by omega⟩
    · exact Or.inr ⟨hge, ⟨front, last, rfl, hfront, hlast⟩, hlength⟩

end ParamEntry

namespace Parser

open Grammar

variable {c c' : Cursor}

/-! ## Coming to a declaration -/

/-- Reading declarations, with semicolons between them, comes to this place. -/
inductive ComesTo (target : Cursor) : Cursor → Prop
  | here : ComesTo target target
  | semicolon {c : Cursor} {t : Token} {rest : List Token} : c.rest = t :: rest →
      t.tok = .op .semicolon →
    ComesTo target (c.after t rest) → ComesTo target c
  | decl {c c₁ c₂ : Cursor} {d : Decl} : (decl : Parser Decl) c = .ok (d, c₁) →
      (terminator .declarationEnd : Parser Unit) c₁ = .ok ((), c₂) →
    ComesTo target c₂ → ComesTo target c

/-- Each declaration of a file is read at a place that the parser comes to. -/
theorem exists_of_declares {ds : List Decl} {d : Decl} (h : Declares c ds)
    (hd : d ∈ ds) :
    ∃ target c', ComesTo target c ∧ (decl : Parser Decl) target = .ok (d, c') := by
  induction h with
  | done => cases hd
  | semicolon hrest ht _ ih =>
    obtain ⟨target, c', hcomes, hdecl⟩ := ih hd
    exact ⟨target, c', .semicolon hrest ht hcomes, hdecl⟩
  | @cons c c₁ c₂ first ds hfirst hend _ ih =>
    rcases List.mem_cons.mp hd with rfl | hd
    · exact ⟨c, c₁, .here, hfirst⟩
    · obtain ⟨target, c', hcomes, hdecl⟩ := ih hd
      exact ⟨target, c', .decl hfirst hend hcomes, hdecl⟩

/-- The loop stops with the error of the declaration that it comes to. -/
theorem declItems_error {target : Cursor} {e : SyntaxError} {t : Token}
    {rest : List Token} (h : ComesTo target c) (hrest : target.rest = t :: rest)
    (ht : t.tok ≠ .op .semicolon) (herror : (decl : Parser Decl) target = .error e) :
    ∀ n, c.rest.length < n →
      (declItems decl n : Parser (List Decl)) c = .error e := by
  induction h with
  | here =>
    intro n hn
    obtain ⟨n, rfl⟩ :=
      Nat.exists_eq_add_of_le' (Nat.lt_of_le_of_lt (Nat.zero_le _) hn)
    rw [declItems_decl hrest ht, bind_error herror]
  | semicolon hsemi htok _ ih =>
    intro n hn
    rw [hsemi, List.length_cons] at hn
    obtain ⟨n, rfl⟩ :=
      Nat.exists_eq_add_of_le' (Nat.lt_of_le_of_lt (Nat.zero_le _) hn)
    rw [declItems_semicolon hsemi htok]
    exact ih _ (Nat.lt_of_succ_lt hn)
  | decl hd hend _ ih =>
    intro n hn
    obtain ⟨n, rfl⟩ :=
      Nat.exists_eq_add_of_le' (Nat.lt_of_le_of_lt (Nat.zero_le _) hn)
    obtain ⟨kw, more, word, hmore, hkw, hshort⟩ := decl_head hd
    have hle := terminator_length hend
    rw [hmore, List.length_cons] at hn
    rw [declItems_decl hmore (by simp [hkw]), bind_ok hd, bind_ok hend,
      bind_error (ih n (by omega))]

/-- **A file fails with the error of the declaration that the parser comes to.** -/
theorem file_error {target : Cursor} {e : SyntaxError} {t : Token} {rest : List Token}
    {n : Ident} (hopens : Opens c n c') (h : ComesTo target c')
    (hrest : target.rest = t :: rest) (ht : t.tok ≠ .op .semicolon)
    (herror : (decl : Parser Decl) target = .error e) : file c = .error e := by
  obtain ⟨hsemi, hkw, hname, hend⟩ := hopens
  have hitems : (declList decl : Parser (List Decl)) c' = .error e :=
    declItems_error h hrest ht herror _ (Nat.lt_succ_self _)
  unfold file TokenReader.file fileOf
  rw [bind_ok hsemi, bind_ok hkw, bind_ok hname, bind_ok hend, bind_error hitems]

/-! ## The list of receivers -/

/-- What is wrong with the groups of a list of receivers, if they are not one. -/
def receiverFault? : List (Field TypeExpr) → Option SyntaxFault
  | [] => some .noReceiver
  | [_] => none
  | _ => some .multipleReceivers

section Lists

variable {kw lp : Token} {entries : List ParamEntry} {fields : List (Field TypeExpr)}
  {run behind : List Token}

/-- The parser of receivers finds no group, one or more, whatever comes
behind the list. -/
theorem receiver_of_entries {fault : SyntaxFault}
    (hc : c.rest = lp :: (run ++ behind)) (hlp : lp.tok = .op .openParen)
    (hlisted : Listed (ClearEntry .anywhere (Spells .anywhere))
      .comma .closeParen entries run)
    (hgroup : ParamEntry.group entries = .ok fields)
    (hfault : receiverFault? fields = some fault) :
    (receiver : Parser (Field TypeExpr)) c = .error ⟨lp.span, fault⟩ := by
  obtain ⟨fields', c', hok, -, hfields⟩ :=
    reads_entries readsTypes_typeExpr shaped_spells hlp hlisted hgroup hc
  have hlength : fields'.length = fields.length := by
    simpa using congrArg List.length hfields
  have hhere : c.here = lp.span := by
    unfold Cursor.here
    rw [hc]
  unfold receiver onlyReceiver
  rw [here_bind, hhere, bind_ok hok]
  obtain _ | ⟨first, _ | ⟨second, more⟩⟩ := fields
  · cases hfault
    rw [List.eq_nil_of_length_eq_zero hlength]
    rfl
  · cases hfault
  · cases hfault
    obtain _ | ⟨first', _ | ⟨second', more'⟩⟩ := fields'
    · cases hlength
    · simp at hlength
    · rfl

/-- A method fails if its receiver does. -/
theorem decl_error {e : SyntaxError} {rest : List Token}
    (hc : c.rest = kw :: lp :: rest) (hkw : kw.tok = .keyword .func)
    (hlp : lp.tok = .op .openParen)
    (h : (receiver : Parser (Field TypeExpr)) (c.after kw (lp :: rest)) = .error e) :
    (decl : Parser Decl) c = .error e := by
  have hpeek : c.peek? 0 = some (.keyword .func) := by simp [Cursor.peek?, hc, hkw]
  have hadvance : (advance : Parser Unit) c = .ok ((), c.after kw (lp :: rest)) := by
    simp [advance, AtCursor.advance, hc]
  have hreceiver : (receiver? : Parser (Option (Field TypeExpr)))
      (c.after kw (lp :: rest)) = .error e := by
    unfold receiver? ifNext
    have hnext : ((c.after kw (lp :: rest)).peek? 0 == some (.op .openParen))
        = true := by
      simp [Cursor.peek?, Cursor.after, hlp]
    rw [isNext_bind, hnext]
    exact bind_error h
  have hfunc : (funcDecl : Parser FuncDecl) c = .error e := by
    unfold funcDecl funcDeclOf
    rw [here_bind, bind_ok hadvance, bind_error hreceiver]
  unfold decl announcedDecl
  rw [peek?_bind, hpeek]
  exact bind_error hfunc

end Lists

/-- A function is read where the keyword stands. -/
theorem funcDecl_of_decl {d : FuncDecl}
    (h : (decl : Parser Decl) c = .ok (.func d, c')) :
    c.peek? 0 = some (.keyword .func) ∧
    (funcDecl : Parser FuncDecl) c = .ok (d, c') := by
  have hother : ∀ {α : Type} {p : Parser α} {k : α → Decl}, (∀ a, k a ≠ .func d) →
      (p >>= fun a => pure (k a)) c ≠ .ok (.func d, c') := by
    intro α p k hk heq
    obtain ⟨a, c₁, -, h₁⟩ := bind_eq_ok_iff.mp heq
    exact hk a (congrArg Prod.fst (Except.ok.inj h₁))
  obtain ⟨t, rest, word, hrest, ht, -⟩ := decl_head h
  have hpeek : c.peek? 0 = some (.keyword word) := by simp [Cursor.peek?, hrest, ht]
  unfold decl announcedDecl at h
  rw [peek?_bind, hpeek] at h
  cases word with
  | func =>
    obtain ⟨func, c₁, hfunc, h₁⟩ := bind_eq_ok_iff.mp h
    cases h₁
    exact ⟨hpeek, hfunc⟩
  | «import» | const | var | type =>
    exact absurd h (hother fun _ hkind => by cases hkind)
  | _ => cases h

/-- The list of the receiver of a method has the receiver as its only group,
up to places. -/
theorem entries_of_receiver {d : FuncDecl} {f : Field TypeExpr}
    (h : (decl : Parser Decl) c = .ok (.func d, c')) (hf : d.receiver = some f) :
    ∃ kw lp run behind entries f', c.rest = kw :: lp :: (run ++ behind) ∧
      kw.tok = .keyword .func ∧
      lp.tok = .op .openParen ∧
      Listed (ClearEntry .anywhere (Spells .anywhere))
        .comma .closeParen entries run ∧
      ParamEntry.group entries = .ok [f'] ∧
      f'.mapOffsets forget = f.mapOffsets forget := by
  obtain ⟨hpeek, hfunc⟩ := funcDecl_of_decl h
  unfold funcDecl funcDeclOf at hfunc
  rw [here_bind] at hfunc
  obtain ⟨_, c₁, hadvance, h₁⟩ := bind_eq_ok_iff.mp hfunc
  obtain ⟨kw, hkw, hp₁⟩ := advance_ok hadvance hpeek
  obtain ⟨receiver, c₂, hreceiver, h₂⟩ := bind_eq_ok_iff.mp h₁
  obtain ⟨run, hp₂, hrun⟩ := takes_receiver (F := .anywhere) hreceiver trivial
  obtain rfl : receiver = some f := by
    obtain ⟨name, c₃, -, h₃⟩ := bind_eq_ok_iff.mp h₂
    obtain ⟨typeParams, c₄, -, h₄⟩ := bind_eq_ok_iff.mp h₃
    obtain ⟨sig, c₅, -, h₅⟩ := bind_eq_ok_iff.mp h₄
    obtain ⟨body, c₆, -, h₆⟩ := bind_eq_ok_iff.mp h₅
    cases h₆
    exact hf
  cases hrun with
  | some hparams =>
    obtain ⟨lp, more, entries, fields, rfl, hlp, hlisted, hgroup, hfields⟩ :=
      hparams.entries ignoresSpans_anywhere shaped_spells
    obtain ⟨f', rfl, hf'⟩ := List.map_eq_singleton_iff.mp hfields
    exact ⟨kw, lp, more, c₂.rest, entries, f', (hp₁.trans hp₂).rest, hkw, hlp,
      hlisted, hgroup, hf'⟩

end Parser

/-- Parsing the source comes to a method: at `place` stand the keyword,
the parenthesis `lp` and the entries of the list of receivers, with
anything behind it. -/
structure MethodAt (source : String) (place : Cursor) (lp : Token)
  (entries : List ParamEntry) : Prop where
  comes : ∃ name c, Parser.Opens
    (.start (tokenize source).tokens (Text.byteLength source.toList)) name c ∧
    Parser.ComesTo place c
  written : ∃ kw run behind, place.rest = kw :: lp :: (run ++ behind) ∧
    kw.tok = .keyword .func ∧
    lp.tok = .op .openParen ∧
    Grammar.Listed (Grammar.ClearEntry .anywhere (Grammar.Spells .anywhere))
      .comma .closeParen entries run

/-- **A source fails if the list of receivers of a method that the parser comes
to does not make one group.** -/
theorem MethodAt.parseSource_error {source : String} {place : Cursor} {lp : Token}
    {entries : List ParamEntry} {fields : List (Field TypeExpr)} {fault : SyntaxFault}
    (h : MethodAt source place lp entries)
    (hquiet : (tokenize source).diagnostics = [])
    (hgroup : ParamEntry.group entries = .ok fields)
    (hfault : Parser.receiverFault? fields = some fault) :
    parseSource source = .error ⟨[⟨.syntactic, lp.span, fault.message⟩]⟩ := by
  obtain ⟨⟨name, c, hopens, hcomes⟩, kw, run, behind, hrest, hkw, hlp, hlisted⟩ := h
  have hreceiver : (Parser.receiver : Parser (Field TypeExpr))
    (place.after kw (lp :: (run ++ behind))) =
      .error ⟨lp.span, fault⟩ :=
    Parser.receiver_of_entries rfl hlp hlisted hgroup hfault
  have hdecl := Parser.decl_error hrest hkw hlp hreceiver
  have hfile := Parser.file_error hopens hcomes hrest (by rw [hkw]; nofun) hdecl
  unfold parseSource parseTokens
  simp only [hquiet, hfile]
  rfl

/-- How the receivers of the methods of a source are counted, where each entry
of a list declares one parameter. -/
structure ReceiversCounted (source : String) : Prop where
  accepted : ∀ file, parseSource source = .ok file → ∀ d f, .func d ∈ file.decls →
    d.receiver = some f →
    ∃ place lp entries c, MethodAt source place lp entries ∧
      (Parser.decl : Parser Decl) place = .ok (.func d, c) ∧
      ((entries.length = 1 ∧ f.names.length ≤ 1) ∨
        (2 ≤ entries.length ∧ ParamEntry.ShareType entries ∧
          f.names.length = entries.length))
  none : (tokenize source).diagnostics = [] → ∀ place lp,
    MethodAt source place lp [] →
    parseSource source = .error ⟨[⟨.syntactic, lp.span, "method has no receiver"⟩]⟩
  several : (tokenize source).diagnostics = [] → ∀ place lp entries fields,
    MethodAt source place lp entries →
    ParamEntry.group entries = .ok fields → 2 ≤ entries.length →
      ¬ ParamEntry.ShareType entries →
    parseSource source
      = .error ⟨[⟨.syntactic, lp.span, "method has multiple receivers"⟩]⟩

/-- **A method has one receiver, or receivers that share a type.** -/
theorem receivers_counted (source : String) : ReceiversCounted source where
  accepted := by
    intro file h d f hd hf
    obtain ⟨c', hfile⟩ := parseTokens_eq_ok_iff.mp (parseTokens_of_parseSource h)
    obtain ⟨c, hopens, hdeclares⟩ := Parser.file_eq_ok_iff.mp ⟨c', hfile⟩
    obtain ⟨place, c₁, hcomes, hdecl⟩ := Parser.exists_of_declares hdeclares hd
    obtain ⟨kw, lp, run, behind, entries, f', hrest, hkw, hlp, hlisted,
      hgroup, hf'⟩ :=
      Parser.entries_of_receiver hdecl hf
    have hnames : f'.names.length = f.names.length := by
      simpa [Field.mapOffsets] using congrArg (·.names.length) hf'
    refine ⟨place, lp, entries, c₁,
      ⟨⟨_, c, hopens, hcomes⟩, kw, run, behind, hrest, hkw, hlp, hlisted⟩, hdecl, ?_⟩
    rw [← hnames]
    exact ParamEntry.of_group_singleton hgroup
  none := fun hquiet place lp hmethod => hmethod.parseSource_error hquiet rfl rfl
  several := by
    intro hquiet place lp entries fields hmethod hgroup htwo hshare
    have hfault : Parser.receiverFault? fields = some .multipleReceivers := by
      obtain _ | ⟨first, _ | ⟨second, more⟩⟩ := fields
      · rw [ParamEntry.eq_nil_of_group hgroup] at htwo
        cases htwo
      · -- one group of two or more entries is of names that share a type
        rcases ParamEntry.of_group_singleton hgroup with ⟨hone, -⟩ | ⟨-, hshared, -⟩
        · omega
        · exact absurd hshared hshare
      · rfl
    exact hmethod.parseSource_error hquiet hgroup hfault

/-- A method with an empty list of receivers. -/
def sampleNoReceiver : String :=
  "package p\nfunc () m()\n"

/-- The sample is refused at the parenthesis. -/
theorem receivers_counted_sampleNoReceiver :
    parseSource sampleNoReceiver
      = .error ⟨[⟨.syntactic, ⟨15, 16⟩, "method has no receiver"⟩]⟩ := by
  have htokens : (tokenize sampleNoReceiver).tokens =
      [⟨0, .keyword .package, 7⟩, ⟨8, .ident "p", 9⟩, .insertedSemicolon 9,
        ⟨10, .keyword .func, 14⟩,
        ⟨15, .op .openParen, 16⟩, ⟨16, .op .closeParen, 17⟩, ⟨18, .ident "m", 19⟩,
        ⟨19, .op .openParen, 20⟩,
        ⟨20, .op .closeParen, 21⟩, .insertedSemicolon 21] := by decide +kernel
  have hopens :
    Parser.Opens (.start (tokenize sampleNoReceiver).tokens
    (Text.byteLength sampleNoReceiver.toList))
      ⟨"p", ⟨8, 9⟩⟩ ⟨(tokenize sampleNoReceiver).tokens.drop 3, 9,
        Text.byteLength sampleNoReceiver.toList⟩ := by
    rw [htokens]
    exact .mk rfl rfl rfl rfl
  refine (receivers_counted sampleNoReceiver).none (by decide +kernel)
    _ ⟨15, .op .openParen, 16⟩
    ⟨⟨_, _, hopens, .here⟩, ?_⟩
  rw [htokens]
  exact ⟨_, [⟨16, .op .closeParen, 17⟩], _, rfl, rfl, rfl, .none rfl⟩

/-- A method with two receivers that share their type. -/
def sampleSharedReceivers : String :=
  "package p\nfunc (a, b T) m()\n"

/-- The receiver of a declaration that is a method. -/
def Decl.receiver? : Decl → Option (Field TypeExpr)
  | .func d => d.receiver
  | _ => none

/-- **Receivers that share their type are accepted**, though there
are two of them. -/
theorem receivers_shared_accepted :
    ∃ file d f, parseSource sampleSharedReceivers = .ok file ∧
      Decl.func d ∈ file.decls ∧ d.receiver = some f ∧
      f.names.length = 2 := by
  have hsample : (parseSource sampleSharedReceivers).toOption.any
    (fun file => file.decls.any fun d =>
      d.receiver?.any (·.names.length == 2)) = true := by decide +kernel
  obtain ⟨file, hfile, hany⟩ := exists_ok_of_any hsample
  obtain ⟨d, hd, hreceiver⟩ := List.any_eq_true.mp hany
  obtain ⟨f, hf, hnames⟩ := (Option.any_eq_true _ _).mp hreceiver
  cases d with
  | func d => exact ⟨file, d, f, hfile, hd, hf, beq_iff_eq.mp hnames⟩
  | imports | consts | vars | types => cases hf

end GoInventory
