import GoInventory.Proofs.Syntax.Entries

/-!
# Looking ahead

What the parser sees at the start of a parameter entry, a struct member or an
interface element, if these are spelled by the tokens ahead: it decides the way
the grammar means it. The one search without a bound, for the bracket that
closes an array length or type arguments, stops in the right place because the
runs between brackets are balanced.
-/

namespace GoInventory

open Grammar

theorem Tok.eq_of_isString {tok : Tok} (h : tok.isString = true) :
    ∃ text, tok = .literal .string text ∨ tok = .literal .rawString text := by
  unfold Tok.isString at h
  split at h
  next text => exact ⟨text, Or.inl rfl⟩
  next text => exact ⟨text, Or.inr rfl⟩
  next => cases h

/-- A token that types do not start with, and no dot, goes on with no type. -/
theorem Grammar.Ending.continuedBy_eq_false {tok : Tok} (h : tok.startsType = false)
    (hdot : tok ≠ .op .dot) (e : Ending) : e.continuedBy tok = false := by
  have hbracket : tok ≠ .op .openBracket := by
    intro heq
    subst heq
    cases h
  cases e with
  | name => simp [continuedBy, hdot, hbracket]
  | qualified => simp [continuedBy, hbracket]
  | params => exact h
  | closed => rfl

/-- A type stops before such a token. -/
theorem Grammar.Ending.stops_cons {t : Token} {tok : Tok} (ht : t.tok = tok)
    (h : tok.startsType = false) (hdot : tok ≠ .op .dot) (e : Ending)
    (rest : List Token) : e.Stops (t :: rest) := by
  intro u hu
  cases hu
  rw [ht]
  exact e.continuedBy_eq_false h hdot

namespace Cursor

variable {c : Cursor} {t u : Token} {rest : List Token}

theorem peek?_zero (hc : c.rest = t :: rest) : c.peek? 0 = some t.tok := by
  simp [peek?, hc]

theorem peek?_one (hc : c.rest = t :: u :: rest) : c.peek? 1 = some u.tok := by
  simp [peek?, hc]

/-! ## Brackets behind a name -/

/-- The brackets of an array or slice type are seen to start a type. -/
theorem bracketsStartType_of_bracketTail {more : List Token}
    (hc : c.rest = t :: u :: more ++ rest) (h : BracketTail more) :
    c.bracketsStartType = true := by
  unfold bracketsStartType
  rcases h with ⟨w, behind, rfl, hw⟩
    | ⟨length, rb, elem, rfl, hrb, hlen, first, behind, rfl, hfirst⟩
  · have hpeek : c.peek? 2 = some w.tok := by simp [peek?, hc]
    rcases hw with hw | hw <;> rw [hpeek, hw]
  · have hdrop : c.rest.drop 2 = length ++ rb :: first :: (behind ++ rest) := by
      simp [hc]
    have hclosed : enclosed? 0 (length ++ rb :: first :: (behind ++ rest))
        = some (length, rb :: first :: (behind ++ rest)) :=
      enclosed?_of_balanced hlen (by rw [hrb]; rfl)
    split
    · rfl
    · rfl
    · rw [hdrop, hclosed]
      exact hfirst

/-- The brackets of type arguments are seen not to start a type, if no type
follows them. -/
theorem bracketsStartType_of_arguments {args : List Token} {rb : Token}
    (hc : c.rest = t :: u :: (args ++ rb :: rest)) (hrb : rb.tok = .op .closeBracket)
    (hbal : Balanced args) (hargs : Starts args)
    (hrest : ∀ w ∈ rest.head?, w.tok.startsType = false) :
    c.bracketsStartType = false := by
  obtain ⟨first, more, rfl, hfirst⟩ := hargs
  have hpeek : c.peek? 2 = some first.tok := by simp [peek?, hc]
  have hdrop : c.rest.drop 2 = first :: more ++ rb :: rest := by simp [hc]
  have hclosed : enclosed? 0 (first :: more ++ rb :: rest)
      = some (first :: more, rb :: rest) :=
    enclosed?_of_balanced hbal (by rw [hrb]; rfl)
  unfold bracketsStartType
  rw [hpeek]
  split
  next heq =>
    rw [Option.some.inj heq] at hfirst
    cases hfirst
  next heq =>
    rw [Option.some.inj heq] at hfirst
    cases hfirst
  next =>
    rw [hdrop, hclosed]
    cases rest with
    | nil => rfl
    | cons w rest => exact hrest w rfl

/-- The next token does not start a type. -/
def NoTypeNext (rest : List Token) : Prop :=
  ∀ t ∈ rest.head?, t.tok.startsType = false

/-- Behind the name that a type starts with stands nothing of the type, or a dot
or bracket, and the bracket does not start another type. -/
theorem afterName_cases {R : TypeExpr → List Token → Ending → Prop} (hR : Shaped R)
    {type : TypeExpr} {more : List Token} {e : Ending} {name : String}
    (hc : c.rest = t :: more ++ rest) (htype : R type (t :: more) e)
    (ht : t.tok = .ident name) (hrest : NoTypeNext rest) :
    more = [] ∨ c.peek? 1 = some (.op .dot) ∨
      c.peek? 1 = some (.op .openBracket) ∧ c.bracketsStartType = false := by
  rcases hR.nameTail htype ht with rfl | ⟨dot, behind, rfl, hdot⟩
    | ⟨lb, args, rb, rfl, hlb, hrb, hbal, hstarts⟩
  · exact Or.inl rfl
  · exact Or.inr (Or.inl (by rw [peek?_one hc, hdot]))
  · refine Or.inr (Or.inr ⟨by rw [peek?_one hc, hlb], ?_⟩)
    exact bracketsStartType_of_arguments (by simpa using hc) hrb hbal hstarts hrest

/-! ## Parameter entries -/

section Entries

variable {F : Placement} {R : TypeExpr → List Token → Ending → Prop}

theorem entryShape_bare {name : String} (hc : c.rest = t :: rest)
    (ht : t.tok = .ident name)
    (hrest : ∃ u more, rest = u :: more ∧
      (u.tok = .op .comma ∨ u.tok = .op .closeParen)) : c.entryShape = .bare := by
  obtain ⟨u, more, rfl, hu⟩ := hrest
  unfold entryShape EntryShape.ofTokens
  rw [peek?_zero hc, peek?_one hc, ht]
  rcases hu with hu | hu <;> rw [hu] <;> rfl

/-- A type behind a name makes the entry a typed one. -/
theorem entryShape_typed (hR : Shaped R) {name : String} {type : TypeExpr}
    {run : List Token} (hc : c.rest = t :: run ++ rest) (ht : t.tok = .ident name)
    (htype : ParamType F R type run) : c.entryShape = .typed := by
  unfold entryShape EntryShape.ofTokens
  rw [peek?_zero hc, ht]
  show EntryShape.afterName _ (c.peek? 1) = .typed
  cases htype with
  | variadic hdots =>
    rw [peek?_one hc, hdots]
    rfl
  | plain hplain =>
    obtain ⟨e, hplain⟩ := hplain
    obtain ⟨first, more, rfl, hfirst⟩ := hR.starts hplain
    rw [peek?_one hc]
    by_cases hbracket : first.tok = .op .openBracket
    · rw [hbracket, EntryShape.afterName,
        bracketsStartType_of_bracketTail hc (hR.bracketTail hplain hbracket)]
      rfl
    · -- the other tokens of `EntryShape.afterName` start no type
      unfold EntryShape.afterName
      split
      next heq => cases heq
      next heq => rw [Option.some.inj heq] at hfirst; cases hfirst
      next heq => rw [Option.some.inj heq] at hfirst; cases hfirst
      next heq => rw [Option.some.inj heq] at hfirst; cases hfirst
      next heq => exact absurd (Option.some.inj heq) hbracket
      next heq => rfl
      next heq => rw [← Option.some.inj heq, hfirst]; rfl

/-- A type that is more than a name makes the entry an unnamed one. -/
theorem entryShape_unnamed (hR : Shaped R) {type : TypeExpr} {run : List Token}
    (hc : c.rest = run ++ rest) (htype : ParamType F R type run)
    (hlone : ∀ t name, run = [t] → t.tok ≠ .ident name) (hrest : NoTypeNext rest) :
    c.entryShape = .unnamed := by
  unfold entryShape EntryShape.ofTokens
  cases htype with
  | variadic hdots => rw [peek?_zero hc, hdots]
  | plain hplain =>
    obtain ⟨e, hplain⟩ := hplain
    obtain ⟨first, more, rfl, hfirst⟩ := hR.starts hplain
    rw [peek?_zero hc]
    split
    next name heq =>
      have hname : first.tok = .ident name := Option.some.inj heq
      rcases afterName_cases hR hc hplain hname hrest with rfl | hdot
        | ⟨hlb, hbrackets⟩
      · exact absurd hname (hlone first name rfl)
      · rw [hdot]
        rfl
      · rw [hlb, EntryShape.afterName, hbrackets]
        rfl
    next => rfl

/-! ## Struct members and interface elements -/

/-- Names with a type behind them are not embedded. -/
theorem isEmbedded?_named (hR : Shaped R) {names : List Ident} {type : TypeExpr}
    {e : Ending} {nameRun run : List Token}
    (hnames : Separated (IdentRun F) .comma names nameRun) (htype : R type run e)
    (hc : c.rest = nameRun ++ run ++ rest) : c.isEmbedded? = some false := by
  cases hnames with
  | one hn =>
    obtain ⟨n, rfl, hn, -⟩ := hn
    obtain ⟨first, more, rfl, hfirst⟩ := hR.starts htype
    unfold isEmbedded? embeds?
    rw [peek?_zero hc, hn]
    show some (embedsAfterName _ (c.peek? 1)) = some false
    rw [peek?_one hc]
    by_cases hbracket : first.tok = .op .openBracket
    · rw [hbracket, embedsAfterName,
        bracketsStartType_of_bracketTail hc (hR.bracketTail htype hbracket)]
      rfl
    · -- the other tokens of `embedsAfterName`, and tags, start no type
      unfold embedsAfterName
      split
      next heq => cases heq
      next heq => rw [Option.some.inj heq] at hfirst; cases hfirst
      next heq => rw [Option.some.inj heq] at hfirst; cases hfirst
      next heq => rw [Option.some.inj heq] at hfirst; cases hfirst
      next heq => exact absurd (Option.some.inj heq) hbracket
      next tok _ _ _ _ heq =>
        rw [← Option.some.inj heq]
        cases hstring : first.tok.isString with
        | false => rfl
        | true =>
          obtain ⟨text, hlit | hlit⟩ :=
            Tok.eq_of_isString hstring <;> rw [hlit] at hfirst <;> cases hfirst
  | cons hn hsep _ =>
    obtain ⟨n, rfl, hn, -⟩ := hn
    unfold isEmbedded? embeds?
    rw [peek?_zero hc, hn]
    show some (embedsAfterName _ (c.peek? 1)) = some false
    rw [peek?_one hc, hsep]
    rfl

/-- What can stand behind the type of an embedded member: its tag, or the end
of the member. -/
def EndsEmbedded (rest : List Token) : Prop :=
  ∃ t more, rest = t :: more ∧
    (t.tok = .op .semicolon ∨ t.tok = .op .closeBrace ∨ t.tok.isString = true)

theorem EndsEmbedded.noTypeNext {rest : List Token} (h : EndsEmbedded rest) :
    NoTypeNext rest := by
  obtain ⟨t, more, rfl, ht⟩ := h
  intro u hu
  cases hu
  rcases ht with ht | ht | ht
  · rw [ht]; rfl
  · rw [ht]; rfl
  · obtain ⟨text, hlit | hlit⟩ := Tok.eq_of_isString ht <;> rw [hlit] <;> rfl

/-- A type before the end of a member is embedded. -/
theorem isEmbedded?_embedded (hR : Shaped R) {type : TypeExpr} {e : Ending}
    {run : List Token} (hc : c.rest = t :: run ++ rest) (ht : StartsEmbedded t)
    (htype : R type (t :: run) e) (hrest : EndsEmbedded rest) :
    c.isEmbedded? = some true := by
  unfold isEmbedded? embeds?
  rw [peek?_zero hc]
  rcases ht with hstar | ⟨name, hname⟩
  · rw [hstar]
  · rw [hname]
    show some (embedsAfterName _ (c.peek? 1)) = some true
    rcases afterName_cases hR hc htype hname hrest.noTypeNext with rfl | hdot
      | ⟨hlb, hbrackets⟩
    · obtain ⟨u, more, rfl, hu⟩ := hrest
      rw [peek?_one hc]
      rcases hu with hu | hu | hu
      · rw [hu]; rfl
      · rw [hu]; rfl
      · obtain ⟨text, hlit | hlit⟩ := Tok.eq_of_isString hu <;> rw [hlit] <;> rfl
    · rw [hdot]
      rfl
    · rw [hlb, embedsAfterName, hbrackets]
      rfl

theorem atMethod_method {name : String} {run : List Token}
    (hc : c.rest = t :: u :: run) (ht : t.tok = .ident name)
    (hu : u.tok = .op .openParen) : c.atMethod = true := by
  unfold atMethod opensMethod
  rw [peek?_zero hc, peek?_one hc, ht, hu]

/-- A type before something else than a parenthesis is no method. -/
theorem atMethod_type (hR : Shaped R) {type : TypeExpr} {e : Ending}
    {run : List Token} (hc : c.rest = run ++ rest) (htype : R type run e)
    (hrest : NoTypeNext rest) : c.atMethod = false := by
  obtain ⟨first, more, rfl, hfirst⟩ := hR.starts htype
  unfold atMethod opensMethod
  split
  next name hpeek hparen =>
    rw [peek?_zero hc, Option.some.injEq] at hpeek
    rcases afterName_cases hR hc htype hpeek hrest with rfl | hdot | ⟨hlb, -⟩
    · cases rest with
      | nil => simp [peek?, hc] at hparen
      | cons w rest =>
        rw [peek?_one hc, Option.some.injEq] at hparen
        have hw := hrest w rfl
        rw [hparen] at hw
        cases hw
    · rw [hdot] at hparen
      cases hparen
    · rw [hlb] at hparen
      cases hparen
  next => rfl

/-- A constraint is not taken for a method. -/
theorem atMethod_constraint (hR : Shaped R) {type : TypeExpr} {run : List Token}
    (h : Constraint F R type run) (hc : c.rest = run ++ rest)
    (hnext : NoTypeNext rest) : c.atMethod = false := by
  -- only the first term matters, and behind it comes a bar or the end of the element
  have hterm : ∀ {tm part rest'}, TermRun R tm part → c.rest = part ++ rest' →
      NoTypeNext rest' → c.atMethod = false := by
    intro tm part rest' htm hc' hnext'
    cases htm with
    | plain hplain =>
      obtain ⟨e, hplain⟩ := hplain
      exact atMethod_type hR hc' hplain hnext'
    | tilde hmark =>
      unfold atMethod opensMethod
      rw [peek?_zero hc', hmark]
  cases h with
  | plain hplain => exact hterm (.plain hplain) hc hnext
  | union _ hrun =>
    cases hrun with
    | one htm => exact hterm htm hc hnext
    | cons htm hsep _ =>
      rw [List.append_assoc] at hc
      refine hterm htm hc ?_
      intro w hw
      cases hw
      rw [hsep]
      rfl

end Entries

end Cursor

end GoInventory
