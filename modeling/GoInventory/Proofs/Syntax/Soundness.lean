import GoInventory.Proofs.Syntax.Entries
import GoInventory.Proofs.Syntax.Takes

/-!
# What the parser reads is spelled

Whenever the parser of types gives a type, the tokens it has passed over spell
that type, and the spans of the type fit the tokens. Each form has a lemma of
its own, and the main result (`takes_typeExpr`) follows by induction on the
depth of nesting.
-/

namespace GoInventory

namespace Parser

open Grammar

variable {F : Placement} {c c' : Cursor}

/-! ## Forms that several types share -/

section Shared

variable {α β : Type} {b : β}

/-- What is made of a part is made at the end of the part, from the span of all
that the part has taken. -/
theorem spanned_ok {part : Parser α} {make : Span → α → Parser β}
    (h : spanned part make c = .ok (b, c')) :
    ∃ a c₁, part c = .ok (a, c₁) ∧ make (c₁.since c.here) a c₁ = .ok (b, c') := by
  unfold spanned at h
  rw [here_bind] at h
  obtain ⟨a, c₁, hpart, h₁⟩ := bind_eq_ok_iff.mp h
  exact ⟨a, c₁, hpart, h₁⟩

/-- The token that announces a part is taken before the part. -/
theorem behindToken_ok {part : Parser α} {make : Span → α → Parser β} {tok : Tok}
    (h : behindToken part make c = .ok (b, c')) (hpeek : c.peek? 0 = some tok) :
    ∃ t c₁ a c₂, t.tok = tok ∧ c.Passes [t] c₁ ∧ part c₁ = .ok (a, c₂) ∧
      make (c₂.since c.here) a c₂ = .ok (b, c') := by
  unfold behindToken at h
  rw [here_bind] at h
  obtain ⟨_, c₁, hadvance, h₁⟩ := bind_eq_ok_iff.mp h
  obtain ⟨t, ht, hp⟩ := advance_ok hadvance hpeek
  obtain ⟨a, c₂, hpart, h₂⟩ := bind_eq_ok_iff.mp h₁
  exact ⟨t, c₁, a, c₂, ht, hp, hpart, h₂⟩

/-- Members in braces stand behind the keyword and the brace. -/
theorem bracedOf_ok {item : Parser α} {spelled : α → List Token → Prop}
    {make : Span → List α → Parser β} {opened itemEnd : Expected} {word : Keyword}
    (hitem : Takes F item spelled)
    (h : bracedOf opened itemEnd item make c = .ok (b, c'))
    (hpeek : c.peek? 0 = some (.keyword word)) (hok : F.allows c.rest) :
    ∃ kw lb items run c₁, kw.tok = .keyword word ∧ lb.tok = .op .openBrace ∧
      Listed spelled .semicolon .closeBrace items run ∧
      c.Passes (kw :: lb :: run) c₁ ∧
      make (c₁.since c.here) items c₁ = .ok (b, c') := by
  unfold bracedOf at h
  rw [here_bind] at h
  obtain ⟨_, c₁, hword, h₁⟩ := bind_eq_ok_iff.mp h
  obtain ⟨kw, hkw, hp₁⟩ := advance_ok hword hpeek
  obtain ⟨_, c₂, hopen, h₂⟩ := bind_eq_ok_iff.mp h₁
  obtain ⟨lb, hlb, hp₂⟩ := expect_ok hopen
  obtain ⟨items, c₃, hitems, h₃⟩ := bind_eq_ok_iff.mp h₂
  obtain ⟨run, hp₃, hlisted⟩ :=
    takes_memberList hitem hitems ((hp₁.trans hp₂).allows hok)
  exact ⟨kw, lb, items, run, c₃, hkw, hlb, hlisted, hp₁.trans (hp₂.trans hp₃), h₃⟩

end Shared

/-! ## Names and array lengths -/

/-- A name takes a name, with or without a package. -/
theorem typeName_ok {n : TypeName} (h : (typeName : Parser TypeName) c = .ok (n, c'))
    (hok : F.allows c.rest) : ∃ run e, c.Passes run c' ∧ Name F n run e := by
  unfold typeName typeNameOf at h
  rw [here_bind] at h
  obtain ⟨first, c₁, hfirst, h₁⟩ := bind_eq_ok_iff.mp h
  obtain ⟨t, ht, hp₁⟩ := ident_ok hfirst hok
  have hok₁ := hp₁.allows hok
  obtain ⟨b, c₂, heat, h₂⟩ := bind_eq_ok_iff.mp h₁
  rcases eat_ok heat with ⟨rfl, dot, hdot, hp₂⟩ | ⟨rfl, rfl, -⟩
  · obtain ⟨name, c₃, hname, h₃⟩ := bind_eq_ok_iff.mp h₂
    obtain ⟨u, hu, hp₃⟩ := ident_ok hname (hp₂.allows hok₁)
    rw [since_bind] at h₃
    cases h₃
    have hp := hp₁.trans (hp₂.trans hp₃)
    exact ⟨_, _, hp, .qualified ht hdot hu (hp.fits_since hok (by simp))⟩
  · cases h₂
    exact ⟨_, _, hp₁, .plain ht⟩

/-- What is made of the tokens of a length is spelled by them. -/
theorem length_ofTokens {s : Span} {run : List Token} (hok : F.allows run)
    (hs : F.fits s run) : Length F (LengthExpr.ofTokens s run) run := by
  unfold LengthExpr.ofTokens
  split
  next => exact .ident ⟨rfl, F.fits_extent hok rfl rfl⟩
  next start pkg stop start' stop' start'' sel stop'' =>
    have hpkg : F.allows [⟨start, .ident pkg, stop⟩] :=
      F.allows_left (b := [_, _]) hok
    have hsel : F.allows [⟨start'', .ident sel, stop''⟩] :=
      F.allows_right (a := [_, _]) hok
    exact .selector ⟨rfl, F.fits_extent hpkg rfl rfl⟩ rfl
      ⟨rfl, F.fits_extent hsel rfl rfl⟩ hs
  next => exact .literal rfl hs
  next hident hselector hliteral =>
    refine .other ⟨?_, ?_⟩ hs
    · intro t hrun
      obtain ⟨start, tok, stop⟩ := t
      cases tok with
      | ident name => exact absurd hrun (hident start name stop)
      | literal kind text => exact absurd hrun (hliteral start kind text stop)
      | _ => rfl
    · intro t u w pkg sel hrun ht hdot hu
      obtain ⟨start, tok, stop⟩ := t
      obtain ⟨start', tok', stop'⟩ := u
      obtain ⟨start'', tok'', stop''⟩ := w
      cases ht
      cases hdot
      cases hu
      exact hselector _ _ _ _ _ _ _ _ hrun

/-- The tokens of a length are balanced, as the search for its end
counts brackets. -/
theorem arrayLength_ok {length : LengthExpr}
    (h : (arrayLength : Parser LengthExpr) c = .ok (length, c'))
    (hok : F.allows c.rest) :
    ∃ first run, c.Passes (first :: run) c' ∧ Balanced (first :: run) ∧
      Length F length (first :: run) := by
  dsimp only [arrayLength, AtCursor.arrayLength] at h
  split at h
  next => cases h
  next => cases h
  next first more rest henclosed =>
    cases h
    obtain ⟨hrest, hbal, -⟩ := enclosed?_eq_some henclosed
    have hp : c.Passes (first :: more)
        (c.after ((first :: more).getLast (by simp)) rest) := by
      refine ⟨hrest, ?_⟩
      rw [List.getLast?_eq_some_getLast (List.cons_ne_nil first more)]
      rfl
    have hallows := hp.allows_run hok
    refine ⟨first, more, hp, hbal, length_ofTokens hallows ?_⟩
    exact F.fits_extent hallows rfl
      (List.getLast?_eq_some_getLast (List.cons_ne_nil first more))

/-- The ellipsis, or a length. -/
theorem takes_arrayBound : Takes F arrayBound (Bound F) := by
  intro c c' length h hok
  obtain ⟨b, c₁, heat, h₁⟩ := bind_eq_ok_iff.mp h
  rcases eat_ok heat with ⟨rfl, dots, hdots, hp⟩ | ⟨rfl, rfl, hnot⟩
  · cases h₁
    exact ⟨_, hp, .ellipsis hdots⟩
  · obtain ⟨len, c₂, hlen, h₂⟩ := bind_eq_ok_iff.mp h₁
    cases h₂
    obtain ⟨first, run, hp, hbal, hlength⟩ := arrayLength_ok hlen hok
    have hfirst : first.tok ≠ .op .ellipsis := hnot first (by rw [hp.rest]; rfl)
    exact ⟨_, hp, .expr hfirst hbal hlength⟩

/-- A tag, if there is one. -/
theorem takes_tag : Takes F tag? (Tag F) := by
  refine takes_of_ask fun c => ?_
  split
  next tok hpeek =>
    split
    next =>
      intro c' tag h hok
      obtain ⟨lit, c₁, hlit, h₁⟩ := bind_eq_ok_iff.mp h
      cases h₁
      obtain ⟨t, ht, hp⟩ := stringLit_ok hlit hok
      exact ⟨[t], hp, .some ht⟩
    next => exact takesAt_pure .none
  next => exact takesAt_pure .none

section Forms

variable {inner : Parser TypeExpr} (hinner : Takes F inner (Inner (Spells F)))

include hinner

/-! ## Names, pointers, arrays, maps, channels and parentheses -/

/-- A name, with the list of its type arguments if a bracket follows. -/
theorem takes_namedType : Takes F (namedType inner) (Inner (Spells F)) := by
  intro c c' t h hok
  unfold namedType namedOf at h
  rw [here_bind] at h
  obtain ⟨base, c₁, hbase, h₁⟩ := bind_eq_ok_iff.mp h
  obtain ⟨run, e, hp₁, hname⟩ := typeName_ok hbase hok
  have hok₁ := hp₁.allows hok
  obtain ⟨b, c₂, heat, h₂⟩ := bind_eq_ok_iff.mp h₁
  rcases eat_ok heat with ⟨rfl, lb, hlb, hp₂⟩ | ⟨rfl, rfl, -⟩
  · unfold typeArguments typeArgumentsOf at h₂
    obtain ⟨args, c₃, hargs, h₃⟩ := bind_eq_ok_iff.mp h₂
    obtain ⟨more, hp₃, hlisted⟩ := takes_commaList hinner hargs (hp₂.allows hok₁)
    rw [since_bind] at h₃
    split at h₃
    next => cases h₃
    next hne =>
      cases h₃
      have hp := hp₁.trans (hp₂.trans hp₃)
      refine ⟨_, hp, .closed,
        spells_iff.mpr (.applied hname hlb ?_ hlisted (hp.fits_since hok (by simp)))⟩
      intro heq
      subst heq
      exact hne rfl
  · cases h₂
    exact ⟨run, hp₁, e, spells_iff.mpr (.named hname)⟩

theorem takes_pointerType {t : TypeExpr} (h : pointerType inner c = .ok (t, c'))
    (hpeek : c.peek? 0 = some (.op .star)) (hok : F.allows c.rest) :
    ∃ run, c.Passes run c' ∧ Inner (Spells F) t run := by
  obtain ⟨star, c₁, elem, c₂, hstar, hp₁, helem, hmake⟩ := behindToken_ok h hpeek
  obtain ⟨run, hp₂, e, hspells⟩ := hinner helem (hp₁.allows hok)
  cases hmake
  have hp := hp₁.trans hp₂
  exact ⟨_, hp, e, spells_iff.mpr
    (.pointer hstar hspells (hp.fits_since hok (by simp)))⟩

/-- The bracket that closes a slice follows at once, and that of an array
behind its length.
-/
theorem takes_bracketType {t : TypeExpr} (h : bracketType inner c = .ok (t, c'))
    (hpeek : c.peek? 0 = some (.op .openBracket)) (hok : F.allows c.rest) :
    ∃ run, c.Passes run c' ∧ Inner (Spells F) t run := by
  unfold bracketType bracketOf at h
  rw [here_bind] at h
  obtain ⟨_, c₁, hopen, h₁⟩ := bind_eq_ok_iff.mp h
  obtain ⟨lb, hlb, hp₁⟩ := advance_ok hopen hpeek
  have hok₁ := hp₁.allows hok
  obtain ⟨b, c₂, heat, h₂⟩ := bind_eq_ok_iff.mp h₁
  rcases eat_ok heat with ⟨rfl, rb, hrb, hp₂⟩ | ⟨rfl, rfl, -⟩
  · obtain ⟨elem, c₃, helem, h₃⟩ := bind_eq_ok_iff.mp h₂
    obtain ⟨run, hp₃, e, hspells⟩ := hinner helem (hp₂.allows hok₁)
    rw [since_bind] at h₃
    cases h₃
    have hp := hp₁.trans (hp₂.trans hp₃)
    exact ⟨_, hp, e, spells_iff.mpr
      (.slice hlb hrb hspells (hp.fits_since hok (by simp)))⟩
  · obtain ⟨length, c₃, hlength, h₃⟩ := bind_eq_ok_iff.mp h₂
    obtain ⟨lengthRun, hp₂, hbound⟩ := takes_arrayBound hlength hok₁
    have hok₂ := hp₂.allows hok₁
    obtain ⟨_, c₄, hclose, h₄⟩ := bind_eq_ok_iff.mp h₃
    obtain ⟨rb, hrb, hp₃⟩ := expect_ok hclose
    obtain ⟨elem, c₅, helem, h₅⟩ := bind_eq_ok_iff.mp h₄
    obtain ⟨run, hp₄, e, hspells⟩ := hinner helem (hp₃.allows hok₂)
    rw [since_bind] at h₅
    cases h₅
    have hp := hp₁.trans (hp₂.trans (hp₃.trans hp₄))
    exact ⟨_, hp, e, spells_iff.mpr
      (.array hlb hbound hrb hspells (hp.fits_since hok (by simp)))⟩

theorem takes_mapType {t : TypeExpr} (h : mapType inner c = .ok (t, c'))
    (hpeek : c.peek? 0 = some (.keyword .map)) (hok : F.allows c.rest) :
    ∃ run, c.Passes run c' ∧ Inner (Spells F) t run := by
  unfold mapType mapOf at h
  rw [here_bind] at h
  obtain ⟨_, c₁, hmap, h₁⟩ := bind_eq_ok_iff.mp h
  obtain ⟨kw, hkw, hp₁⟩ := advance_ok hmap hpeek
  obtain ⟨_, c₂, hopen, h₂⟩ := bind_eq_ok_iff.mp h₁
  obtain ⟨lb, hlb, hp₂⟩ := expect_ok hopen
  have hok₂ := (hp₁.trans hp₂).allows hok
  obtain ⟨key, c₃, hkey, h₃⟩ := bind_eq_ok_iff.mp h₂
  obtain ⟨keyRun, hp₃, hkeySpells⟩ := hinner hkey hok₂
  have hok₃ := hp₃.allows hok₂
  obtain ⟨_, c₄, hclose, h₄⟩ := bind_eq_ok_iff.mp h₃
  obtain ⟨rb, hrb, hp₄⟩ := expect_ok hclose
  obtain ⟨value, c₅, hvalue, h₅⟩ := bind_eq_ok_iff.mp h₄
  obtain ⟨run, hp₅, e, hspells⟩ := hinner hvalue (hp₄.allows hok₃)
  rw [since_bind] at h₅
  cases h₅
  have hp := (hp₁.trans hp₂).trans (hp₃.trans (hp₄.trans hp₅))
  exact ⟨_, hp, e, spells_iff.mpr
    (.map hkw hlb hkeySpells hrb hspells (hp.fits_since hok (by simp)))⟩

/-- An arrow behind the keyword is taken, and decides the direction. -/
theorem takes_chanType {t : TypeExpr} (h : chanType inner c = .ok (t, c'))
    (hpeek : c.peek? 0 = some (.keyword .chan)) (hok : F.allows c.rest) :
    ∃ run, c.Passes run c' ∧ Inner (Spells F) t run := by
  unfold chanType chanOf at h
  rw [here_bind] at h
  obtain ⟨_, c₁, hchan, h₁⟩ := bind_eq_ok_iff.mp h
  obtain ⟨kw, hkw, hp₁⟩ := advance_ok hchan hpeek
  have hok₁ := hp₁.allows hok
  obtain ⟨b, c₂, heat, h₂⟩ := bind_eq_ok_iff.mp h₁
  obtain ⟨elem, c₃, helem, h₃⟩ := bind_eq_ok_iff.mp h₂
  rw [since_bind] at h₃
  cases h₃
  rcases eat_ok heat with ⟨rfl, arrow, harrow, hp₂⟩ | ⟨rfl, rfl, hnot⟩
  · obtain ⟨run, hp₃, e, hspells⟩ := hinner helem (hp₂.allows hok₁)
    have hp := hp₁.trans (hp₂.trans hp₃)
    exact ⟨_, hp, e, spells_iff.mpr
      (.send hkw harrow hspells (hp.fits_since hok (by simp)))⟩
  · obtain ⟨run, hp₂, e, hspells⟩ := hinner helem hok₁
    obtain ⟨first, more, rfl, -⟩ := (spells_iff.mp hspells).announced
    have hfirst : first.tok ≠ .op .arrow := hnot first (by rw [hp₂.rest]; rfl)
    have hp := hp₁.trans hp₂
    exact ⟨_, hp, e, spells_iff.mpr
      (.chan hkw hfirst hspells (hp.fits_since hok (by simp)))⟩

theorem takes_receiveType {t : TypeExpr} (h : receiveType inner c = .ok (t, c'))
    (hpeek : c.peek? 0 = some (.op .arrow)) (hok : F.allows c.rest) :
    ∃ run, c.Passes run c' ∧ Inner (Spells F) t run := by
  unfold receiveType receiveOf at h
  rw [here_bind] at h
  obtain ⟨_, c₁, harrow, h₁⟩ := bind_eq_ok_iff.mp h
  obtain ⟨arrow, htok, hp₁⟩ := advance_ok harrow hpeek
  obtain ⟨_, c₂, hchan, h₂⟩ := bind_eq_ok_iff.mp h₁
  obtain ⟨kw, hkw, hp₂⟩ := expect_ok hchan
  obtain ⟨elem, c₃, helem, h₃⟩ := bind_eq_ok_iff.mp h₂
  obtain ⟨run, hp₃, e, hspells⟩ := hinner helem ((hp₁.trans hp₂).allows hok)
  rw [since_bind] at h₃
  cases h₃
  have hp := hp₁.trans (hp₂.trans hp₃)
  exact ⟨_, hp, e, spells_iff.mpr
    (.receive htok hkw hspells (hp.fits_since hok (by simp)))⟩

theorem takes_parenType {t : TypeExpr} (h : parenType inner c = .ok (t, c'))
    (hpeek : c.peek? 0 = some (.op .openParen)) (hok : F.allows c.rest) :
    ∃ run, c.Passes run c' ∧ Inner (Spells F) t run := by
  unfold parenType parenOf at h
  rw [here_bind] at h
  obtain ⟨_, c₁, hopen, h₁⟩ := bind_eq_ok_iff.mp h
  obtain ⟨lp, hlp, hp₁⟩ := advance_ok hopen hpeek
  obtain ⟨elem, c₂, helem, h₂⟩ := bind_eq_ok_iff.mp h₁
  obtain ⟨run, hp₂, hspells⟩ := hinner helem (hp₁.allows hok)
  obtain ⟨_, c₃, hclose, h₃⟩ := bind_eq_ok_iff.mp h₂
  obtain ⟨rp, hrp, hp₃⟩ := expect_ok hclose
  rw [since_bind] at h₃
  cases h₃
  have hp := hp₁.trans (hp₂.trans hp₃)
  exact ⟨_, hp, .closed,
    spells_iff.mpr (.paren hlp hspells hrp (hp.fits_since hok (by simp)))⟩

/-! ## Parameters, results and function types -/

/-- The ellipsis of a variadic parameter is taken. -/
theorem takes_paramType : Takes F (paramType inner) (ParamType F (Spells F)) := by
  intro c c' t h hok
  unfold paramType paramTypeOf at h
  rw [here_bind] at h
  obtain ⟨b, c₁, heat, h₁⟩ := bind_eq_ok_iff.mp h
  rcases eat_ok heat with ⟨rfl, dots, hdots, hp₁⟩ | ⟨rfl, rfl, -⟩
  · obtain ⟨elem, c₂, helem, h₂⟩ := bind_eq_ok_iff.mp h₁
    obtain ⟨run, hp₂, hspells⟩ := hinner helem (hp₁.allows hok)
    rw [since_bind] at h₂
    cases h₂
    have hp := hp₁.trans hp₂
    exact ⟨_, hp, .variadic hdots hspells (hp.fits_since hok (by simp))⟩
  · obtain ⟨run, hp, hspells⟩ := hinner h₁ hok
    exact ⟨run, hp, .plain hspells⟩

/-- An entry takes a name, a type, or both, whatever shape was seen before. -/
theorem takes_paramEntry : Takes F (paramEntry inner) (EntryRun F (Spells F)) := by
  intro c c' entry h hok
  unfold paramEntry announcedEntry at h
  rw [entryShape_bind] at h
  cases hshape : c.entryShape with
  | bare =>
    simp only [hshape] at h
    obtain ⟨n, c₁, hn, h₁⟩ := bind_eq_ok_iff.mp h
    cases h₁
    obtain ⟨t, ht, hp⟩ := ident_ok hn hok
    exact ⟨[t], hp, .bare ht⟩
  | typed =>
    simp only [hshape] at h
    unfold typedEntry typedEntryOf at h
    rw [here_bind] at h
    obtain ⟨n, c₁, hn, h₁⟩ := bind_eq_ok_iff.mp h
    obtain ⟨t, ht, hp₁⟩ := ident_ok hn hok
    obtain ⟨type, c₂, htype, h₂⟩ := bind_eq_ok_iff.mp h₁
    obtain ⟨run, hp₂, hrun⟩ := takes_paramType hinner htype (hp₁.allows hok)
    rw [since_bind] at h₂
    cases h₂
    have hp := hp₁.trans hp₂
    exact ⟨_, hp, .typed ht hrun (hp.fits_since hok (by simp))⟩
  | unnamed =>
    simp only [hshape] at h
    obtain ⟨type, c₁, htype, hmake⟩ := spanned_ok h
    obtain ⟨run, hp, hrun⟩ := takes_paramType hinner htype hok
    cases hmake
    exact ⟨run, hp, .unnamed hrun (hp.fits_since hok hrun.ne_nil)⟩

/-- **Parameters take a list of entries, and are its groups.** -/
theorem takes_parameters : Takes F (parameters inner) (Params F (Spells F)) := by
  intro c c' fields h hok
  obtain ⟨_, c₁, hopen, h₁⟩ := bind_eq_ok_iff.mp h
  obtain ⟨lp, hlp, hp₁⟩ := expect_ok hopen
  have hok₁ := hp₁.allows hok
  obtain ⟨entries, c₂, hentries, h₂⟩ := bind_eq_ok_iff.mp h₁
  obtain ⟨run, hp₂, hlisted⟩ :=
    takes_commaList (takes_paramEntry hinner) hentries hok₁
  dsimp only at h₂
  cases hgroup : ParamEntry.group entries with
  | error e =>
    rw [hgroup] at h₂
    cases h₂
  | ok fields' =>
    rw [hgroup] at h₂
    cases h₂
    have hplain : ∀ {n t}, IsIdent F n t → Spells F (.named (.plain n)) [t] .name :=
      fun hn => spells_iff.mpr (.named (.plain hn))
    exact ⟨_, hp₁.trans hp₂,
      params_of_entries hplain hlp hlisted (hp₂.allows_run hok₁) hgroup⟩

/-- Results take a list in parentheses, a type, or nothing. -/
theorem takes_results :
    Takes F (results inner)
      fun fields run => ∃ e, Results F (Spells F) fields run e := by
  refine takes_of_ask fun c => ?_
  split
  next =>
    intro c' fields h hok
    obtain ⟨run, hp, hparams⟩ := takes_parameters hinner h hok
    exact ⟨run, hp, _, .listed hparams⟩
  next tok hparen hpeek =>
    split
    next =>
      intro c' fields h hok
      obtain ⟨t, c₁, ht, hmake⟩ := spanned_ok h
      obtain ⟨run, hp, e, hspells⟩ := hinner ht hok
      cases hmake
      obtain ⟨first, more, rfl, -⟩ := (spells_iff.mp hspells).announced
      have hfirst : first.tok = tok := by
        rw [Cursor.peek?, hp.rest] at hpeek
        exact Option.some.inj hpeek
      refine ⟨_, hp, e, .bare ?_ hspells (hp.fits_since hok (by simp))⟩
      intro heq
      exact hparen (by rw [← hfirst, heq])
    next => exact takesAt_pure ⟨_, .none⟩
  next => exact takesAt_pure ⟨_, .none⟩

/-- A signature takes parameters and results, and its span fits both. -/
theorem takes_signature {sig : Signature TypeExpr}
    (h : signature inner c = .ok (sig, c')) (hok : F.allows c.rest) :
    ∃ run e, c.Passes run c' ∧ Sig F (Spells F) sig run e ∧ F.fits sig.span run := by
  unfold signature signatureOf at h
  rw [here_bind] at h
  obtain ⟨params, c₁, hparams, h₁⟩ := bind_eq_ok_iff.mp h
  obtain ⟨paramRun, hp₁, hparamRun⟩ := takes_parameters hinner hparams hok
  obtain ⟨results, c₂, hresults, h₂⟩ := bind_eq_ok_iff.mp h₁
  obtain ⟨resultRun, hp₂, e, hresultRun⟩ :=
    takes_results hinner hresults (hp₁.allows hok)
  rw [since_bind] at h₂
  cases h₂
  have hp := hp₁.trans hp₂
  have hs : F.fits (c'.since c.here) (paramRun ++ resultRun) :=
    hp.fits_since hok (List.append_ne_nil_of_left_ne_nil hparamRun.ne_nil _)
  exact ⟨_, e, hp, .mk hparamRun hresultRun hs, hs⟩

theorem takes_funcType {t : TypeExpr} (h : funcType inner c = .ok (t, c'))
    (hpeek : c.peek? 0 = some (.keyword .func)) (hok : F.allows c.rest) :
    ∃ run, c.Passes run c' ∧ Inner (Spells F) t run := by
  obtain ⟨kw, c₁, sig, c₂, hkw, hp₁, hsig, hmake⟩ := behindToken_ok h hpeek
  obtain ⟨run, e, hp₂, hspells, -⟩ := takes_signature hinner hsig (hp₁.allows hok)
  cases hmake
  have hp := hp₁.trans hp₂
  exact ⟨_, hp, e, spells_iff.mpr (.func hkw hspells (hp.fits_since hok (by simp)))⟩

/-! ## Constraints -/

/-- A term takes its tilde and its type. -/
theorem takes_term : Takes F (term inner) (TermRun (Spells F)) := by
  intro c c' tm h hok
  obtain ⟨b, c₁, heat, h₁⟩ := bind_eq_ok_iff.mp h
  obtain ⟨t, c₂, ht, h₂⟩ := bind_eq_ok_iff.mp h₁
  cases h₂
  rcases eat_ok heat with ⟨rfl, mark, hmark, hp₁⟩ | ⟨rfl, rfl, -⟩
  · obtain ⟨run, hp₂, hspells⟩ := hinner ht (hp₁.allows hok)
    exact ⟨_, hp₁.trans hp₂, .tilde hmark hspells⟩
  · obtain ⟨run, hp, hspells⟩ := hinner ht hok
    exact ⟨run, hp, .plain hspells⟩

/-- A constraint takes its terms and the bars between them. -/
theorem takes_constraint {t : TypeExpr} (h : constraint inner c = .ok (t, c'))
    (hok : F.allows c.rest) :
    ∃ run, c.Passes run c' ∧ Constraint F (Spells F) t run ∧ run ≠ [] := by
  obtain ⟨terms, c₁, hterms, h₁⟩ := spanned_ok h
  obtain ⟨run, hp, hseparated⟩ := takes_separatedList (takes_term hinner) hterms hok
  have hne : run ≠ [] := hseparated.run_ne_nil TermRun.ne_nil
  -- a single term without a tilde is a type, everything else a union
  by_cases hsingle : ∃ type, terms = [⟨false, type⟩]
  · obtain ⟨type, rfl⟩ := hsingle
    cases h₁
    cases hseparated with
    | one htm =>
      cases htm with
      | plain hspells => exact ⟨run, hp, .plain hspells, hne⟩
    | cons _ _ hmore => cases hmore
  · have hunion : t = .union (c₁.since c.here) terms ∧ c' = c₁ := by
      obtain _ | ⟨⟨tilde, type⟩, _ | ⟨second, more⟩⟩ := terms
      · cases h₁
        exact ⟨rfl, rfl⟩
      · cases tilde with
        | false => exact absurd ⟨type, rfl⟩ hsingle
        | true =>
          cases h₁
          exact ⟨rfl, rfl⟩
      · cases tilde <;> cases h₁ <;> exact ⟨rfl, rfl⟩
    obtain ⟨rfl, rfl⟩ := hunion
    exact ⟨run, hp, .union (fun type heq => hsingle ⟨type, heq⟩) hseparated
      (hp.fits_since hok hne), hne⟩

/-! ## Struct and interface bodies -/

omit hinner in
/-- An embedded member starts with a star or a name. -/
theorem startsEmbedded_of_isEmbedded? (h : c.isEmbedded? = some true) :
    ∃ t rest, c.rest = t :: rest ∧ StartsEmbedded t := by
  cases hrest : c.rest with
  | nil => simp [Cursor.isEmbedded?, embeds?, Cursor.peek?, hrest] at h
  | cons t rest =>
    refine ⟨t, rest, rfl, ?_⟩
    have hpeek : c.peek? 0 = some t.tok := by simp [Cursor.peek?, hrest]
    unfold Cursor.isEmbedded? embeds? at h
    rw [hpeek] at h
    split at h
    next heq => exact Or.inl (Option.some.inj heq)
    next name heq => exact Or.inr ⟨name, Option.some.inj heq⟩
    next => cases h

/-- A member takes its names, its type and its tag. -/
theorem takes_structMember :
    Takes F (structMember inner) (MemberRun F (Spells F)) := by
  intro c c' f h hok
  unfold structMember structMemberOf at h
  rw [here_bind] at h
  obtain ⟨names, c₁, hnames, h₁⟩ := bind_eq_ok_iff.mp h
  obtain ⟨t, c₂, ht, h₂⟩ := bind_eq_ok_iff.mp h₁
  obtain ⟨tag, c₃, htag, h₃⟩ := bind_eq_ok_iff.mp h₂
  rw [since_bind] at h₃
  cases h₃
  cases hembedded : c.isEmbedded? with
  | none =>
    unfold memberNames announcedNames at hnames
    rw [isEmbedded?_bind, hembedded] at hnames
    cases hnames
  | some embedded =>
    unfold memberNames announcedNames at hnames
    rw [isEmbedded?_bind, hembedded] at hnames
    cases embedded with
    | true =>
      cases hnames
      -- no name was taken, so the type starts with the token that the
      -- decision looked at
      obtain ⟨run, hp₁, e, hspells⟩ := hinner ht hok
      obtain ⟨tagRun, hp₂, htagRun⟩ := takes_tag htag (hp₁.allows hok)
      obtain ⟨u, rest, hrest, hu⟩ := startsEmbedded_of_isEmbedded? hembedded
      obtain ⟨first, more, rfl, -⟩ := (spells_iff.mp hspells).announced
      have hfirst : first = u := by
        rw [hp₁.rest] at hrest
        exact (List.cons.inj hrest).1
      subst hfirst
      have hp := hp₁.trans hp₂
      exact ⟨_, hp, .embedded hu ⟨e, hspells⟩ htagRun (hp.fits_since hok (by simp))⟩
    | false =>
      obtain ⟨nameRun, hp₁, hnameRun⟩ := takes_identList hnames hok
      have hok₁ := hp₁.allows hok
      obtain ⟨run, hp₂, hspells⟩ := hinner ht hok₁
      obtain ⟨tagRun, hp₃, htagRun⟩ := takes_tag htag (hp₂.allows hok₁)
      have hp := (hp₁.trans hp₂).trans hp₃
      refine ⟨_, hp, .named hnameRun hspells htagRun (hp.fits_since hok ?_)⟩
      simp [hnameRun.run_ne_nil IdentRun.ne_nil]

theorem takes_structType {t : TypeExpr} (h : structType inner c = .ok (t, c'))
    (hpeek : c.peek? 0 = some (.keyword .struct)) (hok : F.allows c.rest) :
    ∃ run, c.Passes run c' ∧ Inner (Spells F) t run := by
  obtain ⟨kw, lb, fields, run, c₁, hkw, hlb, hlisted, hp, hmake⟩ :=
    bracedOf_ok (takes_structMember hinner) h hpeek hok
  cases hmake
  exact ⟨_, hp, .closed,
    spells_iff.mpr (.struct hkw hlb hlisted (hp.fits_since hok (by simp)))⟩

/-- An element takes a name and a signature, or a constraint. -/
theorem takes_interfaceElement :
    Takes F (interfaceElement inner) (ElementRun F (Spells F)) := by
  refine takes_of_ask fun c => ?_
  split
  next =>
    intro c' f h hok
    unfold method methodOf at h
    rw [here_bind] at h
    obtain ⟨n, c₁, hn, h₁⟩ := bind_eq_ok_iff.mp h
    obtain ⟨t, ht, hp₁⟩ := ident_ok hn hok
    obtain ⟨sig, c₂, hsig, h₂⟩ := bind_eq_ok_iff.mp h₁
    obtain ⟨run, e, hp₂, hspells, hs⟩ := takes_signature hinner hsig (hp₁.allows hok)
    rw [since_bind] at h₂
    cases h₂
    have hp := hp₁.trans hp₂
    exact ⟨_, hp, .method ht hspells hs (hp.fits_since hok (by simp))⟩
  next =>
    intro c' f h hok
    obtain ⟨t, c₁, ht, hmake⟩ := spanned_ok h
    obtain ⟨run, hp, hspells, hne⟩ := takes_constraint hinner ht hok
    cases hmake
    exact ⟨run, hp, .embedded hspells (hp.fits_since hok hne)⟩

theorem takes_interfaceType {t : TypeExpr} (h : interfaceType inner c = .ok (t, c'))
    (hpeek : c.peek? 0 = some (.keyword .interface)) (hok : F.allows c.rest) :
    ∃ run, c.Passes run c' ∧ Inner (Spells F) t run := by
  obtain ⟨kw, lb, elems, run, c₁, hkw, hlb, hlisted, hp, hmake⟩ :=
    bracedOf_ok (takes_interfaceElement hinner) h hpeek hok
  cases hmake
  exact ⟨_, hp, .closed,
    spells_iff.mpr (.interface hkw hlb hlisted (hp.fits_since hok (by simp)))⟩

/-! ## All forms -/

/-- **Every form of type takes tokens that spell it**, if the types in it do. -/
theorem takes_typeForm : Takes F (typeForm inner) (Inner (Spells F)) := by
  refine takes_of_ask fun c => ?_
  split
  next => exact fun _ _ h hok => takes_namedType hinner h hok
  next hpeek => exact fun _ _ h hok => takes_pointerType hinner h hpeek hok
  next hpeek => exact fun _ _ h hok => takes_bracketType hinner h hpeek hok
  next hpeek => exact fun _ _ h hok => takes_mapType hinner h hpeek hok
  next hpeek => exact fun _ _ h hok => takes_chanType hinner h hpeek hok
  next hpeek => exact fun _ _ h hok => takes_receiveType hinner h hpeek hok
  next hpeek => exact fun _ _ h hok => takes_funcType hinner h hpeek hok
  next hpeek => exact fun _ _ h hok => takes_structType hinner h hpeek hok
  next hpeek => exact fun _ _ h hok => takes_interfaceType hinner h hpeek hok
  next hpeek => exact fun _ _ h hok => takes_parenType hinner h hpeek hok
  next => exact takesAt_unexpected

end Forms

/-- However deep the types may be nested. -/
theorem takes_typeWithin (depth : Nat) :
    Takes F (typeWithin depth) (Inner (Spells F)) := by
  induction depth with
  | zero => intro c c' t h; cases h
  | succ depth ih => exact takes_typeForm ih

/-- **The tokens that the parser of types takes spell the type that it gives.** -/
theorem takes_typeExpr : Takes F typeExpr (Inner (Spells F)) := fun c _ _ h hok =>
  takes_typeWithin c.rest.length h hok

end Parser

end GoInventory
