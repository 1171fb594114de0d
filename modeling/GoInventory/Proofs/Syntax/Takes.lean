import GoInventory.Proofs.Syntax.Grammar

/-!
# What parsers take

`Takes F p spelled` says that whenever the parser `p` succeeds, it has passed
over a run of tokens that spells its value. How it found the value does not
matter, so here the looking ahead of the parser is of no interest. The placement
`F` says how spans have to fit the tokens; the tokens ahead are allowed by it.

What the two parsers `here` and `since` give around a run that is not empty is a
span that fits the run (`Cursor.Passes.fits_since`).
-/

namespace GoInventory

namespace Cursor

/-- The second cursor stands behind the run that is ahead of the first. -/
structure Passes (c : Cursor) (run : List Token) (c' : Cursor) : Prop where
  rest : c.rest = run ++ c'.rest
  lastStop : c'.lastStop = (run.getLast?.map (·.stop)).getD c.lastStop

namespace Passes

variable {F : Placement} {c c' c'' : Cursor} {run more : List Token}

/-- Nothing is passed over where a cursor stays. -/
theorem refl (c : Cursor) : c.Passes [] c :=
  ⟨rfl, rfl⟩

/-- Runs that are passed over one after the other are passed over as one. -/
theorem trans (h : c.Passes run c') (h' : c'.Passes more c'') :
    c.Passes (run ++ more) c'' := by
  refine ⟨by rw [h.rest, h'.rest, List.append_assoc], ?_⟩
  rw [h'.lastStop, h.lastStop, List.getLast?_append]
  cases more.getLast? <;> rfl

/-- A single token is passed over. -/
theorem after {t : Token} {rest : List Token} (h : c.rest = t :: rest) :
    c.Passes [t] (c.after t rest) :=
  ⟨h, rfl⟩

/-- Behind a run, the tokens ahead are still allowed. -/
theorem allows (h : c.Passes run c') (hok : F.allows c.rest) : F.allows c'.rest := by
  rw [h.rest] at hok
  exact F.allows_right hok

/-- The tokens of a run that is passed over are allowed. -/
theorem allows_run (h : c.Passes run c') (hok : F.allows c.rest) : F.allows run := by
  rw [h.rest] at hok
  exact F.allows_left hok

/-- The span around a run that has been passed fits it. -/
theorem fits_since (h : c.Passes run c') (hok : F.allows c.rest) (hne : run ≠ []) :
    F.fits (c'.since c.here) run := by
  obtain ⟨first, more, rfl⟩ := List.exists_cons_of_ne_nil hne
  have hlast : (first :: more).getLast? = some ((first :: more).getLast hne) :=
    List.getLast?_eq_some_getLast hne
  have hhere : c.here = first.span := by
    unfold Cursor.here
    rw [h.rest]
    rfl
  have hstop : c'.lastStop = ((first :: more).getLast hne).stop := by
    rw [h.lastStop, hlast]
    rfl
  unfold Cursor.since
  rw [hhere, hstop]
  exact F.fits_since (h.allows_run hok) rfl hlast

end Passes

end Cursor

namespace Parser

open Grammar

variable {α β : Type}

/-- Whenever the parser succeeds, it has passed over a run that spells its value. -/
def Takes (F : Placement) (p : Parser α) (spelled : α → List Token → Prop) : Prop :=
  ∀ ⦃c c' : Cursor⦄ ⦃a : α⦄, p c = .ok (a, c') → F.allows c.rest →
    ∃ run, c.Passes run c' ∧ spelled a run

/-- The same at one cursor, where the parser may depend on what it sees there. -/
def TakesAt (F : Placement) (p : Parser α) (c : Cursor)
    (spelled : α → List Token → Prop) : Prop :=
  ∀ ⦃c' : Cursor⦄ ⦃a : α⦄, p c = .ok (a, c') → F.allows c.rest →
    ∃ run, c.Passes run c' ∧ spelled a run

/-- What a parser takes after a look ahead. -/
theorem takes_of_ask {F : Placement} {spelled : α → List Token → Prop}
    {g : Cursor → β} {f : β → Parser α} (h : ∀ c, TakesAt F (f (g c)) c spelled) :
    Takes F (ask g >>= f) spelled :=
  fun _ _ _ hp hok => h _ hp hok

/-- A parser that takes nothing. -/
theorem takesAt_pure {F : Placement} {c : Cursor} {spelled : α → List Token → Prop}
    {a : α} (h : spelled a []) : TakesAt F (pure a) c spelled := by
  intro c' a' hok _
  cases hok
  exact ⟨[], .refl c, h⟩

/-- A parser that fails takes nothing. -/
theorem takesAt_unexpected {F : Placement} {c : Cursor}
    {spelled : α → List Token → Prop} {expected : Expected} :
    TakesAt F (unexpected expected) c spelled := by
  intro c' a h
  cases h

/-! ## Single steps -/

section Steps

variable {F : Placement} {c c' : Cursor} {tok : Tok}

/-- Asking for a span leaves the cursor where it is. -/
theorem here_bind (f : Span → Parser α) (c : Cursor) :
    (here >>= f) c = f c.here c := rfl

theorem since_bind (first : Span) (f : Span → Parser α) (c : Cursor) :
    (since first >>= f) c = f (c.since first) c := rfl

/-- Looking ahead leaves the cursor where it is. -/
theorem peek?_bind (n : Nat) (f : Option Tok → Parser α) (c : Cursor) :
    (peek? n >>= f) c = f (c.peek? n) c := rfl

theorem entryShape_bind (f : EntryShape → Parser α) (c : Cursor) :
    (entryShape >>= f) c = f c.entryShape c := rfl

theorem isEmbedded?_bind (f : Option Bool → Parser α) (c : Cursor) :
    (isEmbedded? >>= f) c = f c.isEmbedded? c := rfl

theorem isNext_bind (f : Bool → Parser α) (c : Cursor) :
    (isNext tok >>= f) c = f (c.peek? 0 == some tok) c := rfl

/-- A token that is there is passed over. -/
theorem advance_ok (h : (advance : Parser Unit) c = .ok ((), c'))
    (hpeek : c.peek? 0 = some tok) : ∃ t, t.tok = tok ∧ c.Passes [t] c' := by
  dsimp only [advance, AtCursor.advance] at h
  split at h
  next hc => simp [Cursor.peek?, hc] at hpeek
  next t rest hc =>
    cases h
    refine ⟨t, ?_, .after hc⟩
    simpa [Cursor.peek?, hc] using hpeek

/-- Either the token is taken, or the cursor does not move and something
else comes next. -/
theorem eat_ok {b : Bool} (h : (eat tok : Parser Bool) c = .ok (b, c')) :
    (b = true ∧ ∃ t, t.tok = tok ∧ c.Passes [t] c') ∨
    (b = false ∧ c' = c ∧ ∀ t ∈ c.rest.head?, t.tok ≠ tok) := by
  dsimp only [eat, AtCursor.eat] at h
  split at h
  next hc =>
    cases h
    exact Or.inr ⟨rfl, rfl, by simp [hc]⟩
  next t rest hc =>
    split at h
    next ht =>
      cases h
      exact Or.inl ⟨rfl, t, ht, .after hc⟩
    next ht =>
      cases h
      refine Or.inr ⟨rfl, rfl, ?_⟩
      rw [hc]
      intro u hu
      cases hu
      exact ht

/-- A token that was expected has been passed over. -/
theorem expect_ok {expected : Expected}
    (h : (expect tok expected : Parser Unit) c = .ok ((), c')) :
    ∃ t, t.tok = tok ∧ c.Passes [t] c' := by
  obtain ⟨b, d, heat, h⟩ := bind_eq_ok_iff.mp h
  rcases eat_ok heat with ⟨rfl, t, ht, hp⟩ | ⟨rfl, -, -⟩
  · cases h
    exact ⟨t, ht, hp⟩
  · cases h

/-- An identifier takes its token, and its span fits. -/
theorem ident_ok {n : Ident} (h : (ident : Parser Ident) c = .ok (n, c'))
    (hok : F.allows c.rest) : ∃ t, IsIdent F n t ∧ c.Passes [t] c' := by
  dsimp only [ident, AtCursor.ident] at h
  split at h
  next start name stop rest hc =>
    cases h
    have hp := Cursor.Passes.after hc
    exact ⟨_, ⟨rfl, F.fits_extent (hp.allows_run hok) rfl rfl⟩, hp⟩
  next => cases h

theorem takes_ident : Takes F ident (IdentRun F) := by
  intro c c' n h hok
  obtain ⟨t, ht, hp⟩ := ident_ok h hok
  exact ⟨[t], hp, t, rfl, ht⟩

/-- A string literal takes its token, and its span fits. -/
theorem stringLit_ok {lit : StringLit}
    (h : (stringLit : Parser StringLit) c = .ok (lit, c')) (hok : F.allows c.rest) :
    ∃ t, IsString F lit t ∧ c.Passes [t] c' := by
  dsimp only [stringLit, AtCursor.stringLit] at h
  split at h
  next start text stop rest hc =>
    cases h
    have hp := Cursor.Passes.after hc
    exact ⟨_, .interpreted rfl (F.fits_extent (hp.allows_run hok) rfl rfl), hp⟩
  next start text stop rest hc =>
    cases h
    have hp := Cursor.Passes.after hc
    exact ⟨_, .raw rfl (F.fits_extent (hp.allows_run hok) rfl rfl), hp⟩
  next => cases h

end Steps

/-! ## Lists -/

section Lists

variable {F : Placement} {item : Parser α} {spelled : α → List Token → Prop}

/-- What is taken does not depend on the bound. -/
theorem takes_bounded {p : Nat → Parser α} (h : ∀ n, Takes F (p n) spelled) :
    Takes F (bounded p) spelled := fun _ _ _ hp hok => h _ hp hok

/-- A list takes its items, the commas between them and the token that closes it. -/
theorem takes_commaItems {close : Operator} {itemEnd : Expected}
    (hitem : Takes F item spelled) (bound : Nat) :
    Takes F (commaItems close itemEnd item bound) (Listed spelled .comma close) := by
  induction bound with
  | zero => intro c c' as h; cases h
  | succ bound ih =>
    intro c c' as h hok
    obtain ⟨b, c₁, heat, h₁⟩ := bind_eq_ok_iff.mp h
    rcases eat_ok heat with ⟨rfl, t, ht, hp⟩ | ⟨rfl, rfl, -⟩
    · cases h₁
      exact ⟨[t], hp, .none ht⟩
    obtain ⟨a, c₂, hfirst, h₂⟩ := bind_eq_ok_iff.mp h₁
    obtain ⟨run, hp₁, ha⟩ := hitem hfirst hok
    have hok₂ := hp₁.allows hok
    obtain ⟨b, c₃, heat₂, h₃⟩ := bind_eq_ok_iff.mp h₂
    rcases eat_ok heat₂ with ⟨rfl, sep, hsep, hp₂⟩ | ⟨rfl, rfl, -⟩
    · obtain ⟨others, c₄, hothers, h₄⟩ := bind_eq_ok_iff.mp h₃
      cases h₄
      obtain ⟨more, hp₃, hmore⟩ := ih hothers (hp₂.allows hok₂)
      exact ⟨run ++ ([sep] ++ more), hp₁.trans (hp₂.trans hp₃), .cons ha hsep hmore⟩
    · obtain ⟨_, c₄, hclose, h₄⟩ := bind_eq_ok_iff.mp h₃
      cases h₄
      obtain ⟨t, ht, hp₂⟩ := expect_ok hclose
      exact ⟨run ++ [t], hp₁.trans hp₂, .last ha ht⟩

theorem takes_commaList {close : Operator} {itemEnd : Expected}
    (hitem : Takes F item spelled) :
    Takes F (commaList close itemEnd item) (Listed spelled .comma close) :=
  takes_bounded (takes_commaItems hitem)

/-- A member ends with a semicolon that is taken, or before the closing operator. -/
theorem memberEnd_ok {close : Operator} {expected : Expected} {c c' : Cursor}
    (h : (memberEnd close expected : Parser Unit) c = .ok ((), c')) :
    (∃ t, t.tok = .op .semicolon ∧ c.Passes [t] c') ∨
    (c' = c ∧ c.peek? 0 = some (.op close)) := by
  obtain ⟨b, c₁, heat, h₁⟩ := bind_eq_ok_iff.mp h
  rcases eat_ok heat with ⟨rfl, t, ht, hp⟩ | ⟨rfl, rfl, -⟩
  · cases h₁
    exact Or.inl ⟨t, ht, hp⟩
  · rw [if_neg Bool.false_ne_true, isNext_bind] at h₁
    split at h₁
    next hnext =>
      cases h₁
      exact Or.inr ⟨rfl, eq_of_beq hnext⟩
    next => cases h₁

/-- Before the closing operator, nothing but that operator is taken. -/
theorem memberItems_close {close : Operator} {itemEnd : Expected} {bound : Nat}
    {c c' : Cursor} {as : List α}
    (h : memberItems close itemEnd item bound c = .ok (as, c'))
    (hclose : c.peek? 0 = some (.op close)) :
    as = [] ∧ ∃ t, t.tok = .op close ∧ c.Passes [t] c' := by
  cases bound with
  | zero => cases h
  | succ bound =>
    obtain ⟨b, c₁, heat, h₁⟩ := bind_eq_ok_iff.mp h
    rcases eat_ok heat with ⟨rfl, t, ht, hp⟩ | ⟨rfl, rfl, hnot⟩
    · cases h₁
      exact ⟨rfl, t, ht, hp⟩
    · unfold Cursor.peek? at hclose
      obtain ⟨t, ht, htok⟩ := Option.map_eq_some_iff.mp hclose
      rw [← List.head?_eq_getElem?] at ht
      exact absurd htok (hnot t ht)

/-- A list of members takes their semicolons too. -/
theorem takes_memberItems {close : Operator} {itemEnd : Expected}
    (hitem : Takes F item spelled) (bound : Nat) :
    Takes F (memberItems close itemEnd item bound)
      (Listed spelled .semicolon close) := by
  induction bound with
  | zero => intro c c' as h; cases h
  | succ bound ih =>
    intro c c' as h hok
    obtain ⟨b, c₁, heat, h₁⟩ := bind_eq_ok_iff.mp h
    rcases eat_ok heat with ⟨rfl, t, ht, hp⟩ | ⟨rfl, rfl, -⟩
    · cases h₁
      exact ⟨[t], hp, .none ht⟩
    obtain ⟨a, c₂, hfirst, h₂⟩ := bind_eq_ok_iff.mp h₁
    obtain ⟨run, hp₁, ha⟩ := hitem hfirst hok
    obtain ⟨_, c₃, hend, h₃⟩ := bind_eq_ok_iff.mp h₂
    obtain ⟨others, c₄, hothers, h₄⟩ := bind_eq_ok_iff.mp h₃
    cases h₄
    rcases memberEnd_ok hend with ⟨sep, hsep, hp₂⟩ | ⟨rfl, hclose⟩
    · obtain ⟨more, hp₃, hmore⟩ := ih hothers (hp₂.allows (hp₁.allows hok))
      exact ⟨run ++ ([sep] ++ more), hp₁.trans (hp₂.trans hp₃), .cons ha hsep hmore⟩
    · obtain ⟨rfl, t, ht, hp₂⟩ := memberItems_close hothers hclose
      exact ⟨run ++ [t], hp₁.trans hp₂, .last ha ht⟩

theorem takes_memberList {close : Operator} {itemEnd : Expected}
    (hitem : Takes F item spelled) :
    Takes F (memberList close itemEnd item) (Listed spelled .semicolon close) :=
  takes_bounded (takes_memberItems hitem)

/-- With no steps at all nothing is taken; that does not happen to
`separatedList`. -/
theorem takes_separatedItems {separator : Operator} (hitem : Takes F item spelled)
    (bound : Nat) :
    ∀ {c c' : Cursor} {as : List α}, separatedItems separator item bound c
      = .ok (as, c') →
      F.allows c.rest → c.rest.length < bound →
      ∃ run, c.Passes run c' ∧ Separated spelled separator as run := by
  induction bound with
  | zero => intro c c' as _ _ hbound; omega
  | succ bound ih =>
    intro c c' as h hok hbound
    obtain ⟨a, c₁, hfirst, h₁⟩ := bind_eq_ok_iff.mp h
    obtain ⟨run, hp₁, ha⟩ := hitem hfirst hok
    obtain ⟨b, c₂, heat, h₂⟩ := bind_eq_ok_iff.mp h₁
    rcases eat_ok heat with ⟨rfl, sep, hsep, hp₂⟩ | ⟨rfl, rfl, -⟩
    · obtain ⟨others, c₃, hothers, h₃⟩ := bind_eq_ok_iff.mp h₂
      cases h₃
      have hlen : c.rest.length = run.length + (c₂.rest.length + 1) := by
        rw [hp₁.rest, hp₂.rest]
        simp
      obtain ⟨more, hp₃, hmore⟩ := ih hothers (hp₂.allows (hp₁.allows hok)) (by omega)
      exact ⟨run ++ ([sep] ++ more), hp₁.trans (hp₂.trans hp₃), .cons ha hsep hmore⟩
    · cases h₂
      exact ⟨run, hp₁, .one ha⟩

/-- Items that are only separated: the list ends where no separator follows. -/
theorem takes_separatedList {separator : Operator} (hitem : Takes F item spelled) :
    Takes F (separatedList separator item) (Separated spelled separator) :=
      fun _ _ _ h hok =>
  takes_separatedItems hitem _ h hok (Nat.lt_succ_self _)

theorem takes_identList : Takes F identList (Separated (IdentRun F) .comma) :=
  takes_separatedList takes_ident

end Lists

end Parser

end GoInventory
