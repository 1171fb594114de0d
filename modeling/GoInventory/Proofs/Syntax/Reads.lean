import GoInventory.Proofs.Syntax.Grammar

/-!
# What parsers read

`Reads p c rest P` says that the parser `p` succeeds at the cursor `c`,
leaves the tokens `rest`, and gives a value with the property `P`. It
composes along `bind`, so what a form of the grammar reads follows step by
step from what its parts read. The three kinds of list are done here once and
for all: a parser of items that reads what `item` describes, before a
separator or the closing operator, gives a parser of lists that reads what
`Listed` or `Separated` describes.

Values are compared through a function `f`, which forgets what may differ.
-/

namespace GoInventory

namespace Parser

open Grammar

variable {α β γ : Type}

/-- The parser succeeds, leaves `rest` and gives a value with the property. -/
def Reads (p : Parser α) (c : Cursor) (rest : List Token) (P : α → Prop) : Prop :=
  ∃ a c', p c = .ok (a, c') ∧ c'.rest = rest ∧ P a

namespace Reads

variable {c : Cursor} {mid rest : List Token} {p : Parser α} {f : α →
  Parser β} {P : α → Prop}
  {Q : β → Prop}

/-- A parser that takes nothing reads up to where it stands. -/
theorem pure {a : α} (hc : c.rest = rest) (h : P a) : Reads (Pure.pure a) c rest P :=
  ⟨a, c, rfl, hc, h⟩

/-- The second parser reads on where the first one has stopped. -/
theorem bind (hp : Reads p c mid P)
    (hf : ∀ a c', c'.rest = mid → P a → Reads (f a) c' rest Q) :
    Reads (p >>= f) c rest Q := by
  obtain ⟨a, c', hok, hmid, ha⟩ := hp
  obtain ⟨b, c'', hok', hrest, hb⟩ := hf a c' hmid ha
  exact ⟨b, c'', (bind_ok hok).trans hok', hrest, hb⟩

/-- Less may be said of the value. -/
theorem mono {P' : α → Prop} (hp : Reads p c rest P) (h : ∀ a, P a → P' a) :
    Reads p c rest P' := by
  obtain ⟨a, c', hok, hrest, ha⟩ := hp
  exact ⟨a, c', hok, hrest, h a ha⟩

end Reads

section Steps

variable {c : Cursor} {t : Token} {rest : List Token}

/-- A look at the cursor gives what it finds. -/
theorem reads_ask (g : Cursor → α) (hc : c.rest = rest) :
    Reads (ask g) c rest (· = g c) :=
  ⟨g c, c, rfl, hc, rfl⟩

theorem reads_here (hc : c.rest = rest) : Reads here c rest fun _ => True :=
  ⟨c.here, c, rfl, hc, trivial⟩

theorem reads_since {first : Span} (hc : c.rest = rest) :
    Reads (since first) c rest fun _ => True :=
  ⟨c.since first, c, rfl, hc, trivial⟩

theorem reads_advance (hc : c.rest = t :: rest) :
    Reads advance c rest fun _ => True :=
  ⟨(), c.after t rest, by simp [advance, AtCursor.advance, hc], rfl, trivial⟩

/-- A token that is next is taken. -/
theorem reads_eat {tok : Tok} (hc : c.rest = t :: rest) (ht : t.tok = tok) :
    Reads (eat tok) c rest (· = true) :=
  ⟨true, c.after t rest, by simp [eat, AtCursor.eat, hc, ht], rfl, rfl⟩

/-- A token that is not next is not taken. -/
theorem reads_eat_not {tok : Tok} (hc : c.rest = rest)
    (ht : ∀ t ∈ rest.head?, t.tok ≠ tok) : Reads (eat tok) c rest (· = false) := by
  refine ⟨false, c, ?_, hc, rfl⟩
  dsimp only [eat, AtCursor.eat]
  rw [hc]
  cases rest with
  | nil => rfl
  | cons t rest => exact if_neg (ht t rfl)

theorem reads_expect {tok : Tok} {expected : Expected} (hc : c.rest = t :: rest)
    (ht : t.tok = tok) : Reads (expect tok expected) c rest fun _ => True := by
  refine (reads_eat hc ht).bind fun b c' hc' hb => ?_
  subst hb
  exact Reads.pure hc' trivial

theorem reads_isNext {tok : Tok} (hc : c.rest = t :: rest) (ht : t.tok = tok) :
    Reads (isNext tok) c (t :: rest) (· = true) := by
  refine ⟨_, c, rfl, hc, ?_⟩
  simp [Cursor.peek?, hc, ht]

theorem reads_peek (hc : c.rest = t :: rest) :
    Reads (peek? 0) c (t :: rest) (· = some t.tok) := by
  refine ⟨_, c, rfl, hc, ?_⟩
  simp [Cursor.peek?, hc]

theorem reads_peek_none (hc : c.rest = []) : Reads (peek? 0) c [] (· = none) := by
  refine ⟨_, c, rfl, hc, ?_⟩
  simp [Cursor.peek?, hc]

/-- An identifier is read with its name. -/
theorem reads_ident {name : String} (hc : c.rest = t :: rest)
    (ht : t.tok = .ident name) : Reads ident c rest (·.name = name) := by
  obtain ⟨start, tok, stop⟩ := t
  cases ht
  refine ⟨⟨name, .clamp start stop⟩, c.after ⟨start, .ident name, stop⟩ rest,
    ?_, rfl, rfl⟩
  simp [ident, AtCursor.ident, hc]

/-- A string literal is read with its kind and its text. -/
theorem reads_stringLit {F : Placement} {lit : StringLit} (hc : c.rest = t :: rest)
    (ht : IsString F lit t) :
    Reads stringLit c rest
      fun lit' => lit'.kind = lit.kind ∧ lit'.text = lit.text := by
  obtain ⟨start, tok, stop⟩ := t
  cases ht with
  | @interpreted _ text s htok _ =>
    cases htok
    refine ⟨⟨.interpreted, text, .clamp start stop⟩,
      c.after ⟨start, .literal .string text, stop⟩ rest, ?_, rfl, rfl, rfl⟩
    simp [stringLit, AtCursor.stringLit, hc]
  | @raw _ text s htok _ =>
    cases htok
    refine ⟨⟨.raw, text, .clamp start stop⟩,
      c.after ⟨start, .literal .rawString text, stop⟩ rest, ?_, rfl, rfl, rfl⟩
    simp [stringLit, AtCursor.stringLit, hc]

end Steps

/-! ## Lists -/

section Lists

variable {item : Parser α} {spelled : α → List Token → Prop} {f : α → β}

/-- One of the two operators comes next. -/
def Follows (separator close : Operator) (rest : List Token) : Prop :=
  ∃ t more, rest = t :: more ∧ (t.tok = .op separator ∨ t.tok = .op close)

/-- The parser reads the items that `spelled` describes, if the list goes
on or ends behind them. An item does not start with the operator that
closes the list. -/
structure ReadsItems (item : Parser α) (spelled : α → List Token → Prop) (f : α → β)
    (separator close : Operator) : Prop where
  head : ∀ {a run}, spelled a run → ∃ first more, run = first :: more ∧
    first.tok ≠ .op close
  reads : ∀ {a run c rest}, spelled a run → c.rest = run ++ rest →
    Follows separator close rest →
    Reads item c rest fun a' => f a' = f a

/-- **A list that is spelled is read item by item**, with or without a
comma at its end. -/
theorem reads_commaItems {close : Operator} {itemEnd : Expected}
    (hsep : close ≠ .comma) (hitem : ReadsItems item spelled f .comma close)
    {as : List α} {run : List Token} (h : Listed spelled .comma close as run) :
    ∀ {c : Cursor} {rest : List Token} {bound : Nat}, c.rest = run ++ rest →
      run.length ≤ bound →
      Reads (commaItems close itemEnd item bound) c rest
        fun as' => as'.map f = as.map f := by
  -- every turn of the loop takes a token at least, so the bound is never
  -- what stops it
  induction h with
  | none ht =>
    intro c rest bound hc hbound
    obtain _ | bound := bound
    · simp at hbound
    refine (reads_eat hc ht).bind fun b c' hc' hb => ?_
    subst hb
    exact Reads.pure hc' rfl
  | @last a part t ha ht =>
    intro c rest bound hc hbound
    obtain _ | bound := bound
    · simp at hbound
    obtain ⟨first, more, rfl, hfirst⟩ := hitem.head ha
    rw [List.append_assoc, List.singleton_append] at hc
    refine (reads_eat_not hc (by simpa using hfirst)).bind fun b c₁ hc₁ hb => ?_
    subst hb
    refine (hitem.reads ha hc₁ ⟨t, rest, rfl, Or.inr ht⟩).bind fun a' c₂ hc₂ ha' => ?_
    refine (reads_eat_not hc₂ (by simpa [ht] using hsep)).bind fun b c₃ hc₃ hb => ?_
    subst hb
    refine (reads_expect hc₃ ht).bind fun _ c₄ hc₄ _ => ?_
    exact Reads.pure hc₄ (by simp [ha'])
  | @cons a as part more sep ha hsep' _ ih =>
    intro c rest bound hc hbound
    obtain _ | bound := bound
    · simp at hbound
    obtain ⟨first, behind, rfl, hfirst⟩ := hitem.head ha
    rw [List.append_assoc, List.cons_append] at hc
    simp only [List.length_append, List.length_cons] at hbound
    refine (reads_eat_not hc (by simpa using hfirst)).bind fun b c₁ hc₁ hb => ?_
    subst hb
    refine (hitem.reads ha hc₁ ⟨sep, more ++ rest, rfl, Or.inl hsep'⟩).bind
      fun a' c₂ hc₂ ha' => ?_
    refine (reads_eat hc₂ hsep').bind fun b c₃ hc₃ hb => ?_
    subst hb
    refine (ih hc₃ (by omega)).bind fun as' c₄ hc₄ has' => ?_
    exact Reads.pure hc₄ (by simp [ha', has'])

/-- The bound is enough, as each item takes a token. -/
theorem reads_commaList {close : Operator} {itemEnd : Expected}
    (hsep : close ≠ .comma) (hitem : ReadsItems item spelled f .comma close)
    {as : List α} {run rest : List Token} {c : Cursor}
    (h : Listed spelled .comma close as run) (hc : c.rest = run ++ rest) :
    Reads (commaList close itemEnd item) c rest fun as' => as'.map f = as.map f := by
  have hbound : run.length ≤ c.rest.length + 1 := by
    rw [hc, List.length_append]
    omega
  exact reads_commaItems hsep hitem h hc hbound

/-- **Members that are spelled are read one by one.** The last semicolon
may be missing. -/
theorem reads_memberItems {close : Operator} {itemEnd : Expected}
    (hsep : close ≠ .semicolon) (hitem : ReadsItems item spelled f .semicolon close)
    {as : List α} {run : List Token} (h : Listed spelled .semicolon close as run) :
    ∀ {c : Cursor} {rest : List Token} {bound : Nat}, c.rest = run ++ rest →
      run.length ≤ bound →
      Reads (memberItems close itemEnd item bound) c rest
        fun as' => as'.map f = as.map f := by
  induction h with
  | none ht =>
    intro c rest bound hc hbound
    obtain _ | bound := bound
    · simp at hbound
    refine (reads_eat hc ht).bind fun b c' hc' hb => ?_
    subst hb
    exact Reads.pure hc' rfl
  | @last a part t ha ht =>
    intro c rest bound hc hbound
    obtain ⟨first, more, rfl, hfirst⟩ := hitem.head ha
    rw [List.append_assoc, List.singleton_append] at hc
    simp only [List.length_append, List.length_cons, List.length_nil] at hbound
    -- the closing operator is seen behind the item, and read in the next round
    obtain _ | _ | bound := bound
    · omega
    · omega
    refine (reads_eat_not hc (by simpa using hfirst)).bind fun b c₁ hc₁ hb => ?_
    subst hb
    refine (hitem.reads ha hc₁ ⟨t, rest, rfl, Or.inr ht⟩).bind fun a' c₂ hc₂ ha' => ?_
    have hend : Reads (memberEnd close itemEnd) c₂ (t :: rest) fun _ => True := by
      refine (reads_eat_not hc₂ (by simpa [ht] using hsep)).bind fun b c₃ hc₃ hb => ?_
      subst hb
      refine (reads_isNext hc₃ ht).bind fun b c₄ hc₄ hb => ?_
      subst hb
      exact Reads.pure hc₄ trivial
    refine hend.bind fun _ c₃ hc₃ _ => ?_
    have hnone : Reads (memberItems close itemEnd item (bound + 1)) c₃ rest
        (· = []) := by
      refine (reads_eat hc₃ ht).bind fun b c₄ hc₄ hb => ?_
      subst hb
      exact Reads.pure hc₄ rfl
    refine hnone.bind fun as' c₄ hc₄ has' => ?_
    subst has'
    exact Reads.pure hc₄ (by simp [ha'])
  | @cons a as part more sep ha hsep' _ ih =>
    intro c rest bound hc hbound
    obtain _ | bound := bound
    · simp at hbound
    obtain ⟨first, behind, rfl, hfirst⟩ := hitem.head ha
    rw [List.append_assoc, List.cons_append] at hc
    simp only [List.length_append, List.length_cons] at hbound
    refine (reads_eat_not hc (by simpa using hfirst)).bind fun b c₁ hc₁ hb => ?_
    subst hb
    refine (hitem.reads ha hc₁ ⟨sep, more ++ rest, rfl, Or.inl hsep'⟩).bind
      fun a' c₂ hc₂ ha' => ?_
    have hend : Reads (memberEnd close itemEnd) c₂ (more ++ rest) fun _ => True := by
      refine (reads_eat hc₂ hsep').bind fun b c₃ hc₃ hb => ?_
      subst hb
      exact Reads.pure hc₃ trivial
    refine hend.bind fun _ c₃ hc₃ _ => ?_
    refine (ih hc₃ (by omega)).bind fun as' c₄ hc₄ has' => ?_
    exact Reads.pure hc₄ (by simp [ha', has'])

theorem reads_memberList {close : Operator} {itemEnd : Expected}
    (hsep : close ≠ .semicolon) (hitem : ReadsItems item spelled f .semicolon close)
    {as : List α} {run rest : List Token} {c : Cursor}
    (h : Listed spelled .semicolon close as run) (hc : c.rest = run ++ rest) :
    Reads (memberList close itemEnd item) c rest fun as' => as'.map f = as.map f := by
  have hbound : run.length ≤ c.rest.length + 1 := by
    rw [hc, List.length_append]
    omega
  exact reads_memberItems hsep hitem h hc hbound

/-- Behind the last item of a separated list, `last` holds of the
tokens that follow. -/
theorem reads_separatedItems {separator : Operator} (last : List Token → Prop)
    (hne : ∀ {a run}, spelled a run → run ≠ [])
    (hitem : ∀ {a run c rest}, spelled a run → c.rest = run ++ rest →
      (∃ t more, rest = t :: more ∧ t.tok = .op separator) ∨ last rest →
      Reads item c rest fun a' => f a' = f a)
    (hlast : ∀ {rest}, last rest → ∀ t ∈ rest.head?, t.tok ≠ .op separator)
    {as : List α} {run : List Token} (h : Separated spelled separator as run) :
    ∀ {c : Cursor} {rest : List Token} {bound : Nat}, c.rest = run ++ rest →
      run.length ≤ bound →
      last rest →
      Reads (separatedItems separator item bound) c rest
        fun as' => as'.map f = as.map f := by
  induction h with
  | @one a part ha =>
    intro c rest bound hc hbound hrest
    obtain _ | bound := bound
    · exact absurd (List.eq_nil_of_length_eq_zero (Nat.le_zero.mp hbound)) (hne ha)
    refine (hitem ha hc (Or.inr hrest)).bind fun a' c₁ hc₁ ha' => ?_
    refine (reads_eat_not hc₁ (hlast hrest)).bind fun b c₂ hc₂ hb => ?_
    subst hb
    exact Reads.pure hc₂ (by simp [ha'])
  | @cons a as part more sep ha hsep _ ih =>
    intro c rest bound hc hbound hrest
    obtain _ | bound := bound
    · simp at hbound
    simp only [List.length_append, List.length_cons] at hbound
    rw [List.append_assoc, List.cons_append] at hc
    refine (hitem ha hc (Or.inl ⟨sep, more ++ rest, rfl, hsep⟩)).bind
      fun a' c₁ hc₁ ha' => ?_
    refine (reads_eat hc₁ hsep).bind fun b c₂ hc₂ hb => ?_
    subst hb
    refine (ih hc₂ (by omega) hrest).bind fun as' c₃ hc₃ has' => ?_
    exact Reads.pure hc₃ (by simp [ha', has'])

/-- Names with commas between them, before something else than a comma. -/
theorem reads_identList {F : Placement} {names : List Ident} {run rest : List Token}
    {c : Cursor} (h : Separated (IdentRun F) .comma names run)
    (hc : c.rest = run ++ rest) (hrest : ∀ t ∈ rest.head?, t.tok ≠ .op .comma) :
    Reads identList c rest
      fun names' => names'.map (·.name) = names.map (·.name) := by
  have hbound : run.length ≤ c.rest.length + 1 := by
    rw [hc, List.length_append]
    omega
  refine reads_separatedItems (fun rest => ∀ t ∈ rest.head?, t.tok ≠ .op .comma)
    ?_ ?_ (fun h => h) h hc hbound hrest
  · intro n run hrun
    obtain ⟨t, rfl, -⟩ := hrun
    exact List.cons_ne_nil _ _
  · intro n run c rest hrun hc _
    obtain ⟨t, rfl, ht, -⟩ := hrun
    exact reads_ident hc ht

end Lists

end Parser

end GoInventory
