import GoInventory.Proofs.Syntax.FileMoving

/-!
# The declarations of a file, one after the other

The declarations of a file are read in a loop that counts down. `Declares` says
what the loop does without the count: pass over a semicolon, or read a
declaration and what ends it, until no token is left. The loop with a sufficient
bound gives just these declarations (`declares_of_declItems`,
`declItems_of_declares`).

Each declaration is read in the same way when other tokens follow the file, so
the declarations of those tokens follow those of the file (`Declares.move`), and
a file with more tokens behind it is read to its old end and on (`file_moves`).
-/

namespace GoInventory

/-- A declaration starts with a keyword. -/
theorem Grammar.DeclRun.head {F : Placement} {d : Decl} {run : List Token}
    (h : Grammar.DeclRun F d run) :
    ∃ kw more word, run = kw :: more ∧ kw.tok = .keyword word := by
  cases h with
  | imports h | consts h | vars h | types h =>
    cases h with
    | single hkw => exact ⟨_, _, _, rfl, hkw⟩
    | listed hkw => exact ⟨_, _, _, rfl, hkw⟩
  | func h =>
    cases h with
    | mk hkw => exact ⟨_, _, _, rfl, hkw⟩

namespace Parser

open Grammar

variable {m : Move} {c c' : Cursor}

/-- The tokens ahead of the cursor are these declarations, with semicolons
between them. -/
inductive Declares : Cursor → List Decl → Prop
  | done {c : Cursor} : c.rest = [] → Declares c []
  | semicolon {c : Cursor} {t : Token} {rest : List Token} {ds : List Decl} :
      c.rest = t :: rest →
    t.tok = .op .semicolon → Declares (c.after t rest) ds → Declares c ds
  | cons {c c₁ c₂ : Cursor} {d : Decl} {ds : List Decl} :
      (decl : Parser Decl) c = .ok (d, c₁) →
    (terminator .declarationEnd : Parser Unit) c₁ = .ok ((), c₂) → Declares c₂ ds →
      Declares c (d :: ds)

/-! ## Semicolons -/

theorem semicolons_cons {t : Token} {rest : List Token} (hrest : c.rest = t :: rest)
    (ht : t.tok = .op .semicolon) :
    (semicolons : Parser Unit) c = (semicolons : Parser Unit) (c.after t rest) := by
  have heat : (eat (.op .semicolon) : Parser Bool) c
      = .ok (true, c.after t rest) := by
    dsimp only [eat, AtCursor.eat]
    rw [hrest]
    exact if_pos ht
  have hlength : c.rest.length = rest.length + 1 := by rw [hrest]; rfl
  show (semicolonItems (c.rest.length + 1) : Parser Unit) c = _
  rw [hlength, semicolonItems, bind_ok heat]
  rfl

theorem semicolons_of_head (h : ∀ t ∈ c.rest.head?, t.tok ≠ .op .semicolon) :
    (semicolons : Parser Unit) c = .ok ((), c) := by
  have heat : (eat (.op .semicolon) : Parser Bool) c = .ok (false, c) := by
    dsimp only [eat, AtCursor.eat]
    cases hrest : c.rest with
    | nil => rfl
    | cons t rest => exact if_neg (h t (by rw [hrest]; rfl))
  show (semicolonItems (c.rest.length + 1) : Parser Unit) c = _
  rw [semicolonItems, bind_ok heat]
  rfl

/-- What holds behind some semicolons can be carried back over them. -/
theorem semicolons_induction (P : Cursor → Prop)
    (h : (semicolons : Parser Unit) c = .ok ((), c')) (hend : P c')
    (hstep : ∀ c t rest, c.rest = t :: rest → t.tok = .op .semicolon →
      P (c.after t rest) → P c) : P c := by
  generalize hlist : c.rest = tokens
  induction tokens generalizing c with
  | nil =>
    rw [semicolons_of_head (by rw [hlist]; nofun)] at h
    cases h
    exact hend
  | cons t rest ih =>
    by_cases ht : t.tok = .op .semicolon
    · rw [semicolons_cons hlist ht] at h
      exact hstep c t rest hlist ht (ih h rfl)
    · rw [semicolons_of_head (by rw [hlist]; intro u hu; cases hu; exact ht)] at h
      cases h
      exact hend

/-! ## The loop -/

theorem decl_head {d : Decl} (h : (decl : Parser Decl) c = .ok (d, c')) :
    ∃ t rest word, c.rest = t :: rest ∧ t.tok = .keyword word ∧
      c'.rest.length ≤ rest.length := by
  obtain ⟨run, hp, hrun⟩ := takes_decl (F := .anywhere) h trivial
  obtain ⟨kw, more, word, rfl, hkw⟩ := hrun.head
  refine ⟨kw, more ++ c'.rest, word, hp.rest, hkw, ?_⟩
  rw [List.length_append]
  exact Nat.le_add_left _ _

theorem terminator_length {expected : Expected}
    (h : (terminator expected : Parser Unit) c = .ok ((), c')) :
    c'.rest.length ≤ c.rest.length := by
  obtain ⟨run, hp, -⟩ := takes_terminator (F := .anywhere) h trivial
  rw [hp.rest, List.length_append]
  exact Nat.le_add_left _ _

theorem declares_of_declItems (n : Nat) : ∀ {c c' : Cursor} {ds : List Decl},
    (declItems decl n : Parser (List Decl)) c = .ok (ds, c') → Declares c ds := by
  induction n with
  | zero => intro c c' ds h; cases h
  | succ n ih =>
    intro c c' ds h
    obtain ⟨_, c₁, hsemi, h₁⟩ := bind_eq_ok_iff.mp h
    refine semicolons_induction (Declares · ds) hsemi ?_
      fun c t rest hrest ht hds => .semicolon hrest ht hds
    rw [peek?_bind] at h₁
    cases hpeek : c₁.peek? 0 with
    | none =>
      rw [hpeek] at h₁
      cases h₁
      refine .done ?_
      cases hrest : c'.rest with
      | nil => rfl
      | cons t rest => simp [Cursor.peek?, hrest] at hpeek
    | some tok =>
      rw [hpeek] at h₁
      obtain ⟨d, c₂, hd, h₂⟩ := bind_eq_ok_iff.mp h₁
      obtain ⟨_, c₃, hend, h₃⟩ := bind_eq_ok_iff.mp h₂
      obtain ⟨others, c₄, hothers, h₄⟩ := bind_eq_ok_iff.mp h₃
      cases h₄
      exact .cons hd hend (ih hothers)

/-- The loop passes over a semicolon. -/
theorem declItems_semicolon {t : Token} {rest : List Token}
    (hrest : c.rest = t :: rest) (ht : t.tok = .op .semicolon) (n : Nat) :
    (declItems decl (n + 1) : Parser (List Decl)) c
      = (declItems decl (n + 1) : Parser (List Decl)) (c.after t rest) := by
  show ((semicolons : Parser Unit) >>= _) c
    = ((semicolons : Parser Unit) >>= _) (c.after t rest)
  rw [bind_apply, bind_apply, semicolons_cons hrest ht]

/-- Before any other token the loop reads a declaration. -/
theorem declItems_decl {t : Token} {rest : List Token} (hrest : c.rest = t :: rest)
    (ht : t.tok ≠ .op .semicolon) (n : Nat) :
    (declItems decl (n + 1) : Parser (List Decl)) c
      = ((decl : Parser Decl) >>= fun first =>
      terminator .declarationEnd >>= fun _ => declItems decl n >>= fun others =>
        pure (first :: others)) c := by
  have hhead : ∀ u ∈ c.rest.head?, u.tok ≠ .op .semicolon := by
    rw [hrest]
    intro u hu
    cases hu
    exact ht
  have hpeek : c.peek? 0 = some t.tok := by simp [Cursor.peek?, hrest]
  rw [declItems, bind_ok (semicolons_of_head hhead), peek?_bind, hpeek]

theorem declItems_of_declares {ds : List Decl} (h : Declares c ds) :
    ∀ n, c.rest.length < n →
      ∃ c', (declItems decl n : Parser (List Decl)) c = .ok (ds, c') := by
  induction h with
  | @done c hrest =>
    intro n hn
    obtain ⟨n, rfl⟩ :=
      Nat.exists_eq_add_of_le' (Nat.lt_of_le_of_lt (Nat.zero_le _) hn)
    refine ⟨c, ?_⟩
    rw [declItems, bind_ok (semicolons_of_head (by simp [hrest])), peek?_bind]
    simp only [Cursor.peek?, hrest]
    rfl
  | @semicolon c t rest ds hrest ht _ ih =>
    intro n hn
    rw [hrest, List.length_cons] at hn
    obtain ⟨c', hc'⟩ := ih n (Nat.lt_of_succ_lt hn)
    obtain ⟨n, rfl⟩ :=
      Nat.exists_eq_add_of_le' (Nat.lt_of_le_of_lt (Nat.zero_le _) hn)
    exact ⟨c', (declItems_semicolon hrest ht n).trans hc'⟩
  | @cons c c₁ c₂ d ds hd hend _ ih =>
    intro n hn
    obtain ⟨n, rfl⟩ :=
      Nat.exists_eq_add_of_le' (Nat.lt_of_le_of_lt (Nat.zero_le _) hn)
    obtain ⟨t, rest, word, hrest, ht, hshort⟩ := decl_head hd
    have hlength : c₂.rest.length < n := by
      have := terminator_length hend
      rw [hrest, List.length_cons] at hn
      omega
    obtain ⟨c', hc'⟩ := ih n hlength
    refine ⟨c', ?_⟩
    rw [declItems_decl hrest (by simp [ht]), bind_ok hd, bind_ok hend, bind_ok hc']
    rfl

/-! ## More tokens behind -/

/-- Behind a token that is passed nothing is left, or what is left can be moved. -/
theorem admits_after {t : Token} {rest : List Token} (hc : m.Admits c)
    (hrest : c.rest = t :: rest) :
    (c.after t rest).rest = [] ∨ m.Admits (c.after t rest) := by
  by_cases hnil : rest = []
  · exact Or.inl hnil
  · exact Or.inr (hc.after hrest (Or.inr hnil))

/-- What ends a declaration is the same in both places. -/
theorem terminator_moves {expected : Expected} (hc : m.Admits c)
    (h : (terminator expected : Parser Unit) c = .ok ((), c')) :
    (c'.rest = [] ∨ m.Admits c') ∧
      (terminator expected : Parser Unit) (m.cursor c) = .ok ((), m.cursor c') := by
  dsimp only [terminator, AtCursor.terminator] at h ⊢
  split at h
  next hrest =>
    cases h
    rw [hc.cursor_rest_nil hrest]
    exact ⟨Or.inr hc, rfl⟩
  next t rest hrest =>
    rw [Move.cursor_rest hrest]
    dsimp only [Token.mapOffsets]
    split at h
    next ht =>
      cases h
      rw [if_pos ht]
      exact ⟨admits_after hc hrest, rfl⟩
    next => cases h

/-- Where the token before a declaration ends does not matter. -/
theorem decl_lastStop {d : Decl} (stop : Nat)
    (h : (decl : Parser Decl) c = .ok (d, c')) :
    (decl : Parser Decl) { c with lastStop := stop } = .ok (d, c') := by
  obtain ⟨⟨start, tok, last⟩, rest, word, hrest, rfl, -⟩ := decl_head h
  obtain ⟨_, before, length⟩ := c
  subst hrest
  rw [← h]
  cases word <;> rfl

theorem Declares.lastStop {ds : List Decl} (h : Declares c ds) (stop : Nat) :
    Declares { c with lastStop := stop } ds := by
  cases h with
  | done hrest => exact .done hrest
  | semicolon hrest ht hds => exact .semicolon hrest ht hds
  | cons hd hend hds => exact .cons (decl_lastStop stop hd) hend hds

/-- **The declarations of what follows come behind those that are ahead**, which
are the same as before. -/
theorem Declares.move {ds es : List Decl} (h : Declares c ds)
    (hc : c.rest = [] ∨ m.Admits c)
    (htail : ∀ stop, Declares ⟨m.tail, stop, m.length⟩ es) :
    Declares (m.cursor c) (ds.map (Decl.mapOffsets (· + m.shift)) ++ es) := by
  induction h with
  | @done c hrest =>
    unfold Move.cursor
    rw [hrest]
    exact htail _
  | @semicolon c t rest ds hrest ht _ ih =>
    have hadmits := hc.resolve_left (by rw [hrest]; nofun)
    exact .semicolon (Move.cursor_rest hrest) ht (ih (admits_after hadmits hrest))
  | @cons c c₁ c₂ d ds hd hend _ ih =>
    obtain ⟨t, rest, word, hrest, -, -⟩ := decl_head hd
    have hadmits := hc.resolve_left (by rw [hrest]; nofun)
    obtain ⟨hadmits₁, hd'⟩ := moves_decl c hadmits hd
    obtain ⟨hadmits₂, hend'⟩ := terminator_moves hadmits₁ hend
    exact .cons hd' hend' (ih hadmits₂)

/-! ## Files -/

/-- The package clause of a file, with what ends it. -/
inductive Opens : Cursor → Ident → Cursor → Prop
  | mk {c c₁ c₂ c₃ c₄ : Cursor} {n : Ident} :
      (semicolons : Parser Unit) c = .ok ((), c₁) →
    (expect (.keyword .package) .package : Parser Unit) c₁ = .ok ((), c₂) →
      (ident : Parser Ident) c₂ = .ok (n, c₃) →
    (terminator .packageEnd : Parser Unit) c₃ = .ok ((), c₄) → Opens c n c₄

/-- A file is a package clause and declarations. -/
theorem file_eq_ok_iff {f : SourceFile} :
    (∃ c', file c = .ok (f, c')) ↔
      ∃ c', Opens c f.package c' ∧ Declares c' f.decls := by
  constructor
  · rintro ⟨c', h⟩
    obtain ⟨_, c₁, hsemi, h₁⟩ := bind_eq_ok_iff.mp h
    obtain ⟨_, c₂, hkw, h₂⟩ := bind_eq_ok_iff.mp h₁
    obtain ⟨n, c₃, hname, h₃⟩ := bind_eq_ok_iff.mp h₂
    obtain ⟨_, c₄, hend, h₄⟩ := bind_eq_ok_iff.mp h₃
    obtain ⟨ds, c₅, hds, h₅⟩ := bind_eq_ok_iff.mp h₄
    cases h₅
    exact ⟨c₄, .mk hsemi hkw hname hend, declares_of_declItems _ hds⟩
  · rintro ⟨c₄, ⟨hsemi, hkw, hname, hend⟩, hds⟩
    obtain ⟨c', hitems⟩ := declItems_of_declares hds _ (Nat.lt_succ_self _)
    have hbounded : (declList decl : Parser (List Decl)) c₄ = .ok (f.decls, c') :=
      hitems
    refine ⟨c', ?_⟩
    unfold file TokenReader.file fileOf
    rw [bind_ok hsemi, bind_ok hkw, bind_ok hname, bind_ok hend, bind_ok hbounded]
    rfl

/-- Semicolons before some other token are passed in both places. -/
theorem semicolons_moves {t : Token} {rest : List Token} (hc : m.Admits c)
    (h : (semicolons : Parser Unit) c = .ok ((), c')) (hrest : c'.rest = t :: rest)
    (ht : t.tok ≠ .op .semicolon) :
    m.Admits c' ∧ (semicolons : Parser Unit)
      (m.cursor c) = .ok ((), m.cursor c') := by
  have hall : c.rest ≠ [] ∧ (m.Admits c → m.Admits c' ∧
      (semicolons : Parser Unit) (m.cursor c) = .ok ((), m.cursor c')) := by
    refine semicolons_induction (fun c => c.rest ≠ [] ∧ (m.Admits c → m.Admits c' ∧
      (semicolons : Parser Unit) (m.cursor c) = .ok ((), m.cursor c')))
        h ⟨?_, fun hc => ⟨hc, ?_⟩⟩ ?_
    · rw [hrest]
      nofun
    · refine semicolons_of_head ?_
      rw [Move.cursor_rest hrest]
      intro u hu
      cases hu
      exact ht
    · rintro c semi behind hbehind hsemi ⟨hne, ih⟩
      refine ⟨by rw [hbehind]; nofun, fun hc => ?_⟩
      rw [semicolons_cons (Move.cursor_rest hbehind) hsemi]
      exact ih (hc.after hbehind (Or.inr hne))
  exact hall.2 hc

theorem Opens.move {n : Ident} (h : Opens c n c') (hc : m.Admits c) :
    (c'.rest = [] ∨ m.Admits c') ∧
      Opens (m.cursor c) (n.mapOffsets (· + m.shift)) (m.cursor c') := by
  obtain ⟨hsemi, hkw, hname, hend⟩ := h
  have hpackage : Tok.keyword .package ≠ .op .semicolon := nofun
  obtain ⟨t, ht, hp⟩ := expect_ok hkw
  obtain ⟨hc₁, hsemi'⟩ :=
    semicolons_moves hc hsemi hp.rest (by rw [ht]; exact hpackage)
  obtain ⟨hc₂, hkw'⟩ := moves_expect hpackage _ hc₁ hkw
  obtain ⟨hc₃, hname'⟩ := moves_ident _ hc₂ hname
  obtain ⟨hc₄, hend'⟩ := terminator_moves hc₃ hend
  exact ⟨hc₄, .mk hsemi' hkw' hname' hend'⟩

/-- **A file stays a file if declarations follow it.** Those stand behind its
own, which are the same as before. -/
theorem file_moves {f : SourceFile} {es : List Decl} (hc : m.Admits c)
    (h : file c = .ok (f, c')) (htail : ∀ stop, Declares ⟨m.tail, stop, m.length⟩ es) :
    ∃ d, file (m.cursor c) = .ok (⟨f.package.mapOffsets (· + m.shift),
      f.decls.map (Decl.mapOffsets (· + m.shift)) ++ es⟩, d) := by
  obtain ⟨c₁, hopens, hdecls⟩ := file_eq_ok_iff.mp ⟨c', h⟩
  obtain ⟨hc₁, hopens'⟩ := hopens.move hc
  exact file_eq_ok_iff.mpr ⟨m.cursor c₁, hopens', hdecls.move hc₁ htail⟩

end Parser

end GoInventory
