import GoInventory.Proofs.Token.Order

/-!
# The tokens tile the source

Every byte of a source belongs to a token or to something that the language
skips between tokens: a run of blanks, a line break, a comment with its end, or
the byte order mark that opens the source (`Trivia`). No other byte is skipped,
no byte is read twice, and the ends of a token are ends of characters. `Tiles`
collects what that means for a list of tokens, and `tokenize_tiles` proves it of
every source, faulty ones included.

Reading one lexeme adds at most one token, which covers the lexeme or is a
semicolon without a width inside trivia (`tokensFrom_cons`). The statement about
all bytes follows by going along the lexemes.
-/

namespace GoInventory

/-- A piece of a source that no token covers, between the text before it and the
text behind it. A line comment reaches to the end of its line, a block comment
to the first mark that ends one. -/
inductive Trivia (before : List Char) : List Char → List Char → Prop
  | blanks {piece behind : List Char} : piece ≠ [] →
      (∀ c ∈ piece, c = ' ' ∨ c = '\t') →
    Trivia before piece behind
  | lineBreak {piece behind : List Char} : piece ∈ [['\n'], ['\r'], ['\r', '\n']] →
    Trivia before piece behind
  | lineComment {body behind : List Char} : (∀ c ∈ body, c ≠ '\n' ∧ c ≠ '\r') →
    (∀ c ∈ behind.head?, c = '\n' ∨ c = '\r') →
      Trivia before ('/' :: '/' :: body) behind
  | blockComment {body behind : List Char} : ¬ ['*', '/'] <:+: body ++ ['*'] →
    Trivia before ('/' :: '*' :: (body ++ ['*', '/'])) behind
  | byteOrderMark {behind : List Char} : before = [] → Trivia before ['\uFEFF'] behind

/-- The byte at an offset belongs to a token, or to trivia that share no byte
with a token. -/
def Accounts (source : List Char) (tokens : List Token) (i : Nat) : Prop :=
  (∃ t ∈ tokens, t.start ≤ i ∧ i < t.stop) ∨
  ∃ before piece behind, source = before ++ piece ++ behind ∧
    Text.byteLength before ≤ i ∧ i < Text.byteLength before + Text.byteLength piece ∧
    Trivia before piece behind ∧
    ∀ t ∈ tokens, t.start < t.stop →
      t.stop ≤ Text.byteLength before ∨
        Text.byteLength before + Text.byteLength piece ≤ t.start

/-- The tokens lie in the source one behind the other, from character to
character, and leave out nothing but trivia. -/
structure Tiles (source : String) (tokens : List Token) : Prop where
  in_bounds : ∀ t ∈ tokens, t.start ≤ t.stop ∧ t.stop ≤ Text.byteLength source.toList
  at_chars : ∀ t ∈ tokens,
    String.Pos.Raw.IsValid source ⟨t.start⟩ ∧ String.Pos.Raw.IsValid source ⟨t.stop⟩
  in_order : tokens.Pairwise fun a b => a.stop ≤ b.start
  empty_only : ∀ t ∈ tokens, t.start = t.stop → t = .insertedSemicolon t.start
  text_eq : ∀ t ∈ tokens, ∀ text, t.tok.text? = some text →
    Text.slice source t.start t.stop = Text.bytes text
  length_le : tokens.length ≤ Text.byteLength source.toList + 1
  accounts : ∀ i < Text.byteLength source.toList, Accounts source.toList tokens i

/-! ## Trivia -/

namespace Lexeme

/-- A block comment reaches to the first mark that ends one. -/
theorem commentLength?_eq_some {text : List Char} :
    ∀ {n : Nat}, commentLength? text = some n →
      ∃ body, text.take n = body ++ ['*', '/'] ∧ ¬ ['*', '/'] <:+: body ++ ['*'] := by
  fun_induction commentLength? text with
  | case1 rest =>
    intro n h
    cases h
    exact ⟨[], rfl, by decide⟩
  | case2 c rest hopen ih =>
    intro n h
    obtain ⟨m, hm, rfl⟩ := Option.map_eq_some_iff.mp h
    obtain ⟨body, htake, hfirst⟩ := ih hm
    refine ⟨c :: body, by rw [List.take_succ_cons, htake]; rfl, ?_⟩
    rw [List.cons_append, List.infix_cons_iff]
    rintro (hhead | hinside)
    · -- the mark would start the text, and the comment would have ended there
      obtain ⟨hc, hnext⟩ := List.cons_prefix_cons.mp hhead
      obtain ⟨d, more, hbody⟩ : ∃ d more, body ++ ['*'] = d :: more := by
        cases body <;> exact ⟨_, _, rfl⟩
      have hd : '/' = d := (List.cons_prefix_cons.mp (hbody ▸ hnext)).1
      obtain ⟨k, hk⟩ : ∃ k, rest = d :: k := by
        have hrest := List.take_append_drop m rest
        rw [htake, show body ++ ['*', '/']
          = (body ++ ['*']) ++ ['/'] by simp, hbody] at hrest
        exact ⟨_, hrest.symm⟩
      exact hopen k hc.symm (hk.trans (by rw [← hd]))
    · exact hfirst hinside
  | case3 => intro n h; cases h

/-- What is cut as trivia is trivia. -/
theorem trivia_of_leads {l : Lexeme} {before behind : List Char} (h : l.Leads behind)
    (ht : l.cls.isTrivia = true) (hmark : l.cls = .byteOrderMark → before = []) :
    Trivia before l.text behind := by
  obtain ⟨c, tail, htext, hcut⟩ := h
  rw [htext]
  have htrivia := triviaCut_of_cutFirst hcut ht
  generalize hwhole : tail ++ behind = whole at htrivia
  generalize hlen : tail.length = n at htrivia
  generalize l.cls = cls at htrivia hmark
  cases htrivia with
  | blank hblank =>
    have hspace : ∀ d, isBlank d = true → d = ' ' ∨ d = '\t' := by
      intro d hd
      simpa [isBlank] using hd
    rw [← hwhole] at hlen
    obtain ⟨hall, -⟩ := forall_of_length_takeWhile hlen
    refine .blanks (List.cons_ne_nil _ _) fun d hd => ?_
    rcases List.mem_cons.mp hd with rfl | hd
    · exact hspace _ hblank
    · exact hspace d (hall d hd)
  | lineFeed =>
    rw [List.eq_nil_of_length_eq_zero hlen]
    exact .lineBreak (by decide)
  | carriageReturn =>
    split at hlen
    next hnext =>
      obtain ⟨d, rfl⟩ := List.length_eq_one_iff.mp hlen
      rw [← hwhole] at hnext
      cases eq_of_beq hnext
      exact .lineBreak (by decide)
    next =>
      rw [List.eq_nil_of_length_eq_zero hlen]
      exact .lineBreak (by decide)
  | byteOrderMark =>
    rw [List.eq_nil_of_length_eq_zero hlen]
    exact .byteOrderMark (hmark rfl)
  | lineComment =>
    obtain _ | ⟨d, body⟩ := tail
    · cases hlen
    obtain ⟨rfl, rfl⟩ := List.cons.inj hwhole
    obtain ⟨hall, hend⟩ := forall_of_length_takeWhile (Nat.succ.inj hlen)
    refine .lineComment (fun d hd => ?_) fun d hd => ?_
    · simpa [isLineEnd] using hall d hd
    · exact isLineEnd_iff.mp (by simpa using hend d hd)
  | blockComment hcomment =>
    obtain _ | ⟨d, inside⟩ := tail
    · cases hlen
    obtain ⟨rfl, rfl⟩ := List.cons.inj hwhole
    obtain ⟨body, htake, hfirst⟩ := commentLength?_eq_some hcomment
    rw [← Nat.succ.inj hlen, List.append_eq, List.take_left] at htake
    rw [htake]
    exact .blockComment hfirst

end Lexeme

/-! ## One lexeme -/

/-- Reading a lexeme gives one token that covers it, or else the lexeme is
trivia and gives at most a semicolon that covers nothing. -/
theorem tokensFrom_cons {source : List Char} {l : Lexeme} (h : l ∈ Lexeme.cut source)
    (canEnd : Bool) (offset : Nat) (ls : List Lexeme) :
    ∃ read flag, tokensFrom canEnd offset (l :: ls)
        = read ++ tokensFrom flag (offset + l.byteLength) ls ∧ read.length ≤ 1 ∧
      ((∃ tok, read = [⟨offset, tok, offset + l.byteLength⟩]) ∨
        (l.cls.isTrivia = true ∧ (l.cls = .byteOrderMark → offset = 0) ∧
          ∀ t ∈ read, t.start = t.stop ∧ t.stop ≤ offset + l.byteLength)) := by
  have htrivia : ∀ {e : Lexeme.Effect}, l.effect canEnd offset = e →
      e = .pass ∨ (∃ place, e = .semicolon place) →
      l.cls.isTrivia = true ∧ (l.cls = .byteOrderMark → offset = 0) := by
    intro e he hsilent
    unfold Lexeme.effect at he
    cases hcls : l.cls with
    | byteOrderMark =>
      rw [hcls] at he
      refine ⟨rfl, fun _ => ?_⟩
      dsimp only at he
      split at he
      next hzero => exact eq_of_beq hzero
      next =>
        subst he
        rcases hsilent with hpass | ⟨place, hsemi⟩
        · cases hpass
        · cases hsemi
    | blank | lineBreak | lineComment | blockComment => exact ⟨rfl, nofun⟩
    | ident | literal | keyword | op | fault =>
      rw [hcls] at he
      subst he
      rcases hsilent with hpass | ⟨place, hsemi⟩
      · cases hpass
      · cases hsemi
  refine ⟨(((l.effect canEnd offset).reading? offset
    (offset + l.byteLength)).toList).map (·.token), _,
    by unfold tokensFrom; rw [readings_cons, List.map_append], ?_⟩
  rcases Lexeme.effect_cases h canEnd offset with
    ⟨heff, -⟩ | ⟨n, heff, -, hend⟩ | ⟨tok, heff, -⟩ | ⟨fault, heff⟩
  · obtain ⟨hclass, hmark⟩ := htrivia heff (Or.inl rfl)
    rw [heff]
    exact ⟨Nat.zero_le _, Or.inr ⟨hclass, hmark, nofun⟩⟩
  · obtain ⟨hclass, hmark⟩ := htrivia heff (Or.inr ⟨_, rfl⟩)
    obtain ⟨first, more, htext, rfl⟩ := Token.lineEnd?_split hend
    rw [heff]
    refine ⟨Nat.le_refl _, Or.inr ⟨hclass, hmark, fun t ht => ?_⟩⟩
    rw [List.mem_singleton.mp ht]
    refine ⟨rfl, Nat.add_le_add_left ?_ offset⟩
    unfold Lexeme.byteLength
    rw [htext, Text.byteLength_append]
    exact Nat.le_add_right _ _
  · rw [heff]
    exact ⟨Nat.le_refl _, Or.inl ⟨tok, rfl⟩⟩
  · rw [heff]
    exact ⟨Nat.le_refl _, Or.inl ⟨.error, rfl⟩⟩

/-! ## All lexemes -/

/-- There are no more tokens than bytes to read, and one. -/
theorem length_tokensFrom_le {source : List Char} :
    ∀ (ls : List Lexeme) (canEnd : Bool) (offset : Nat),
      (∀ l ∈ ls, l ∈ Lexeme.cut source) →
      (tokensFrom canEnd offset ls).length
        ≤ Text.byteLength (ls.flatMap Lexeme.text) + 1 := by
  intro ls
  induction ls with
  | nil =>
    intro canEnd offset _
    cases canEnd <;> simp [tokensFrom, readings]
  | cons l ls ih =>
    intro canEnd offset hmem
    have hl := hmem l List.mem_cons_self
    have hpos : 0 < Text.byteLength l.text := Lexeme.byteLength_pos hl
    obtain ⟨read, flag, heq, hread, -⟩ := tokensFrom_cons hl canEnd offset ls
    have hrest := ih flag (offset + l.byteLength)
      fun m hm => hmem m (List.mem_cons_of_mem l hm)
    rw [heq, List.length_append, List.flatMap_cons, Text.byteLength_append]
    omega

/-- Every byte that is still to be read is accounted for by the tokens that were
passed and those to come. -/
theorem accounts_tokensFrom {source : List Char} :
    ∀ (ls : List Lexeme) (before : List Char) (canEnd : Bool) (offset : Nat)
      (passed : List Token),
      (∀ l ∈ ls, l ∈ Lexeme.cut source) → Lexeme.Cuts ls [] →
      source = before ++ ls.flatMap Lexeme.text → offset = Text.byteLength before →
      (∀ t ∈ passed, t.stop ≤ offset) → ∀ i, offset ≤ i → i < Text.byteLength source →
      Accounts source (passed ++ tokensFrom canEnd offset ls) i := by
  intro ls
  induction ls with
  | nil =>
    intro before canEnd offset passed _ _ hsource hoffset _ i hi hlt
    rw [List.flatMap_nil, List.append_nil] at hsource
    rw [hsource] at hlt
    omega
  | cons l ls ih =>
    intro before canEnd offset passed hmem hcuts hsource hoffset hpassed i hi hlt
    have hl := hmem l List.mem_cons_self
    have hrest : ∀ m ∈ ls, m ∈ Lexeme.cut source :=
      fun m hm => hmem m (List.mem_cons_of_mem l hm)
    rw [List.flatMap_cons, ← List.append_assoc] at hsource
    have hstop : offset + l.byteLength = Text.byteLength (before ++ l.text) := by
      rw [Text.byteLength_append, hoffset]
      rfl
    obtain ⟨read, flag, heq, -, hcases⟩ := tokensFrom_cons hl canEnd offset ls
    rw [heq, ← List.append_assoc]
    rcases Nat.lt_or_ge i (offset + l.byteLength) with hinside | hbeyond
    · rcases hcases with ⟨tok, rfl⟩ | ⟨hclass, hmark, hempty⟩
      · -- the byte belongs to the token of the lexeme
        exact Or.inl ⟨⟨offset, tok, offset + l.byteLength⟩, by simp, hi, hinside⟩
      · -- the lexeme is trivia: what was read stops before it, what is to be read
        -- starts behind it
        have hlead : l.Leads (ls.flatMap Lexeme.text) := by
          have := hcuts.1
          rwa [List.append_nil] at this
        have hzero : l.cls = .byteOrderMark → before = [] := fun hbom =>
          Text.byteLength_eq_zero (hoffset ▸ hmark hbom)
        obtain ⟨hlater, -⟩ := Token.tokensFrom_origin ls (before ++ l.text) flag
          (offset + l.byteLength) hrest hcuts.2 hsource hstop
        refine Or.inr ⟨before, l.text, ls.flatMap Lexeme.text, hsource, hoffset ▸ hi,
          hoffset ▸ hinside, Lexeme.trivia_of_leads hlead hclass hzero,
            fun t ht hwidth => ?_⟩
        rcases List.mem_append.mp ht with ht | ht
        · rcases List.mem_append.mp ht with ht | ht
          · exact Or.inl (hoffset ▸ hpassed t ht)
          · have := (hempty t ht).1
            omega
        · exact Or.inr (hoffset ▸ (hlater t ht).1)
    · refine ih (before ++ l.text) flag (offset + l.byteLength) (passed ++ read)
        hrest hcuts.2 hsource
        hstop (fun t ht => ?_) i hbeyond hlt
      rcases List.mem_append.mp ht with ht | ht
      · exact Nat.le_trans (hpassed t ht) (Nat.le_add_right _ _)
      · rcases hcases with ⟨tok, rfl⟩ | ⟨-, -, hempty⟩
        · rw [List.mem_singleton.mp ht]
        · exact (hempty t ht).2

theorem Token.Origin.isValid {source : String} {t : Token}
    (h : t.Origin source.toList) :
    String.Pos.Raw.IsValid source ⟨t.start⟩ ∧
    String.Pos.Raw.IsValid source ⟨t.stop⟩ := by
  cases h with
  | @written before behind l hsplit _ _ hstart hstop _ =>
    have hstop' : t.stop = Text.byteLength (before ++ l.text) := by
      rw [hstop, hstart, Text.byteLength_append]
      rfl
    rw [hstart, hstop']
    exact ⟨Text.isValid_byteLength (hsplit.trans (List.append_assoc ..)),
      Text.isValid_byteLength hsplit⟩
  | inserted hsplit heq =>
    rw [heq]
    exact ⟨Text.isValid_byteLength hsplit, Text.isValid_byteLength hsplit⟩

/-- **The tokens tile the source.** Every token lies within the source and
between two characters, tokens follow each other without overlap, only an
inserted semicolon is empty, a token that carries a text carries what the source
has there, and there is at most one token more than there are bytes. A byte that
no token covers belongs to blanks, a line break, a whole comment or the byte
order mark at the start. -/
theorem tokenize_tiles (source : String) : Tiles source (tokenize source).tokens := by
  have hflat : source.toList
      = [] ++ (Lexeme.cut source.toList).flatMap Lexeme.text := by
    rw [Lexeme.flatMap_text_cut]
    rfl
  obtain ⟨horigin, hord⟩ := Token.tokenize_origin source
  have hlength := length_tokensFrom_le (Lexeme.cut source.toList) false 0 fun _ h => h
  rw [Lexeme.flatMap_text_cut] at hlength
  refine ⟨fun t ht => ?_, fun t ht => (horigin t ht).isValid, hord,
    fun t ht hempty => ?_,
    fun t ht text htext => ?_, hlength, fun i hi => ?_⟩
  · exact ⟨(horigin t ht).placed.start_le_stop, (horigin t ht).placed.stop_le⟩
  · cases horigin t ht with
    | written _ hmem _ _ hstop _ =>
      have hpos := Lexeme.byteLength_pos hmem
      omega
    | inserted _ heq => rw [heq]; rfl
  · exact ((horigin t ht).placed.slice_eq text htext).2
  · exact accounts_tokensFrom (Lexeme.cut source.toList) [] false 0 [] (fun _ h => h)
      (Lexeme.cuts_cut _) hflat rfl nofun i (Nat.zero_le i) hi

end GoInventory
