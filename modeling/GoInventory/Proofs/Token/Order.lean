import GoInventory.Proofs.Token.Separators

/-!
# The order of the tokens

The tokens of a source follow each other: each ends before the next one starts.
Where a token comes from is said once, for all tokens (`Token.Origin`): it
covers a lexeme of the source, or it is a semicolon that was inserted between
two characters. So no token reaches beyond the source, and one that carries a
text covers at least one byte, and the bytes it covers are its text
(`Token.Placed`). Two words do not touch, since they would be one word
(`Token.Origin.keyword_lt_ident`).
-/

namespace GoInventory

/-- Where a token of a source comes from: it covers a lexeme, whose token or
error it is, or it is a semicolon that was inserted between two characters. -/
inductive Token.Origin (source : List Char) (t : Token) : Prop
  | written {before behind : List Char} {l : Lexeme}
      (split : source = before ++ l.text ++ behind)
    (mem : l ∈ Lexeme.cut source) (leads : l.Leads behind)
    (start : t.start = Text.byteLength before)
      (stop : t.stop = t.start + l.byteLength)
    (tok : l.tok? = some t.tok ∨ t.tok = .error)
  | inserted {before behind : List Char} (split : source = before ++ behind)
    (eq : t = insertedSemicolon (Text.byteLength before))

/-- A token stands within the source, and its text, if it carries one, is what
the source has there. -/
structure Token.Placed (source : String) (t : Token) : Prop where
  start_le_stop : t.start ≤ t.stop
  stop_le : t.stop ≤ Text.byteLength source.toList
  slice_eq : ∀ text, t.tok.text? = some text →
    t.start < t.stop ∧ Text.slice source t.start t.stop = Text.bytes text
  of_text : ∀ text, t.tok.text? = some text →
    ∃ l ∈ Lexeme.cut source.toList, l.tok? = some t.tok

/-- The tokens follow each other. -/
def Token.Ordered (tokens : List Token) : Prop :=
  tokens.Pairwise fun a b => a.stop ≤ b.start

namespace Token

theorem Origin.placed {source : String} {t : Token} (h : t.Origin source.toList) :
    t.Placed source := by
  cases h with
  | @written before behind l hsplit hmem _ hstart hstop htok =>
    have hpos := Lexeme.byteLength_pos hmem
    have hlen : Text.byteLength source.toList
        = Text.byteLength before + l.byteLength + Text.byteLength behind := by
      rw [hsplit, Text.byteLength_append, Text.byteLength_append]
      rfl
    -- only the token of a lexeme carries a text
    have htext : ∀ text, t.tok.text? = some text → l.tok? = some t.tok := by
      intro text ht
      rcases htok with htok | herror
      · exact htok
      · rw [herror] at ht
        cases ht
    refine ⟨by
      omega, by
      omega, fun text ht => ⟨by omega, ?_⟩, fun text ht => ⟨l, hmem, htext text ht⟩⟩
    rw [Lexeme.text_of_tok? (htext text ht) ht, Text.bytes, String.toList_ofList]
    exact Text.slice_eq_encode hsplit hstart hstop
  | @inserted before behind hsplit heq =>
    subst heq
    have hle : Text.byteLength before ≤ Text.byteLength source.toList := by
      rw [hsplit, Text.byteLength_append]
      exact Nat.le_add_right _ _
    exact ⟨Nat.le_refl _, hle, fun _ ht => (by cases ht), fun _ ht => (by cases ht)⟩

/-- The first line end of a lexeme stands between two parts of its text. -/
theorem lineEnd?_split {l : Lexeme} {n : Nat} (h : l.lineEnd? = some n) :
    ∃ first more, l.text = first ++ more ∧ n = Text.byteLength first := by
  unfold Lexeme.lineEnd? at h
  dsimp only at h
  split at h
  next =>
    cases h
    exact ⟨_, _, List.takeWhile_append_dropWhile.symm, rfl⟩
  next => cases h

/-- The tokens stand in the source behind the offset, in order. -/
def StandBehind (source : List Char) (offset : Nat) (tokens : List Token) : Prop :=
  (∀ t ∈ tokens, offset ≤ t.start ∧ t.Origin source) ∧ Ordered tokens

theorem StandBehind.mono {source : List Char} {offset offset' : Nat}
    {tokens : List Token} (h : StandBehind source offset' tokens)
    (hle : offset ≤ offset') : StandBehind source offset tokens := by
  refine ⟨fun t ht => ?_, h.2⟩
  obtain ⟨hge, horigin⟩ := h.1 t ht
  exact ⟨Nat.le_trans hle hge, horigin⟩

/-- A token between two offsets can be put before the tokens behind the second. -/
theorem StandBehind.cons {source : List Char} {offset offset' : Nat} {t : Token}
    {tokens : List Token} (h : StandBehind source offset' tokens)
    (hle : offset ≤ offset') (hstart : offset ≤ t.start) (hstop : t.stop ≤ offset')
    (horigin : t.Origin source) : StandBehind source offset (t :: tokens) := by
  refine ⟨fun u hu => ?_, List.pairwise_cons.mpr ⟨fun u hu => ?_, h.2⟩⟩
  · rcases List.mem_cons.mp hu with rfl | hu
    · exact ⟨hstart, horigin⟩
    · exact (h.mono hle).1 u hu
  · exact Nat.le_trans hstop (h.1 u hu).1

/-- At the end of the source only an inserted semicolon is left to be read. -/
theorem tokensFrom_nil_origin {source : List Char} {canEnd : Bool} {offset : Nat}
    (hoffset : offset = Text.byteLength source) :
    StandBehind source offset (tokensFrom canEnd offset []) := by
  cases canEnd with
  | false => exact ⟨fun t ht => (by cases ht), List.Pairwise.nil⟩
  | true =>
    refine ⟨fun t ht => ?_, List.pairwise_singleton _ _⟩
    rw [show t = insertedSemicolon offset from List.mem_singleton.mp ht]
    exact ⟨Nat.le_refl _, .inserted (List.append_nil source).symm (by rw [hoffset])⟩

/-- A lexeme gives at most one token, which stands within it. -/
theorem tokensFrom_cons_origin {source before behind : List Char} {l : Lexeme}
    {ls : List Lexeme} {canEnd : Bool} {offset : Nat} (hl : l ∈ Lexeme.cut source)
    (hsource : source = before ++ l.text ++ behind) (hlead : l.Leads behind)
    (hoffset : offset = Text.byteLength before)
    (hnext : ∀ flag, StandBehind source (offset + l.byteLength)
      (tokensFrom flag (offset + l.byteLength) ls)) :
    StandBehind source offset (tokensFrom canEnd offset (l :: ls)) := by
  have hle : offset ≤ offset + l.byteLength := Nat.le_add_right ..
  have hcovers : ∀ tok flag, l.tok? = some tok ∨ tok = .error →
      StandBehind source offset (⟨offset, tok, offset + l.byteLength⟩
        :: tokensFrom flag (offset + l.byteLength) ls) := fun tok flag htok =>
    (hnext flag).cons hle (Nat.le_refl _) (Nat.le_refl _)
      (.written hsource hl hlead hoffset rfl htok)
  unfold tokensFrom readings
  dsimp only
  rcases Lexeme.effect_cases hl canEnd offset with
    ⟨heff, -⟩ | ⟨n, heff, -, hend⟩ | ⟨tok, heff, htok⟩ | ⟨fault, heff⟩
  · rw [heff]
    exact (hnext canEnd).mono hle
  · -- the semicolon stands at the first line end of the lexeme
    rw [heff]
    obtain ⟨first, more, htext, rfl⟩ := lineEnd?_split hend
    have hwithin : Text.byteLength first ≤ l.byteLength := by
      unfold Lexeme.byteLength
      rw [htext, Text.byteLength_append]
      exact Nat.le_add_right _ _
    have hsplit : source = (before ++ first) ++ (more ++ behind) := by
      rw [hsource, htext]
      simp
    have horigin :
        (insertedSemicolon (offset + Text.byteLength first)).Origin source :=
      .inserted hsplit (by rw [Text.byteLength_append, hoffset])
    exact (hnext false).cons hle (Nat.le_add_right _ _)
      (Nat.add_le_add_left hwithin offset) horigin
  · rw [heff]
    exact hcovers tok _ (Or.inl htok)
  · rw [heff]
    exact hcovers .error _ (Or.inr rfl)

/-- The tokens read from the lexemes behind some part of the source stand behind
that part, in order. -/
theorem tokensFrom_origin {source : List Char} :
    ∀ (ls : List Lexeme) (before : List Char) (canEnd : Bool) (offset : Nat),
      (∀ l ∈ ls, l ∈ Lexeme.cut source) → Lexeme.Cuts ls [] →
      source = before ++ ls.flatMap Lexeme.text → offset = Text.byteLength before →
      StandBehind source offset (tokensFrom canEnd offset ls) := by
  intro ls
  induction ls with
  | nil =>
    intro before canEnd offset _ _ hsource hoffset
    rw [List.flatMap_nil, List.append_nil] at hsource
    exact tokensFrom_nil_origin (hsource ▸ hoffset)
  | cons l ls ih =>
    intro before canEnd offset hmem hcuts hsource hoffset
    rw [List.flatMap_cons, ← List.append_assoc] at hsource
    have hlead : l.Leads (ls.flatMap Lexeme.text) := by
      have := hcuts.1
      rwa [List.append_nil] at this
    refine tokensFrom_cons_origin (hmem l (List.mem_cons_self ..))
      hsource hlead hoffset
      fun flag => ih (before ++ l.text) flag _
        (fun m hm => hmem m (List.mem_cons_of_mem _ hm))
        hcuts.2 hsource ?_
    rw [Text.byteLength_append, hoffset]
    rfl

theorem tokenize_origin (source : String) :
    (∀ t ∈ (tokenize source).tokens, t.Origin source.toList) ∧
      Ordered (tokenize source).tokens := by
  obtain ⟨hall, hord⟩ :=
    tokensFrom_origin (Lexeme.cut source.toList) [] false 0 (fun _ h => h)
    (Lexeme.cuts_cut _) (by rw [Lexeme.flatMap_text_cut]; rfl) rfl
  exact ⟨fun t ht => (hall t ht).2, hord⟩

/-- The tokens of a source stand in it, in order. -/
theorem tokenize_placed (source : String) :
    (∀ t ∈ (tokenize source).tokens, t.Placed source) ∧
      Ordered (tokenize source).tokens := by
  obtain ⟨hall, hord⟩ := tokenize_origin source
  exact ⟨fun t ht => (hall t ht).placed, hord⟩

/-! ## Words -/

/-- A keyword covers its spelling, and no word goes on behind it. -/
theorem Origin.of_keyword {source : List Char} {t : Token} {word : Keyword}
    (h : t.Origin source) (ht : t.tok = .keyword word) :
    t.stop = t.start + Text.byteLength word.spelling.toList ∧
    ∃ before behind, source = before ++ behind ∧ t.stop = Text.byteLength before ∧
      Lexeme.EndsWord behind := by
  cases h with
  | @written before behind l hsplit hmem hleads hstart hstop htok =>
    rw [ht] at htok
    have hcls : l.cls = .keyword word := by
      have hl := htok.resolve_right nofun
      cases hcls : l.cls with
      | keyword => simpa [Lexeme.tok?, hcls] using hl
      | _ => simp [Lexeme.tok?, hcls] at hl
    obtain ⟨htext, hends⟩ := hleads.keyword hcls
    unfold Lexeme.byteLength at hstop
    refine ⟨by rw [hstop, htext], before ++ l.text, behind, hsplit, ?_, hends⟩
    rw [hstop, hstart, Text.byteLength_append]
  | inserted _ heq =>
    subst heq
    cases ht

/-- An identifier starts with a character that can start one. -/
theorem Origin.of_ident {source : List Char} {t : Token} {name : String}
    (h : t.Origin source) (ht : t.tok = .ident name) :
    t.start < t.stop ∧ ∃ before c behind, source = before ++ c :: behind ∧
      t.start = Text.byteLength before ∧ Lexeme.isIdentStart c = true := by
  cases h with
  | @written before behind l hsplit hmem hleads hstart hstop htok =>
    rw [ht] at htok
    have hpos := Lexeme.byteLength_pos hmem
    have hcls : l.cls = .ident := by
      have hl := htok.resolve_right nofun
      cases hcls : l.cls with
      | ident => rfl
      | _ => simp [Lexeme.tok?, hcls] at hl
    obtain ⟨c, tail, htext, hcut⟩ := hleads
    rw [hcls] at hcut
    refine ⟨by
      omega, before, c, tail ++ behind, ?_, hstart, (Lexeme.cutFirst_ident hcut).1⟩
    rw [hsplit, htext]
    simp
  | inserted _ heq =>
    subst heq
    cases ht

/-- An identifier does not follow a keyword at once. -/
theorem Origin.keyword_lt_ident {source : List Char} {kw t : Token} {word : Keyword}
    {name : String} (hkw : kw.Origin source) (ht : t.Origin source)
    (hword : kw.tok = .keyword word) (hname : t.tok = .ident name)
    (hle : kw.stop ≤ t.start) : kw.stop < t.start := by
  obtain ⟨-, before, behind, hsplit, hstop, hends⟩ := hkw.of_keyword hword
  obtain ⟨-, before', c, behind', hsplit', hstart, hc⟩ := ht.of_ident hname
  refine Nat.lt_of_le_of_ne hle fun heq => ?_
  obtain ⟨-, rfl⟩ := Text.append_inj_of_byteLength (hsplit.symm.trans hsplit')
    (hstop.symm.trans (heq.trans hstart))
  have hpart := hends c rfl
  rw [Lexeme.isIdentPart, hc] at hpart
  cases hpart

end Token

end GoInventory
