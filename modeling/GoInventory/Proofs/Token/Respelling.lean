import GoInventory.Proofs.Token.Order
import GoInventory.Proofs.Token.Semicolons
import GoInventory.Proofs.Token.Writes

/-!
# Writing the tokens of a source again

The tokens of a source can be written one by one: a token as the source spells
it, an inserted semicolon as a semicolon, and one blank between two tokens
(`respell`). If the source is free of faults, then this text gives the same
tokens again, and none of its semicolons is an inserted one (`tokens_respell`).

What a token is does not depend on what stands around it, as long as a blank
or the end of the text follows (`Lexeme.leads_of_mem_cut`). No semicolon is
inserted, because each of those that the source would get is written out,
the one at the end included: the last token of a source is never one that
can end a statement.
-/

namespace GoInventory

/-- A token as it is written: an inserted semicolon by a character, everything
else as the source has it. -/
def Token.spelling (source : String) (t : Token) : String :=
  if t.isInserted then ";" else String.Pos.Raw.extract source ⟨t.start⟩ ⟨t.stop⟩

/-- The tokens of a source with single blanks between them. -/
def respell (source : String) : String :=
  " ".intercalate ((tokenize source).tokens.map (·.spelling source))

open Lexeme

/-! ## The tokens of a source without faults -/

theorem Lexeme.tok?_of_effect {l : Lexeme} {canEnd : Bool} {offset : Nat} {tok : Tok}
    (h : l.effect canEnd offset = .token tok) : l.tok? = some tok := by
  unfold effect at h
  unfold tok?
  cases hcls : l.cls with
  | ident | literal | keyword | op =>
    rw [hcls] at h
    cases h
    rfl
  | byteOrderMark =>
    rw [hcls] at h
    dsimp only at h
    split at h <;> cases h
  | lineBreak | blockComment =>
    rw [hcls] at h
    dsimp only at h
    split at h <;> cases h
  | blank | lineComment | fault =>
    rw [hcls] at h
    cases h

theorem Lexeme.tok?_ne_error (l : Lexeme) : l.tok? ≠ some .error := by
  unfold tok?
  cases l.cls <;> simp

/-- An error token is read together with its fault. -/
theorem fault?_of_error {ls : List Lexeme} :
    ∀ {canEnd : Bool} {offset : Nat}, ∀ r ∈ readings canEnd offset ls,
      r.token.tok = .error →
      r.fault?.isSome = true := by
  induction ls with
  | nil =>
    intro canEnd offset r hr herror
    cases canEnd with
    | false => cases hr
    | true =>
      rw [List.mem_singleton.mp hr] at herror
      cases herror
  | cons l ls ih =>
    intro canEnd offset r hr herror
    rw [readings_cons] at hr
    rcases List.mem_append.mp hr with hr | hr
    · have hread := Option.mem_toList.mp hr
      cases heff : l.effect canEnd offset with
      | pass =>
        rw [heff] at hread
        cases hread
      | semicolon =>
        rw [heff] at hread
        cases hread
        cases herror
      | token tok =>
        rw [heff] at hread
        cases hread
        exact absurd (herror ▸ tok?_of_effect heff) (tok?_ne_error l)
      | fault =>
        rw [heff] at hread
        cases hread
        rfl
    · exact ih r hr herror

/-- If a statement can end before the lexemes, then something is read from them. -/
theorem readings_true_ne_nil (ls : List Lexeme) :
    ∀ offset, readings true offset ls ≠ [] := by
  induction ls with
  | nil => exact fun _ => List.cons_ne_nil _ _
  | cons l ls ih =>
    intro offset
    rw [readings_cons]
    cases l.effect true offset with
    | pass => exact ih _
    | semicolon | token | fault => exact List.cons_ne_nil _ _

/-- The last token of a source is not one that can end a statement. -/
theorem canEndStatement_getLast? (ls : List Lexeme) :
    ∀ (canEnd : Bool) (offset : Nat), ∀ r ∈ (readings canEnd offset ls).getLast?,
      r.token.tok.canEndStatement = false := by
  induction ls with
  | nil =>
    intro canEnd offset r hr
    cases canEnd with
    | false => cases hr
    | true =>
      cases hr
      rfl
  | cons l ls ih =>
    intro canEnd offset r hr
    rw [readings_cons, List.getLast?_append] at hr
    cases hlast :
      (readings ((l.effect canEnd offset).canEnd canEnd) (offset + l.byteLength)
      ls).getLast? with
    | some last =>
      rw [hlast] at hr
      cases hr
      exact ih _ _ r hlast
    | none =>
      -- nothing is read behind the lexeme, so no statement can end after it
      rw [hlast] at hr
      have hnil := List.getLast?_eq_none_iff.mp hlast
      cases heff : l.effect canEnd offset with
      | pass =>
        rw [heff] at hr
        cases hr
      | semicolon | fault =>
        rw [heff] at hr
        cases hr
        rfl
      | token tok =>
        rw [heff] at hr hnil
        cases hr
        show tok.canEndStatement = false
        cases hend : tok.canEndStatement with
        | false => rfl
        | true =>
          rw [show (Effect.token tok).canEnd canEnd = tok.canEndStatement
            from rfl, hend] at hnil
          exact absurd hnil (readings_true_ne_nil _ _)

/-! ## The lexemes of the new text -/

/-- The lexeme is written as the token is, and is this token before a blank and
at the end of a text. -/
structure Lexeme.Respells (source : String) (t : Token) (l : Lexeme) : Prop where
  tok : l.tok? = some t.tok
  text : l.text = (t.spelling source).toList
  leads : ∀ gap, EndsToken gap → l.Leads gap

/-- Every token of a source is written by a lexeme, if it is no error. -/
theorem Token.Origin.respells {source : String} {t : Token}
    (h : t.Origin source.toList) (herror : t.tok ≠ .error) :
    ∃ l, Respells source t l := by
  cases h with
  | @written before behind l hsplit hmem _ hstart hstop htok =>
    have htok : l.tok? = some t.tok := htok.resolve_right herror
    have hwidth : t.start < t.stop := by
      have := byteLength_pos hmem
      omega
    refine ⟨l, htok, ?_, fun gap hgap => leads_of_mem_cut hmem htok hgap⟩
    unfold Token.spelling
    rw [Semicolons.isInserted_of_lt hwidth, if_neg Bool.false_ne_true,
      Text.extract_eq_ofList hsplit hstart hstop, String.toList_ofList]
  | inserted _ heq =>
    subst heq
    refine ⟨⟨.op .semicolon, [';']⟩, rfl, ?_, fun gap _ => ⟨';', [], rfl, rfl⟩⟩
    unfold Token.spelling
    rw [Semicolons.isInserted_insertedSemicolon, if_pos rfl]
    rfl

theorem Lexeme.Respells.head_not_blank {source : String} {t : Token} {l : Lexeme}
    (h : Respells source t l) : ∃ c tail, l.text = c :: tail ∧ isBlank c = false := by
  obtain ⟨c, tail, htext, hcut⟩ := h.leads [] .nil
  refine ⟨c, tail, htext, ?_⟩
  cases hblank : isBlank c with
  | false => rfl
  | true =>
    have htok := isToken_of_tok? h.tok
    rw [(TriviaCut.blank hblank).cutFirst_eq] at hcut
    rw [← (Prod.mk.inj hcut).1] at htok
    cases htok

/-- The lexemes with single blanks between them are cut from their text. -/
theorem cuts_respelled {source : String} {tokens : List Token}
    (h : ∀ t ∈ tokens, ∃ l, Respells source t l) :
    ∃ ls : List Lexeme, Cuts ls [] ∧ (∀ l ∈ ls, l.IsPlain) ∧
      ls.filterMap tok? = tokens.map (·.tok) ∧
      ls.flatMap Lexeme.text
        = [' '].intercalate (tokens.map fun t => (t.spelling source).toList) := by
  induction tokens with
  | nil => exact ⟨[], trivial, nofun, rfl, rfl⟩
  | cons t more ih =>
    obtain ⟨l, hl⟩ := h t List.mem_cons_self
    obtain ⟨ls, hcuts, hplain, htoks, htext⟩ :=
      ih fun u hu => h u (List.mem_cons_of_mem t hu)
    have hlplain : l.IsPlain := Or.inr (by rw [hl.tok]; rfl)
    cases more with
    | nil =>
      refine ⟨[l], ⟨hl.leads _ .nil, trivial⟩, ?_, ?_, ?_⟩
      · exact List.forall_mem_singleton.mpr hlplain
      · rw [List.filterMap_cons_some hl.tok]
        rfl
      · rw [List.flatMap_singleton, hl.text]
        simp
    | cons u more =>
      obtain ⟨m, hm⟩ := h u (List.mem_cons_of_mem t List.mem_cons_self)
      obtain ⟨c, tail, hmt, hblank⟩ := hm.head_not_blank
      -- the text behind the blank starts with the next token
      obtain ⟨behind, hbehind⟩ : ∃ behind, ls.flatMap Lexeme.text = c :: behind := by
        rw [htext, List.map_cons, ← hm.text, hmt]
        cases more with
        | nil => exact ⟨tail, by simp⟩
        | cons v more => exact ⟨_, List.intercalate_cons_cons⟩
      refine ⟨l :: ⟨.blank, [' ']⟩ :: ls, ⟨?_, ?_, hcuts⟩, ?_, ?_, ?_⟩
      · exact hl.leads _ (.cons separates_blank _)
      · rw [hbehind]
        exact leads_blank hblank _
      · intro k hk
        rcases List.mem_cons.mp hk with rfl | hk
        · exact hlplain
        rcases List.mem_cons.mp hk with rfl | hk
        · exact Or.inl rfl
        · exact hplain k hk
      · rw [List.filterMap_cons_some hl.tok, List.filterMap_cons_none rfl, htoks]
        rfl
      · rw [List.flatMap_cons, List.flatMap_cons, htext, hl.text]
        exact (List.append_assoc ..).symm.trans List.intercalate_cons_cons.symm

/-! ## Reading it -/

/-- Tokens and blanks are read as these tokens, without a fault and without an
inserted semicolon, if no statement can end after the last of them. -/
theorem readings_of_plain {source : List Char} {ls : List Lexeme} :
    ∀ (canEnd : Bool) (offset : Nat), (∀ l ∈ ls, l ∈ cut source ∧ l.IsPlain) →
      (((ls.filterMap tok?).getLast?.map Tok.canEndStatement).getD canEnd = false) →
      (readings canEnd offset ls).map (·.token.tok) = ls.filterMap tok? ∧
      ∀ r ∈ readings canEnd offset ls,
        r.fault? = none ∧ r.token.start < r.token.stop := by
  induction ls with
  | nil =>
    intro canEnd offset _ hend
    rw [show canEnd = false from hend]
    exact ⟨rfl, nofun⟩
  | cons l ls ih =>
    intro canEnd offset hplain hend
    obtain ⟨hmem, hl⟩ := hplain l List.mem_cons_self
    have hrest := fun m hm => hplain m (List.mem_cons_of_mem l hm)
    rw [readings_cons]
    cases htok : l.tok? with
    | none =>
      have hblank : l.cls = .blank :=
        hl.resolve_right (by rw [htok]; exact Bool.false_ne_true)
      have heff : l.effect canEnd offset = .pass := by
        unfold effect
        rw [hblank]
      rw [List.filterMap_cons_none htok] at hend ⊢
      rw [heff]
      exact ih canEnd (offset + l.byteLength) hrest hend
    | some tok =>
      rw [List.filterMap_cons_some htok] at hend ⊢
      rw [effect_of_tok? htok]
      have hflag : ((ls.filterMap tok?).getLast?.map Tok.canEndStatement).getD
        tok.canEndStatement
          = false := by
        rw [List.getLast?_cons] at hend
        cases hlast : (ls.filterMap tok?).getLast? with
        | none =>
          rw [hlast] at hend
          exact hend
        | some last =>
          rw [hlast] at hend
          exact hend
      obtain ⟨htoks, hfine⟩ :=
        ih tok.canEndStatement (offset + l.byteLength) hrest hflag
      refine ⟨congrArg (tok :: ·) htoks, fun r hr => ?_⟩
      rcases List.mem_cons.mp hr with rfl | hr
      · exact ⟨rfl, Nat.lt_add_of_pos_right (byteLength_pos hmem)⟩
      · exact hfine r hr

/-- **The tokens of a source can be written again.** If a source has no faults,
then its tokens, written with single blanks between them and with every inserted
semicolon written out, have no faults either, and are read as the same tokens.
Every one of these covers some bytes, so no semicolon is inserted. -/
theorem tokens_respell (source : String) (h : (tokenize source).diagnostics = []) :
    (tokenize (respell source)).diagnostics = [] ∧
    (tokenize (respell source)).tokens.map (·.tok)
      = (tokenize source).tokens.map (·.tok) ∧
    ∀ t ∈ (tokenize (respell source)).tokens,
      t.start < t.stop ∧ t.isInserted = false := by
  have hspells : ∀ t ∈ (tokenize source).tokens, ∃ l, Respells source t l := by
    intro t ht
    refine ((Token.tokenize_origin source).1 t ht).respells fun herror => ?_
    obtain ⟨r, hr, rfl⟩ := List.mem_map.mp ht
    have hfault := fault?_of_error r hr herror
    rw [fault?_of_diagnostics h r hr] at hfault
    cases hfault
  obtain ⟨ls, hcuts, hplain, htoks, htext⟩ := cuts_respelled hspells
  have hlexemes : cut (respell source).toList = ls := by
    have hwhole : (respell source).toList = ls.flatMap Lexeme.text := by
      unfold respell
      rw [String.toList_intercalate, List.map_map, htext]
      rfl
    rw [hwhole, ← List.append_nil (ls.flatMap _), cut_append hcuts, cut,
      List.append_nil]
  have hend : ((ls.filterMap tok?).getLast?.map Tok.canEndStatement).getD false
      = false := by
    have hlast := canEndStatement_getLast? (cut source.toList) false 0
    rw [htoks]
    unfold tokenize
    rw [List.map_map, List.getLast?_map]
    cases hread : (readings false 0 (cut source.toList)).getLast? with
    | none => rfl
    | some r => exact hlast r hread
  have hboth : ∀ l ∈ ls, l ∈ cut (respell source).toList ∧ l.IsPlain := fun l hl =>
    ⟨hlexemes ▸ hl, hplain l hl⟩
  obtain ⟨hsame, hfine⟩ := readings_of_plain false 0 hboth hend
  unfold tokenize
  dsimp only
  rw [hlexemes]
  refine ⟨?_, ?_, fun t ht => ?_⟩
  · refine List.filterMap_eq_nil_iff.mpr fun r hr => ?_
    unfold Reading.diagnostic?
    rw [(hfine r hr).1]
    rfl
  · rw [List.map_map]
    exact hsame.trans htoks
  · obtain ⟨r, hr, rfl⟩ := List.mem_map.mp ht
    exact ⟨(hfine r hr).2, Semicolons.isInserted_of_lt (hfine r hr).2⟩

/-- Two lines with a number, a comment and an operator, each of which
gets a semicolon. -/
def sampleLines : String :=
  "x/* * */-.5e-3i\n\tx.y++// end"

/-- The sample is written again with both semicolons and without the comments. -/
theorem tokens_respell_sampleLines :
    (tokenize sampleLines).diagnostics = [] ∧
      respell sampleLines = "x - .5e-3i ; x . y ++ ;" ∧
    (tokenize (respell sampleLines)).diagnostics = [] ∧
    (tokenize (respell sampleLines)).tokens.map (·.tok)
      = (tokenize sampleLines).tokens.map (·.tok) ∧
    ∀ t ∈ (tokenize (respell sampleLines)).tokens,
      t.start < t.stop ∧ t.isInserted = false := by
  have hquiet : (tokenize sampleLines).diagnostics = [] := by decide +kernel
  have htext : respell sampleLines = "x - .5e-3i ; x . y ++ ;" := by decide +kernel
  exact ⟨hquiet, htext, tokens_respell sampleLines hquiet⟩

end GoInventory
