import GoInventory.Proofs.Token.Separators

/-!
# Texts that write tokens

A text writes a sequence of tokens if it is cut into just these tokens and
blanks, whatever follows, as long as that does not go on with a word (`Writes`).
Texts that write tokens are put together from left to right: the rules below say
which next characters each kind of lexeme has to be kept apart from. Blanks
separate words, a dot stands before a name, and a number before a bracket.

Reading such a text gives the tokens and no fault (`readings_append`), so the
tokens that a longer source gives can be counted off piece by piece.
-/

namespace GoInventory

/-- If the token carries a text, then it is the token of a lexeme of some source. -/
def Tok.Lexed (tok : Tok) : Prop :=
  ∀ text, tok.text? = some text → ∃ source, ∃ l ∈ Lexeme.cut source, l.tok? = some tok

namespace Lexeme

/-- The lexeme is a token or a blank. -/
def IsPlain (l : Lexeme) : Prop :=
  l.cls = .blank ∨ l.tok?.isSome = true

theorem EndsWord.append {a b : List Char} (ha : EndsWord a) (hb : EndsWord b) :
    EndsWord (a ++ b) := by
  intro d hd
  rw [List.head?_append] at hd
  cases h : a.head? with
  | none =>
    rw [h] at hd
    exact hb d hd
  | some c =>
    rw [h] at hd
    rw [← Option.some.inj hd]
    exact ha c h

theorem endsWord_cons {d : Char} (h : isIdentPart d = false) (rest : List Char) :
    EndsWord (d :: rest) := by
  intro c hc
  rw [← Option.some.inj hc]
  exact h

/-- The lexeme of an identifier. -/
theorem eq_of_tok?_ident {l : Lexeme} {name : String}
    (h : l.tok? = some (.ident name)) : l = ⟨.ident, name.toList⟩ := by
  have htext := text_of_tok? h rfl
  obtain ⟨cls, text⟩ := l
  rw [htext, String.toList_ofList]
  cases cls with
  | ident => rfl
  | _ => simp [tok?] at h

/-- The lexeme of a literal. -/
theorem eq_of_tok?_literal {l : Lexeme} {kind : LiteralKind} {text : String}
    (h : l.tok? = some (.literal kind text)) : l = ⟨.literal kind, text.toList⟩ := by
  have htext := text_of_tok? h rfl
  obtain ⟨cls, chars⟩ := l
  rw [htext, String.toList_ofList]
  cases cls with
  | literal kind' =>
    cases h
    rfl
  | _ => simp [tok?] at h

end Lexeme

open Lexeme

/-- The text is cut into these tokens and blanks, before everything that does
not go on with a word. -/
def Writes (text : List Char) (toks : List Tok) : Prop :=
  ∃ ls : List Lexeme, ls.flatMap Lexeme.text = text ∧
    (∀ rest, EndsWord rest → Cuts ls rest) ∧
    (∀ l ∈ ls, l.IsPlain) ∧ ls.filterMap tok? = toks

namespace Writes

variable {a b : List Char} {as bs : List Tok}

theorem nil : Writes [] [] :=
  ⟨[], rfl, fun _ _ => trivial, fun _ hl => (by cases hl), rfl⟩

/-- One more lexeme at the head of a text. -/
theorem cons {l : Lexeme} (hl : l.IsPlain)
    (hlead : ∀ rest, EndsWord rest → l.Leads (b ++ rest)) (hb : Writes b bs) :
    Writes (l.text ++ b) (l.tok?.toList ++ bs) := by
  obtain ⟨ls, rfl, hcuts, hplain, rfl⟩ := hb
  refine ⟨l :: ls, rfl,
    fun rest hrest => ⟨hlead rest hrest, hcuts rest hrest⟩, ?_, ?_⟩
  · intro m hm
    rcases List.mem_cons.mp hm with rfl | hm
    · exact hl
    · exact hplain m hm
  · cases h : l.tok? with
    | none => rw [List.filterMap_cons_none h]; rfl
    | some tok => rw [List.filterMap_cons_some h]; rfl

/-- Two texts after each other, of which the second does not go on with a word. -/
theorem append (ha : Writes a as) (hb : Writes b bs) (hends : EndsWord b) :
    Writes (a ++ b) (as ++ bs) := by
  obtain ⟨ls, rfl, hcuts, hplain, rfl⟩ := ha
  obtain ⟨ls', rfl, hcuts', hplain', rfl⟩ := hb
  refine ⟨ls ++ ls', List.flatMap_append, ?_, ?_, List.filterMap_append⟩
  · intro rest hrest
    exact (hcuts _ (hends.append hrest)).append (hcuts' rest hrest)
  · intro l hl
    rcases List.mem_append.mp hl with hl | hl
    · exact hplain l hl
    · exact hplain' l hl

theorem keyword (word : Keyword) : Writes word.spelling.toList [.keyword word] := by
  have hword : Writes (word.spelling.toList ++ []) ([.keyword word] ++ []) :=
    cons (l := ⟨.keyword word, word.spelling.toList⟩) (Or.inr rfl)
      (fun rest hrest => leads_keyword word hrest) nil
  simpa using hword

theorem ident {name : String} (h : (Tok.ident name).Lexed) :
    Writes name.toList [.ident name] := by
  obtain ⟨source, l, hl, htok⟩ := h name rfl
  have hname := eq_of_tok?_ident htok
  have hcls : l.cls = .ident := by rw [hname]
  have hword : Writes (l.text ++ []) (l.tok?.toList ++ []) :=
    cons (Or.inr (by rw [htok]; rfl))
      (fun rest hrest => leads_ident hl hcls hrest) nil
  rw [htok, hname] at hword
  simpa using hword

/-- An operator that is part of no longer one. -/
theorem operator {o : Operator} (ho : o.standsAlone = true) (hb : Writes b bs) :
    Writes (o.spelling ++ b) (.op o :: bs) :=
  cons (l := ⟨.op o, o.spelling⟩) (Or.inr rfl)
    (fun rest _ => leads_of_standsAlone ho (b ++ rest)) hb

theorem star {d : Char} (hd : d ≠ '=') (hb : Writes (d :: b) bs) :
    Writes ('*' :: d :: b) (.op .star :: bs) :=
  cons (l := ⟨.op .star, ['*']⟩) (Or.inr rfl)
    (fun rest _ => leads_star hd (b ++ rest)) hb

theorem dot {d : Char} (hd : isIdentStart d = true) (hb : Writes (d :: b) bs) :
    Writes ('.' :: d :: b) (.op .dot :: bs) :=
  cons (l := ⟨.op .dot, ['.']⟩) (Or.inr rfl)
    (fun rest _ => leads_dot hd (b ++ rest)) hb

theorem blank {d : Char} (hd : isBlank d = false) (hb : Writes (d :: b) bs) :
    Writes (' ' :: d :: b) bs :=
  cons (l := ⟨.blank, [' ']⟩) (Or.inl rfl)
    (fun rest _ => leads_blank hd (b ++ rest)) hb

/-- A literal before the bracket that closes an array length. -/
theorem literal {kind : LiteralKind} {text : String}
    (h : (Tok.literal kind text).Lexed) (hb : Writes (']' :: b) bs) :
    Writes (text.toList ++ ']' :: b) (.literal kind text :: bs) := by
  obtain ⟨source, l, hl, htok⟩ := h text rfl
  have heq := eq_of_tok?_literal htok
  have hends : ∀ rest, EndsToken (']' :: b ++ rest) := fun rest =>
    .cons separates_closeBracket (b ++ rest)
  have hword : Writes (l.text ++ ']' :: b) (l.tok?.toList ++ bs) :=
    cons (Or.inr (by rw [htok]; rfl))
      (fun rest _ => leads_of_mem_cut hl htok (hends rest)) hb
  rw [htok, heq] at hword
  exact hword

end Writes

/-! ## Reading -/

theorem Lexeme.effect_of_tok? {l : Lexeme} {tok : Tok} (h : l.tok? = some tok)
    (canEnd : Bool) (offset : Nat) : l.effect canEnd offset = .token tok := by
  unfold tok? at h
  unfold effect
  cases hcls : l.cls with
  | ident | literal | keyword | op =>
    rw [hcls] at h
    cases h
    rfl
  | _ =>
    rw [hcls] at h
    cases h

/-- Tokens and blanks are read without a fault. -/
theorem readings_append {ls : List Lexeme} (h : ∀ l ∈ ls, l.IsPlain)
    (more : List Lexeme) :
    ∀ (canEnd : Bool) (offset : Nat), ∃ found canEnd' offset',
      readings canEnd offset (ls ++ more) = found ++ readings canEnd' offset' more ∧
      found.map (·.token.tok) = ls.filterMap tok? ∧ ∀ r ∈ found, r.fault? = none := by
  induction ls with
  | nil =>
    exact fun canEnd offset => ⟨[], canEnd, offset, rfl, rfl, fun _ hr => by cases hr⟩
  | cons l ls ih =>
    intro canEnd offset
    have hplain := h l List.mem_cons_self
    have hrest := ih fun m hm => h m (List.mem_cons_of_mem l hm)
    show ∃ found canEnd' offset',
      readings canEnd offset (l :: (ls ++ more)) = found ++ readings canEnd'
        offset' more ∧ _
    rw [readings]
    -- a blank adds nothing, whatever the flag says; a token sets the flag
    -- for what follows
    cases htok : l.tok? with
    | none =>
      have hblank : l.cls = .blank := by
        rcases hplain with hblank | hsome
        · exact hblank
        · rw [htok] at hsome
          cases hsome
      have heffect : l.effect canEnd offset = .pass := by
        unfold effect
        rw [hblank]
      rw [heffect, List.filterMap_cons_none htok]
      exact hrest canEnd (offset + l.byteLength)
    | some tok =>
      rw [effect_of_tok? htok, List.filterMap_cons_some htok]
      obtain ⟨found, canEnd', offset', heq, htoks, hfaults⟩ :=
        hrest tok.canEndStatement (offset + l.byteLength)
      refine ⟨.ofTok offset tok (offset + l.byteLength) :: found, canEnd',
        offset', ?_, ?_, ?_⟩
      · show _ :: readings _ _ (ls ++ more) = _
        rw [heq]
        rfl
      · rw [List.map_cons, htoks]
        rfl
      · intro r hr
        rcases List.mem_cons.mp hr with rfl | hr
        · rfl
        · exact hfaults r hr

end GoInventory
